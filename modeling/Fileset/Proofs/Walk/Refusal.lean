import Fileset.Proofs.Walk.Lockstep
import Fileset.Proofs.Walk.Order
import Fileset.Proofs.Walk.Unreadable

namespace Fileset.Walk

/-- The second visitor does as the first, which takes everything, but refuses what `q` holds for. -/
structure Visitor.Refusing (v v' : Visitor ω ε) (q : Notice → Prop) (error : ε) : Prop where
  tree : v'.tree = v.tree
  takes : ∀ n w, (v.visit n w).2 = none
  refuses : ∀ n w, q n → (v'.visit n w).2 = some error
  otherwise : ∀ n w, ¬q n → v'.visit n w = v.visit n w

/-- A list has one first member that `q` holds for. -/
theorem first_unique {α : Type u} {q : α → Prop} {front front' back back' : List α} {a a' : α}
    (heq : front ++ a :: back = front' ++ a' :: back') (hfront : ∀ b ∈ front, ¬q b)
    (hfront' : ∀ b ∈ front', ¬q b) (ha : q a) (ha' : q a') : front = front' ∧ a = a' := by
  rcases List.append_eq_append_iff.mp heq with ⟨more, rfl, hmore⟩ | ⟨more, rfl, hmore⟩
  · cases more with
    | nil => exact ⟨(List.append_nil _).symm, (List.cons.inj hmore).1⟩
    | cons b more =>
      obtain ⟨rfl, _⟩ := List.cons.inj hmore
      exact absurd ha (hfront' a (List.mem_append_right _ List.mem_cons_self))
  · cases more with
    | nil => exact ⟨List.append_nil _, (List.cons.inj hmore).1.symm⟩
    | cons b more =>
      obtain ⟨rfl, _⟩ := List.cons.inj hmore
      exact absurd ha' (hfront a' (List.mem_append_right _ List.mem_cons_self))

section Refusing

variable {v v' : Visitor ω ε} {q : Notice → Prop} {error : ε} (h : v.Refusing v' q error)
  (rules : Rules) (options : Options) (limit : Nat) (root : Bytes) (world : ω)
include h

theorem Visitor.Refusing.companions : Companions v v' rules options Eq (fun _ _ => True)
    (fun n halt => q n ∧ halt.stop = .refused n error) := by
  constructor
  case answers =>
    rintro w _ n rfl
    have htakes : v.visit n w = ((v.visit n w).1, none) := Prod.ext rfl (h.takes n w)
    by_cases hn : q n
    · have hrefuses : v'.visit n w = ((v'.visit n w).1, some error) :=
        Prod.ext rfl (h.refuses n w hn)
      rw [htakes, hrefuses]
      exact .cut ⟨hn, rfl⟩
    · rw [h.otherwise n w hn, htakes]
      exact .taken rfl fun _ hq => hn hq.1
  case stays => exact fun _ _ => trivial
  case opens => exact fun _ _ => trivial
  case list =>
    rintro w _ d rfl _
    rw [h.tree]
  case place =>
    rintro _ w _ d rfl _
    rw [h.tree]

theorem walk_refusing_inStep : (walk v rules options limit root world).InStep
    (fun n halt => q n ∧ halt.stop = .refused n error) (Halt.InStep v Eq)
    (fun a b => a.1 = b.1 ∧ b.2 = a.2) (walk v' rules options limit root world) :=
  walk_inStep (h.companions rules options) limit rfl (by rw [h.tree])
    fun place _ => ⟨by rw [h.tree], trivial⟩

/-- Either nothing is refused and the two walks are the same, or the second ends at the first entry that
it refuses. -/
theorem walk_same_or_cut :
    walk v' rules options limit root world = walk v rules options limit root world ∧
        (∀ n ∈ (walk v rules options limit root world).calls, ¬q n) ∨
      ∃ front n back, (walk v rules options limit root world).calls = front ++ n :: back ∧
        (∀ m ∈ front, ¬q m) ∧ q n ∧
        (walk v' rules options limit root world).outcome = .error (.refused n error) ∧
        (walk v' rules options limit root world).calls = front ++ [n] ∧
        (walk v' rules options limit root world).trace <+:
          (walk v rules options limit root world).trace := by
  have hnever : ¬v.Refuses := fun ⟨n, w, hn⟩ => hn (h.takes n w)
  have hstep := walk_refusing_inStep h rules options limit root world
  -- Before the cut no entry is refused, in whatever world it could be.
  have hcalm {ns : List Notice} (ht : ∀ n ∈ ns, ∀ halt : Halt ω ε,
      ¬(q n ∧ halt.stop = .refused n error)) : ∀ n ∈ ns, ¬q n :=
    fun n hn hq => ht n hn ⟨.refused n error, world⟩ ⟨hq, rfl⟩
  generalize walk v rules options limit root world = r at hstep ⊢
  generalize walk v' rules options limit root world = r' at hstep ⊢
  cases hstep with
  | @through t ht a b hab =>
    obtain rfl : b = a := Prod.ext hab.1.symm hab.2
    exact .inl ⟨rfl, by simpa [Recorded.calls] using hcalm ht⟩
  | @ended t ht e e' he =>
    have hnone : e.refused = [] := by
      by_contra hrefused
      exact hnever (he.refusal hrefused)
    obtain ⟨stop, now⟩ := e
    obtain ⟨stop', now'⟩ := e'
    obtain rfl : stop' = stop := he.stop
    obtain rfl : now = now' := he.worlds
    exact .inl ⟨rfl, by simpa [Recorded.calls, hnone] using hcalm ht⟩
  | @cut t ht n more result e' hcut =>
    obtain ⟨hq, hstop⟩ := hcut
    have hrefused : e'.refused = [n] := by simp [Halt.refused, hstop]
    refine .inr ⟨t.notices, n, more.notices ++ (⟨[], result⟩ : Step ω ε (ω × Summary)).calls, ?_,
      hcalm ht, hq, ?_, ?_, List.prefix_append t _⟩
    · simp [Recorded.calls, Trace.notices]
    · simp [Recorded.outcome, hstop]
    · simp [Recorded.calls, hrefused]

end Refusing

/-- A visitor that refuses what `q` holds for, compared with one that takes everything and does the same
otherwise: if nothing that is reported is refused, the two walks are the same; else the walk ends at the
first such entry, with the error of the visitor, after the same calls. -/
theorem walk_refused {v v' : Visitor ω ε} {q : Notice → Prop} {error : ε}
    (h : v.Refusing v' q error) (rules : Rules) (options : Options) (limit : Nat) (root : Bytes)
    (world : ω) :
    ((∀ n ∈ (walk v rules options limit root world).calls, ¬q n) →
      walk v' rules options limit root world = walk v rules options limit root world) ∧
    (∀ front n back, (walk v rules options limit root world).calls = front ++ n :: back →
      (∀ m ∈ front, ¬q m) → q n →
      (walk v' rules options limit root world).outcome = .error (.refused n error) ∧
        (walk v' rules options limit root world).calls = front ++ [n] ∧
        (walk v' rules options limit root world).trace <+:
          (walk v rules options limit root world).trace) ∧
    (v.Quiet → (v.tree world).WellFormed → limitFor (v.tree world) ≤ limit →
      (walk v rules options limit root world).Settles (v.tree world) options) := by
  refine ⟨fun hnone => ?_, fun front n back hcalls hfront hn => ?_, fun hv ht hl => ?_⟩
  · rcases walk_same_or_cut h rules options limit root world with ⟨hsame, _⟩ | hcut
    · exact hsame
    · obtain ⟨front, n, back, hcalls, _, hn, _⟩ := hcut
      exact absurd hn (hnone n (by simp [hcalls]))
  · rcases walk_same_or_cut h rules options limit root world with ⟨_, hnone⟩ | hcut
    · exact absurd hn (hnone n (by simp [hcalls]))
    · obtain ⟨front', n', back', hcalls', hfront', hn', hcut⟩ := hcut
      obtain ⟨rfl, rfl⟩ := first_unique (hcalls.symm.trans hcalls') hfront hfront' hn hn'
      exact hcut
  · exact walk_settles hv ht rules options root hl

def Visitor.picky (v : Visitor ω String) (name : String) : Visitor ω String where
  tree := v.tree
  visit n w := if n.path.lastName? = some name then (w, some "refused") else v.visit n w

theorem Visitor.refusing_picky {v : Visitor ω String} (hv : ∀ n w, (v.visit n w).2 = none)
    (name : String) :
    v.Refusing (v.picky name) (fun n => n.path.lastName? = some name) "refused" := by
  constructor
  case tree => rfl
  case takes => exact hv
  case refuses => exact fun n w hn => by simp [picky, hn]
  case otherwise => exact fun n w hn => by simp [picky, hn]

def taker : Visitor Tree String := ⟨id, fun _ t => (t, none)⟩

/-- The directory `b` is gone when its turn comes, and a file of `c` is refused after that. -/
theorem walk_refused_trio :
    reaper.Refusing (reaper.picky "y") (fun n => n.path.lastName? = some "y") "refused" ∧
    (∃ front n back, (walk reaper {} {} 9 [Path.slash] trio).calls = front ++ n :: back ∧
      front.map (fun m => m.path.segments) = [["a"], ["b"], ["c"]] ∧ n.path.segments = ["c", "y"] ∧
      (∀ m ∈ front, m.path.lastName? ≠ some "y") ∧
      (walk (reaper.picky "y") {} {} 9 [Path.slash] trio).outcome = .error (.refused n "refused") ∧
      (walk (reaper.picky "y") {} {} 9 [Path.slash] trio).calls = front ++ [n] ∧
      (walk (reaper.picky "y") {} {} 9 [Path.slash] trio).trace <+:
        (walk reaper {} {} 9 [Path.slash] trio).trace) ∧
    (∀ n ∈ (walk reaper {} {} 9 [Path.slash] trio).calls, n.path.lastName? ≠ some "x") ∧
    walk (reaper.picky "x") {} {} 9 [Path.slash] trio = walk reaper {} {} 9 [Path.slash] trio ∧
    taker.Quiet ∧ shut.WellFormed ∧ limitFor shut ≤ 9 ∧
    (walk taker {} ({} : Options).aborting 9 [Path.slash] shut).Settles shut ({} : Options).aborting := by
  have htakes : ∀ n w, (reaper.visit n w).2 = none := fun _ _ => rfl
  have htaker : taker.Quiet := ⟨fun _ _ => rfl, fun _ _ => rfl⟩
  have hl : limitFor shut ≤ 9 := by decide
  have hcalls : (walk reaper {} {} 9 [Path.slash] trio).calls =
      [⟨[[0x61]], ⟨["a"], false⟩⟩, ⟨[[0x62]], ⟨["b"], false⟩⟩, ⟨[[0x63]], ⟨["c"], false⟩⟩] ++
        ⟨[[0x63], [0x79]], ⟨["c", "y"], true⟩⟩ :: [⟨[[0x63], [0x7a]], ⟨["c", "z"], true⟩⟩] := by cbv
  have hfront : ∀ m ∈ [(⟨[[0x61]], ⟨["a"], false⟩⟩ : Notice), ⟨[[0x62]], ⟨["b"], false⟩⟩,
      ⟨[[0x63]], ⟨["c"], false⟩⟩], ¬m.path.lastName? = some "y" := by decide
  have hnone : ∀ n ∈ (walk reaper {} {} 9 [Path.slash] trio).calls,
      ¬n.path.lastName? = some "x" := by
    rw [hcalls]
    decide
  obtain ⟨_, hcut, _⟩ :=
    walk_refused (Visitor.refusing_picky htakes "y") {} {} 9 [Path.slash] trio
  obtain ⟨hsame, _, _⟩ :=
    walk_refused (Visitor.refusing_picky htakes "x") {} {} 9 [Path.slash] trio
  obtain ⟨_, _, hends⟩ :=
    walk_refused (Visitor.refusing_picky htaker.takes "y") {} ({} : Options).aborting 9 [Path.slash] shut
  obtain ⟨houtcome, hprefix, htrace⟩ := hcut _ _ _ hcalls hfront rfl
  exact ⟨Visitor.refusing_picky htakes "y",
    ⟨_, _, _, hcalls, rfl, rfl, hfront, houtcome, hprefix, htrace⟩, hnone, hsame hnone, htaker,
    shut_wellFormed, hl, hends htaker shut_wellFormed hl⟩

end Fileset.Walk
