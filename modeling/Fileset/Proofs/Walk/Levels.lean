import Fileset.Proofs.Tree.Edit
import Fileset.Proofs.Walk.Calls
import Mathlib

namespace Fileset.Walk

def Notice.ChildOf (n p : Notice) : Prop := n.path.parent? = some p.path

theorem Notice.childOf_iff {n p : Notice} :
    n.ChildOf p ↔ p.path.isFile = false ∧ ∃ name, n.path.segments = p.path.segments ++ [name] := by
  unfold ChildOf RelPath.parent?
  constructor
  · intro h
    split at h
    · cases h
    · rename_i hne
      have hpath := (Option.some.inj h).symm
      have hne : n.path.segments ≠ [] := by simpa using hne
      refine ⟨by rw [hpath], n.path.segments.getLast hne, ?_⟩
      rw [hpath, List.dropLast_append_getLast]
  · rintro ⟨hfile, name, hn⟩
    rw [if_neg (by simp [hn]), hn, List.dropLast_concat, ← hfile]

theorem Notice.ChildOf.length {n p : Notice} (h : n.ChildOf p) :
    n.path.length = p.path.length + 1 := by
  obtain ⟨_, name, hn⟩ := Notice.childOf_iff.mp h
  simp [RelPath.length, hn]

theorem Notice.ChildOf.congr {m n p : Notice} (h : n.ChildOf p)
    (heq : m.path.segments = n.path.segments) : m.ChildOf p := by
  rw [Notice.childOf_iff, heq]
  exact Notice.childOf_iff.mp h

theorem Notice.ChildOf.path_eq {n p q : Notice} (h : n.ChildOf p) (h' : n.ChildOf q) :
    p.path = q.path := Option.some.inj (h.symm.trans h')

def Before (ns : List Notice) (m n : Notice) : Prop := [m, n].Sublist ns

namespace Before

variable {ns ks : List Notice} {m n : Notice}

theorem fst_mem (h : Before ns m n) : m ∈ ns := h.subset List.mem_cons_self

theorem snd_mem (h : Before ns m n) : n ∈ ns :=
  h.subset (List.mem_cons_of_mem _ (List.mem_singleton_self n))

theorem append_iff :
    Before (ns ++ ks) m n ↔ Before ns m n ∨ m ∈ ns ∧ n ∈ ks ∨ Before ks m n := by
  constructor
  · intro h
    obtain ⟨front, back, hsplit, hfront, hback⟩ := List.sublist_append_iff.mp h
    match front, back with
    | [], _ =>
      rw [List.nil_append] at hsplit
      subst hsplit
      exact Or.inr (Or.inr hback)
    | [a], _ =>
      obtain ⟨rfl, rfl⟩ := List.cons.inj hsplit
      exact Or.inr (Or.inl ⟨List.singleton_sublist.mp hfront, List.singleton_sublist.mp hback⟩)
    | a :: b :: front, _ =>
      simp only [List.cons_append, List.cons.injEq, List.nil_eq, List.append_eq_nil_iff] at hsplit
      obtain ⟨rfl, rfl, rfl, _⟩ := hsplit
      exact Or.inl hfront
  · intro h
    obtain h | ⟨hm, hn⟩ | h := h
    · exact h.trans (List.sublist_append_left ns ks)
    · exact (List.singleton_sublist.mpr hm).append (List.singleton_sublist.mpr hn)
    · exact h.trans (List.sublist_append_right ns ks)

theorem pairwise {r : Notice → Notice → Prop} (hr : ns.Pairwise r) (h : Before ns m n) : r m n :=
  List.pairwise_iff_forall_sublist.mp hr h

/-- Up to an entry of the front, nothing that follows the front matters. -/
theorem of_append (hnodup : (ns ++ ks).Nodup) (h : Before (ns ++ ks) m n) (hn : n ∈ ns) :
    Before ns m n := by
  have hapart := (List.nodup_append.mp hnodup).2.2 n hn n
  obtain h | ⟨_, hk⟩ | h := append_iff.mp h
  · exact h
  · exact absurd rfl (hapart hk)
  · exact absurd rfl (hapart h.snd_mem)

theorem asymm (hnodup : ns.Nodup) (h : Before ns m n) : ¬Before ns n m := by
  intro h'
  obtain ⟨front, back, rfl, hm, hback⟩ := List.cons_sublist_iff.mp h
  have hn := List.singleton_sublist.mp hback
  have hapart := (List.nodup_append.mp hnodup).2.2
  exact hapart n (h'.of_append hnodup hm).fst_mem n hn rfl

end Before

structure Levelled (rules : Rules) (place : Location) (ns : List Notice) : Prop where
  admitted : ∀ n ∈ ns, rules.admits n.path = true
  /-- Every entry lies where its names lead from the root of the walk. -/
  located : ∀ n ∈ ns, n.location = place ++ n.path.segments.map Bytes.ofText
  /-- The root of the walk is not reported. -/
  below : ∀ n ∈ ns, n.path.segments ≠ []
  once : (ns.map fun n => n.path.segments).Nodup
  parents : ∀ n ∈ ns, 2 ≤ n.path.length → ∃ p, Before ns p n ∧ n.ChildOf p
  deepens : ns.Pairwise fun m n => m.path.length ≤ n.path.length
  filesFirst : ns.Pairwise fun m n => m.path.parent? = n.path.parent? →
    n.path.isFile = true → m.path.isFile = true
  /-- The directories take their turns in the order in which they were reported. -/
  turns : ∀ p q m n, Before ns p q → m ∈ ns → n ∈ ns → m.ChildOf p → n.ChildOf q → Before ns m n

namespace Levelled

variable {rules : Rules} {place : Location} {ns ks : List Notice}

theorem nil : Levelled rules place [] := by
  constructor <;> simp

theorem nodup (h : Levelled rules place ns) : ns.Nodup := h.once.of_map

/-- A walk that ends early has reported level by level too. -/
theorem front (h : Levelled rules place (ns ++ ks)) : Levelled rules place ns := by
  have hsub := List.sublist_append_left ns ks
  constructor
  case admitted => exact fun n hn => h.admitted n (hsub.subset hn)
  case located => exact fun n hn => h.located n (hsub.subset hn)
  case below => exact fun n hn => h.below n (hsub.subset hn)
  case once => exact h.once.sublist (hsub.map _)
  case parents =>
    intro n hn hlen
    obtain ⟨p, hp, hchild⟩ := h.parents n (hsub.subset hn) hlen
    exact ⟨p, hp.of_append h.nodup hn, hchild⟩
  case deepens => exact h.deepens.sublist hsub
  case filesFirst => exact h.filesFirst.sublist hsub
  case turns =>
    intro p q m n hpq hm hn hmp hnq
    have hmn := h.turns p q m n (hpq.trans hsub) (hsub.subset hm) (hsub.subset hn) hmp hnq
    exact hmn.of_append h.nodup hn

end Levelled

/-- The root of the walk, as if it had been reported first. -/
def fromRoot (place : Location) (ns : List Notice) : List Notice := ⟨place, .root false⟩ :: ns

/-- Where a walk stands that has reported `ns` and still has to take `queue`. -/
structure Waiting (rules : Rules) (place : Location) (ns : List Notice) (queue : List Pending) :
    Prop where
  levelled : Levelled rules place ns
  directories : ∀ d ∈ queue, d.path.isFile = false
  /-- What waits was reported, in the same order. -/
  reported : (queue.map Pending.notice).Sublist (fromRoot place ns)
  /-- What was reported lies in directories that were reported before all those that wait. -/
  behind : ∀ n ∈ ns, ∀ d ∈ queue, ∃ p, Before (fromRoot place ns) p d.notice ∧ n.ChildOf p

namespace Waiting

variable {rules : Rules} {place : Location} {ns : List Notice} {dir : Pending}
  {queue more : List Pending}

theorem initial : Waiting rules place [] [⟨place, .root false⟩] := by
  refine ⟨.nil, by simp [RelPath.root], by simp [fromRoot, Pending.notice], by simp⟩

theorem fromRoot_once (h : Waiting rules place ns queue) :
    ((fromRoot place ns).map fun n => n.path.segments).Nodup := by
  refine List.nodup_cons.mpr ⟨?_, h.levelled.once⟩
  intro hmem
  obtain ⟨n, hn, hempty⟩ := List.mem_map.mp hmem
  exact h.levelled.below n hn hempty

theorem fromRoot_deepens (h : Waiting rules place ns queue) :
    (fromRoot place ns).Pairwise fun m n => m.path.length ≤ n.path.length :=
  List.pairwise_cons.mpr ⟨fun n _ => Nat.zero_le n.path.length, h.levelled.deepens⟩

theorem mem_fromRoot (h : Waiting rules place ns queue) {d : Pending} (hd : d ∈ queue) :
    d.notice ∈ fromRoot place ns := h.reported.subset (List.mem_map_of_mem hd)

theorem located (h : Waiting rules place ns queue) {d : Pending} (hd : d ∈ queue) :
    d.location = place ++ d.path.segments.map Bytes.ofText := by
  rcases List.mem_cons.mp (h.mem_fromRoot hd) with heq | hmem
  · obtain ⟨rfl, hpath⟩ := Notice.mk.inj heq
    simp [hpath, RelPath.root]
  · exact h.levelled.located _ hmem

/-- Two directories of which one comes before the other are not the same. -/
theorem path_ne (h : Waiting rules place ns queue) {p q : Notice}
    (hpq : Before (fromRoot place ns) p q) : p.path ≠ q.path := by
  intro heq
  have hne := Before.pairwise (List.pairwise_map.mp h.fromRoot_once) hpq
  exact hne (congrArg RelPath.segments heq)

/-- No child of a directory was reported that still has to be taken. -/
theorem fresh (h : Waiting rules place ns queue) {n : Notice} (hn : n ∈ ns) {d : Pending}
    (hd : d ∈ queue) : ¬n.ChildOf d.notice := by
  intro hchild
  obtain ⟨p, hp, hchild'⟩ := h.behind n hn d hd
  exact h.path_ne hp (hchild'.path_eq hchild)

theorem shallow (h : Waiting rules place ns queue) {n : Notice} (hn : n ∈ ns) {d : Pending}
    (hd : d ∈ queue) : n.path.length ≤ d.path.length + 1 := by
  obtain ⟨p, hp, hchild⟩ := h.behind n hn d hd
  have hle : p.path.length ≤ d.path.length := hp.pairwise h.fromRoot_deepens
  rw [hchild.length]
  omega

section Take

variable {t : Tree} {options : Options}

theorem report_childOf (h : Waiting rules place ns (dir :: queue)) {n : Notice}
    (hn : n ∈ reports t rules options dir) : n.ChildOf dir.notice := by
  obtain ⟨name, _, hsegments, _⟩ := reports_child hn
  exact Notice.childOf_iff.mpr ⟨h.directories dir List.mem_cons_self, name, hsegments⟩

/-- No reported entry lies in a directory that is just taken. -/
theorem report_fresh (h : Waiting rules place ns (dir :: queue)) {m n : Notice} (hm : m ∈ ns)
    (hn : n ∈ reports t rules options dir) : m.path.segments ≠ n.path.segments := fun heq =>
  h.fresh hm List.mem_cons_self ((h.report_childOf hn).congr heq)

theorem once_take (h : Waiting rules place ns (dir :: queue)) (ht : t.ListsOnce) :
    ((ns ++ reports t rules options dir).map fun n => n.path.segments).Nodup := by
  rw [List.map_append, List.nodup_append]
  refine ⟨h.levelled.once, reports_segments_nodup ht, ?_⟩
  intro segments hold segments' hnew
  obtain ⟨m, hm, rfl⟩ := List.mem_map.mp hold
  obtain ⟨n, hn, rfl⟩ := List.mem_map.mp hnew
  exact h.report_fresh hm hn

theorem parents_take (h : Waiting rules place ns (dir :: queue)) {n : Notice}
    (hn : n ∈ ns ++ reports t rules options dir) (hlen : 2 ≤ n.path.length) :
    ∃ p, Before (ns ++ reports t rules options dir) p n ∧ n.ChildOf p := by
  rcases List.mem_append.mp hn with hold | hnew
  · obtain ⟨p, hp, hchild⟩ := h.levelled.parents n hold hlen
    exact ⟨p, Before.append_iff.mpr (Or.inl hp), hchild⟩
  · have hchild := h.report_childOf hnew
    rcases List.mem_cons.mp (h.mem_fromRoot List.mem_cons_self) with hroot | hmem
    · have hshort := hchild.length
      rw [hroot] at hshort
      simp only [RelPath.length, RelPath.root, List.length_nil] at hshort hlen
      omega
    · exact ⟨dir.notice, Before.append_iff.mpr (Or.inr (Or.inl ⟨hmem, hnew⟩)), hchild⟩

theorem deepens_take (h : Waiting rules place ns (dir :: queue)) :
    (ns ++ reports t rules options dir).Pairwise fun m n => m.path.length ≤ n.path.length := by
  have hdepth : ∀ n ∈ reports t rules options dir, n.path.length = dir.path.length + 1 :=
    fun n hn => (h.report_childOf hn).length
  refine List.pairwise_append.mpr ⟨h.levelled.deepens, ?_, ?_⟩
  · refine List.pairwise_of_forall_mem_list fun m hm n hn => ?_
    exact Nat.le_of_eq ((hdepth m hm).trans (hdepth n hn).symm)
  · intro m hm n hn
    rw [hdepth n hn]
    exact h.shallow hm List.mem_cons_self

theorem filesFirst_take (h : Waiting rules place ns (dir :: queue)) :
    (ns ++ reports t rules options dir).Pairwise fun m n => m.path.parent? = n.path.parent? →
      n.path.isFile = true → m.path.isFile = true := by
  refine List.pairwise_append.mpr ⟨h.levelled.filesFirst, ?_, ?_⟩
  · refine List.pairwise_append.mpr ⟨?_, ?_, ?_⟩
    · exact List.pairwise_of_forall_mem_list fun m hm _ _ _ _ => admittedFiles_isFile m hm
    · refine List.pairwise_of_forall_mem_list fun m _ n hn _ hfile => ?_
      exact absurd hfile (by simp [opens_isFile n hn])
    · exact fun m hm _ _ _ _ => admittedFiles_isFile m hm
  · intro m hm n hn hparent
    exact absurd (hparent.trans (h.report_childOf hn)) (h.fresh hm List.mem_cons_self)

/-- What lies in a directory that was just reported was not reported before. -/
theorem parent_old (h : Waiting rules place ns (dir :: queue)) {n q : Notice} (hn : n ∈ ns)
    (hnq : n.ChildOf q) : q ∉ reports t rules options dir := by
  intro hq
  obtain ⟨p, hp, hchild⟩ := h.behind n hn dir List.mem_cons_self
  have heq := congrArg RelPath.segments (hchild.path_eq hnq)
  rcases List.mem_cons.mp hp.fst_mem with rfl | hmem
  · obtain ⟨name, _, hsegments, _⟩ := reports_child hq
    rw [hsegments] at heq
    simp [RelPath.root] at heq
  · exact h.report_fresh hmem hq heq

/-- A directory that was taken before `dir` comes before it. -/
theorem not_before (h : Waiting rules place ns (dir :: queue)) {n p q : Notice} (hn : n ∈ ns)
    (hnq : n.ChildOf q) (hp : p.path = dir.path) : ¬Before ns p q := by
  intro hpq
  obtain ⟨q', hq', hchild⟩ := h.behind n hn dir List.mem_cons_self
  have hpq' : Before (fromRoot place ns) p q := List.Sublist.cons _ hpq
  have hsame {a b : Notice} (ha : a ∈ fromRoot place ns) (hb : b ∈ fromRoot place ns)
      (heq : a.path = b.path) : a = b :=
    List.inj_on_of_nodup_map h.fromRoot_once ha hb (congrArg RelPath.segments heq)
  have hpdir : p = dir.notice := hsame hpq'.fst_mem hq'.snd_mem hp
  have hqq : q = q' := hsame hpq'.snd_mem hq'.fst_mem (hnq.path_eq hchild)
  subst hpdir hqq
  exact hq'.asymm h.fromRoot_once.of_map hpq'

theorem turns_take (h : Waiting rules place ns (dir :: queue)) (ht : t.ListsOnce) {p q m n : Notice}
    (hpq : Before (ns ++ reports t rules options dir) p q)
    (hm : m ∈ ns ++ reports t rules options dir) (hn : n ∈ ns ++ reports t rules options dir)
    (hmp : m.ChildOf p) (hnq : n.ChildOf q) :
    Before (ns ++ reports t rules options dir) m n := by
  have honce : ((ns ++ reports t rules options dir).map fun n => n.path.segments).Nodup :=
    h.once_take ht
  rcases List.mem_append.mp hn with hn | hn
  · have hq := (List.mem_append.mp hpq.snd_mem).resolve_right (h.parent_old hn hnq)
    have hpq := hpq.of_append honce.of_map hq
    rcases List.mem_append.mp hm with hm | hm
    · exact Before.append_iff.mpr (Or.inl (h.levelled.turns p q m n hpq hm hn hmp hnq))
    · exact absurd hpq (h.not_before hn hnq (hmp.path_eq (h.report_childOf hm)))
  · rcases List.mem_append.mp hm with hm | hm
    · exact Before.append_iff.mpr (Or.inr (Or.inl ⟨hm, hn⟩))
    · have hpath : p.path = q.path :=
        (hmp.path_eq (h.report_childOf hm)).trans (hnq.path_eq (h.report_childOf hn)).symm
      have hne := Before.pairwise (List.pairwise_map.mp honce) hpq
      exact absurd (congrArg RelPath.segments hpath) hne

theorem levelled_take (h : Waiting rules place ns (dir :: queue)) (ht : t.ListsOnce) :
    Levelled rules place (ns ++ reports t rules options dir) := by
  constructor
  case admitted =>
    intro n hn
    rcases List.mem_append.mp hn with hold | hnew
    · exact h.levelled.admitted n hold
    · obtain ⟨_, _, _, hadmits⟩ := reports_child hnew
      exact hadmits
  case located =>
    intro n hn
    rcases List.mem_append.mp hn with hold | hnew
    · exact h.levelled.located n hold
    · obtain ⟨name, hlocation, hsegments, _⟩ := reports_child hnew
      simp [hlocation, hsegments, h.located List.mem_cons_self]
  case below =>
    intro n hn
    rcases List.mem_append.mp hn with hold | hnew
    · exact h.levelled.below n hold
    · obtain ⟨name, _, hsegments, _⟩ := reports_child hnew
      simp [hsegments]
  case once => exact h.once_take ht
  case parents => exact fun n hn hlen => h.parents_take hn hlen
  case deepens => exact h.deepens_take
  case filesFirst => exact h.filesFirst_take
  case turns => exact fun p q m n hpq hm hn hmp hnq => h.turns_take ht hpq hm hn hmp hnq

/-- Taking a directory keeps the order, whichever of its subdirectories are queued. -/
theorem take (h : Waiting rules place ns (dir :: queue)) (ht : t.ListsOnce)
    (hmore : more.Sublist (opens t rules options dir)) :
    Waiting rules place (ns ++ reports t rules options dir) (queue ++ more) := by
  have hnew : (more.map Pending.notice).Sublist (reports t rules options dir) :=
    (hmore.map _).trans (List.sublist_append_right _ _)
  have hall : fromRoot place (ns ++ reports t rules options dir) =
      fromRoot place ns ++ reports t rules options dir := rfl
  have hfirst := h.mem_fromRoot List.mem_cons_self
  constructor
  case levelled => exact h.levelled_take ht
  case directories =>
    intro d hd
    rcases List.mem_append.mp hd with hd | hd
    · exact h.directories d (List.mem_cons_of_mem _ hd)
    · exact admittedDirs_isFile d (hmore.subset hd)
  case reported =>
    rw [hall, List.map_append]
    exact ((List.sublist_cons_self _ _).trans h.reported).append hnew
  case behind =>
    rw [hall]
    intro n hn d hd
    rcases List.mem_append.mp hn with hn | hn
    · rcases List.mem_append.mp hd with hd | hd
      · obtain ⟨p, hp, hchild⟩ := h.behind n hn d (List.mem_cons_of_mem _ hd)
        exact ⟨p, Before.append_iff.mpr (Or.inl hp), hchild⟩
      · obtain ⟨p, hp, hchild⟩ := h.behind n hn dir List.mem_cons_self
        have hd := hnew.subset (List.mem_map_of_mem hd)
        exact ⟨p, Before.append_iff.mpr (Or.inr (Or.inl ⟨hp.fst_mem, hd⟩)), hchild⟩
    · refine ⟨dir.notice, ?_, h.report_childOf hn⟩
      rcases List.mem_append.mp hd with hd | hd
      · have hpair : [dir, d].Sublist (dir :: queue) := (List.singleton_sublist.mpr hd).cons_cons dir
        exact Before.append_iff.mpr (Or.inl ((hpair.map Pending.notice).trans h.reported))
      · have hd := hnew.subset (List.mem_map_of_mem hd)
        exact Before.append_iff.mpr (Or.inr (Or.inl ⟨hfirst, hd⟩))

end Take
end Waiting

/-- A walk from a directory reports level by level, whatever the visitor makes of the tree and
wherever it ends the walk, as long as every listing on the way hands out a name once. -/
theorem walk_levelled {v : Visitor ω ε} {world : ω}
    (hlists : ∀ w, v.Reaches world w → (v.tree w).ListsOnce) (rules : Rules) (options : Options)
    (limit : Nat) {root : Bytes} {place : Location}
    (hr : (v.tree world).locatePath root = .ok place)
    (hd : (v.tree world).isDirectory place = true) :
    Levelled rules place (walk v rules options limit root world).calls := by
  have hrun : ∃ all rest, Waiting rules place all rest ∧
      [] ++ (drain v rules options limit (initial world options place)).calls <+: all :=
    drain_keeps (Waiting rules place) (fun _ _ _ _ _ ht h hmore => h.take ht hmore) limit hlists
      Waiting.initial
  obtain ⟨all, rest, h, more, rfl⟩ := hrun
  rw [walk_calls hr hd]
  exact h.levelled.front

def twins : Tree :=
  ⟨[⟨[], [0x62], .directory⟩, ⟨[], [0x61], .directory⟩, ⟨[[0x61]], [0x78], .file []⟩,
    ⟨[[0x62]], [0x78], .file []⟩]⟩

/-- A visitor that removes `b` and writes a file `a/z` when it sees the directory `a`, and that
refuses the new file. -/
def meddler : Visitor Tree String where
  tree := id
  visit n t :=
    if n.path.segments = ["a"] then
      let t := t.erase [[0x62]]
      ((t.write [0x2f, 0x61, 0x2f, 0x7a] []).toOption.getD t, none)
    else if n.path.segments = ["a", "z"] then (t, some "refused")
    else (t, none)

theorem meddler_wellFormed {t : Tree} (ht : t.WellFormed) (n : Notice) :
    (meddler.visit n t).1.WellFormed := by
  simp only [meddler]
  split
  · cases hw : (t.erase [[0x62]]).write [0x2f, 0x61, 0x2f, 0x7a] [] with
    | error e => simpa [Except.toOption] using ht.erase _
    | ok t' => simpa [Except.toOption] using (ht.erase _).write hw
  · split <;> exact ht

theorem walk_levelled_meddler :
    (∀ t, meddler.Reaches twins t → t.ListsOnce) ∧ twins.locatePath [Path.slash] = .ok [] ∧
    twins.isDirectory [] = true ∧
    (walk meddler {} {} 9 [Path.slash] twins).calls.map (·.path) =
      [⟨["a"], false⟩, ⟨["b"], false⟩, ⟨["a", "x"], true⟩, ⟨["a", "z"], true⟩] ∧
    Levelled {} [] (walk meddler {} {} 9 [Path.slash] twins).calls := by
  have ht : twins.WellFormed := ⟨by decide, by decide⟩
  have hlists : ∀ t, meddler.Reaches twins t → (meddler.tree t).ListsOnce := fun t h =>
    (h.keeps (p := Tree.WellFormed) (fun n _ ht => meddler_wellFormed ht n) ht).listsOnce
  have hr : (meddler.tree twins).locatePath [Path.slash] = .ok [] := by
    show twins.locatePath [Path.slash] = .ok []
    cbv
  have hd : (meddler.tree twins).isDirectory [] = true := by decide
  refine ⟨hlists, hr, hd, ?_, walk_levelled hlists {} {} 9 hr hd⟩
  cbv

end Fileset.Walk
