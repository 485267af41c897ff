import Fileset.Proofs.NameMap
import Fileset.Proofs.Pattern.Shape
import Fileset.Proofs.Text.Natural
import Fileset.Settings.Document
import Fileset.Settings.Edit

namespace Fileset

def Pattern.Accepted (raw : String) : Prop := ∃ segments, normalize raw = .ok segments

namespace Matcher

/-- Whether a pattern compiles depends neither on what it is for nor on case. -/
theorem accepted_iff (forInclude caseSensitive : Bool) {raw : String} :
    Pattern.Accepted raw ↔ ∃ m, compile forInclude caseSensitive raw = .ok m := by
  constructor
  · rintro ⟨segments, hn⟩
    exact ⟨_, by rw [compile, hn]; rfl⟩
  · rintro ⟨m, hm⟩
    obtain ⟨segments, hn, _⟩ := compile_ok hm
    exact ⟨segments, hn⟩

theorem compileAll_accepted (forInclude caseSensitive : Bool) {raws : List String} :
    (∃ ms, compileAll forInclude caseSensitive raws = .ok ms) ↔ ∀ raw ∈ raws, Pattern.Accepted raw := by
  unfold compileAll
  induction raws with
  | nil => simp [pure, Except.pure]
  | cons raw raws ih =>
    rw [List.forall_mem_cons, ← ih, accepted_iff forInclude caseSensitive, List.mapM_cons]
    cases hm : compile forInclude caseSensitive raw with
    | error e => simp [bind, Except.bind]
    | ok m =>
      cases hms : raws.mapM (compile forInclude caseSensitive) with
      | error e => simp [bind, Except.bind]
      | ok ms => simp [bind, pure, Except.bind, Except.pure]

end Matcher

def PatternSet.Accepted (set : PatternSet) : Prop :=
  ∀ side, ∀ raw ∈ set.side side, Pattern.Accepted raw

namespace PatternSet

variable {set : PatternSet}

theorem accepted_iff : set.Accepted ↔
    (∀ raw ∈ set.includes, Pattern.Accepted raw) ∧ ∀ raw ∈ set.excludes, Pattern.Accepted raw := by
  constructor
  · intro h
    exact ⟨h .includes, h .excludes⟩
  · rintro ⟨hi, he⟩ (_ | _)
    · exact hi
    · exact he

theorem accepted_empty : ({} : PatternSet).Accepted := accepted_iff.mpr ⟨nofun, nofun⟩

theorem Accepted.setSide (h : set.Accepted) {raws : List String}
    (hraws : ∀ raw ∈ raws, Pattern.Accepted raw) (side : Settings.Side) :
    (set.setSide raws side).Accepted := by
  obtain ⟨hi, he⟩ := accepted_iff.mp h
  cases side with
  | includes => exact accepted_iff.mpr ⟨hraws, he⟩
  | excludes => exact accepted_iff.mpr ⟨hi, hraws⟩

end PatternSet

namespace Settings

theorem map_eq_ok {ε : Type u} {α : Type v} {β : Type w} {f : α → β} {r : Except ε α} {b : β} :
    r.map f = .ok b ↔ ∃ a, r = .ok a ∧ f a = b := by
  cases r <;> simp [Except.map]

structure Valid (s : Settings) : Prop where
  threads_pos : 0 < s.threads
  threads_lt : s.threads < threadLimit
  accepted : ∀ e ∈ s.sets.entries, e.2.Accepted

theorem checkPatterns_iff (name : String) {raws : List String} :
    checkPatterns name raws = .ok () ↔ ∀ raw ∈ raws, Pattern.Accepted raw := by
  rw [← Matcher.compileAll_accepted true true, checkPatterns]
  cases Matcher.compileAll true true raws with
  | error e => simp
  | ok ms => simp

theorem checkSets_iff {sets : List (String × PatternSet)} :
    checkSets sets = .ok () ↔ ∀ e ∈ sets, e.2.Accepted := by
  induction sets with
  | nil => simp [checkSets]
  | cons e sets ih =>
    obtain ⟨name, set⟩ := e
    rw [List.forall_mem_cons, ← ih, PatternSet.accepted_iff, ← checkPatterns_iff name,
      ← checkPatterns_iff name, checkSets]
    cases checkPatterns name set.includes with
    | error e => simp [bind, Except.bind]
    | ok =>
      cases checkPatterns name set.excludes with
      | error e => simp [bind, Except.bind]
      | ok => simp [bind, Except.bind]

theorem check_iff {s : Settings} :
    s.check = .ok () ↔ 0 < s.threads ∧ ∀ e ∈ s.sets.entries, e.2.Accepted := by
  rw [check, ← checkSets_iff]
  split
  · rename_i hnone
    simp [hnone]
  · rename_i hsome
    simp [Nat.pos_of_ne_zero hsome]

theorem Valid.check {s : Settings} (h : s.Valid) : s.check = .ok () :=
  check_iff.mpr ⟨h.threads_pos, h.accepted⟩

theorem Valid.patternSet? {s : Settings} (h : s.Valid) {name : String} {set : PatternSet}
    (hset : s.patternSet? name = some set) : set.Accepted :=
  h.accepted _ (NameMap.mem_of_get? hset)

/-- Every machine has a thread to spare, and none is asked for more than eight. -/
theorem threads_initial (machine : Machine) :
    1 ≤ (initial machine).threads ∧ (initial machine).threads ≤ 8 :=
  ⟨Nat.le_min.mpr ⟨machine.working, by omega⟩, Nat.min_le_right machine.processors 8⟩

theorem valid_initial (machine : Machine) : (initial machine).Valid := by
  have h := threads_initial machine
  refine ⟨h.1, ?_, nofun⟩
  exact Nat.lt_of_le_of_lt h.2 (by decide)

section Document

open Toml (Value)

variable {v : Value} {s s' : Settings} {machine : Machine}

theorem lt_of_threads? {n : Nat} (h : threads? v = some n) : n < threadLimit := by
  unfold threads? at h
  split at h
  · split at h
    · rename_i hn
      cases h
      exact (Int.toNat_lt hn.1).mpr hn.2
    · cases h
  · cases h

theorem readWalk_threads (h : readWalk v s = some s') : s'.threads = s.threads := by
  simp only [readWalk, bind, Option.bind_eq_some_iff] at h
  obtain ⟨_, _, _, _, _, _, _, _, _, _, _, _, h⟩ := h
  cases h
  rfl

theorem readPerformance_threads (h : readPerformance v s = some s') (hs : s.threads < threadLimit) :
    s'.threads < threadLimit := by
  simp only [readPerformance, bind, Option.bind_eq_some_iff] at h
  obtain ⟨field, _, n, hn, h⟩ := h
  cases h
  unfold orDefault at hn
  split at hn
  · cases hn
    exact hs
  · exact lt_of_threads? hn

theorem readSets_threads (h : readSets v s = some s') : s'.threads = s.threads := by
  unfold readSets at h
  split at h
  · simp only [bind, Option.bind_eq_some_iff] at h
    obtain ⟨_, _, h⟩ := h
    cases h
    rfl
  · cases h

/-- A property that a section keeps is kept whether or not the section is there. -/
theorem ifGiven_keeps {p : Settings → Prop} {read : Value → Settings → Option Settings}
    (hread : ∀ {v s s'}, read v s = some s' → p s → p s') {v : Option Value}
    (h : ifGiven read v s = some s') (hs : p s) : p s' := by
  unfold ifGiven at h
  split at h
  · cases h
    exact hs
  · exact hread h hs

theorem ofTable?_threads {es : List (String × Value)} (h : ofTable? es machine = some s) :
    s.threads < threadLimit := by
  simp only [ofTable?, bind, Option.bind_eq_some_iff] at h
  obtain ⟨field, _, s₁, hwalk, s₂, hperformance, hsets⟩ := h
  have h₁ := ifGiven_keeps (p := fun s => s.threads < threadLimit)
    (fun h hs => readWalk_threads h ▸ hs) hwalk (valid_initial machine).threads_lt
  have h₂ := ifGiven_keeps (p := fun s => s.threads < threadLimit)
    readPerformance_threads hperformance h₁
  exact ifGiven_keeps (p := fun s => s.threads < threadLimit)
    (fun h hs => readSets_threads h ▸ hs) hsets h₂

/-- Settings that are read from a text are valid. -/
theorem valid_of_parse {text : String} (h : parse text machine = .ok s) : s.Valid := by
  unfold parse at h
  split at h
  · cases h
  · rename_i s₁ hs
    obtain ⟨es, _, htable⟩ := Option.bind_eq_some_iff.mp hs
    obtain ⟨_, hc, rfl⟩ := map_eq_ok.mp h
    obtain ⟨hpos, haccepted⟩ := check_iff.mp hc
    exact ⟨hpos, ofTable?_threads htable, haccepted⟩

end Document

section Edit

theorem parseThreads_iff {value : String} {n : Nat} : parseThreads value = .ok n ↔
    Text.Natural.Denotes value.toList n ∧ 0 < n ∧ n < threadLimit := by
  have hread (m : Nat) : Text.Natural.read threadLimit value.toList = .ok m ↔
      Text.Natural.Denotes value.toList m ∧ m < threadLimit := Text.Natural.read_iff (by decide)
  have hpositive : parseThreads value = .ok n ↔
      Text.Natural.read threadLimit value.toList = .ok n ∧ 0 < n := by
    unfold parseThreads
    split
    · rename_i hzero
      rw [hzero]
      refine ⟨nofun, ?_⟩
      rintro ⟨hsame, hpos⟩
      cases hsame
      exact absurd hpos (by decide)
    · rename_i m hne hok
      simp only [hok, Except.ok.injEq]
      refine ⟨fun hsame => ⟨hsame, ?_⟩, And.left⟩
      exact hsame ▸ Nat.pos_of_ne_zero hne
    · rename_i hfail
      rw [hfail]
      simp
  rw [hpositive, hread]
  tauto

variable {s s' : Settings} (h : s.Valid)
include h

theorem Valid.setPatterns {name : String} {side : Side} {raws : List String}
    (hraws : ∀ raw ∈ raws, Pattern.Accepted raw) : (s.setPatterns name side raws).Valid := by
  refine ⟨h.threads_pos, h.threads_lt, fun e he => ?_⟩
  rcases Assoc.mem_put he with rfl | he
  · have hold : ((s.patternSet? name).getD {}).Accepted := by
      cases hset : s.patternSet? name with
      | none => exact PatternSet.accepted_empty
      | some set => exact h.patternSet? hset
    exact hold.setSide hraws side
  · exact h.accepted e he

theorem Valid.set {key value : String} (hs : s.set key value = .ok s') : s'.Valid := by
  unfold Settings.set setAt at hs
  split at hs
  case h_6 =>
    obtain ⟨n, hn, rfl⟩ := map_eq_ok.mp hs
    obtain ⟨-, hpos, hlt⟩ := parseThreads_iff.mp hn
    exact ⟨hpos, hlt, h.accepted⟩
  case h_7 name side _ =>
    obtain ⟨_, hc, rfl⟩ := map_eq_ok.mp hs
    exact h.setPatterns ((checkPatterns_iff name).mp hc)
  case h_8 => cases hs
  case h_9 => cases hs
  -- The other keys are about the walk.
  all_goals
    obtain ⟨b, _, rfl⟩ := map_eq_ok.mp hs
    exact ⟨h.threads_pos, h.threads_lt, h.accepted⟩

theorem Valid.unset {key : String} {machine : Machine} (hs : s.unset key machine = .ok s') :
    s'.Valid := by
  unfold Settings.unset unsetAt at hs
  split at hs
  case h_6 =>
    cases hs
    exact ⟨(valid_initial machine).threads_pos, (valid_initial machine).threads_lt, h.accepted⟩
  case h_7 =>
    split at hs
    · cases hs
      exact h.setPatterns nofun
    · cases hs
  case h_8 =>
    split at hs
    · cases hs
      exact ⟨h.threads_pos, h.threads_lt, fun e he => h.accepted e (List.mem_filter.mp he).1⟩
    · cases hs
  case h_9 => cases hs
  -- The other keys are about the walk.
  all_goals
    cases hs
    exact ⟨h.threads_pos, h.threads_lt, h.accepted⟩

end Edit

inductive Change
  | set (key value : String)
  | unset (key : String)
  deriving DecidableEq, Repr

namespace Change

def apply (machine : Machine) (s : Settings) : Change → Except Error Settings
  | .set key value => s.set key value
  | .unset key => s.unset key machine

/-- What the change leaves: a refused one leaves the settings as they are. -/
def leaves (machine : Machine) (s : Settings) (c : Change) : Settings :=
  match c.apply machine s with
  | .ok s' => s'
  | .error _ => s

end Change

variable {machine : Machine} {s s' : Settings}

theorem Valid.apply (h : s.Valid) {c : Change} (hc : c.apply machine s = .ok s') : s'.Valid := by
  cases c with
  | set key value => exact h.set hc
  | unset key => exact h.unset hc

/-- Settings that a program can come to hold, on whatever machines it runs: the default or what a text
says, after any changes, be they accepted or refused. -/
inductive Reachable : Settings → Prop
  | initial (machine : Machine) : Reachable (initial machine)
  | parsed {machine : Machine} {text : String} {s : Settings} (h : parse text machine = .ok s) :
    Reachable s
  | changed {s : Settings} (h : Reachable s) (machine : Machine) (c : Change) :
    Reachable (c.leaves machine s)

theorem Reachable.changes (h : s.Reachable) (machine : Machine) (cs : List Change) :
    (cs.foldl (Change.leaves machine) s).Reachable := by
  induction cs generalizing s with
  | nil => exact h
  | cons c cs ih => exact ih (h.changed machine c)

theorem Reachable.valid (h : s.Reachable) : s.Valid := by
  induction h with
  | initial machine => exact valid_initial machine
  | parsed h => exact valid_of_parse h
  | changed _ machine c ih =>
    rename_i s _
    unfold Change.leaves
    cases hc : c.apply machine s with
    | error e => exact ih
    | ok s' => exact ih.apply hc

end Settings
end Fileset
