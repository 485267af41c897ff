import Fileset.Proofs.Walk.Selection
import Fileset.Walk.Session

namespace Fileset

namespace Matcher

def FirstFault (forInclude caseSensitive : Bool) (raws : List String) (e : Pattern.Error) : Prop :=
  ∃ front raw back, raws = front ++ raw :: back ∧
    (∀ good ∈ front, ∃ m, compile forInclude caseSensitive good = .ok m) ∧
    compile forInclude caseSensitive raw = .error e

variable {forInclude caseSensitive : Bool} {raw : String} {raws : List String} {e : Pattern.Error}

theorem firstFault_cons_of_ok {m : Matcher} (h : compile forInclude caseSensitive raw = .ok m) :
    FirstFault forInclude caseSensitive (raw :: raws) e ↔ FirstFault forInclude caseSensitive raws e := by
  constructor
  · rintro ⟨front, bad, back, heq, hfront, hbad⟩
    cases front with
    | nil =>
      obtain ⟨rfl, rfl⟩ := List.cons.inj heq
      rw [h] at hbad
      cases hbad
    | cons first front =>
      obtain ⟨rfl, rfl⟩ := List.cons.inj heq
      exact ⟨front, bad, back, rfl, (List.forall_mem_cons.mp hfront).2, hbad⟩
  · rintro ⟨front, bad, back, rfl, hfront, hbad⟩
    exact ⟨raw :: front, bad, back, rfl, List.forall_mem_cons.mpr ⟨⟨m, h⟩, hfront⟩, hbad⟩

theorem firstFault_cons_of_error {e' : Pattern.Error}
    (h : compile forInclude caseSensitive raw = .error e') :
    FirstFault forInclude caseSensitive (raw :: raws) e ↔ e' = e := by
  constructor
  · rintro ⟨front, bad, back, heq, hfront, hbad⟩
    cases front with
    | nil =>
      obtain ⟨rfl, rfl⟩ := List.cons.inj heq
      exact Except.error.inj (h.symm.trans hbad)
    | cons first front =>
      obtain ⟨rfl, rfl⟩ := List.cons.inj heq
      obtain ⟨m, hm⟩ := hfront raw List.mem_cons_self
      rw [h] at hm
      cases hm
  · rintro rfl
    exact ⟨[], raw, raws, rfl, List.forall_mem_nil _, h⟩

theorem compileAll_error_iff :
    compileAll forInclude caseSensitive raws = .error e ↔ FirstFault forInclude caseSensitive raws e := by
  unfold compileAll
  induction raws with
  | nil =>
    constructor
    · intro h
      cases h
    · rintro ⟨front, raw, back, heq, -⟩
      simp at heq
  | cons raw raws ih =>
    rw [List.mapM_cons]
    cases hm : compile forInclude caseSensitive raw with
    | error e' =>
      rw [firstFault_cons_of_error hm]
      simp [bind, Except.bind]
    | ok m =>
      rw [firstFault_cons_of_ok hm, ← ih]
      cases raws.mapM (compile forInclude caseSensitive) <;>
        simp [bind, pure, Except.bind, Except.pure]

end Matcher

namespace Walk

namespace Walker

theorem setIncludes_eq (w : Walker) (raws : List String) : w.setIncludes raws =
    (Matcher.compileAll true w.caseSensitive raws).map fun includes =>
      { w with rules := { w.rules with includes } } := by
  unfold setIncludes
  cases Matcher.compileAll true w.caseSensitive raws <;> rfl

theorem setIncludes_error_iff {w : Walker} {raws : List String} {e : Pattern.Error} :
    w.setIncludes raws = .error e ↔ Matcher.FirstFault true w.caseSensitive raws e := by
  rw [setIncludes_eq, ← Matcher.compileAll_error_iff]
  cases Matcher.compileAll true w.caseSensitive raws <;> simp [Except.map]

theorem setExcludes_eq (w : Walker) (raws : List String) : w.setExcludes raws =
    (Matcher.compileAll false w.caseSensitive raws).map fun excludes =>
      { w with rules := { w.rules with excludes } } := by
  unfold setExcludes
  cases Matcher.compileAll false w.caseSensitive raws <;> rfl

theorem setExcludes_error_iff {w : Walker} {raws : List String} {e : Pattern.Error} :
    w.setExcludes raws = .error e ↔ Matcher.FirstFault false w.caseSensitive raws e := by
  rw [setExcludes_eq, ← Matcher.compileAll_error_iff]
  cases Matcher.compileAll false w.caseSensitive raws <;> simp [Except.map]

end Walker

namespace Call

def includes? : Call → Option (List String)
  | .includes raws => some raws
  | _ => none

def excludes? : Call → Option (List String)
  | .excludes raws => some raws
  | _ => none

def options? : Call → Option Options
  | .options given => some given
  | _ => none

end Call

namespace Session

variable {ω ε : Type}

theorem run_bind {α β : Type} (p : Steps ω ε α) (next : α → Steps ω ε β) (s : Session ω) :
    (p >>= next).run s = match p.run s with
      | .ok a s => (next a).run s
      | .error e s => .error e s := by
  simp only [EStateM.run, bind, EStateM.bind]
  cases p s <;> rfl

theorem run_replace (change : Walker → Except Pattern.Error Walker) (s : Session ω) :
    (replace change : Steps ω ε Unit).run s = match change s.walker with
      | .ok walker => .ok () { s with walker }
      | .error cause => .error (.badPattern cause) s := by
  have hrun : (replace change : Steps ω ε Unit).run s =
      (ofExcept ((change s.walker).mapError Failure.badPattern) >>= fun walker =>
        modify fun s => { s with walker } : Steps ω ε Unit).run s := rfl
  rw [hrun]
  cases change s.walker <;> rfl

theorem run_start (v : Visitor ω ε) (limit : Nat) (root : Bytes) (s : Session ω) :
    (start v limit root).run s = match (s.walker.walk v limit root s.world).result with
      | .ok (world, summary) => .ok summary { s with world }
      | .error halt => .error (.stopped halt.stop) { s with world := halt.world } := by
  have hrun : (start v limit root).run s =
      (settle (s.walker.walk v limit root s.world).result).run s := rfl
  rw [hrun]
  cases (s.walker.walk v limit root s.world).result <;> rfl

inductive Does (v : Visitor ω ε) (s : Session ω) : Call → Answer ε × Session ω → Prop
  | includes {raws ms} (h : Matcher.compileAll true s.walker.caseSensitive raws = .ok ms) :
    Does v s (.includes raws)
      (.ok none, { s with walker := { s.walker with rules := { s.walker.rules with includes := ms } } })
  | badInclude {raws e} (h : Matcher.compileAll true s.walker.caseSensitive raws = .error e) :
    Does v s (.includes raws) (.error (.badPattern e), s)
  | excludes {raws ms} (h : Matcher.compileAll false s.walker.caseSensitive raws = .ok ms) :
    Does v s (.excludes raws)
      (.ok none, { s with walker := { s.walker with rules := { s.walker.rules with excludes := ms } } })
  | badExclude {raws e} (h : Matcher.compileAll false s.walker.caseSensitive raws = .error e) :
    Does v s (.excludes raws) (.error (.badPattern e), s)
  | options (options) : Does v s (.options options) (.ok none, { s with walker := { s.walker with options } })
  | walked {limit root world summary}
      (h : (s.walker.walk v limit root s.world).result = .ok (world, summary)) :
    Does v s (.start limit root) (.ok (some summary), { s with world })
  | stopped {limit root halt} (h : (s.walker.walk v limit root s.world).result = .error halt) :
    Does v s (.start limit root) (.error (.stopped halt.stop), { s with world := halt.world })

theorem step_replace {v : Visitor ω ε} {s : Session ω} {c : Call}
    {change : Walker → Except Pattern.Error Walker}
    (hc : make v c = (do replace change; return none)) : step v c s = match change s.walker with
      | .ok walker => (.ok none, { s with walker })
      | .error cause => (.error (.badPattern cause), s) := by
  rw [step, hc, run_bind, run_replace]
  cases change s.walker <;> rfl

theorem does_step (v : Visitor ω ε) (c : Call) (s : Session ω) : Does v s c (step v c s) := by
  cases c with
  | includes raws =>
    rw [step_replace rfl, Walker.setIncludes_eq]
    cases h : Matcher.compileAll true s.walker.caseSensitive raws with
    | ok ms => exact .includes h
    | error e => exact .badInclude h
  | excludes raws =>
    rw [step_replace rfl, Walker.setExcludes_eq]
    cases h : Matcher.compileAll false s.walker.caseSensitive raws with
    | ok ms => exact .excludes h
    | error e => exact .badExclude h
  | options options => exact .options options
  | start limit root =>
    rw [step, make, run_bind, run_start]
    cases h : (s.walker.walk v limit root s.world).result with
    | ok out => exact .walked h
    | error halt => exact .stopped h

/-- Each call is made, in turn. -/
theorem run_calls (v : Visitor ω ε) (calls : List Call) (s : Session ω) :
    (run v calls s).1.map Prod.fst = calls := by
  induction calls generalizing s with
  | nil => rfl
  | cons c calls ih => exact congrArg (c :: ·) (ih _)

section Last

variable {α : Type} {given : Call → Option α} {done : List (Call × Answer ε)}

/-- What was given with the last of the calls that succeeded, of those with which such a thing is given. -/
def last? (given : Call → Option α) (done : List (Call × Answer ε)) : Option α :=
  ((done.filter (·.2.isOk)).filterMap (given ·.1)).getLast?

theorem last?_error (c : Call) (failure : Failure ε) :
    last? given (done ++ [(c, .error failure)]) = last? given done := by
  simp [last?, Except.isOk, Except.toBool]

theorem last?_ok (c : Call) (told : Option Summary) :
    last? given (done ++ [(c, .ok told)]) = (given c).or (last? given done) := by
  cases h : given c <;> simp [last?, Except.isOk, Except.toBool, h]

end Last

section Follows

structure Follows (caseSensitive : Bool) (options : Options) (done : List (Call × Answer ε))
    (s : Session ω) : Prop where
  sameCase : s.walker.caseSensitive = caseSensitive
  includes : Matcher.compileAll true caseSensitive ((last? Call.includes? done).getD []) =
    .ok s.walker.rules.includes
  excludes : Matcher.compileAll false caseSensitive ((last? Call.excludes? done).getD []) =
    .ok s.walker.rules.excludes
  options : s.walker.options = (last? Call.options? done).getD options

/-- A list with a bad pattern in it is refused for the first of these, and nothing has changed then. -/
structure AllOrNothing (v : Visitor ω ε) (s : Session ω) : Prop where
  includes : ∀ raws failure s', step v (.includes raws) s = (.error failure, s') ↔
    s' = s ∧ ∃ e, failure = .badPattern e ∧ Matcher.FirstFault true s.walker.caseSensitive raws e
  excludes : ∀ raws failure s', step v (.excludes raws) s = (.error failure, s') ↔
    s' = s ∧ ∃ e, failure = .badPattern e ∧ Matcher.FirstFault false s.walker.caseSensitive raws e

variable {v : Visitor ω ε} {caseSensitive : Bool} {options : Options} {done : List (Call × Answer ε)}
  {s s' : Session ω}

theorem follows_fresh (world : ω) :
    Follows caseSensitive options ([] : List (Call × Answer ε)) (fresh caseSensitive options world) :=
  ⟨rfl, rfl, rfl, rfl⟩

theorem Follows.failed (h : Follows caseSensitive options done s) (c : Call) (failure : Failure ε)
    (hw : s'.walker = s.walker) : Follows caseSensitive options (done ++ [(c, .error failure)]) s' := by
  obtain ⟨hcase, hincludes, hexcludes, hoptions⟩ := h
  refine ⟨?_, ?_, ?_, ?_⟩ <;> rw [hw]
  · exact hcase
  · rwa [last?_error]
  · rwa [last?_error]
  · rwa [last?_error]

theorem Follows.step (h : Follows caseSensitive options done s) {c : Call} {answer : Answer ε}
    (hdoes : Does v s c (answer, s')) : Follows caseSensitive options (done ++ [(c, answer)]) s' := by
  cases hdoes with
  | badInclude => exact h.failed _ _ rfl
  | badExclude => exact h.failed _ _ rfl
  | stopped => exact h.failed _ _ rfl
  | includes hms =>
    refine ⟨h.sameCase, ?_, ?_, ?_⟩ <;> rw [last?_ok]
    · exact h.sameCase ▸ hms
    · exact h.excludes
    · exact h.options
  | excludes hms =>
    refine ⟨h.sameCase, ?_, ?_, ?_⟩ <;> rw [last?_ok]
    · exact h.includes
    · exact h.sameCase ▸ hms
    · exact h.options
  | options given =>
    refine ⟨h.sameCase, ?_, ?_, ?_⟩ <;> rw [last?_ok]
    · exact h.includes
    · exact h.excludes
    · rfl
  | walked =>
    refine ⟨h.sameCase, ?_, ?_, ?_⟩ <;> rw [last?_ok]
    · exact h.includes
    · exact h.excludes
    · exact h.options

theorem Follows.run (h : Follows caseSensitive options done s) (calls : List Call) :
    Follows caseSensitive options (done ++ (run v calls s).1) (run v calls s).2 := by
  induction calls generalizing done s with
  | nil => simpa [Session.run] using h
  | cons c calls ih =>
    have hnext := ih (h.step (does_step v c s))
    rwa [List.append_assoc] at hnext

/-- A replacement fails as its change fails. -/
theorem step_replace_error_iff {c : Call} {change : Walker → Except Pattern.Error Walker}
    (hc : make v c = (do replace change; return none)) {failure : Failure ε} :
    step v c s = (.error failure, s') ↔
      s' = s ∧ ∃ e, failure = .badPattern e ∧ change s.walker = .error e := by
  rw [step_replace hc]
  cases h : change s.walker with
  | ok walker => simp
  | error cause => simp [and_comm, eq_comm]

theorem allOrNothing (v : Visitor ω ε) (s : Session ω) : AllOrNothing v s where
  includes raws failure s' := by
    rw [step_replace_error_iff rfl]
    simp only [Walker.setIncludes_error_iff]
  excludes raws failure s' := by
    rw [step_replace_error_iff rfl]
    simp only [Walker.setExcludes_error_iff]

end Follows

/-- What a session holds after any calls. The lists of the walker are compiled, in order and in the case
it was made for, from those that were last given to it with success, and its options are those last given;
and it goes on to take a list as a whole or not at all. -/
theorem calls_followed (v : Visitor ω ε) (caseSensitive : Bool) (options : Options) (world : ω)
    (calls : List Call) :
    (run v calls (fresh caseSensitive options world)).1.map Prod.fst = calls ∧
    Follows caseSensitive options (run v calls (fresh caseSensitive options world)).1
      (run v calls (fresh caseSensitive options world)).2 ∧
    AllOrNothing v (run v calls (fresh caseSensitive options world)).2 :=
  ⟨run_calls v calls _, (follows_fresh world).run calls, allOrNothing v _⟩

example (world : Tree) : ((run observer [.excludes ["*.tmp"], .excludes ["*.log", "a//b"]]
    (fresh true {} world)).2.walker.rules.excludes.map (·.pattern)) = ["*.tmp"] := rfl

end Session
end Walk
end Fileset
