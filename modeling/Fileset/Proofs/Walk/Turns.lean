import Fileset.Proofs.Walk.Quiet

namespace Fileset.Walk

/-- A directory that is taken, the state in which it is taken, and the trace up to then. -/
structure Turn (ω : Type u) where
  dir : Pending
  state : State ω
  before : Trace

variable {ω : Type u} {ε : Type v}

def Turn.world (turn : Turn ω) : ω := turn.state.world

def turnsFrom (v : Visitor ω ε) (rules : Rules) (options : Options) :
    Nat → Trace → State ω → List (Turn ω)
  | limit, before, s =>
    match s.queue with
    | [] => []
    | dir :: queue =>
      match limit with
      | 0 => []
      | limit + 1 =>
        let taken := takeDirectory v rules options dir { s with queue }
        ⟨dir, { s with queue }, before⟩ :: match taken.result with
          | .ok s => turnsFrom v rules options limit (before ++ taken.trace) s
          | .error _ => []

def turns (v : Visitor ω ε) (rules : Rules) (options : Options) (limit : Nat) (root : Bytes)
    (world : ω) : List (Turn ω) :=
  match (v.tree world).locatePath root with
  | .error _ => []
  | .ok place =>
    if (v.tree world).isFile place then []
    else turnsFrom v rules options limit [] (initial world options place)

def Turn.reports (v : Visitor ω ε) (rules : Rules) (options : Options) (turn : Turn ω) :
    List Notice :=
  Walk.reports (v.tree turn.world) rules options turn.dir

theorem Recorded.calls_eq_notices {r : Step ω ε α} {a : α} (h : r.result = .ok a) :
    r.calls = r.trace.notices := by
  simp [calls, h]

section Drain

variable {v : Visitor ω ε} {rules : Rules} {options : Options} {limit : Nat} {before : Trace}
  {s s' : State ω} {dir : Pending} {queue : List Pending}

theorem turnsFrom_nil (hq : s.queue = []) : turnsFrom v rules options limit before s = [] := by
  unfold turnsFrom
  simp only [hq]

theorem turnsFrom_zero : turnsFrom v rules options 0 before s = [] := by
  unfold turnsFrom
  cases s.queue <;> rfl

theorem turnsFrom_ok (hq : s.queue = dir :: queue)
    (hs : (takeDirectory v rules options dir { s with queue }).result = .ok s') :
    turnsFrom v rules options (limit + 1) before s = ⟨dir, { s with queue }, before⟩ ::
      turnsFrom v rules options limit
        (before ++ (takeDirectory v rules options dir { s with queue }).trace) s' := by
  rw [turnsFrom]
  simp only [hq, hs]

theorem turnsFrom_error (hq : s.queue = dir :: queue) {h : Halt ω ε}
    (hs : (takeDirectory v rules options dir { s with queue }).result = .error h) :
    turnsFrom v rules options (limit + 1) before s = [⟨dir, { s with queue }, before⟩] := by
  rw [turnsFrom]
  simp only [hq, hs]

theorem drain_ok (hq : s.queue = dir :: queue)
    (hs : (takeDirectory v rules options dir { s with queue }).result = .ok s') :
    drain v rules options (limit + 1) s =
      .record (takeDirectory v rules options dir { s with queue }).trace
        (drain v rules options limit s') := by
  rw [drain]
  simp only [hq, Recorded.andThen, hs]

theorem drain_error (hq : s.queue = dir :: queue) {h : Halt ω ε}
    (hs : (takeDirectory v rules options dir { s with queue }).result = .error h) :
    drain v rules options (limit + 1) s =
      ⟨(takeDirectory v rules options dir { s with queue }).trace, .error h⟩ := by
  rw [drain]
  simp only [hq, Recorded.andThen, hs]

/-- What is done in a turn comes next to what was done before. -/
theorem turnsFrom_trace (limit : Nat) (before : Trace) (s : State ω) :
    ∀ turn ∈ turnsFrom v rules options limit before s,
      turn.before ++ (takeDirectory v rules options turn.dir turn.state).trace <+:
        before ++ (drain v rules options limit s).trace := by
  induction limit generalizing before s with
  | zero => simp [turnsFrom_zero]
  | succ limit ih =>
    cases hq : s.queue with
    | nil => simp [turnsFrom_nil hq]
    | cons dir queue =>
      cases hs : (takeDirectory v rules options dir { s with queue }).result with
      | error h => simp [turnsFrom_error hq hs, drain_error hq hs]
      | ok s' =>
        rw [turnsFrom_ok hq hs, drain_ok hq hs]
        have hsplit : before ++ (Recorded.record
            (takeDirectory v rules options dir { s with queue }).trace
            (drain v rules options limit s')).trace =
            before ++ (takeDirectory v rules options dir { s with queue }).trace ++
              (drain v rules options limit s').trace := (List.append_assoc _ _ _).symm
        rw [hsplit]
        intro turn hturn
        rcases List.mem_cons.mp hturn with rfl | hturn
        · exact List.prefix_append _ _
        · exact ih _ s' turn hturn

/-- Whatever has a turn waits already or is reported first, and the turns follow that order. -/
theorem turnsFrom_sublist (limit : Nat) (before : Trace) (s : State ω) :
    ((turnsFrom v rules options limit before s).map fun turn => turn.dir.notice).Sublist
      (s.queue.map Pending.notice ++ (drain v rules options limit s).calls) := by
  induction limit generalizing before s with
  | zero => simp [turnsFrom_zero]
  | succ limit ih =>
    cases hq : s.queue with
    | nil => simp [turnsFrom_nil hq]
    | cons dir queue =>
      cases hs : (takeDirectory v rules options dir { s with queue }).result with
      | error h => simp [turnsFrom_error hq hs]
      | ok s' =>
        obtain ⟨hcalls, htook⟩ :=
          (takeDirectory_calls v rules options dir { s with queue }).through s' hs
        obtain ⟨more, hmore, hsub, _⟩ := htook.queue
        have hnew : (more.map Pending.notice).Sublist
            (takeDirectory v rules options dir { s with queue }).trace.notices := by
          rw [← Recorded.calls_eq_notices hs, hcalls]
          exact (hsub.map _).trans (List.sublist_append_right _ _)
        have hrest := ih (before ++ (takeDirectory v rules options dir { s with queue }).trace) s'
        rw [hmore, List.map_append, List.append_assoc] at hrest
        rw [turnsFrom_ok hq hs, drain_ok hq hs, Recorded.calls_record, List.map_cons, List.map_cons,
          List.cons_append]
        exact (hrest.trans ((List.Sublist.refl _).append (hnew.append (.refl _)))).cons_cons dir.notice

/-- A walk that ends by itself has called the visitor with what was reported turn by turn. -/
theorem turnsFrom_calls (limit : Nat) (before : Trace) {s s' : State ω}
    (hd : (drain v rules options limit s).result = .ok s') :
    (drain v rules options limit s).calls =
        (turnsFrom v rules options limit before s).flatMap (Turn.reports v rules options) ∧
      s'.summary = (turnsFrom v rules options limit before s).foldl
        (fun sum turn => sum.take (v.tree turn.world) rules options turn.dir) s.summary := by
  induction limit generalizing before s with
  | zero =>
    cases hq : s.queue with
    | nil =>
      rw [drain_nil 0 hq] at hd ⊢
      cases hd
      simp [turnsFrom_zero, Recorded.calls_ok]
    | cons dir queue =>
      simp only [drain, hq] at hd
      cases hd
  | succ limit ih =>
    cases hq : s.queue with
    | nil =>
      rw [drain_nil _ hq] at hd ⊢
      cases hd
      simp [turnsFrom_nil hq, Recorded.calls_ok]
    | cons dir queue =>
      cases hs : (takeDirectory v rules options dir { s with queue }).result with
      | error h =>
        rw [drain_error hq hs] at hd
        cases hd
      | ok s₁ =>
        rw [drain_ok hq hs] at hd ⊢
        obtain ⟨hcalls, htook⟩ :=
          (takeDirectory_calls v rules options dir { s with queue }).through s₁ hs
        rw [Recorded.calls_eq_notices hs] at hcalls
        obtain ⟨hrest, hsum⟩ :=
          ih (before ++ (takeDirectory v rules options dir { s with queue }).trace) hd
        rw [turnsFrom_ok hq hs]
        refine ⟨?_, ?_⟩
        · rw [Recorded.calls_record, hcalls, hrest, List.flatMap_cons]
          rfl
        · rw [hsum, htook.summary, List.foldl_cons]
          rfl

/-- The directory `d` is the root of the walk, or was reported as a directory in the trace. -/
def Known (before : Trace) (d : Pending) : Prop :=
  d.path = .root false ∨ d.path.isFile = false ∧ d.notice ∈ before.notices

theorem Known.append {d : Pending} (h : Known before d) (more : Trace) : Known (before ++ more) d := by
  refine h.imp id fun hd => ⟨hd.1, ?_⟩
  rw [Trace.notices_append]
  exact List.mem_append_left _ hd.2

/-- Whatever has a turn was reported by then, if all that waits was. -/
theorem turnsFrom_known (limit : Nat) {before : Trace} {s : State ω}
    (hk : ∀ d ∈ s.queue, Known before d) :
    ∀ turn ∈ turnsFrom v rules options limit before s, Known turn.before turn.dir := by
  induction limit generalizing before s with
  | zero => simp [turnsFrom_zero]
  | succ limit ih =>
    cases hq : s.queue with
    | nil => simp [turnsFrom_nil hq]
    | cons dir queue =>
      rw [hq] at hk
      have hdir : Known before dir := hk dir List.mem_cons_self
      cases hs : (takeDirectory v rules options dir { s with queue }).result with
      | error h => simpa [turnsFrom_error hq hs] using hdir
      | ok s' =>
        obtain ⟨hcalls, htook⟩ :=
          (takeDirectory_calls v rules options dir { s with queue }).through s' hs
        obtain ⟨more, hmore, hsub, _⟩ := htook.queue
        rw [Recorded.calls_eq_notices hs] at hcalls
        have hnext : ∀ d ∈ s'.queue, Known
            (before ++ (takeDirectory v rules options dir { s with queue }).trace) d := by
          rw [hmore]
          intro d hd
          rcases List.mem_append.mp hd with hold | hnew
          · exact (hk d (List.mem_cons_of_mem _ hold)).append _
          · refine .inr ⟨admittedDirs_isFile d (hsub.subset hnew), ?_⟩
            rw [Trace.notices_append, hcalls]
            refine List.mem_append_right _ (List.mem_append_right _ ?_)
            exact List.mem_map_of_mem (hsub.subset hnew)
        rw [turnsFrom_ok hq hs]
        intro turn hturn
        rcases List.mem_cons.mp hturn with rfl | hturn
        · exact hdir
        · exact ih hnext turn hturn

end Drain

section Root

variable {v : Visitor ω ε} {rules : Rules} {options : Options} {limit : Nat} {root : Bytes}
  {world : ω} {place : Location}

theorem turns_missing {e : Tree.Error} (hr : (v.tree world).locatePath root = .error e) :
    turns v rules options limit root world = [] := by
  simp only [turns, hr]

theorem turns_file (hr : (v.tree world).locatePath root = .ok place)
    (hfile : (v.tree world).isFile place = true) : turns v rules options limit root world = [] := by
  simp only [turns, hr, hfile, if_true]

theorem turns_drain (hr : (v.tree world).locatePath root = .ok place)
    (hroot : (v.tree world).isFile place = false) :
    turns v rules options limit root world =
      turnsFrom v rules options limit [] (initial world options place) := by
  simp only [turns, hr, hroot, Bool.false_eq_true, if_false]

/-- A walk that does not start from a file takes the directories that wait. -/
theorem walk_drain (hr : (v.tree world).locatePath root = .ok place)
    (hroot : (v.tree world).isFile place = false) :
    walk v rules options limit root world =
      (drain v rules options limit (initial world options place)).andThen fun s =>
        .record [.log s.summary.closing] (.ok (s.world, s.summary)) := by
  simp only [walk, hr, walkFrom_drain hroot]

/-- What a walk does ends with one more line in the log, if nothing ends it before. -/
theorem drain_trace_begins (hr : (v.tree world).locatePath root = .ok place)
    (hroot : (v.tree world).isFile place = false) :
    (drain v rules options limit (initial world options place)).trace <+:
      (walk v rules options limit root world).trace := by
  rw [walk_drain hr hroot, Recorded.andThen]
  split
  · exact List.prefix_append _ _
  · exact List.prefix_refl _

theorem walk_ok_drain (hr : (v.tree world).locatePath root = .ok place)
    (hroot : (v.tree world).isFile place = false) {out : ω × Summary}
    (hout : (walk v rules options limit root world).result = .ok out) :
    ∃ s, (drain v rules options limit (initial world options place)).result = .ok s ∧
      out.2 = s.summary ∧ (walk v rules options limit root world).calls =
        (drain v rules options limit (initial world options place)).calls := by
  rw [walk_drain hr hroot] at hout ⊢
  cases hs : (drain v rules options limit (initial world options place)).result with
  | error e => simp [Recorded.andThen, hs] at hout
  | ok s =>
    refine ⟨s, rfl, ?_, ?_⟩
    · simp only [Recorded.andThen, hs, Recorded.record, Recorded.ok, Except.ok.injEq] at hout
      rw [← hout]
    · rw [Recorded.calls_andThen_ok hs, Recorded.calls_record, Recorded.calls_ok]
      simp [Trace.notices]

end Root
end Fileset.Walk
