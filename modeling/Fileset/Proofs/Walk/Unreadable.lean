import Fileset.Proofs.Walk.Levels
import Fileset.Proofs.Walk.Turns

namespace Fileset.Walk

def Options.skipping (o : Options) : Options := { o with onUnreadable := .skip }

def Options.aborting (o : Options) : Options := { o with onUnreadable := .abort }

/-- Why the directory cannot be listed in its turn, if it cannot. -/
def Turn.cause? (v : Visitor ω ε) (options : Options) (turn : Turn ω) : Option Tree.Error :=
  match list (v.tree turn.world) options turn.dir.location with
  | .ok _ => none
  | .error cause => some cause

def Turn.fails (v : Visitor ω ε) (options : Options) (turn : Turn ω) : Bool :=
  (turn.cause? v options).isSome

theorem Turn.cause?_eq_some {v : Visitor ω ε} {options : Options} {turn : Turn ω}
    {cause : Tree.Error} : turn.cause? v options = some cause ↔
      list (v.tree turn.world) options turn.dir.location = .error cause := by
  unfold Turn.cause?
  split <;> simp [*]

theorem Turn.fails_of_error {v : Visitor ω ε} {options : Options} {turn : Turn ω}
    {cause : Tree.Error} (hl : list (v.tree turn.world) options turn.dir.location = .error cause) :
    turn.fails v options = true := by
  simp [fails, cause?_eq_some.mpr hl]

theorem Turn.fails_of_ok {v : Visitor ω ε} {options : Options} {turn : Turn ω} {listing : Listing}
    (hl : list (v.tree turn.world) options turn.dir.location = .ok listing) :
    ¬turn.fails v options = true := by
  simp [fails, cause?, hl]

section Step

variable (v : Visitor ω ε) (rules : Rules) {options : Options} {dir : Pending} (s : State ω)

theorem takeDirectory_listed {listing : Listing}
    (hl : list (v.tree s.world) options dir.location = .ok listing) :
    takeDirectory v rules options.aborting dir s = takeDirectory v rules options.skipping dir s := by
  have hskip : list (v.tree s.world) options.skipping dir.location = .ok listing := hl
  have habort : list (v.tree s.world) options.aborting dir.location = .ok listing := hl
  unfold takeDirectory
  rw [hskip, habort]
  rfl

theorem takeDirectory_skipping {cause : Tree.Error}
    (hl : list (v.tree s.world) options dir.location = .error cause) :
    takeDirectory v rules options.skipping dir s = ⟨[.log (.unreadable dir.location cause)], .ok { s with
      summary := { s.summary with unreadable := s.summary.unreadable ++ [dir.location] } }⟩ := by
  have hskip : list (v.tree s.world) options.skipping dir.location = .error cause := hl
  unfold takeDirectory
  rw [hskip]
  rfl

theorem takeDirectory_aborting {cause : Tree.Error}
    (hl : list (v.tree s.world) options dir.location = .error cause) :
    takeDirectory v rules options.aborting dir s =
      ⟨[], .error ⟨.unreadable dir.location cause, s.world⟩⟩ := by
  have habort : list (v.tree s.world) options.aborting dir.location = .error cause := hl
  unfold takeDirectory
  rw [habort]
  rfl

end Step

section Drain

variable {v : Visitor ω ε} {rules : Rules} {options : Options} {before : Trace} {s : State ω}
  {dir : Pending} {queue : List Pending}

def failuresFrom (v : Visitor ω ε) (rules : Rules) (options : Options) (limit : Nat) (before : Trace)
    (s : State ω) : List (Turn ω) :=
  (turnsFrom v rules options.skipping limit before s).filter (Turn.fails v options)

theorem failuresFrom_error (rules : Rules) (limit : Nat) (before : Trace)
    (hq : s.queue = dir :: queue) {cause : Tree.Error}
    (hl : list (v.tree s.world) options dir.location = .error cause) :
    ∃ later, failuresFrom v rules options (limit + 1) before s =
      ⟨dir, { s with queue }, before⟩ :: later := by
  have hfails : Turn.fails v options ⟨dir, { s with queue }, before⟩ = true := Turn.fails_of_error hl
  have hs := congrArg Recorded.result (takeDirectory_skipping v rules { s with queue } hl)
  rw [failuresFrom, turnsFrom_ok hq hs, List.filter_cons_of_pos hfails]
  exact ⟨_, rfl⟩

theorem failuresFrom_listed (limit : Nat) (hq : s.queue = dir :: queue) {listing : Listing}
    (hl : list (v.tree s.world) options dir.location = .ok listing) {s' : State ω}
    (hs : (takeDirectory v rules options.skipping dir { s with queue }).result = .ok s') :
    failuresFrom v rules options (limit + 1) before s = failuresFrom v rules options limit
      (before ++ (takeDirectory v rules options.skipping dir { s with queue }).trace) s' := by
  have hfails : ¬Turn.fails v options ⟨dir, { s with queue }, before⟩ = true := Turn.fails_of_ok hl
  rw [failuresFrom, turnsFrom_ok hq hs, List.filter_cons_of_neg hfails]
  rfl

theorem failuresFrom_ended (limit : Nat) (hq : s.queue = dir :: queue) {listing : Listing}
    (hl : list (v.tree s.world) options dir.location = .ok listing) {h : Halt ω ε}
    (hs : (takeDirectory v rules options.skipping dir { s with queue }).result = .error h) :
    failuresFrom v rules options (limit + 1) before s = [] := by
  have hfails : ¬Turn.fails v options ⟨dir, { s with queue }, before⟩ = true := Turn.fails_of_ok hl
  rw [failuresFrom, turnsFrom_error hq hs, List.filter_cons_of_neg hfails, List.filter_nil]

/-- As long as every directory can be listed, it does not matter what becomes of others. -/
theorem drain_aborting_eq (limit : Nat) (h : failuresFrom v rules options limit before s = []) :
    drain v rules options.aborting limit s = drain v rules options.skipping limit s := by
  induction limit generalizing before s with
  | zero =>
    unfold drain
    cases s.queue <;> rfl
  | succ limit ih =>
    cases hq : s.queue with
    | nil => rw [drain_nil _ hq, drain_nil _ hq]
    | cons dir queue =>
      cases hl : list (v.tree s.world) options dir.location with
      | error cause =>
        obtain ⟨later, hlater⟩ := failuresFrom_error rules limit before hq hl
        rw [hlater] at h
        cases h
      | ok listing =>
        have hsame : takeDirectory v rules options.aborting dir { s with queue } =
            takeDirectory v rules options.skipping dir { s with queue } :=
          takeDirectory_listed v rules _ hl
        cases hs : (takeDirectory v rules options.skipping dir { s with queue }).result with
        | error e => rw [drain_error hq hs, drain_error hq (hsame ▸ hs), hsame]
        | ok s' =>
          rw [failuresFrom_listed limit hq hl hs] at h
          rw [drain_ok hq hs, drain_ok hq (hsame ▸ hs), hsame, ih h]

/-- At the first directory that cannot be listed the walk ends, with what was done up to there. -/
theorem drain_aborting_stops (limit : Nat) {turn : Turn ω} {later : List (Turn ω)}
    (h : failuresFrom v rules options limit before s = turn :: later) :
    ∃ cause, turn.cause? v options = some cause ∧
      Recorded.record before (drain v rules options.aborting limit s) =
        ⟨turn.before, .error ⟨.unreadable turn.dir.location cause, turn.world⟩⟩ := by
  induction limit generalizing before s with
  | zero =>
    rw [failuresFrom, turnsFrom_zero] at h
    cases h
  | succ limit ih =>
    cases hq : s.queue with
    | nil =>
      rw [failuresFrom, turnsFrom_nil hq] at h
      cases h
    | cons dir queue =>
      cases hl : list (v.tree s.world) options dir.location with
      | error cause =>
        obtain ⟨later', hlater⟩ := failuresFrom_error rules limit before hq hl
        rw [hlater] at h
        obtain ⟨rfl, rfl⟩ := List.cons.inj h
        have habort := takeDirectory_aborting v rules { s with queue } hl
        refine ⟨cause, Turn.cause?_eq_some.mpr hl, ?_⟩
        rw [drain_error hq (congrArg Recorded.result habort), habort]
        simp [Recorded.record, Turn.world]
      | ok listing =>
        have hsame : takeDirectory v rules options.aborting dir { s with queue } =
            takeDirectory v rules options.skipping dir { s with queue } :=
          takeDirectory_listed v rules _ hl
        cases hs : (takeDirectory v rules options.skipping dir { s with queue }).result with
        | error e =>
          rw [failuresFrom_ended limit hq hl hs] at h
          cases h
        | ok s' =>
          rw [failuresFrom_listed limit hq hl hs] at h
          obtain ⟨cause, hcause, habort⟩ := ih h
          refine ⟨cause, hcause, ?_⟩
          rw [drain_ok hq (hsame ▸ hs), hsame, ← habort]
          simp [Recorded.record]

/-- A walk that passes directories by that cannot be listed logs each of them in its turn. -/
theorem failuresFrom_trace (limit : Nat) {turn : Turn ω}
    (h : turn ∈ failuresFrom v rules options limit before s) :
    ∃ cause, turn.cause? v options = some cause ∧
      turn.before ++ [.log (.unreadable turn.dir.location cause)] <+:
        before ++ (drain v rules options.skipping limit s).trace := by
  obtain ⟨hturn, hfails⟩ := List.mem_filter.mp h
  obtain ⟨cause, hcause⟩ := Option.isSome_iff_exists.mp hfails
  have htrace := turnsFrom_trace limit before s turn hturn
  rw [takeDirectory_skipping v rules turn.state (Turn.cause?_eq_some.mp hcause)] at htrace
  exact ⟨cause, hcause, htrace⟩

end Drain

/-- The account names the directories that could not be listed, in the order of their turns. -/
theorem foldl_take_unreadable (v : Visitor ω ε) (rules : Rules) (options : Options)
    (turns : List (Turn ω)) (sum : Summary) :
    (turns.foldl (fun sum turn => sum.take (v.tree turn.world) rules options turn.dir) sum).unreadable =
      sum.unreadable ++ (turns.filter (Turn.fails v options)).map fun turn => turn.dir.location := by
  induction turns generalizing sum with
  | nil => simp
  | cons turn turns ih =>
    rw [List.foldl_cons, ih]
    cases hl : list (v.tree turn.world) options turn.dir.location with
    | error cause =>
      have hfails := Turn.fails_of_error hl
      simp [Summary.take, hl, hfails]
    | ok listing =>
      have hfails := Turn.fails_of_ok hl
      simp [Summary.take, hl, hfails, Summary.plus]

/-- Above whatever is reported, each directory is reported. -/
theorem Levelled.above {rules : Rules} {place : Location} {ns : List Notice}
    (h : Levelled rules place ns) {n : Notice} (hn : n ∈ ns) {front : List String} {name : String}
    {rest : List String} (hs : n.path.segments = front ++ name :: rest) :
    ∃ c ∈ ns, c.path.segments = front ++ [name] := by
  induction rest using List.reverseRecOn generalizing n with
  | nil => exact ⟨n, hn, hs⟩
  | append_singleton rest last ih =>
    obtain ⟨p, hp, hchild⟩ := h.parents n hn (by simp [RelPath.length, hs]; omega)
    obtain ⟨_, last', hlast⟩ := Notice.childOf_iff.mp hchild
    have hsplit : p.path.segments ++ [last'] = (front ++ name :: rest) ++ [last] := by
      rw [← hlast, hs]
      simp
    exact ih hp.fst_mem (List.append_inj' hsplit rfl).1

theorem Turn.reports_of_fails {v : Visitor ω ε} {rules : Rules} {options : Options} {turn : Turn ω}
    (h : turn.fails v options = true) : turn.reports v rules options = [] := by
  cases hl : list (v.tree turn.world) options turn.dir.location with
  | error cause => exact reports_of_error hl
  | ok listing => exact absurd h (Turn.fails_of_ok hl)

section Below

variable {v : Visitor ω ε} {rules : Rules} {options : Options} {world : ω} {place : Location}
  {limit : Nat} (hlists : ∀ w, v.Reaches world w → (v.tree w).ListsOnce)
include hlists

theorem drain_waiting (rules : Rules) (options : Options) (place : Location) (limit : Nat) :
    ∃ all rest, Waiting rules place all rest ∧
      (drain v rules options limit (initial world options place)).calls <+: all := by
  have hrun : ∃ all rest, Waiting rules place all rest ∧
      [] ++ (drain v rules options limit (initial world options place)).calls <+: all :=
    drain_keeps (Waiting rules place) (fun _ _ _ _ _ ht h hmore => h.take ht hmore) limit hlists
      Waiting.initial
  exact hrun

/-- Every directory has its turn once, and lies where its names lead from the root. -/
theorem turnsFrom_once (rules : Rules) (options : Options) (place : Location) (limit : Nat) :
    ((turnsFrom v rules options limit [] (initial world options place)).map
      fun turn => turn.dir.path.segments).Nodup ∧
    ∀ turn ∈ turnsFrom v rules options limit [] (initial world options place),
      turn.dir.location = place ++ turn.dir.path.segments.map Bytes.ofText := by
  obtain ⟨all, rest, hw, more, rfl⟩ := drain_waiting hlists rules options place limit
  have hsub : ((turnsFrom v rules options limit [] (initial world options place)).map
      fun turn => turn.dir.notice).Sublist (fromRoot place
        ((drain v rules options limit (initial world options place)).calls ++ more)) :=
    (turnsFrom_sublist limit [] _).trans ((List.sublist_append_left _ more).cons_cons _)
  constructor
  · have honce := hw.fromRoot_once.sublist (hsub.map _)
    rwa [List.map_map] at honce
  · intro turn hturn
    rcases List.mem_cons.mp (hsub.subset (List.mem_map_of_mem hturn)) with hroot | hmem
    · obtain ⟨hplace, hpath⟩ := Notice.mk.inj hroot
      rw [hplace, hpath]
      simp [RelPath.root]
    · exact hw.levelled.located _ hmem

theorem turnsFrom_location_nodup (rules : Rules) (options : Options) (place : Location)
    (limit : Nat) : ((turnsFrom v rules options limit [] (initial world options place)).map
      fun turn => turn.dir.location).Nodup := by
  obtain ⟨honce, hlocated⟩ := turnsFrom_once hlists rules options place limit
  have hinj : Function.Injective fun names : List String => place ++ names.map Bytes.ofText := by
    intro names names' heq
    exact List.map_injective_iff.mpr (fun _ _ => Bytes.ofText_injective) (List.append_cancel_left heq)
  have hnodup := honce.map hinj
  rw [List.map_map] at hnodup
  rwa [List.map_congr_left hlocated]

/-- Nothing is reported below a directory that could not be listed in its turn. -/
theorem drain_below_failure {s : State ω}
    (hs : (drain v rules options limit (initial world options place)).result = .ok s) {turn : Turn ω}
    (hturn : turn ∈ turnsFrom v rules options limit [] (initial world options place))
    (hfails : turn.fails v options = true) {n : Notice}
    (hn : n ∈ (drain v rules options limit (initial world options place)).calls)
    {names : Location} (hne : names ≠ []) : n.location ≠ turn.dir.location ++ names := by
  intro heq
  obtain ⟨honce, hlocated⟩ := turnsFrom_once hlists rules options place limit
  obtain ⟨all, rest, hw, more, rfl⟩ := drain_waiting hlists rules options place limit
  have hlevelled := hw.levelled.front
  -- The names of the entry go on from those of the directory, so a child of it was reported.
  rw [hlevelled.located n hn, hlocated turn hturn, List.append_assoc] at heq
  obtain ⟨front, below, hsplit, hfront, rfl⟩ := List.map_eq_append_iff.mp (List.append_cancel_left heq)
  obtain rfl := List.map_injective_iff.mpr (fun _ _ => Bytes.ofText_injective) hfront
  obtain ⟨name, deeper, rfl⟩ := List.exists_cons_of_ne_nil (mt List.map_eq_nil_iff.mpr hne)
  obtain ⟨c, hc, hchild⟩ := hlevelled.above hn hsplit
  -- It was reported in the only turn of the directory, in which nothing was.
  rw [(turnsFrom_calls limit [] hs).1] at hc
  obtain ⟨turn', hturn', hc⟩ := List.mem_flatMap.mp hc
  obtain ⟨name', _, hchild', _⟩ := reports_child hc
  have hsame : turn'.dir.path.segments = turn.dir.path.segments :=
    (List.append_inj' (hchild'.symm.trans hchild) rfl).1
  obtain rfl := List.inj_on_of_nodup_map honce hturn' hturn hsame
  rw [Turn.reports_of_fails hfails] at hc
  cases hc

end Below

/-- The turns of a walk in which the directory cannot be listed. -/
def failures (v : Visitor ω ε) (rules : Rules) (options : Options) (limit : Nat) (root : Bytes)
    (world : ω) : List (Turn ω) :=
  (turns v rules options.skipping limit root world).filter (Turn.fails v options)

section Root

variable {v : Visitor ω ε} {rules : Rules} {options : Options} {limit : Nat} {root : Bytes}
  {world : ω}

theorem takeRootFile_unreadable {file : Location} {s s' : State ω}
    (h : (takeRootFile v rules file s).result = .ok s') :
    s'.summary.unreadable = s.summary.unreadable := by
  unfold takeRootFile at h
  split at h
  · cases h
    rfl
  · dsimp only at h
    split at h
    · obtain ⟨_, rfl⟩ := (visit_calls v _ s).through s' h
      simp only [countVisit]
      split <;> rfl
    · cases h
      rfl

/-- A walk whose root is missing or a file has no turns, and nothing that cannot be listed. -/
theorem walk_turnless (rules : Rules) (options : Options) (limit : Nat)
    (h : ∀ place, (v.tree world).locatePath root = .ok place → (v.tree world).isFile place = true) :
    failures v rules options limit root world = [] ∧
      walk v rules options.aborting limit root world = walk v rules options.skipping limit root world ∧
      ∀ out, (walk v rules options.skipping limit root world).result = .ok out →
        out.2.unreadable = [] := by
  cases hr : (v.tree world).locatePath root with
  | error e =>
    refine ⟨by rw [failures, turns_missing hr, List.filter_nil], by simp only [walk, hr], ?_⟩
    intro out hout
    simp only [walk, hr] at hout
    cases hout
    rfl
  | ok place =>
    have hfile := h place hr
    refine ⟨by rw [failures, turns_file hr hfile, List.filter_nil], ?_, ?_⟩
    · simp only [walk, hr, walkFrom, hfile, if_true]
      rfl
    · intro out hout
      obtain ⟨s, hs, rfl⟩ := walk_result_from hr hout
      simp only [walkFrom, hfile, if_true] at hs
      exact takeRootFile_unreadable hs

section Drained

variable {place : Location} (hr : (v.tree world).locatePath root = .ok place)
  (hroot : (v.tree world).isFile place = false)
include hr hroot

theorem failures_drain : failures v rules options limit root world =
    failuresFrom v rules options limit [] (initial world options place) := by
  rw [failures, turns_drain hr hroot]
  rfl

theorem walk_aborting_eq (h : failures v rules options limit root world = []) :
    walk v rules options.aborting limit root world =
      walk v rules options.skipping limit root world := by
  rw [failures_drain hr hroot] at h
  rw [walk_drain hr hroot, walk_drain hr hroot]
  exact congrArg (Recorded.andThen · _) (drain_aborting_eq limit h)

theorem walk_aborting_stops {turn : Turn ω} {later : List (Turn ω)}
    (h : failures v rules options limit root world = turn :: later) :
    ∃ cause, turn.cause? v options = some cause ∧
      walk v rules options.aborting limit root world =
        ⟨turn.before, .error ⟨.unreadable turn.dir.location cause, turn.world⟩⟩ := by
  rw [failures_drain hr hroot] at h
  obtain ⟨cause, hcause, hstop⟩ := drain_aborting_stops limit h
  have hdrain : drain v rules options.aborting limit (initial world options.aborting place) =
      ⟨turn.before, .error ⟨.unreadable turn.dir.location cause, turn.world⟩⟩ := hstop
  refine ⟨cause, hcause, ?_⟩
  rw [walk_drain hr hroot, hdrain]
  rfl

theorem failures_trace {turn : Turn ω} (h : turn ∈ failures v rules options limit root world) :
    ∃ cause, turn.cause? v options = some cause ∧ Known turn.before turn.dir ∧
      turn.before ++ [.log (.unreadable turn.dir.location cause)] <+:
        (walk v rules options.skipping limit root world).trace := by
  rw [failures_drain hr hroot] at h
  obtain ⟨cause, hcause, htrace⟩ := failuresFrom_trace limit h
  refine ⟨cause, hcause, ?_, htrace.trans (drain_trace_begins hr hroot)⟩
  have hwaits : ∀ d ∈ (initial world options place).queue, Known [] d := by
    simp [initial, Known]
  exact turnsFrom_known limit hwaits turn (List.mem_filter.mp h).1

theorem walk_skipping_unreadable (hlists : ∀ w, v.Reaches world w → (v.tree w).ListsOnce)
    {out : ω × Summary} (hout : (walk v rules options.skipping limit root world).result = .ok out) :
    out.2.unreadable =
        (failures v rules options limit root world).map (fun turn => turn.dir.location) ∧
      out.2.unreadable.Nodup ∧
      ∀ dir ∈ out.2.unreadable, ∀ n ∈ (walk v rules options.skipping limit root world).calls,
        ∀ names, names ≠ [] → n.location ≠ dir ++ names := by
  obtain ⟨s, hs, hsum, hcalls⟩ := walk_ok_drain hr hroot hout
  obtain ⟨honce, hlocated⟩ := turnsFrom_once hlists rules options.skipping place limit
  have hnames : out.2.unreadable =
      (failures v rules options limit root world).map fun turn => turn.dir.location := by
    rw [hsum, (turnsFrom_calls limit [] hs).2, foldl_take_unreadable, failures_drain hr hroot]
    rfl
  refine ⟨hnames, ?_, ?_⟩
  · rw [hnames, failures_drain hr hroot]
    exact (turnsFrom_location_nodup hlists rules options.skipping place limit).sublist
      (List.filter_sublist.map _)
  · rw [hnames, hcalls, failures_drain hr hroot]
    intro dir hdir n hn names hne
    obtain ⟨turn, hturn, rfl⟩ := List.mem_map.mp hdir
    obtain ⟨hturn, hfails⟩ := List.mem_filter.mp hturn
    exact drain_below_failure hlists hs hturn hfails hn hne

end Drained

/-- A walk that ends at the first directory that cannot be listed does up to there what a walk does that
passes such directories by. The account of the latter names them in the order of their turns, each of
them once; each is the root or was reported before its turn; and nothing below it is reported. -/
theorem walk_unreadable (v : Visitor ω ε) (rules : Rules) (options : Options) (limit : Nat)
    (root : Bytes) (world : ω) :
    (failures v rules options limit root world = [] →
      walk v rules options.aborting limit root world =
        walk v rules options.skipping limit root world) ∧
    (∀ turn later, failures v rules options limit root world = turn :: later →
      ∃ cause, turn.cause? v options = some cause ∧
        walk v rules options.aborting limit root world =
          ⟨turn.before, .error ⟨.unreadable turn.dir.location cause, turn.world⟩⟩) ∧
    (∀ turn ∈ failures v rules options limit root world,
      ∃ cause, turn.cause? v options = some cause ∧ Known turn.before turn.dir ∧
        turn.before ++ [.log (.unreadable turn.dir.location cause)] <+:
          (walk v rules options.skipping limit root world).trace) ∧
    ((∀ w, v.Reaches world w → (v.tree w).ListsOnce) →
      ∀ out, (walk v rules options.skipping limit root world).result = .ok out →
      out.2.unreadable =
        (failures v rules options limit root world).map (fun turn => turn.dir.location) ∧
      out.2.unreadable.Nodup ∧
      ∀ dir ∈ out.2.unreadable, ∀ n ∈ (walk v rules options.skipping limit root world).calls,
        ∀ names, names ≠ [] → n.location ≠ dir ++ names) := by
  by_cases hplace : ∃ place, (v.tree world).locatePath root = .ok place ∧
      (v.tree world).isFile place = false
  · obtain ⟨place, hr, hroot⟩ := hplace
    exact ⟨walk_aborting_eq hr hroot, fun _ _ h => walk_aborting_stops hr hroot h,
      fun _ h => failures_trace hr hroot h,
      fun hlists _ hout => walk_skipping_unreadable hr hroot hlists hout⟩
  · have hturnless : ∀ place, (v.tree world).locatePath root = .ok place →
        (v.tree world).isFile place = true := by
      simpa using hplace
    obtain ⟨hnone, hsame, hunreadable⟩ := walk_turnless rules options limit hturnless
    rw [hnone]
    refine ⟨fun _ => hsame, by simp, by simp, fun _ out hout => ?_⟩
    simp [hunreadable out hout]

end Root

/-- Three directories `a`, `b` and `c`, with files `y` and `z` in `c`. -/
def trio : Tree :=
  ⟨[⟨[], [0x61], .directory⟩, ⟨[], [0x62], .directory⟩, ⟨[], [0x63], .directory⟩,
    ⟨[[0x63]], [0x79], .file []⟩, ⟨[[0x63]], [0x7a], .file []⟩]⟩

def reaper : Visitor Tree String where
  tree := id
  visit n t := (if n.path.segments = ["a"] then t.erase [[0x62]] else t, none)

theorem reaper_wellFormed {t : Tree} (ht : t.WellFormed) (n : Notice) :
    (reaper.visit n t).1.WellFormed := by
  simp only [reaper]
  split
  · exact ht.erase _
  · exact ht

/-- A directory `a` that may not be read, with a file `x` in it, and a directory `b` with files `x` and
`y` in it. -/
def shut : Tree :=
  ⟨[⟨[], [0x62], .directory⟩, ⟨[], [0x61], .directory false⟩, ⟨[[0x61]], [0x78], .file []⟩,
    ⟨[[0x62]], [0x79], .file []⟩, ⟨[[0x62]], [0x78], .file []⟩]⟩

theorem shut_wellFormed : shut.WellFormed := ⟨by decide, by decide⟩

/-- Of `trio` the directory `b` is gone in its turn. Of `shut` the root `a` may not be read. -/
theorem walk_unreadable_trio :
    (∀ t, reaper.Reaches trio t → t.ListsOnce) ∧
    (∃ turn cause, failures reaper {} {} 9 [Path.slash] trio = [turn] ∧
      turn.dir.location = [[0x62]] ∧ turn.cause? reaper {} = some cause ∧
      walk reaper {} ({} : Options).aborting 9 [Path.slash] trio =
        ⟨turn.before, .error ⟨.unreadable [[0x62]] cause, turn.world⟩⟩ ∧
      Known turn.before turn.dir ∧ turn.before ++ [.log (.unreadable [[0x62]] cause)] <+:
        (walk reaper {} ({} : Options).skipping 9 [Path.slash] trio).trace) ∧
    (∃ out, (walk reaper {} ({} : Options).skipping 9 [Path.slash] trio).result = .ok out ∧
      out.2.unreadable = [[[0x62]]] ∧ out.2.unreadable.Nodup ∧
      ∀ n ∈ (walk reaper {} ({} : Options).skipping 9 [Path.slash] trio).calls,
        ∀ names, names ≠ [] → n.location ≠ [[0x62]] ++ names) ∧
    ∃ turn, failures reaper {} {} 9 [Path.slash, 0x61] shut = [turn] ∧
      turn.dir = ⟨[[0x61]], .root false⟩ ∧ turn.cause? reaper {} = some .denied ∧
      walk reaper {} ({} : Options).aborting 9 [Path.slash, 0x61] shut =
        ⟨[], .error ⟨.unreadable [[0x61]] .denied, shut⟩⟩ ∧
      Known turn.before turn.dir ∧ [.log (.unreadable [[0x61]] .denied)] <+:
        (walk reaper {} ({} : Options).skipping 9 [Path.slash, 0x61] shut).trace := by
  have ht : trio.WellFormed := ⟨by decide, by decide⟩
  have hlists : ∀ t, reaper.Reaches trio t → (reaper.tree t).ListsOnce := fun t h =>
    (h.keeps (p := Tree.WellFormed) (fun n _ ht => reaper_wellFormed ht n) ht).listsOnce
  have hfailures : (failures reaper {} {} 9 [Path.slash] trio).map (fun turn => turn.dir.location) =
      [[[0x62]]] := by cbv
  obtain ⟨turn, hturn, hdir⟩ := List.map_eq_singleton_iff.mp hfailures
  obtain ⟨_, hstops, htrace, hskips⟩ := walk_unreadable reaper {} {} 9 [Path.slash] trio
  obtain ⟨cause, hcause, habort⟩ := hstops turn [] hturn
  obtain ⟨cause', hcause', hknown, hbefore⟩ := htrace turn (hturn ▸ List.mem_cons_self)
  obtain rfl := Option.some.inj (hcause.symm.trans hcause')
  have hout : (walk reaper {} ({} : Options).skipping 9 [Path.slash] trio).result =
      .ok (trio.erase [[0x62]],
        { rootFound := true, files := 2, dirs := 3, unreadable := [[[0x62]]] }) := by cbv
  obtain ⟨hnames, hnodup, hbelow⟩ := hskips hlists _ hout
  rw [hdir] at habort hbefore
  -- The walk of `shut` has one turn, that of its root.
  have hshut : failures reaper {} {} 9 [Path.slash, 0x61] shut =
      [⟨⟨[[0x61]], .root false⟩, ⟨shut, [], [], { rootFound := true }⟩, []⟩] := by cbv
  obtain ⟨_, hstops, htrace, _⟩ := walk_unreadable reaper {} {} 9 [Path.slash, 0x61] shut
  obtain ⟨stop, hstop, hshuts⟩ := hstops _ [] hshut
  obtain ⟨stop', hstop', hroot, hlogs⟩ := htrace _ (hshut ▸ List.mem_cons_self)
  have hcause : Turn.cause? reaper {} ⟨⟨[[0x61]], .root false⟩,
      ⟨shut, [], [], { rootFound := true }⟩, []⟩ = some .denied := by cbv
  obtain rfl := Option.some.inj (hstop.symm.trans hcause)
  obtain rfl := Option.some.inj (hstop'.symm.trans hcause)
  refine ⟨hlists, ⟨turn, cause, hturn, hdir, ‹_›, habort, hknown, hbefore⟩, ⟨_, hout,
    hnames.trans hfailures, hnodup, hbelow _ List.mem_cons_self⟩, _, hshut, rfl, hcause, hshuts, hroot,
    hlogs⟩

end Fileset.Walk
