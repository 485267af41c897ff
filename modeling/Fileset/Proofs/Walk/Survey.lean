import Fileset.Proofs.Walk.Follow
import Mathlib

namespace Fileset.Walk

def taken (v : Visitor ω ε) (rules : Rules) (options : Options) : Nat → State ω → List Pending
  | limit, s =>
    match s.queue with
    | [] => []
    | dir :: queue =>
      match limit with
      | 0 => []
      | limit + 1 =>
        dir :: match (takeDirectory v rules options dir { s with queue }).result with
          | .ok s => taken v rules options limit s
          | .error _ => []

def listed (v : Visitor ω ε) (rules : Rules) (options : Options) (limit : Nat) (root : Bytes)
    (world : ω) : List Pending :=
  match (v.tree world).locatePath root with
  | .error _ => []
  | .ok place =>
    if (v.tree world).isFile place then []
    else taken v rules options limit (initial world options place)

section Taken

variable {v : Visitor ω ε} {rules : Rules} {options : Options} {s s' : State ω}

theorem taken_nil (limit : Nat) (hq : s.queue = []) : taken v rules options limit s = [] := by
  unfold taken
  simp only [hq]

theorem taken_cons (limit : Nat) {dir : Pending} {queue : List Pending} (hq : s.queue = dir :: queue)
    (hs : (takeDirectory v rules options dir { s with queue }).result = .ok s') :
    taken v rules options (limit + 1) s = dir :: taken v rules options limit s' := by
  rw [taken]
  simp only [hq, hs]

theorem taken_error (limit : Nat) {dir : Pending} {queue : List Pending}
    (hq : s.queue = dir :: queue) {h : Halt ω ε}
    (hs : (takeDirectory v rules options dir { s with queue }).result = .error h) :
    taken v rules options (limit + 1) s = [dir] := by
  rw [taken]
  simp only [hq, hs]

/-- A quiet walk reports what is reported of the directories that it lists. -/
theorem drain_taken (hv : v.Quiet) {t : Tree} (limit : Nat) (hw : v.tree s.world = t) :
    (drain v rules options limit s).calls =
      (taken v rules options limit s).flatMap (reports t rules options) := by
  induction limit generalizing s with
  | zero =>
    cases hq : s.queue with
    | nil => rw [drain_nil 0 hq, taken_nil 0 hq, Recorded.calls_ok, List.flatMap_nil]
    | cons dir queue => simp [drain, taken, hq, Recorded.calls_stop, Halt.refused]
  | succ limit ih =>
    cases hq : s.queue with
    | nil => rw [drain_nil _ hq, taken_nil _ hq, Recorded.calls_ok, List.flatMap_nil]
    | cons dir queue =>
      subst hw
      have htake := takeDirectory_calls v rules options dir { s with queue }
      simp only [drain, hq]
      cases hs : (takeDirectory v rules options dir { s with queue }).result with
      | ok s₁ =>
        obtain ⟨hcalls, htook⟩ := htake.through s₁ hs
        rw [Recorded.calls_andThen_ok hs, hcalls, ih (hv.tree_eq htook.world), taken_cons limit hq hs,
          List.flatMap_cons]
      | error h =>
        -- The visitor refuses nothing, so the directory could not be listed.
        obtain ⟨hmay, hbegins⟩ := htake.ended h hs
        obtain ⟨cause, hlist⟩ := hmay.resolve_left hv.never
        have hnone : reports (v.tree s.world) rules options dir = [] := reports_of_error hlist
        rw [Recorded.calls_andThen_error hs, taken_error limit hq hs, List.flatMap_singleton, hnone]
        exact List.prefix_nil.mp (hnone ▸ hbegins)

end Taken

/-- Where a walk from `place` stands that has listed the directories `done`. -/
structure Surveyed (t : Tree) (rules : Rules) (options : Options) (place : Location)
    (done : List Pending) (s : State ω) : Prop where
  located : ∀ d ∈ done ++ s.queue, ∃ loc, t.locateAt d.location = .ok loc ∧ t.isDirectory loc = true
  walked : s.walked = (done ++ s.queue).map (placeOf t)
  once : s.walked.Nodup
  start : place ∈ s.walked
  closed : ∀ d ∈ done, ∀ e ∈ opens t rules options d, placeOf t e ∈ s.walked

namespace Surveyed

variable {v : Visitor ω ε} {t : Tree} {rules : Rules} {options : Options}
  {place : Location} {done queue : List Pending} {dir : Pending} {s s' : State ω}

theorem initial (world : ω) (hf : options.followLinks = true) (hl : t.locateAt place = .ok place)
    (hd : t.isDirectory place = true) :
    Surveyed t rules options place [] (initial world options place) := by
  constructor
  case located => simpa [Walk.initial] using ⟨place, hl, hd⟩
  case walked => simp [Walk.initial, hf, placeOf, hl, Except.toOption]
  case once => simp [Walk.initial, hf]
  case start => simp [Walk.initial, hf]
  case closed => simp

/-- There are never more directories listed and waiting than there are in the tree. -/
theorem room (h : Surveyed t rules options place done s) :
    done.length + s.queue.length ≤ t.directories.length := by
  have hsub : s.walked ⊆ t.directories := by
    intro loc hloc
    rw [h.walked] at hloc
    obtain ⟨d, hd, rfl⟩ := List.mem_map.mp hloc
    obtain ⟨loc, hl, hdir⟩ := h.located d hd
    rw [placeOf_eq hl]
    exact Tree.mem_directories hdir
  have hlen := (h.once.subperm hsub).length_le
  rwa [h.walked, List.length_map, List.length_append] at hlen

theorem take (ht : t.WellFormed) (hf : options.followLinks = true)
    (h : Surveyed t rules options place done s) (hq : s.queue = dir :: queue)
    (hs : Entered v t (opens t rules options dir) { s with queue } s') :
    Surveyed t rules options place (done ++ [dir]) s' := by
  obtain ⟨more, hsub, hqueue, hwalked⟩ := hs.more
  have hall : done ++ [dir] ++ s'.queue = done ++ s.queue ++ more := by
    simp [hqueue, hq]
  have hkept : s.walked ⊆ s'.walked := by
    rw [hwalked]
    exact List.subset_append_left _ _
  have hdir : dir ∈ done ++ s.queue := by simp [hq]
  obtain ⟨loc, hl, hd⟩ := h.located dir hdir
  constructor
  case located =>
    rw [hall]
    intro d hmem
    rcases List.mem_append.mp hmem with hold | hnew
    · exact h.located d hold
    · obtain ⟨_, _, loc', _, hl', hd', _⟩ :=
        (mem_opens_followed ht rules hf hl hd).mp (hsub.subset hnew)
      exact ⟨loc', hl', hd'⟩
  case walked =>
    rw [hall, List.map_append, hwalked]
    exact congrArg (· ++ more.map (placeOf t)) h.walked
  case once => exact hs.once h.once
  case start => exact hkept h.start
  case closed =>
    intro d hmem e he
    rcases List.mem_append.mp hmem with hold | hnew
    · exact hkept (h.closed d hold e he)
    · rw [List.mem_singleton.mp hnew] at he
      exact hs.all e he

end Surveyed

structure Visited (t : Tree) (dirs : List Pending) : Prop where
  located : ∀ d ∈ dirs, ∃ loc, t.locateAt d.location = .ok loc
  once : (dirs.map (placeOf t)).Nodup

/-- The root `place` is among the places of the directories, and what any of them opens lies in one of
these places. -/
structure Survey (t : Tree) (rules : Rules) (options : Options) (place : Location)
    (dirs : List Pending) : Prop extends Visited t dirs where
  start : place ∈ dirs.map (placeOf t)
  closed : ∀ d ∈ dirs, ∀ e ∈ opens t rules options d, placeOf t e ∈ dirs.map (placeOf t)

def entryOf (t : Tree) (n : Notice) : Except Tree.Error Location × Option Bytes :=
  (t.locateAt n.location.dropLast, n.location.getLast?)

theorem entryOf_reports {t : Tree} {rules : Rules} {options : Options} {dir : Pending} {n : Notice}
    (h : n ∈ reports t rules options dir) : ∃ name,
      n.location = dir.location ++ [Bytes.ofText name] ∧
      entryOf t n = (t.locateAt dir.location, some (Bytes.ofText name)) := by
  obtain ⟨name, hlocation, _⟩ := reports_child h
  exact ⟨name, hlocation, by simp [entryOf, hlocation]⟩

namespace Visited

variable {t : Tree} {rules : Rules} {options : Options} {dirs : List Pending}

theorem locateAt_eq (h : Visited t dirs) {d : Pending} (hd : d ∈ dirs) :
    t.locateAt d.location = .ok (placeOf t d) := by
  obtain ⟨loc, hl⟩ := h.located d hd
  rw [placeOf_eq hl, hl]

theorem exists_of_mem (h : Visited t dirs) {loc : Location}
    (hloc : loc ∈ dirs.map (placeOf t)) : ∃ d ∈ dirs, t.locateAt d.location = .ok loc := by
  obtain ⟨d, hd, rfl⟩ := List.mem_map.mp hloc
  exact ⟨d, hd, h.locateAt_eq hd⟩

/-- No entry is reported twice, under however many names its directory can be reached. -/
theorem entries_nodup (h : Visited t dirs) (ht : t.ListsOnce) :
    ((dirs.flatMap (reports t rules options)).map (entryOf t)).Nodup := by
  rw [List.map_flatMap, List.nodup_flatMap]
  constructor
  · intro dir _
    refine List.Nodup.map_on ?_ (reports_location_nodup ht).of_map
    intro m hm n hn heq
    obtain ⟨name, hlocation, hentry⟩ := entryOf_reports hm
    obtain ⟨name', hlocation', hentry'⟩ := entryOf_reports hn
    rw [hentry, hentry'] at heq
    refine List.inj_on_of_nodup_map (reports_location_nodup ht) hm hn ?_
    rw [hlocation, hlocation', Option.some.inj (Prod.mk.inj heq).2]
  · refine (List.pairwise_map.mp h.once).imp_of_mem ?_
    intro dir dir' hdir hdir' hne entry hin hin'
    obtain ⟨m, hm, rfl⟩ := List.mem_map.mp hin
    obtain ⟨n, hn, heq⟩ := List.mem_map.mp hin'
    obtain ⟨_, _, hentry⟩ := entryOf_reports hm
    obtain ⟨_, _, hentry'⟩ := entryOf_reports hn
    rw [hentry, hentry', h.locateAt_eq hdir, h.locateAt_eq hdir'] at heq
    exact hne (Except.ok.inj (Prod.mk.inj heq).1).symm

end Visited

namespace Survey

variable {t : Tree} {rules : Rules} {options : Options} {place : Location} {dirs : List Pending}

/-- A directory is entered if it is admitted under the name by which a listed one leads to it. -/
theorem enters (h : Survey t rules options place dirs) (ht : t.WellFormed) (hlistable : t.Listable)
    (hf : options.followLinks = true) {d : Pending} (hd : d ∈ dirs) {dir dir' : Location}
    (hl : t.locateAt d.location = .ok dir) (hresolves : t.Resolves d.location) {name : String}
    (hleads : t.Leads dir (Bytes.ofText name) dir') (hdir' : t.isDirectory dir' = true)
    (hadmits : rules.admits (d.path.child false name) = true) :
    ∃ d' ∈ dirs, t.locateAt d'.location = .ok dir' := by
  have hl' := hresolves dir (Bytes.ofText name) dir' hl hleads
  have hopens : ⟨d.location ++ [Bytes.ofText name], d.path.child false name⟩ ∈
      opens t rules options d :=
    (mem_opens_followed ht rules hf hl hleads.isDirectory).mpr
      ⟨hlistable.readable hleads.isDirectory, name, dir', rfl, hl', hdir', hadmits⟩
  have hentered := h.closed d hd _ hopens
  rw [placeOf_eq hl'] at hentered
  exact h.exists_of_mem hentered

/-- Without patterns every directory is listed that names lead to. -/
theorem covers (h : Survey t rules options place dirs) (ht : t.WellFormed) (hlistable : t.Listable)
    (hf : options.followLinks = true) (hi : rules.includes = []) (he : rules.excludes = [])
    (hresolves : ∀ d ∈ dirs, t.Resolves d.location) {names : List String} {dir : Location}
    (hthrough : t.Through place names dir) : ∃ d ∈ dirs, t.locateAt d.location = .ok dir := by
  induction hthrough with
  | root => exact h.exists_of_mem h.start
  | enter _ hleads hdir ih =>
    obtain ⟨d, hd, hl⟩ := ih
    exact h.enters ht hlistable hf hd hl (hresolves d hd) hleads hdir (by simp [Rules.admits, hi, he])

end Survey

namespace Surveyed

variable {t : Tree} {rules : Rules} {options : Options} {place : Location} {done : List Pending}
  {s : State ω} (h : Surveyed t rules options place done s)
include h

theorem visited {dirs : List Pending} (hsub : dirs.Sublist (done ++ s.queue)) : Visited t dirs := by
  constructor
  case located =>
    intro d hd
    obtain ⟨loc, hl, _⟩ := h.located d (hsub.subset hd)
    exact ⟨loc, hl⟩
  case once =>
    have hall : ((done ++ s.queue).map (placeOf t)).Nodup := h.walked ▸ h.once
    exact hall.sublist (hsub.map _)

theorem survey (hq : s.queue = []) : Survey t rules options place done := by
  have hwalked := h.walked
  rw [hq, List.append_nil] at hwalked
  constructor
  case toVisited => exact h.visited (List.sublist_append_left _ _)
  case start => exact hwalked ▸ h.start
  case closed => exact hwalked ▸ h.closed

end Surveyed

/-- What a quiet walk comes to that lists the directories `dirs`. -/
structure Recorded.Surveys (r : Step ω ε α) (t : Tree) (rules : Rules) (options : Options)
    (place : Location) (dirs : List Pending) : Prop where
  settles : r.Settles t options
  visited : Visited t dirs
  survey : ∀ a, r.result = .ok a → Survey t rules options place dirs

section Drain

variable {v : Visitor ω ε} (hv : v.Quiet) {t : Tree} (ht : t.WellFormed) (rules : Rules)
  {options : Options} (hf : options.followLinks = true) {place : Location}
include hv ht hf

/-- The limit is not used up: what it still allows and what was listed are together as many as the
directories of the tree, and no place is listed or waits twice. -/
theorem drain_surveys (limit : Nat) {s : State ω} (hw : v.tree s.world = t) {done : List Pending}
    (h : Surveyed t rules options place done s)
    (hlimit : t.directories.length ≤ limit + done.length) :
    (drain v rules options limit s).Surveys t rules options place
      (done ++ taken v rules options limit s) := by
  have hend (limit : Nat) {s : State ω} {done : List Pending}
      (h : Surveyed t rules options place done s) (hq : s.queue = []) :
      (drain v rules options limit s).Surveys t rules options place
        (done ++ taken v rules options limit s) := by
    rw [taken_nil limit hq, List.append_nil, drain_nil limit hq]
    exact ⟨.through rfl, h.visited (List.sublist_append_left _ _), fun _ _ => h.survey hq⟩
  induction limit generalizing s done with
  | zero =>
    -- As many directories were listed as there are in the tree, so none waits.
    have hroom := h.room
    exact hend 0 h (List.length_eq_zero_iff.mp (by omega))
  | succ limit ih =>
    cases hq : s.queue with
    | nil => exact hend (limit + 1) h hq
    | cons dir queue =>
      obtain ⟨loc, hl, -⟩ := h.located dir (by simp [hq])
      have htake : (takeDirectory v rules options dir { s with queue }).Settles t options :=
        takeDirectory_settles hv rules hl hw
      simp only [drain, hq]
      cases hs : (takeDirectory v rules options dir { s with queue }).result with
      | ok s₁ =>
        have hentered := takeDirectory_followed hv (s := { s with queue }) hf hw hs
        have hrest := ih hentered.tree (h.take ht hf hq hentered)
          (by rw [List.length_append, List.length_singleton]; omega)
        rw [taken_cons limit hq hs, List.append_cons]
        refine ⟨htake.andThen fun a ha => ?_, hrest.visited, fun a ha => ?_⟩
        · obtain rfl := Except.ok.inj (hs.symm.trans ha)
          exact hrest.settles
        · obtain ⟨s₂, hs₂, hresult⟩ := Recorded.andThen_result_ok ha
          obtain rfl := Except.ok.inj (hs.symm.trans hs₂)
          exact hrest.survey a hresult
      | error e =>
        rw [taken_error limit hq hs]
        refine ⟨htake.andThen fun a ha => ?_, h.visited ?_, fun a ha => ?_⟩
        · cases hs.symm.trans ha
        · rw [hq]
          exact ((List.nil_sublist queue).cons_cons dir).append_left done
        · obtain ⟨s₂, hs₂, -⟩ := Recorded.andThen_result_ok ha
          cases hs.symm.trans hs₂

end Drain

section Root

variable {v : Visitor ω ε} {t : Tree} {rules : Rules} {options : Options} {limit : Nat}
  {root : Bytes} {world : ω} {place : Location}

theorem listed_missing {e : Tree.Error} (hr : (v.tree world).locatePath root = .error e) :
    listed v rules options limit root world = [] := by
  simp only [listed, hr]

theorem listed_file (hr : (v.tree world).locatePath root = .ok place)
    (hfile : (v.tree world).isFile place = true) : listed v rules options limit root world = [] := by
  simp only [listed, hr, hfile, if_true]

theorem listed_taken (hr : (v.tree world).locatePath root = .ok place)
    (hroot : (v.tree world).isFile place = false) : listed v rules options limit root world =
      taken v rules options limit (initial world options place) := by
  simp only [listed, hr, hroot, Bool.false_eq_true, if_false]

/-- What is neither a directory nor a file is listed alone. -/
theorem survey_special (hl : (v.tree world).locateAt place = .ok place)
    (hd : (v.tree world).isDirectory place = false) (hlimit : limitFor (v.tree world) ≤ limit) :
    (drain v rules options limit (initial world options place)).Surveys (v.tree world) rules options
      place (taken v rules options limit (initial world options place)) := by
  have hchildren : children (v.tree world) options place = [] := by
    rw [children, list_special options hl hd]
  have hopens : opens (v.tree world) rules options ⟨place, .root false⟩ = [] := by
    simp [opens, hchildren, admittedDirs]
  have htaken : taken v rules options limit (initial world options place) =
      [⟨place, .root false⟩] := by
    obtain ⟨limit, rfl⟩ :=
      Nat.exists_eq_add_one.mpr (Nat.lt_of_lt_of_le (limitFor_pos _) hlimit)
    rw [taken_cons limit rfl (congrArg Recorded.result (takeDirectory_special hl hd)),
      taken_nil limit rfl]
  have hvisited : Visited (v.tree world) [⟨place, .root false⟩] :=
    ⟨by simpa using ⟨place, hl⟩, by simp⟩
  rw [drain_special hl hd hlimit, htaken]
  refine ⟨.through rfl, hvisited, fun _ _ => ?_⟩
  constructor
  case toVisited => exact hvisited
  case start => simp [placeOf, hl, Except.toOption]
  case closed => simp [hopens]

variable (rules) in
/-- A walk that follows links from anything but a file surveys what is below. -/
theorem walk_survey (hv : v.Quiet) (hw : v.tree world = t) (ht : t.WellFormed)
    (hf : options.followLinks = true) (hl : limitFor t ≤ limit)
    (hr : t.locatePath root = .ok place) (hroot : t.isFile place = false) :
    (walk v rules options limit root world).Surveys t rules options place
        (listed v rules options limit root world) ∧
      (walk v rules options limit root world).calls =
        (listed v rules options limit root world).flatMap (reports t rules options) := by
  subst hw
  have hplace := ht.locateAt_locatePath hr
  have hdrain : (drain v rules options limit (initial world options place)).Surveys (v.tree world)
      rules options place (taken v rules options limit (initial world options place)) := by
    cases hd : (v.tree world).isDirectory place with
    | false => exact survey_special hplace hd hl
    | true =>
      have hstart : Surveyed (v.tree world) rules options place [] (initial world options place) :=
        .initial world hf hplace hd
      simpa using drain_surveys hv ht rules hf limit rfl hstart hl
  have hfrom : walkFrom v rules options limit place world =
      drain v rules options limit (initial world options place) := walkFrom_drain hroot
  rw [listed_taken hr hroot, walk_calls_from hr, hfrom]
  refine ⟨⟨walk_settles_from hr (hfrom ▸ hdrain.settles), hdrain.visited, fun out hout => ?_⟩,
    drain_taken hv limit rfl⟩
  obtain ⟨s, hs, -⟩ := walk_result_from hr hout
  exact hdrain.survey s (hfrom ▸ hs)

/-- A walk that follows links comes to an end, however the links lead in circles. It lists each
directory at most once, with what it reports of it, and reports each entry of each directory at most
once; and without patterns it lists every directory that names lead to from the root, if all may be
read and the system resolves the links that it meets. -/
theorem walk_surveys (hv : v.Quiet) (hw : v.tree world = t) (ht : t.WellFormed) (rules : Rules)
    {options : Options} (hf : options.followLinks = true) (root : Bytes) (hl : limitFor t ≤ limit) :
    (walk v rules options limit root world).Settles t options ∧
    ((walk v rules options limit root world).calls.map (entryOf t)).Nodup ∧
    (∀ d ∈ listed v rules options limit root world,
      reports t rules options d ⊆ (walk v rules options limit root world).calls) ∧
    (∃ places : List Location, (listed v rules options limit root world).map
      (fun d => t.locateAt d.location) = places.map .ok ∧ places.Nodup) ∧
    (t.Listable → rules.includes = [] → rules.excludes = [] →
      (∀ d ∈ listed v rules options limit root world, t.Resolves d.location) →
      ∀ place, t.locatePath root = .ok place → ∀ names dir, t.Through place names dir →
        ∃ d ∈ listed v rules options limit root world, t.locateAt d.location = .ok dir) := by
  subst hw
  cases hr : (v.tree world).locatePath root with
  | error e =>
    have hy : (walk v rules options limit root world).Yields [] (world, {}) := walk_yields_missing hr
    rw [listed_missing hr, hy.calls]
    refine ⟨.through hy.2, List.nodup_nil, by simp, ⟨[], rfl, List.nodup_nil⟩, ?_⟩
    intro _ _ _ _ place hplace
    cases hplace
  | ok place =>
    cases hfile : (v.tree world).isFile place with
    | true =>
      obtain ⟨ns, out, hy, hlen⟩ := walk_yields_file hv rules options limit hr hfile
      rw [listed_file hr hfile, hy.calls]
      refine ⟨.through hy.2, ?_, by simp, ⟨[], rfl, List.nodup_nil⟩, ?_⟩
      · exact pairwise_of_length_le_one (by simpa using hlen) _
      · intro _ _ _ _ place' hplace names dir hthrough
        cases hplace
        exact Bool.noConfusion (hfile.symm.trans (Tree.isFile_of_isDirectory hthrough.start))
    | false =>
      obtain ⟨hsurveys, hcalls⟩ := walk_survey rules hv rfl ht hf hl hr hfile
      rw [hcalls]
      refine ⟨hsurveys.settles, hsurveys.visited.entries_nodup ht.listsOnce, fun d hd n hn => ?_,
        ⟨_, ?_, hsurveys.visited.once⟩, ?_⟩
      · exact List.mem_flatMap.mpr ⟨d, hd, hn⟩
      · rw [List.map_map]
        exact List.map_congr_left fun d hd => hsurveys.visited.locateAt_eq hd
      · intro hlistable hi he hresolves place' hplace names dir hthrough
        cases hplace
        obtain ⟨out, hy⟩ := hsurveys.settles.yields (.inr hlistable)
        exact (hsurveys.survey out hy.2).covers ht hlistable hf hi he hresolves hthrough

end Root

/-- Two directories `a` and `b` with links `l` and `m` to each other, and in `a` a file `x` and a link
`s` to `a` itself. -/
def ringed : Tree :=
  ⟨[⟨[], [0x61], .directory⟩, ⟨[], [0x62], .directory⟩, ⟨[[0x61]], [0x78], .file []⟩,
    ⟨[[0x61]], [0x6c], .link [0x2e, 0x2e, 0x2f, 0x62]⟩, ⟨[[0x61]], [0x73], .link [0x2e]⟩,
    ⟨[[0x62]], [0x6d], .link [0x2e, 0x2e, 0x2f, 0x61]⟩]⟩

def following : Options := { followLinks := true }

/-- A directory `a` with a link `l` to `b`, which may not be read. -/
def barred : Tree :=
  ⟨[⟨[], [0x61], .directory⟩, ⟨[], [0x62], .directory false⟩,
    ⟨[[0x61]], [0x6c], .link [0x2e, 0x2e, 0x2f, 0x62]⟩]⟩

theorem walk_surveys_ringed :
    observer.Quiet ∧ ringed.WellFormed ∧ following.followLinks = true ∧ limitFor ringed ≤ 3 ∧
    (walk observer {} following 3 [Path.slash, 0x61] ringed).Settles ringed following ∧
    ((walk observer {} following 3 [Path.slash, 0x61] ringed).calls.map (entryOf ringed)).Nodup ∧
    (∀ d ∈ listed observer {} following 3 [Path.slash, 0x61] ringed, reports ringed {} following d ⊆
      (walk observer {} following 3 [Path.slash, 0x61] ringed).calls) ∧
    (∃ places : List Location, (listed observer {} following 3 [Path.slash, 0x61] ringed).map
      (fun d => ringed.locateAt d.location) = places.map .ok ∧ places.Nodup) ∧
    ringed.Listable ∧
    (∀ d ∈ listed observer {} following 3 [Path.slash, 0x61] ringed, ringed.Resolves d.location) ∧
    ringed.locatePath [Path.slash, 0x61] = .ok [[0x61]] ∧ ringed.Through [[0x61]] ["l"] [[0x62]] ∧
    (∃ d ∈ listed observer {} following 3 [Path.slash, 0x61] ringed,
      ringed.locateAt d.location = .ok [[0x62]]) ∧
    barred.WellFormed ∧ limitFor barred ≤ 3 ∧
    (walk observer {} { following with onUnreadable := .abort } 3 [Path.slash, 0x61] barred).result =
      .error ⟨.unreadable [[0x61], [0x6c]] .denied, barred⟩ ∧
    ((walk observer {} { following with onUnreadable := .abort } 3 [Path.slash, 0x61] barred).calls.map
      (entryOf barred)).Nodup := by
  have ht : ringed.WellFormed := ⟨by decide, by decide⟩
  have hl : limitFor ringed ≤ 3 := by decide
  have hr : ringed.locatePath [Path.slash, 0x61] = .ok [[0x61]] := by cbv
  have ha : ringed.locateAt [[0x61]] = .ok [[0x61]] := by cbv
  have hb : ringed.locateAt [[0x61], [0x6c]] = .ok [[0x62]] := by cbv
  have hlisted : listed observer {} following 3 [Path.slash, 0x61] ringed =
      [⟨[[0x61]], ⟨[], false⟩⟩, ⟨[[0x61], [0x6c]], ⟨["l"], false⟩⟩] := by cbv
  have hresolves : ∀ d ∈ listed observer {} following 3 [Path.slash, 0x61] ringed,
      ringed.Resolves d.location := by
    rw [hlisted]
    intro d hd
    rcases List.mem_pair.mp hd with rfl | rfl
    · exact Tree.resolves_of_all ha (by cbv)
    · exact Tree.resolves_of_all hb (by cbv)
  have hleads : ringed.Leads [[0x61]] (Bytes.ofText "l") [[0x62]] :=
    Tree.leads_of_locateAt ha (by cbv)
  have hthrough : ringed.Through [[0x61]] ["l"] [[0x62]] :=
    .enter (.root (by decide)) hleads (by decide)
  have hlistable : ringed.Listable := by decide
  obtain ⟨hsettles, honce, hreports, hplaces, hcovers⟩ :=
    walk_surveys observer_quiet rfl ht {} (rfl : following.followLinks = true) [Path.slash, 0x61] hl
  have ht' : barred.WellFormed := ⟨by decide, by decide⟩
  have hl' : limitFor barred ≤ 3 := by decide
  have hstops : (walk observer {} { following with onUnreadable := .abort } 3 [Path.slash, 0x61]
      barred).result = .error ⟨.unreadable [[0x61], [0x6c]] .denied, barred⟩ := by cbv
  obtain ⟨-, honce', -⟩ := walk_surveys observer_quiet rfl ht' {}
    (rfl : { following with onUnreadable := .abort }.followLinks = true) [Path.slash, 0x61] hl'
  exact ⟨observer_quiet, ht, rfl, hl, hsettles, honce, hreports, hplaces, hlistable, hresolves, hr,
    hthrough, hcovers hlistable rfl rfl hresolves [[0x61]] hr ["l"] [[0x62]] hthrough, ht', hl', hstops,
    honce'⟩

end Fileset.Walk
