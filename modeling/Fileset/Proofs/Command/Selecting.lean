import Fileset.Proofs.Command.Call
import Fileset.Proofs.Tree.WellFormed
import Mathlib

namespace Fileset.Command

section Turns

variable {α : Type u} {each : α → Output × Option Error}

def inTurn (each : α → Output × Option Error) : List α → Output × Option Error
  | [] => ({}, none)
  | a :: as =>
    match each a with
    | (output, some e) => (output, some e)
    | (output, none) => (output.append (inTurn each as).1, (inTurn each as).2)

def Output.join (outputs : List Output) : Output :=
  ⟨String.join (outputs.map (·.out)), String.join (outputs.map (·.err))⟩

theorem Output.append_empty (a : Output) : a.append {} = a := by
  simp [Output.append]

theorem Output.join_cons (a : Output) (outputs : List Output) :
    Output.join (a :: outputs) = a.append (Output.join outputs) := by
  simp [Output.join, Output.append]

theorem Output.append_assoc (a b c : Output) : (a.append b).append c = a.append (b.append c) := by
  simp [Output.append, String.append_assoc]

theorem inTurn_done {as : List α} (h : ∀ a ∈ as, (each a).2 = none) :
    inTurn each as = (Output.join (as.map fun a => (each a).1), none) := by
  induction as with
  | nil => rfl
  | cons a as ih =>
    obtain ⟨ha, has⟩ := List.forall_mem_cons.mp h
    rw [inTurn, List.map_cons, Output.join_cons, ih has]
    split
    · rename_i heq
      rw [heq] at ha
      cases ha
    · rename_i heq
      rw [heq]

theorem inTurn_fails {front : List α} {a : α} {back : List α} {e : Error}
    (hfront : ∀ b ∈ front, (each b).2 = none) (ha : (each a).2 = some e) :
    inTurn each (front ++ a :: back) =
      ((Output.join (front.map fun a => (each a).1)).append (each a).1, some e) := by
  induction front with
  | nil =>
    rw [List.nil_append, inTurn]
    split
    · rename_i heq
      rw [heq] at ha ⊢
      cases ha
      simp [Output.join, Output.append]
    · rename_i heq
      rw [heq] at ha
      cases ha
  | cons b front ih =>
    obtain ⟨hb, hfront⟩ := List.forall_mem_cons.mp hfront
    rw [List.cons_append, inTurn, ih hfront, List.map_cons, Output.join_cons, Output.append_assoc]
    split
    · rename_i heq
      rw [heq] at hb
      cases hb
    · rename_i heq
      rw [heq]

theorem exists_first_failure {as : List α} (h : ¬∀ a ∈ as, (each a).2 = none) : ∃ front a back e,
    as = front ++ a :: back ∧ (∀ b ∈ front, (each b).2 = none) ∧ (each a).2 = some e := by
  cases hfind : as.find? fun a => (each a).2.isSome with
  | none => exact absurd (by simpa using hfind) h
  | some a =>
    obtain ⟨hfails, front, back, rfl, hfront⟩ := List.find?_eq_some_iff_append.mp hfind
    obtain ⟨e, he⟩ := Option.isSome_iff_exists.mp hfails
    exact ⟨front, a, back, e, rfl, by simpa using hfront, he⟩

end Turns

section Selections

variable {v : Voice} {home : Option String} {base : Bytes} {s : Settings} {t : Tree} {r : Request}
  {roots : List String}

/-- A root that fails has nothing to show. -/
theorem runSelect_fails {root : String} {e : Error} (h : (runSelect v home base s t [root] r).2 = some e) :
    (runSelect v home base s t [root] r).1 = {} := by
  unfold runSelect at h ⊢
  split
  · rfl
  · rfl
  · rename_i plan places hplan hplaces
    rw [hplan, hplaces] at h
    cases hexpand : Home.expand home root with
    | error e => simp [hexpand, bind, Except.bind] at hplaces
    | ok place =>
      obtain rfl : places = [place] := by
        simpa [hexpand, bind, pure, Except.bind, Except.pure, eq_comm] using hplaces
      cases hselect : plan.select t base place with
      | error e => simp [showAll, hselect]
      | ok found => simp [showAll, hselect] at h

theorem runSelect_planned {plan : Plan} (hplan : Plan.resolve s r = .ok plan)
    (hhome : ∀ root ∈ roots, ∃ place, Home.expand home root = .ok place) : ∃ places,
    roots.mapM (Home.expand home) = .ok places ∧ showAll v r (places.map (plan.select t base)) =
      inTurn (fun root => runSelect v home base s t [root] r) roots := by
  induction roots with
  | nil => exact ⟨[], rfl, rfl⟩
  | cons root roots ih =>
    obtain ⟨⟨place, hplace⟩, hhome⟩ := List.forall_mem_cons.mp hhome
    obtain ⟨places, hplaces, hshow⟩ := ih hhome
    have hroot : runSelect v home base s t [root] r = showAll v r [plan.select t base place] := by
      simp [runSelect, hplan, hplace, bind, pure, Except.bind, Except.pure]
    refine ⟨place :: places, by simp [hplace, hplaces, bind, pure, Except.bind, Except.pure], ?_⟩
    -- the plan is made once, and only what it finds under a root can be an error
    rw [inTurn, hroot, ← hshow, List.map_cons]
    cases plan.select t base place with
    | error e => rfl
    | ok found => simp only [showAll, Output.append_empty]

theorem runSelect_inTurn (hne : roots ≠ [])
    (hhome : ∀ root ∈ roots, ∃ place, Home.expand home root = .ok place) :
    runSelect v home base s t roots r =
      inTurn (fun root => runSelect v home base s t [root] r) roots := by
  cases hplan : Plan.resolve s r with
  | error e =>
    have hall : ∀ roots, runSelect v home base s t roots r = ({}, some (.selecting e)) := by
      simp [runSelect, hplan]
    obtain ⟨root, roots, rfl⟩ := List.exists_cons_of_ne_nil hne
    rw [inTurn, hall, hall]
  | ok plan =>
    obtain ⟨places, hplaces, hshow⟩ := runSelect_planned hplan hhome
    rw [← hshow, runSelect, hplan, hplaces]

end Selections

section Runs

def Environment.voice (env : Environment) (verbosity : Verbosity) : Voice := ⟨verbosity, env.colours⟩

/-- The messages of a selection, the one about its error last. -/
def Voice.messages (v : Voice) (o : Output × Option Error) : String :=
  o.1.err ++ o.2.elim "" fun e => (v.failure e).err

theorem Outcome.result_output (v : Voice) (o : Outcome) :
    (o.result v).output = ⟨o.output.out, v.messages (o.output, o.error)⟩ := by
  unfold Outcome.result Voice.messages
  cases o.error <;> simp [Output.append, Voice.failure, Output.ofMessage]

theorem Voice.messages_append (v : Voice) (a b : Output) (e : Option Error) :
    v.messages (a.append b, e) = a.err ++ v.messages (b, e) := by
  simp only [Voice.messages, Output.append, String.append_assoc]

theorem Voice.messages_done (v : Voice) {o : Output × Option Error} (h : o.2 = none) :
    v.messages o = o.1.err := by
  simp [messages, h]

theorem Voice.messages_failed (v : Voice) {o : Output × Option Error} {e : Error} (h : o.2 = some e)
    (hempty : o.1 = {}) : v.messages o = (v.failure e).err := by
  simp [messages, h, hempty]

variable {env : Environment} {front flags roots : List String} {verbosity : Verbosity} {r : Request}
  {path : Bytes} {s : Settings} {t : Tree}

def runRoots (env : Environment) (front flags : List String) (t : Tree) (roots : List String) : Result :=
  run env (selectLine front flags roots) t

/-- What a run leaves of a selection under roots: the settings are looked through before it. -/
structure Leaves (v : Voice) (t : Tree) (warnings : Output) (o : Output × Option Error) (left : Result) :
    Prop where
  tree : left.tree = t
  status : left.status = if o.2 = none then 0 else 1
  output : left.output = ⟨o.1.out, warnings.err ++ v.messages o⟩

namespace Leaves

variable {α : Type} {v : Voice} {warnings : Output} {o : Output × Option Error} {left whole : Result}
  {each : α → Output × Option Error} {alone : α → Result} {as before after : List α} {a : α} {e : Error}

theorem status_eq_zero_iff (h : Leaves v t warnings o left) : left.status = 0 ↔ o.2 = none := by
  rw [h.status]
  split <;> simp_all

theorem status_eq_one (h : Leaves v t warnings o left) (he : o.2 = some e) : left.status = 1 := by
  rw [h.status, he, if_neg (Option.some_ne_none e)]

theorem join_done (halone : ∀ a ∈ as, Leaves v t warnings (each a) (alone a))
    (hdone : ∀ a ∈ as, (each a).2 = none) : Output.join (as.map fun a => (each a).1) =
      ⟨String.join (as.map fun a => (alone a).output.out),
        String.join (as.map fun a => v.messages (each a))⟩ := by
  unfold Output.join
  rw [List.map_map, List.map_map]
  congr 2
  · exact List.map_congr_left fun a ha => by rw [(halone a ha).output]; rfl
  · exact List.map_congr_left fun a ha => (v.messages_done (hdone a ha)).symm

theorem inTurn_done (hwhole : Leaves v t warnings (inTurn each as) whole)
    (halone : ∀ a ∈ as, Leaves v t warnings (each a) (alone a)) (hdone : ∀ a ∈ as, (each a).2 = none) :
    whole.output = {
      out := String.join (as.map fun a => (alone a).output.out)
      err := warnings.err ++ String.join (as.map fun a => v.messages (each a)) } := by
  rw [Command.inTurn_done hdone, join_done halone hdone] at hwhole
  rw [hwhole.output, v.messages_done rfl]

/-- One that fails shows nothing of its own, so only its error comes behind the others. -/
theorem inTurn_fails (hwhole : Leaves v t warnings (inTurn each (before ++ a :: after)) whole)
    (halone : ∀ b ∈ before, Leaves v t warnings (each b) (alone b))
    (hdone : ∀ b ∈ before, (each b).2 = none) (he : (each a).2 = some e) (hempty : (each a).1 = {}) :
    whole.status = 1 ∧ whole.output = {
      out := String.join (before.map fun b => (alone b).output.out)
      err := warnings.err ++ String.join (before.map fun b => v.messages (each b)) ++
        v.messages (each a) } := by
  rw [Command.inTurn_fails hdone he, join_done halone hdone, hempty, Output.append_empty] at hwhole
  refine ⟨hwhole.status_eq_one rfl, ?_⟩
  rw [hwhole.output, v.messages_failed he hempty, String.append_assoc]
  rfl

end Leaves

theorem Selects.leaves (h : Selects front flags verbosity r) (hpath : settingsPath env = .ok path)
    (hload : Settings.load path t env.machine = .ok (s, t)) (hne : roots ≠ []) (hfull : ∀ root ∈ roots, root ≠ "")
    (hfollow : Follow flags roots) :
    Leaves (env.voice verbosity) t (inspect (env.voice verbosity) path t)
      (runSelect (env.voice verbosity) env.home env.directory s t roots r)
      (runRoots env front flags t roots) := by
  have hrun : runRoots env front flags t roots = Outcome.result (env.voice verbosity) {
      output := (inspect (env.voice verbosity) path t).append
        (runSelect (env.voice verbosity) env.home env.directory s t roots r).1
      error := (runSelect (env.voice verbosity) env.home env.directory s t roots r).2
      tree := t } := by
    rw [runRoots, run, h.parse?_roots hne hfull hfollow]
    simp only [runCommand, runLoaded, hpath, hload, runAction, Environment.voice]
  rw [hrun]
  refine ⟨Outcome.result_tree _ _, Outcome.result_status _ _, ?_⟩
  rw [Outcome.result_output, Voice.messages_append]
  simp [Output.append, inspect_out]

/-- To select under several roots is to select under each in turn. The program succeeds exactly when it
does for each root alone, and shows what it shows for each, one behind the other. Else it fails with the
error of the first root that it fails for alone, and shows what it shows for those before. The settings
are warned about once, and nothing is changed. -/
theorem select_in_turn (h : Selects front flags verbosity r) (hpath : settingsPath env = .ok path)
    (hload : Settings.load path t env.machine = .ok (s, t)) (hne : roots ≠ []) (hfull : ∀ root ∈ roots, root ≠ "")
    (hfollow : Follow flags roots)
    (hhome : ∀ root ∈ roots, ∃ place, Home.expand env.home root = .ok place) :
    ∃ warnings, ∃ messages : String → String, warnings = (inspect (env.voice verbosity) path t).err ∧
    (∀ root ∈ roots, (runRoots env front flags t [root]).tree = t ∧
      (runRoots env front flags t [root]).output.err = warnings ++ messages root) ∧
    (runRoots env front flags t roots).tree = t ∧
    ((runRoots env front flags t roots).status = 0 ↔
      ∀ root ∈ roots, (runRoots env front flags t [root]).status = 0) ∧
    ((runRoots env front flags t roots).status = 0 → (runRoots env front flags t roots).output = {
      out := String.join (roots.map fun root => (runRoots env front flags t [root]).output.out)
      err := warnings ++ String.join (roots.map messages) }) ∧
    ((runRoots env front flags t roots).status ≠ 0 → (runRoots env front flags t roots).status = 1 ∧
      ∃ before root after e, roots = before ++ root :: after ∧
        (∀ root ∈ before, (runRoots env front flags t [root]).status = 0) ∧
        (runRoots env front flags t [root]).status = 1 ∧
        messages root = ((env.voice verbosity).failure e).err ∧
        (runRoots env front flags t roots).output = {
          out := String.join (before.map fun root => (runRoots env front flags t [root]).output.out)
          err := warnings ++ String.join (before.map messages) ++ messages root }) := by
  have hall := h.leaves hpath hload hne hfull hfollow
  rw [runSelect_inTurn hne hhome] at hall
  have halone : ∀ root ∈ roots, Leaves (env.voice verbosity) t (inspect (env.voice verbosity) path t)
      (runSelect (env.voice verbosity) env.home env.directory s t [root] r)
      (runRoots env front flags t [root]) := by
    intro root hroot
    refine h.leaves hpath hload (List.cons_ne_nil root []) ?_ ?_
    · simpa using hfull root hroot
    · exact hfollow.imp id fun hplain => by simpa using hplain root hroot
  let each root := runSelect (env.voice verbosity) env.home env.directory s t [root] r
  have hzero : (∀ root ∈ roots, (runRoots env front flags t [root]).status = 0) ↔
      ∀ root ∈ roots, (each root).2 = none :=
    forall₂_congr fun root hroot => (halone root hroot).status_eq_zero_iff
  refine ⟨_, fun root => (env.voice verbosity).messages (each root), rfl, fun root hroot => ?_, hall.tree, ?_⟩
  · exact ⟨(halone root hroot).tree, by rw [(halone root hroot).output]⟩
  rw [hzero]
  by_cases hdone : ∀ root ∈ roots, (each root).2 = none
  · have hstatus : (runRoots env front flags t roots).status = 0 :=
      hall.status_eq_zero_iff.mpr (by rw [inTurn_done hdone])
    exact ⟨iff_of_true hstatus hdone, fun _ => hall.inTurn_done halone hdone, fun hne => absurd hstatus hne⟩
  · obtain ⟨before, root, after, e, rfl, hbefore, he⟩ := exists_first_failure hdone
    -- the failing root shows nothing, so all that is shown comes from those before it
    have hempty : (each root).1 = {} := runSelect_fails he
    have hroot := halone root (by simp)
    have halone : ∀ b ∈ before, Leaves _ t _ (each b) (runRoots env front flags t [b]) :=
      fun b hb => halone b (List.mem_append_left _ hb)
    obtain ⟨hstatus, houtput⟩ := hall.inTurn_fails halone hbefore he hempty
    have hone : (runRoots env front flags t (before ++ root :: after)).status ≠ 0 := by simp [hstatus]
    refine ⟨iff_of_false hone hdone, fun hzero => absurd hzero hone, fun _ => ⟨hstatus, ?_⟩⟩
    exact ⟨before, root, after, e, rfl, fun b hb => (halone b hb).status_eq_zero_iff.mpr (hbefore b hb),
      hroot.status_eq_one he, (env.voice verbosity).messages_failed he hempty, houtput⟩

def atTop : Environment where
  directory := [Path.slash]
  home := none
  settingsFile := some [Path.slash, 0x66]
  colours := false

/-- A pipe in the directory `a`, and a directory `b` that may not be listed. -/
def guarded : Tree :=
  ⟨[⟨[], [0x66], .file []⟩, ⟨[], [0x61], .directory⟩, ⟨[[0x61]], [0x78], .pipe⟩,
    ⟨[], [0x62], .directory false⟩]⟩

def strict : Request := { failOnUnreadable := true, noDefaultExcludes := true }

def runStrict (roots : List String) : Result :=
  runRoots atTop ["-q"] ["--fail-on-unreadable", "--no-default-excludes"] guarded roots

theorem select_in_turn_guarded : guarded.WellFormed ∧
    (runStrict ["a"]).status = 0 ∧ (runStrict ["a"]).output.out = "x\n" ∧ (runStrict ["b"]).status = 1 ∧
    (runStrict ["a", "b", "a"]).status = 1 ∧ (runStrict ["a", "b", "a"]).output.out = "x\n" := by
  have h : Selects ["-q"] ["--fail-on-unreadable", "--no-default-excludes"] .quiet strict :=
    ⟨by decide, ⟨_, rfl, rfl⟩, rfl⟩
  have hpath : settingsPath atTop = .ok [Path.slash, 0x66] := rfl
  have hload : Settings.load [Path.slash, 0x66] guarded atTop.machine =
      .ok (.initial .silent, guarded) := by cbv
  have ha : Leaves _ _ _ _ (runStrict ["a"]) :=
    h.leaves hpath hload (by decide) (by decide) (.inr (by decide))
  have hb : Leaves _ _ _ _ (runStrict ["b"]) :=
    h.leaves hpath hload (by decide) (by decide) (.inr (by decide))
  have hroots : ∀ root ∈ ["a", "b", "a"], ∃ place, Home.expand atTop.home root = .ok place := by
    simp only [List.forall_mem_cons]
    exact ⟨⟨_, rfl⟩, ⟨_, rfl⟩, ⟨_, rfl⟩, List.forall_mem_nil _⟩
  have hshows : runSelect (atTop.voice .quiet) atTop.home atTop.directory (.initial .silent) guarded ["a"]
      strict = (⟨"x\n", ""⟩, none) := by cbv
  have hstops : runSelect (atTop.voice .quiet) atTop.home atTop.directory (.initial .silent) guarded ["b"]
      strict = ({}, some (.selecting (.stopped "b" (.unreadable [[0x62]] .denied)))) := by cbv
  rw [hshows] at ha
  rw [hstops] at hb
  obtain ⟨warnings, messages, -, -, -, hzero, -, hfirst⟩ :=
    select_in_turn h hpath hload (by decide) (by decide) (.inr (by decide)) hroots
  have ha' : (runStrict ["a"]).status = 0 := ha.status
  have hb' : (runStrict ["b"]).status = 1 := hb.status
  have hout' : (runStrict ["a"]).output.out = "x\n" := by rw [ha.output]
  obtain ⟨hone, before, root, after, e, heq, hbefore, hroot, -, hout⟩ := hfirst fun hnone =>
    absurd (hb'.symm.trans (hzero.mp hnone "b" (by simp))) (by decide)
  -- "a" does not fail, so it is "b" that comes first
  obtain rfl : before = ["a"] := by
    rcases before with _ | ⟨c, _ | ⟨d, before⟩⟩
    · cases heq
      exact absurd (ha'.symm.trans hroot) (by decide)
    · cases heq
      rfl
    · obtain rfl : "b" = d := (List.cons.inj (List.cons.inj heq).2).1
      exact absurd (hb'.symm.trans (hbefore "b" (by simp))) (by decide)
  exact ⟨⟨by decide, by decide⟩, ha', hout', hb', hone, (congrArg Output.out hout).trans hout'⟩

end Runs

end Fileset.Command
