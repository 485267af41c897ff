import Fileset.Command.Run
import Fileset.Proofs.Command.Roots
import Fileset.Proofs.Settings.Valid

namespace Fileset

open Settings (Change)

def Action.change? : Action → Option Change
  | .set key value => some (.set key value)
  | .unset key => some (.unset key)
  | _ => none

namespace Command

section Parse

inductive Asked (p : Parts) : Action → Prop
  | list (h : p.words = [] ∨ p.has Known.list = true) : Asked p .list
  | get {key : String} (hwords : p.words = [key]) (hunset : p.has Known.unset = false)
    (hlist : p.has Known.list = false) : Asked p (.get key)
  | set {key value : String} (hwords : p.words = [key, value]) (hunset : p.has Known.unset = false)
    (hlist : p.has Known.list = false) : Asked p (.set key value)
  | unset {key : String} (hwords : p.words = [key]) (hunset : p.has Known.unset = true)
    (hlist : p.has Known.list = false) : Asked p (.unset key)

theorem asked_of_command? {p : Parts} {command : Command} (hfit : Topic.settings.wordsFit p.words = true)
    (h : Topic.command? p .settings = some command) : ∃ action, command = .act action ∧ Asked p action := by
  simp only [Topic.command?] at h
  split at h
  · cases h
  · rename_i hwords
    cases h
    exact ⟨_, rfl, .list (.inl hwords)⟩
  · rename_i hlist _ _
    cases h
    exact ⟨_, rfl, .list (.inr hlist)⟩
  · rename_i key more hnone hwords hunset hlist
    cases h
    cases more with
    | nil => exact ⟨_, rfl, .unset hwords hunset hlist⟩
    | cons value more => exact (hnone value more rfl).elim
  · rename_i hwords hunset hlist
    cases h
    exact ⟨_, rfl, .get hwords hunset hlist⟩
  · rename_i key value more hwords hunset hlist
    cases h
    cases more with
    | nil => exact ⟨_, rfl, .set hwords hunset hlist⟩
    | cons third more =>
      rw [hwords] at hfit
      simp [Topic.wordsFit] at hfit

/-- Behind the name of the settings a line is refused, or asks for help, or for what its parts ask. -/
theorem parseTopic_settings (front : Parts) (arguments : List String) :
    parseTopic front .settings arguments = none ∨ parseTopic front .settings arguments = some .help ∨
    ∃ v action p, parseTopic front .settings arguments = some (.run v (.act action)) ∧
      Parts.read? (Topic.settings.options ++ Known.everywhere) arguments = some p ∧ Asked p action := by
  unfold parseTopic
  cases Parts.read? (Topic.settings.options ++ Known.everywhere) arguments with
  | none => exact .inl rfl
  | some back =>
    simp only [bind, Option.bind_some]
    split
    · exact .inl rfl
    · rename_i hfit
      split
      · exact .inr (.inl rfl)
      · split
        · exact .inl rfl
        · cases hcommand : Topic.command? back .settings with
          | none => exact .inl rfl
          | some command =>
            obtain ⟨action, rfl, hasked⟩ := asked_of_command? (by simpa using hfit) hcommand
            exact .inr (.inr ⟨_, action, back, rfl, rfl, hasked⟩)

def OnTopic (arguments rest : List String) : Prop :=
  ∃ leading, arguments = leading ++ "config" :: rest ∧ ∀ a ∈ leading, isDashed a = true

theorem parse?_settings {arguments rest : List String} (h : OnTopic arguments rest) :
    (parse? arguments = none ∨ parse? arguments = some .help ∨ parse? arguments = some .version) ∨
    ∃ v action p, parse? arguments = some (.run v (.act action)) ∧
      Parts.read? (Topic.settings.options ++ Known.everywhere) rest = some p ∧ Asked p action := by
  obtain ⟨leading, rfl, hleading⟩ := h
  rw [parse?_topic hleading rfl]
  cases Parts.read? (Known.version :: Known.everywhere) leading with
  | none => exact .inl (.inl rfl)
  | some front =>
    rw [Option.bind_some]
    split
    · exact .inl (.inr (.inl rfl))
    · split
      · exact .inl (.inr (.inr rfl))
      · split
        · exact .inl (.inl rfl)
        · rcases parseTopic_settings front rest with hnone | hhelp | hrun
          · exact .inl (.inl hnone)
          · exact .inl (.inr (.inl hhelp))
          · exact .inr hrun

end Parse

section Output

variable (v : Voice)

theorem showWarnings_out (ws : List Settings.Warning) : (showWarnings v ws).out = "" := by
  cases ws <;> rfl

theorem inspect_out (path : Bytes) (t : Tree) : (inspect v path t).out = "" := by
  unfold inspect
  split
  · rfl
  · split
    · exact showWarnings_out v _
    · rfl

theorem Outcome.result_tree (o : Outcome) : (o.result v).tree = o.tree := by
  unfold Outcome.result
  cases o.error <;> rfl

def Outcome.status (o : Outcome) : Nat := if o.error = none then 0 else 1

theorem Outcome.result_status (o : Outcome) : (o.result v).status = o.status := by
  unfold Outcome.result Outcome.status
  cases o.error <;> rfl

end Output

section Saving

variable {s : Settings} {path : Bytes} {t t' : Tree} {v : Voice} {success : String}

theorem store_unsaved {e : Settings.File.Error} (h : s.save path t = .error e) :
    store v path t (.ok s) success = { error := some (.saving e), tree := t } := by
  simp only [store, h]

theorem store_saved (h : s.save path t = .ok t') :
    store v path t (.ok s) success = { output := v.success success, tree := t' } := by
  simp only [store, h]

end Saving

theorem runAction_change {action : Action} {change : Change} (h : action.change? = some change)
    (env : Environment) (v : Voice) (path : Bytes) (s : Settings) (t : Tree) :
    ∃ success, runAction env v path s t action = store v path t (change.apply env.machine s) success := by
  cases action with
  | set key value =>
    cases h
    exact ⟨_, rfl⟩
  | unset key =>
    cases h
    exact ⟨_, rfl⟩
  | select roots request => cases h
  | list => cases h
  | get key => cases h

structure Call where
  env : Environment
  arguments : List String

namespace Call

def run (c : Call) (t : Tree) : Result := Command.run c.env c.arguments t

/-- What is asked for once the settings are loaded; nothing by a line that makes no sense or asks for
help. -/
def action? (c : Call) : Option Action :=
  match parse? c.arguments with
  | some (.run _ (.act action)) => some action
  | _ => none

def change? (c : Call) : Option Change := c.action?.bind Action.change?

structure OnSettings (c : Call) (machine : Machine) (path : Bytes) : Prop where
  topic : ∃ rest, OnTopic c.arguments rest
  place : settingsPath c.env = .ok path
  host : c.env.machine = machine

variable {c : Call} {machine : Machine} {path : Bytes} {t t' : Tree} {s s' : Settings}

def Asks (c : Call) (action : Action) : Prop :=
  ∃ rest p, OnTopic c.arguments rest ∧
    Parts.read? (Topic.settings.options ++ Known.everywhere) rest = some p ∧ Asked p action

theorem OnSettings.asks (h : c.OnSettings machine path) {action : Action} (haction : c.action? = some action) :
    c.Asks action := by
  obtain ⟨rest, htopic⟩ := h.topic
  unfold action? at haction
  rcases parse?_settings htopic with (hparse | hparse | hparse) | ⟨v, action', p, hparse, hread, hasked⟩
  all_goals rw [hparse] at haction; cases haction
  exact ⟨rest, p, htopic, hread, hasked⟩

/-- A call without an action does nothing at all. -/
theorem OnSettings.idle (h : c.OnSettings machine path) (hidle : c.action? = none) (t : Tree) :
    (c.run t).tree = t ∧ (c.run t).status = if parse? c.arguments = none then 2 else 0 := by
  obtain ⟨rest, htopic⟩ := h.topic
  unfold action? at hidle
  unfold run Command.run
  rcases parse?_settings htopic with (hparse | hparse | hparse) | ⟨v, action, p, hparse, -⟩
  all_goals rw [hparse] at hidle ⊢
  · exact ⟨rfl, rfl⟩
  · exact ⟨rfl, rfl⟩
  · exact ⟨rfl, rfl⟩
  · cases hidle

theorem run_action {action : Action} (h : c.action? = some action) :
    ∃ v, v.colours = c.env.colours ∧ ∀ t, c.run t = (runLoaded c.env v action t).result v := by
  unfold action? at h
  split at h
  · rename_i verbosity action' hparse
    cases h
    refine ⟨⟨verbosity, c.env.colours⟩, rfl, fun t => ?_⟩
    rw [run, Command.run, hparse]
    rfl
  · cases h

structure Fails (c : Call) (t : Tree) : Prop where
  tree : (c.run t).tree = t
  idle : c.action? = none → (c.run t).status = if parse? c.arguments = none then 2 else 0
  fails : c.action? ≠ none → (c.run t).status = 1

theorem OnSettings.fails (h : c.OnSettings machine path) {e : Settings.File.Error}
    (hload : Settings.load path t machine = .error e) : c.Fails t := by
  cases haction : c.action? with
  | none =>
    obtain ⟨htree, hstatus⟩ := h.idle haction t
    exact ⟨htree, fun _ => hstatus, fun hsome => absurd haction hsome⟩
  | some action =>
    obtain ⟨v, -, hrun⟩ := run_action haction
    have hresult : (c.run t).tree = t ∧ (c.run t).status = 1 := by
      rw [hrun, runLoaded, h.place, h.host]
      simp only [hload]
      exact ⟨rfl, rfl⟩
    exact ⟨hresult.1, fun hnone => absurd (haction.symm.trans hnone) nofun, fun _ => hresult.2⟩

/-- Where the settings are loaded, the action is run on them, and warnings about them are no result. -/
theorem OnSettings.loaded (h : c.OnSettings machine path) {action : Action} (haction : c.action? = some action)
    (hload : Settings.load path t machine = .ok (s, t')) :
    ∃ v, v.colours = c.env.colours ∧
      (c.run t).tree = (runAction c.env v path s t' action).tree ∧
      (c.run t).status = (runAction c.env v path s t' action).status ∧
      ((runAction c.env v path s t' action).error = none →
        (c.run t).output.out = (runAction c.env v path s t' action).output.out) := by
  obtain ⟨v, hcolours, hrun⟩ := run_action haction
  refine ⟨v, hcolours, ?_⟩
  rw [hrun, runLoaded, h.place, h.host]
  simp only [hload]
  rw [Outcome.result_tree, Outcome.result_status]
  refine ⟨rfl, rfl, fun hnone => ?_⟩
  simp [Outcome.result, hnone, Output.append, inspect_out]

end Call

end Command
end Fileset
