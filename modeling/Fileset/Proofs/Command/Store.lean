import Fileset.Proofs.Command.Call
import Fileset.Proofs.Settings.File

namespace Fileset.Command

open Settings (Change)

structure Holds (machine : Machine) (path : Bytes) (t : Tree) (s : Settings) : Prop where
  valid : s.Valid
  writable : t.Writable path
  loads : Settings.load path t machine = .ok (s, t)

section Store

variable {machine : Machine} {path : Bytes} {t t' : Tree} {s s' : Settings}

theorem holds_of_save (machine : Machine) (hs : s.Valid) (hw : t.Writable path) :
    ∃ t', s.save path t = .ok t' ∧ Holds machine path t' s := by
  obtain ⟨t', hsave, hstores⟩ := Settings.save_stores s hw
  refine ⟨t', hsave, hs, hstores.writable, ?_⟩
  rw [Settings.load_stores hstores, hs.ofBytes_write]
  rfl

namespace Call.OnSettings

variable {c : Call} (h : c.OnSettings machine path) (hload : Settings.load path t machine = .ok (s, t'))
include h hload

/-- A change is made to the settings that were loaded, and what comes out is saved. -/
theorem stores {change : Change} (hc : c.change? = some change) : ∃ v success,
    (c.run t).tree = (store v path t' (change.apply machine s) success).tree ∧
    (c.run t).status = (store v path t' (change.apply machine s) success).status := by
  obtain ⟨action, haction, hc⟩ := Option.bind_eq_some_iff.mp hc
  obtain ⟨v, -, htree, hstatus, -⟩ := h.loaded haction hload
  obtain ⟨success, hstore⟩ := runAction_change hc c.env v path s t'
  rw [hstore, h.host] at htree hstatus
  exact ⟨v, success, htree, hstatus⟩

theorem refused {change : Change} {e : Settings.Error} (hc : c.change? = some change)
    (he : change.apply machine s = .error e) : (c.run t).tree = t' ∧ (c.run t).status = 1 := by
  obtain ⟨v, success, htree, hstatus⟩ := h.stores hload hc
  rw [he] at htree hstatus
  exact ⟨htree, hstatus⟩

theorem changed (hholds : Holds machine path t' s) {change : Change} (hc : c.change? = some change)
    (hs' : change.apply machine s = .ok s') : Holds machine path (c.run t).tree s' ∧ (c.run t).status = 0 := by
  obtain ⟨v, success, htree, hstatus⟩ := h.stores hload hc
  obtain ⟨t'', hsave, hholds'⟩ := holds_of_save machine (hholds.valid.apply hs') hholds.writable
  rw [hs', store_saved hsave] at htree hstatus
  exact ⟨htree ▸ hholds', hstatus⟩

end Call.OnSettings

/-- Between the trees nothing has changed, unless the file was missing and was made with the defaults. -/
def OnlyMade (machine : Machine) (path : Bytes) (t t' : Tree) : Prop :=
  t' = t ∨ t.existsAt path = false ∧ (Settings.initial machine).save path t = .ok t'

theorem onlyMade_of_load (hload : Settings.load path t machine = .ok (s, t')) : OnlyMade machine path t t' := by
  unfold Settings.load at hload
  split at hload
  · obtain ⟨_, -, heq⟩ := Settings.map_eq_ok.mp hload
    cases heq
    exact .inl rfl
  · rename_i hmissing
    obtain ⟨_, hsave, heq⟩ := Settings.map_eq_ok.mp hload
    cases heq
    exact .inr ⟨by simpa using hmissing, hsave⟩

/-- A change goes all the way, from loading to saving, or the run fails and has changed nothing. -/
def Call.AllOrNothing (c : Call) (machine : Machine) (path : Bytes) (t : Tree) : Prop :=
  ∀ change, c.change? = some change →
    ((c.run t).status = 0 ∧ ∃ s t' s', Settings.load path t machine = .ok (s, t') ∧ change.apply machine s = .ok s' ∧
      s'.save path t' = .ok (c.run t).tree) ∨
    (c.run t).status = 1 ∧ OnlyMade machine path t (c.run t).tree

theorem Call.OnSettings.allOrNothing {c : Call} (h : c.OnSettings machine path) (t : Tree) :
    c.AllOrNothing machine path t := by
  intro change hc
  cases hload : Settings.load path t machine with
  | error e =>
    have hfails := h.fails hload
    refine .inr ⟨hfails.fails ?_, .inl hfails.tree⟩
    intro hidle
    rw [Call.change?, hidle] at hc
    cases hc
  | ok loaded =>
    obtain ⟨s, t'⟩ := loaded
    have hmade := onlyMade_of_load hload
    obtain ⟨v, success, htree, hstatus⟩ := h.stores hload hc
    cases happly : change.apply machine s with
    | error e =>
      obtain ⟨htree, hstatus⟩ := h.refused hload hc happly
      exact .inr ⟨hstatus, by rw [htree]; exact hmade⟩
    | ok s' =>
      cases hsave : s'.save path t' with
      | error e =>
        rw [happly, store_unsaved hsave] at htree hstatus
        exact .inr ⟨hstatus, by rw [htree]; exact hmade⟩
      | ok t'' =>
        rw [happly, store_saved hsave] at htree hstatus
        exact .inl ⟨hstatus, s, t', s', rfl, happly, by rw [htree]; exact hsave⟩

end Store

end Fileset.Command
