import Fileset.Proofs.NameMap
import Fileset.Settings.InPlace

namespace Fileset.Settings.InPlace

def outcome (s : Settings) : Except Error Settings → EStateM.Result Error Settings Unit
  | .ok s' => .ok () s'
  | .error e => .error e s

theorem run_ofExcept_bind {α β : Type} (r : Except Error α) (next : α → Steps β) (s : Settings) :
    (ofExcept r >>= next).run s = match r with
      | .ok a => (next a).run s
      | .error e => .error e s := by
  cases r <;> rfl

/-- A set that was provided before is filled as one that was there. -/
theorem run_provide_bind (s : Settings) (name : String) (side : Side) (raws : List String) :
    (provide name >>= fun _ => modify fun s => s.setPatterns name side raws).run s =
      .ok () (s.setPatterns name side raws) := by
  change EStateM.Result.ok () _ = _
  simp only [setPatterns, patternSet?, NameMap.get?_put, NameMap.put_put, if_true, Option.getD_some]

theorem eq_of_outcome_error {s s' : Settings} {r : Except Error Settings} {e : Error}
    (h : outcome s r = .error e s') : s' = s ∧ r = .error e := by
  cases r with
  | ok => cases h
  | error =>
    cases h
    exact ⟨rfl, rfl⟩

theorem outcome_ok_iff {s s' : Settings} {r : Except Error Settings} :
    outcome s r = .ok () s' ↔ r = .ok s' := by
  cases r <;> simp [outcome]

theorem run_set (s : Settings) (key value : String) :
    (InPlace.set key value).run s = outcome s (s.set key value) := by
  unfold InPlace.set Settings.set InPlace.setAt Settings.setAt
  cases Key.parse? key with
  | none => rfl
  | some k =>
    cases k with
    | patterns name side =>
      simp only [run_ofExcept_bind]
      cases checkPatterns name (splitPatterns value) with
      | error e => rfl
      | ok _ => exact run_provide_bind s name side _
    | threads =>
      rw [run_ofExcept_bind]
      cases parseThreads value <;> rfl
    | onUnreadable =>
      rw [run_ofExcept_bind]
      cases parsePolicy value <;> rfl
    | whole name => rfl
    -- The other keys hold a truth value.
    | _ =>
      rw [run_ofExcept_bind]
      cases parseBool value <;> rfl

theorem run_get_bind {α : Type} (next : Settings → Steps α) (s : Settings) :
    (get >>= next).run s = (next s).run s :=
  rfl

/-- The set is gone before it is known whether there was one. -/
theorem run_take_bind {α : Type} (name : String) (next : Bool → Steps α) (s : Settings) :
    (take name >>= next).run s =
      (next (s.patternSet? name).isSome).run { s with sets := s.sets.erase name } :=
  rfl

theorem run_unset (s : Settings) (key : String) (machine : Machine) :
    (InPlace.unset key machine).run s = outcome s (s.unset key machine) := by
  unfold InPlace.unset Settings.unset InPlace.unsetAt Settings.unsetAt
  cases Key.parse? key with
  | none => rfl
  | some k =>
    cases k with
    | patterns name side =>
      simp only [run_get_bind]
      split <;> rfl
    | whole name =>
      simp only [run_take_bind]
      split
      · rfl
      · rename_i hmissing
        have hnone : s.patternSet? name = none := by simpa using hmissing
        rw [NameMap.erase_eq_self hnone]
        rfl
    | _ => rfl

end Fileset.Settings.InPlace
