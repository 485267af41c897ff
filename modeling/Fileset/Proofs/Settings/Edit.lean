import Fileset.Proofs.Settings.Commas
import Fileset.Proofs.Settings.InPlace
import Fileset.Proofs.Settings.Key
import Fileset.Proofs.Settings.Valid

namespace Fileset.Settings

namespace Key

/-- The settings without what the key names: a single setting has its default, and there is no set of
the name. -/
def forget (s : Settings) : Key → Settings
  | .caseSensitive => { s with caseSensitive := ({} : Settings).caseSensitive }
  | .followLinks => { s with walk := { s.walk with followLinks := ({} : Walk.Options).followLinks } }
  | .sorted => { s with walk := { s.walk with sorted := ({} : Walk.Options).sorted } }
  | .onUnreadable => { s with walk := { s.walk with onUnreadable := ({} : Walk.Options).onUnreadable } }
  | .defaultExcludes => { s with defaultExcludes := ({} : Settings).defaultExcludes }
  | .threads => { s with threads := ({} : Settings).threads }
  | .patterns name _ | .whole name => { s with sets := s.sets.erase name }

def Accepts (value : String) : Key → Prop
  | .onUnreadable => value = "skip" ∨ value = "abort"
  | .threads => ∃ n, Text.Natural.Denotes value.toList n ∧ 0 < n ∧ n < threadLimit
  | .patterns _ _ => ∀ raw ∈ splitPatterns value, Pattern.Accepted raw
  | .whole _ => False
  | _ => value = "true" ∨ value = "false"

/-- The text that a value is shown as, once it is given to the setting: a number without a sign and
without zeros in front, patterns with a comma and nothing else between them, all else as it is. -/
def Shows (value shown : String) : Key → Prop
  | .threads => ∃ n, Text.Natural.Denotes value.toList n ∧ shown = n.repr
  | .patterns _ _ => shown = ",".intercalate (splitPatterns value)
  | _ => shown = value

structure Given (key : Key) (text value : String) (s s' : Settings) : Prop where
  same : key.forget s' = key.forget s
  side : ∀ name side, key = .patterns name side → s'.patternSet? name =
    some (((s.patternSet? name).getD {}).setSide (splitPatterns value) side)
  shown : ∃ shown, key.Shows value shown ∧ s'.get? text = some shown ∧ s'.set text shown = .ok s'

structure TakenBack (key : Key) (machine : Machine) (s s' : Settings) : Prop where
  same : key.forget s' = key.forget s
  default : key.set? = none → s'.getAt key = (initial machine).getAt key
  side : ∀ name side, key = .patterns name side → ∃ set, s.patternSet? name = some set ∧
    s'.patternSet? name = some (set.setSide [] side)
  whole : ∀ name, key = .whole name → (s.patternSet? name).isSome = true ∧ s'.patternSet? name = none

end Key

section Values

variable {value : String}

theorem parseBool_iff {b : Bool} : parseBool value = .ok b ↔ value = boolText b := by
  unfold parseBool
  split
  · rename_i h
    subst h
    cases b <;> simp [boolText]
  · split
    · rename_i h
      subst h
      cases b <;> simp [boolText]
    · rename_i htrue hfalse
      cases b <;> simp [boolText, htrue, hfalse]

theorem parsePolicy_iff {p : Walk.OnUnreadable} : parsePolicy value = .ok p ↔ value = p.name := by
  unfold parsePolicy
  split
  · rename_i h
    subst h
    cases p <;> simp [Walk.OnUnreadable.name]
  · split
    · rename_i h
      subst h
      cases p <;> simp [Walk.OnUnreadable.name]
    · rename_i hskip habort
      cases p <;> simp [Walk.OnUnreadable.name, hskip, habort]

/-- Whether a setting takes a value does not depend on the other settings. -/
theorem setAt_isOk_iff (s : Settings) (text value : String) (key : Key) :
    (∃ s', s.setAt text value (some key) = .ok s') ↔ key.Accepts value := by
  have hmap {α : Type} {r : Except Error α} {f : α → Settings} :
      (∃ s', r.map f = .ok s') ↔ ∃ a, r = .ok a := by
    cases r <;> simp [Except.map]
  have hbool : (∃ b, parseBool value = .ok b) ↔ value = "true" ∨ value = "false" := by
    simp only [parseBool_iff, Bool.exists_bool, boolText]
    tauto
  cases key with
  | threads => simp only [setAt, hmap, parseThreads_iff, Key.Accepts]
  | onUnreadable =>
    simp only [setAt, hmap, parsePolicy_iff, Key.Accepts]
    constructor
    · rintro ⟨_ | _, rfl⟩
      · exact .inl rfl
      · exact .inr rfl
    · rintro (rfl | rfl)
      · exact ⟨.skip, rfl⟩
      · exact ⟨.abort, rfl⟩
  | patterns name side =>
    simp only [setAt, hmap, Key.Accepts]
    rw [← checkPatterns_iff name]
    exact ⟨fun ⟨_, h⟩ => h, fun h => ⟨(), h⟩⟩
  | whole name => simp [setAt, Key.Accepts]
  | _ => simp only [setAt, hmap, hbool, Key.Accepts]

end Values

section Sets

theorem side_setSide (set : PatternSet) (raws : List String) (side : Side) :
    (set.setSide raws side).side side = raws := by
  cases side <;> rfl

theorem setSide_setSide (set : PatternSet) (raws raws' : List String) (side : Side) :
    (set.setSide raws' side).setSide raws side = set.setSide raws side := by
  cases side <;> rfl

variable (s : Settings) (name : String) (side : Side) (raws : List String)

theorem patternSet?_setPatterns : (s.setPatterns name side raws).patternSet? name =
    some (((s.patternSet? name).getD {}).setSide raws side) := by
  simp [patternSet?, setPatterns, NameMap.get?_put]

theorem setPatterns_setPatterns (raws' : List String) :
    (s.setPatterns name side raws').setPatterns name side raws = s.setPatterns name side raws := by
  rw [setPatterns, patternSet?_setPatterns, Option.getD_some, setSide_setSide]
  simp only [setPatterns, NameMap.put_put]

theorem forget_setPatterns (side' : Side) :
    (Key.patterns name side').forget (s.setPatterns name side raws) = (Key.patterns name side').forget s := by
  simp only [Key.forget, setPatterns, NameMap.erase_put]

end Sets

section Changes

variable {machine : Machine} {s s' : Settings} {text value : String} {key : Key}

theorem set_of_parse (hkey : Key.parse? text = some key) :
    s.set text value = s.setAt text value (some key) := by
  rw [Settings.set, hkey]

theorem setAt_given (hkey : Key.parse? text = some key) (h : s.setAt text value (some key) = .ok s') :
    key.Given text value s s' := by
  have hshown {shown : String} (hget : s'.getAt key = some shown)
      (hagain : s'.setAt text shown (some key) = .ok s') :
      s'.get? text = some shown ∧ s'.set text shown = .ok s' := by
    rw [get?, set_of_parse hkey, hkey]
    exact ⟨hget, hagain⟩
  cases key with
  | patterns name side =>
    obtain ⟨_, hc, rfl⟩ := map_eq_ok.mp h
    refine ⟨forget_setPatterns s name side _ side, ?_, _, rfl, hshown ?_ ?_⟩
    · rintro _ _ ⟨⟩
      exact patternSet?_setPatterns s name side _
    · rw [getAt, patternSet?_setPatterns, Option.map_some, side_setSide]
    · rw [setAt, splitPatterns_again, hc]
      exact congrArg Except.ok (setPatterns_setPatterns s name side _ _)
  | threads =>
    obtain ⟨n, hn, rfl⟩ := map_eq_ok.mp h
    obtain ⟨hdenotes, hpos, hlt⟩ := parseThreads_iff.mp hn
    have hagain : parseThreads n.repr = .ok n :=
      parseThreads_iff.mpr ⟨.inl (Text.Natural.digits_repr n), hpos, hlt⟩
    exact ⟨rfl, nofun, _, ⟨n, hdenotes, rfl⟩, hshown rfl (map_eq_ok.mpr ⟨n, hagain, rfl⟩)⟩
  | onUnreadable =>
    obtain ⟨p, hp, rfl⟩ := map_eq_ok.mp h
    obtain rfl := parsePolicy_iff.mp hp
    exact ⟨rfl, nofun, _, rfl, hshown rfl (map_eq_ok.mpr ⟨p, hp, rfl⟩)⟩
  | whole name => cases h
  -- The other keys hold a truth value.
  | _ =>
    obtain ⟨b, hb, rfl⟩ := map_eq_ok.mp h
    obtain rfl := parseBool_iff.mp hb
    exact ⟨rfl, nofun, _, rfl, hshown rfl (map_eq_ok.mpr ⟨b, hb, rfl⟩)⟩

theorem Key.TakenBack.single (hsingle : key.set? = none) (hsame : key.forget s' = key.forget s)
    (hdefault : s'.getAt key = (initial machine).getAt key) : key.TakenBack machine s s' := by
  refine ⟨hsame, fun _ => hdefault, ?_, ?_⟩
  · rintro name side rfl
    cases hsingle
  · rintro name rfl
    cases hsingle

theorem unsetAt_takenBack (h : s.unsetAt text machine (some key) = .ok s') :
    key.TakenBack machine s s' := by
  cases key with
  | patterns name side =>
    simp only [unsetAt] at h
    split at h
    · rename_i hthere
      obtain ⟨set, hset⟩ := Option.isSome_iff_exists.mp hthere
      cases h
      refine ⟨forget_setPatterns s name side _ side, nofun, ?_, nofun⟩
      rintro _ _ ⟨⟩
      exact ⟨set, hset, by rw [patternSet?_setPatterns, hset, Option.getD_some]⟩
    · cases h
  | whole name =>
    simp only [unsetAt] at h
    split at h
    · rename_i hthere
      cases h
      refine ⟨by simp only [Key.forget, NameMap.erase_erase], nofun, nofun, ?_⟩
      rintro _ ⟨⟩
      exact ⟨hthere, by simp [patternSet?, NameMap.get?_erase]⟩
    · cases h
  | _ =>
    cases h
    exact .single rfl rfl rfl

/-- What is taken back is a single setting, or belongs to a set that is there. -/
theorem unsetAt_isOk_iff (s : Settings) (text : String) (machine : Machine) (key : Key) :
    (∃ s', s.unsetAt text machine (some key) = .ok s') ↔
      ∀ name ∈ key.set?, (s.patternSet? name).isSome = true := by
  cases key with
  | patterns name side =>
    by_cases hthere : (s.patternSet? name).isSome = true <;> simp [unsetAt, Key.set?, hthere]
  | whole name =>
    by_cases hthere : (s.patternSet? name).isSome = true <;> simp [unsetAt, Key.set?, hthere]
  | _ => simp [unsetAt, Key.set?]

end Changes

/-- What it is to give the value to the key, in steps and at once. -/
structure LawfulSet (s : Settings) (key value : String) : Prop where
  accepts : (∃ s', s.set key value = .ok s') ↔ ∃ k : Key, k.WrittenAs key ∧ k.Accepts value
  agrees : ∀ s', (InPlace.set key value).run s = .ok () s' ↔ s.set key value = .ok s'
  refused : ∀ e s', (InPlace.set key value).run s = .error e s' → s' = s ∧ s.set key value = .error e
  given : ∀ s', s.set key value = .ok s' → ∃ k : Key, k.WrittenAs key ∧ k.Given key value s s'

structure LawfulUnset (machine : Machine) (s : Settings) (key : String) : Prop where
  accepts : (∃ s', s.unset key machine = .ok s') ↔ ∃ k : Key, k.WrittenAs key ∧
    ∀ name ∈ k.set?, (s.patternSet? name).isSome = true
  agrees : ∀ s', (InPlace.unset key machine).run s = .ok () s' ↔ s.unset key machine = .ok s'
  refused : ∀ e s', (InPlace.unset key machine).run s = .error e s' →
    s' = s ∧ s.unset key machine = .error e
  takenBack : ∀ s', s.unset key machine = .ok s' → ∃ k : Key, k.WrittenAs key ∧
    k.TakenBack machine s s'

theorem lawfulSet (s : Settings) (key value : String) : LawfulSet s key value where
  accepts := by
    simp only [← Key.parse?_iff, Settings.set]
    cases hkey : Key.parse? key with
    | none => simp [setAt]
    | some k => simp [setAt_isOk_iff]
  agrees s' := by
    rw [InPlace.run_set, InPlace.outcome_ok_iff]
  refused e s' h := by
    rw [InPlace.run_set] at h
    exact InPlace.eq_of_outcome_error h
  given s' h := by
    cases hkey : Key.parse? key with
    | none =>
      rw [Settings.set, hkey] at h
      cases h
    | some k => exact ⟨k, Key.parse?_iff.mp hkey, setAt_given hkey (set_of_parse hkey ▸ h)⟩

theorem lawfulUnset (machine : Machine) (s : Settings) (key : String) : LawfulUnset machine s key where
  accepts := by
    simp only [← Key.parse?_iff, Settings.unset]
    cases hkey : Key.parse? key with
    | none => simp [unsetAt]
    | some k => simp [unsetAt_isOk_iff]
  agrees s' := by
    rw [InPlace.run_unset, InPlace.outcome_ok_iff]
  refused e s' h := by
    rw [InPlace.run_unset] at h
    exact InPlace.eq_of_outcome_error h
  takenBack s' h := by
    rw [Settings.unset] at h
    cases hkey : Key.parse? key with
    | none =>
      rw [hkey] at h
      cases h
    | some k =>
      rw [hkey] at h
      exact ⟨k, Key.parse?_iff.mp hkey, unsetAt_takenBack h⟩

/-- A change is made as a whole or not at all, what was set is read back in one spelling that sets the
same again, what is taken back gets the default of the machine, and all else stays. -/
theorem changes_lawful (s : Settings) (key : String) :
    (∀ value, LawfulSet s key value) ∧ ∀ machine, LawfulUnset machine s key :=
  ⟨lawfulSet s key, fun machine => lawfulUnset machine s key⟩

end Fileset.Settings
