import Fileset.Proofs.Settings.Edit

namespace Fileset.Settings

def patternsOf (s : Settings) : Key → List String
  | .patterns name side => ((s.patternSet? name).map fun set => set.side side).getD []
  | _ => []

variable {s : Settings} {name v : String}

theorem patternsOf_patterns {set : PatternSet} (hset : s.patternSet? name = some set) (side : Side) :
    s.patternsOf (.patterns name side) = set.side side := by
  simp [patternsOf, hset]

theorem setSide_side (set : PatternSet) (side : Side) : set.setSide (set.side side) side = set := by
  cases side <;> rfl

theorem setPatterns_eq_self_iff {set : PatternSet} (hset : s.patternSet? name = some set) {side : Side}
    {raws : List String} : s.setPatterns name side raws = s ↔ raws = set.side side := by
  constructor
  · intro hsame
    have hread := patternSet?_setPatterns s name side raws
    rw [hsame, hset, Option.getD_some, Option.some_inj] at hread
    rw [hread, side_setSide]
  · rintro rfl
    have hput : s.sets.put name set = s.sets := NameMap.put_get? hset
    rw [setPatterns, hset, Option.getD_some, setSide_side, hput]

/-- A pattern that compiles is not empty. -/
theorem tidy_iff_of_accepted {raw : String} (h : Pattern.Accepted raw) :
    Tidy raw ↔ ',' ∉ raw.toList ∧ (∀ c ∈ raw.toList.head?, Text.isBlank c = false) ∧
      ∀ c ∈ raw.toList.getLast?, Text.isBlank c = false := by
  rw [← Text.trim_eq_self_iff]
  refine ⟨fun ht => ⟨ht.whole, ht.trimmed⟩, fun ⟨hwhole, htrimmed⟩ => ⟨?_, hwhole, htrimmed⟩⟩
  rintro rfl
  obtain ⟨segments, hn⟩ := h
  cases hn

theorem Valid.accepted_of_mem (h : s.Valid) {key : Key} :
    ∀ raw ∈ s.patternsOf key, Pattern.Accepted raw := by
  intro raw hraw
  cases key with
  | patterns name side =>
    cases hset : s.patternSet? name with
    | none => simp [patternsOf, hset] at hraw
    | some set =>
      rw [patternsOf_patterns hset] at hraw
      exact h.patternSet? hset side raw hraw
  | _ => cases hraw

theorem Valid.setAt_getAt (h : s.Valid) {key : Key} (hget : s.getAt key = some v) (text : String) :
    s.setAt text v (some key) = .ok s ↔ ∀ raw ∈ s.patternsOf key, Tidy raw := by
  cases key with
  | patterns name side =>
    obtain ⟨set, hset, rfl⟩ := Option.map_eq_some_iff.mp hget
    rw [patternsOf_patterns hset, ← splitPatterns_intercalate_iff]
    constructor
    · intro hs
      obtain ⟨_, _, hsame⟩ := map_eq_ok.mp hs
      exact (setPatterns_eq_self_iff hset).mp hsame
    · intro hsplit
      have hc : checkPatterns name (splitPatterns (",".intercalate (set.side side))) = .ok () := by
        rw [hsplit]
        exact (checkPatterns_iff name).mpr (h.patternSet? hset side)
      exact map_eq_ok.mpr ⟨(), hc, (setPatterns_eq_self_iff hset).mpr hsplit⟩
  | threads =>
    obtain rfl := Option.some.inj hget
    have hread : parseThreads s.threads.repr = .ok s.threads :=
      parseThreads_iff.mpr ⟨.inl (Text.Natural.digits_repr _), h.threads_pos, h.threads_lt⟩
    exact iff_of_true (map_eq_ok.mpr ⟨_, hread, rfl⟩) nofun
  | onUnreadable =>
    obtain rfl := Option.some.inj hget
    exact iff_of_true (map_eq_ok.mpr ⟨_, parsePolicy_iff.mpr rfl, rfl⟩) nofun
  | whole name => cases hget
  -- The other keys hold a truth value.
  | _ =>
    obtain rfl := Option.some.inj hget
    exact iff_of_true (map_eq_ok.mpr ⟨_, parseBool_iff.mpr rfl, rfl⟩) nofun

/-- A value that was read is written back without a change exactly if each pattern in it can stand
between commas: it has no comma, and no white space at either end. -/
theorem set_get_iff {machine : Machine} {text key : String} (h : parse text machine = .ok s)
    (hget : s.get? key = some v) :
    s.set key v = .ok s ↔ ∀ k ∈ Key.parse? key, ∀ raw ∈ s.patternsOf k, ',' ∉ raw.toList ∧
      (∀ c ∈ raw.toList.head?, Text.isBlank c = false) ∧
      ∀ c ∈ raw.toList.getLast?, Text.isBlank c = false := by
  have hvalid := valid_of_parse h
  obtain ⟨k, hkey, hat⟩ := Option.bind_eq_some_iff.mp hget
  rw [set_of_parse hkey, hvalid.setAt_getAt hat, hkey]
  simp only [Option.mem_some_iff, forall_eq']
  exact forall₂_congr fun raw hraw => tidy_iff_of_accepted (hvalid.accepted_of_mem raw hraw)

def listing : Settings :=
  { sets := .ofList [("s", { includes := ["a b", "/src"], excludes := ["x,y"] })] }

def listingText : String := "[sets.s]\nincludes = [\"a b\", \"/src\"]\nexcludes = [\"x,y\"]\n"

theorem parse_listingText : parse listingText = .ok listing := by decide +kernel

theorem set_get_listing : parse listingText = .ok listing ∧
    listing.get? "sets.s.includes" = some "a b,/src" ∧
    listing.set "sets.s.includes" "a b,/src" = .ok listing := by
  have hget : listing.get? "sets.s.includes" = some "a b,/src" := rfl
  have hkey : Key.parse? "sets.s.includes" = some (.patterns "s" .includes) := rfl
  have hraws : listing.patternsOf (.patterns "s" .includes) = ["a b", "/src"] := rfl
  refine ⟨parse_listingText, hget, (set_get_iff parse_listingText hget).mpr ?_⟩
  simp only [hkey, Option.mem_some_iff, forall_eq', hraws, ← Text.trim_eq_self_iff]
  decide

/-- A comma in a pattern is taken for one between two. -/
theorem set_get_parts : ¬∀ text s key v, parse text = .ok s → s.get? key = some v →
    s.set key v = .ok s := by
  intro hall
  have hsame := hall listingText listing "sets.s.excludes" "x,y" parse_listingText rfl
  have hother : listing.set "sets.s.excludes" "x,y" =
      .ok (listing.setPatterns "s" .excludes ["x", "y"]) := rfl
  rw [hother] at hsame
  exact absurd hsame (by decide)

end Fileset.Settings
