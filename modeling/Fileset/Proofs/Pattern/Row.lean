import Fileset.Pattern.Segment
import Fileset.Proofs.Pattern.Covering
import Fileset.Proofs.Pattern.Cursor

namespace Fileset.Gapped

variable {α : Type v} {β : Type u} {fits : β → α → Bool}

theorem Covers.append {p q : List (Item β)} {s t : List α} (hp : Covers fits p s)
    (hq : Covers fits q t) : Covers fits (p ++ q) (s ++ t) := by
  induction hp with
  | nil => exact hq
  | one hf _ ih => exact .one hf ih
  | gap r _ ih =>
    rw [List.cons_append, List.append_assoc]
    exact .gap r ih

/-- Whatever way a pattern covers a list, a beginning of it covers each beginning of the list. -/
theorem Covers.front {p : List (Item β)} {s t : List α} (h : Covers fits p (s ++ t)) :
    Meets fits true p s := by
  generalize hl : s ++ t = l at h
  induction h generalizing s with
  | nil =>
    have hnil := (List.append_eq_nil_iff.mp hl).1
    subst hnil
    exact meets_nil_right.mpr rfl
  | one hf _ ih =>
    cases s with
    | nil => exact meets_nil_right.mpr rfl
    | cons a s =>
      obtain ⟨rfl, hs⟩ := List.cons.inj hl
      exact meets_one_cons.mpr ⟨hf, ih hs⟩
  | gap r _ ih =>
    apply meets_gap_cons.mpr
    rcases List.append_eq_append_iff.mp hl with ⟨u, rfl, _⟩ | ⟨u, rfl, hu⟩
    · exact ⟨[], List.nil_suffix, meets_nil_right.mpr rfl⟩
    · exact ⟨u, List.suffix_append r u, ih hu.symm⟩

end Fileset.Gapped

namespace Fileset.Glob

/-- A glob stands for its own text: a star for the run of one star, a question mark for itself. -/
theorem accepts_self (text : List Char) : accepts text text = true := by
  apply Gapped.run_iff.mpr
  apply Gapped.meets_false.mpr
  induction text with
  | nil => exact .nil
  | cons c text ih =>
    simp only [List.map_cons, item]
    split
    · exact .gap [c] ih
    · split
      · exact .one rfl ih
      · exact .one (by simp [Letter.fits]) ih

end Fileset.Glob

namespace Fileset.Segment

/-- The row can be laid over the names: each stretch over a run of them, each other segment over one
name that it accepts. -/
def RowCovers (row : List Segment) (names : List String) : Prop :=
  Gapped.Covers accepts (row.map item) names

theorem RowCovers.append {row row' : List Segment} {names names' : List String}
    (h : RowCovers row names) (h' : RowCovers row' names') :
    RowCovers (row ++ row') (names ++ names') := by
  unfold RowCovers
  rw [List.map_append]
  exact Gapped.Covers.append h h'

theorem rowAccepts_false_iff {row : List Segment} {names : List String} :
    rowAccepts false row names = true ↔ RowCovers row names :=
  Gapped.run_iff.trans Gapped.meets_false

theorem rowAccepts_true_iff {row : List Segment} {names : List String} :
    rowAccepts true row names = true ↔
      ∃ k, k ≤ row.length ∧ RowCovers (row.take k) names := by
  refine (Gapped.run_iff.trans Gapped.meets_true).trans ?_
  simp only [RowCovers, List.map_take, List.length_map]

/-- Matching a row is a loop that always comes to an end without leaving its row. It answers whether
the whole row stands for the names, or, with `early`, whether one of its beginnings does. -/
theorem rowAccepts_sound_complete (row : List Segment) (names : List String) :
    (∀ early b, Gapped.Cursor.Ends accepts early (row.map item) names .start b ↔
      b = rowAccepts early row names) ∧
    (rowAccepts false row names = true ↔ RowCovers row names) ∧
    (rowAccepts true row names = true ↔
      ∃ k, k ≤ row.length ∧ RowCovers (row.take k) names) :=
  ⟨fun _ _ => Gapped.Cursor.ends_start_iff, rowAccepts_false_iff, rowAccepts_true_iff⟩

/-- A row that accepts a path accepts, with `early`, each beginning of the path. -/
theorem rowAccepts_front {row : List Segment} {names more : List String} {early : Bool}
    (h : rowAccepts early row (names ++ more) = true) : rowAccepts true row names = true := by
  apply Gapped.run_iff.mpr
  cases early with
  | false => exact Gapped.Covers.front (Gapped.meets_false.mp (Gapped.run_iff.mp h))
  | true =>
    obtain ⟨front, hp, _, hc⟩ := Gapped.run_iff.mp h
    obtain ⟨front', hp', _, hc'⟩ := Gapped.Covers.front hc
    exact ⟨front', hp'.trans hp, by simp, hc'⟩

theorem ofText_stretch : ofText "**" = .stretch := rfl

/-- A segment accepts its own text as a name. -/
theorem accepts_ofText {text : String} : (ofText text).accepts text = true := by
  unfold ofText
  split
  · rfl
  · split
    · exact Glob.accepts_self text.toList
    · simp [accepts]

theorem item_ofText {text : String} (h : text ≠ "**") : (ofText text).item = .one (ofText text) := by
  unfold ofText
  rw [if_neg h]
  split <;> rfl

/-- A row stands for the texts of its own segments, the stretches left out. -/
theorem rowCovers_self (texts : List String) :
    RowCovers (texts.map ofText) (texts.filter (· ≠ "**")) := by
  unfold RowCovers
  induction texts with
  | nil => exact .nil
  | cons text texts ih =>
    by_cases h : text = "**"
    · subst h
      simpa [ofText_stretch, item] using Gapped.Covers.gap [] ih
    · simpa [h, item_ofText h] using Gapped.Covers.one accepts_ofText ih

end Fileset.Segment
