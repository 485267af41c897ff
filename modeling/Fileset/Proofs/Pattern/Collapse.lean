import Fileset.Proofs.Pattern.Normal
import Fileset.Proofs.Pattern.Row

namespace Fileset

namespace Gapped

variable {α : Type v} {β : Type u} {fits : β → α → Bool} {early : Bool} {p q : List (Item β)}

/-- Patterns that decide the same do so behind any item. -/
theorem meets_cons_congr (i : Item β) (h : ∀ s, Meets fits early p s ↔ Meets fits early q s)
    (s : List α) : Meets fits early (i :: p) s ↔ Meets fits early (i :: q) s := by
  cases i with
  | gap => simp only [meets_gap_cons, h]
  | one b =>
    cases s with
    | nil => simp [meets_nil_right, Item.isGap]
    | cons a s => simp only [meets_one_cons, h]

/-- What two gaps in a row take, one of them takes. -/
theorem meets_gap_gap (s : List α) :
    Meets fits early (.gap :: .gap :: p) s ↔ Meets fits early (.gap :: p) s := by
  constructor
  · intro h
    obtain ⟨t, ht, h⟩ := meets_gap_cons.mp h
    obtain ⟨t', ht', h⟩ := meets_gap_cons.mp h
    exact meets_gap_cons.mpr ⟨t', ht'.trans ht, h⟩
  · intro h
    exact meets_gap_cons.mpr ⟨s, List.suffix_refl s, h⟩

end Gapped

namespace Segment

def Apart (a b : Segment) : Prop := ¬(a = .stretch ∧ b = .stretch)

instance : DecidableRel Apart := fun a b => inferInstanceAs (Decidable ¬(a = .stretch ∧ b = .stretch))

def collapse (row : List Segment) : List Segment := row.destutter Apart

theorem collapse_cons_cons (a b : Segment) (row : List Segment) : collapse (a :: b :: row) =
    if Apart a b then a :: collapse (b :: row) else collapse (a :: row) := by
  simp only [collapse, List.destutter_cons', List.destutter'_cons]

/-- The normal form of a pattern makes one stretch of each run, before there are segments. -/
theorem collapse_ofText (parts : List (List Char)) :
    collapse ((parts.map String.ofList).map ofText) =
      ((Pattern.collapse parts).map String.ofList).map ofText := by
  have hstretch (part : List Char) : ofText (String.ofList part) = .stretch ↔ part = ['*', '*'] := by
    constructor
    · intro h
      by_contra hne
      have htext : String.ofList part ≠ "**" := fun hsame => hne (by
        simpa using congrArg String.toList hsame)
      have hitem := item_ofText htext
      rw [h] at hitem
      cases hitem
    · rintro rfl
      rfl
  rw [Pattern.collapse_eq_destutter, List.map_map, List.map_map, collapse]
  refine (List.map_destutter fun a _ b _ => ?_).symm
  simp only [Pattern.Apart, Apart, Function.comp_apply, hstretch]

theorem meets_collapse {early : Bool} (row : List Segment) (names : List String) :
    Gapped.Meets accepts early ((collapse row).map item) names ↔
      Gapped.Meets accepts early (row.map item) names := by
  cases row with
  | nil => exact Iff.rfl
  | cons a row =>
    induction row generalizing a names with
    | nil => exact Iff.rfl
    | cons b row ih =>
      rw [collapse_cons_cons]
      split
      · exact Gapped.meets_cons_congr a.item (fun names => ih names b) names
      · rename_i htwo
        obtain ⟨rfl, rfl⟩ := not_not.mp htwo
        exact (ih names .stretch).trans (Gapped.meets_gap_gap names).symm

/-- A row and the row with one stretch for each run of them decide the same of any names, for whole rows
and for beginnings, and the loop over positions comes to the same verdict on both. Runs in the parts of
a pattern become one just as runs in the row of its segments do. -/
theorem rowAccepts_collapse (early : Bool) (row : List Segment) (names : List String) :
    rowAccepts early (collapse row) names = rowAccepts early row names ∧
    (∀ b, Gapped.Cursor.Ends accepts early ((collapse row).map item) names .start b ↔
      Gapped.Cursor.Ends accepts early (row.map item) names .start b) ∧
    ∀ parts : List (List Char), collapse ((parts.map String.ofList).map ofText) =
      ((Pattern.collapse parts).map String.ofList).map ofText := by
  have hsame : rowAccepts early (collapse row) names = rowAccepts early row names := by
    apply Bool.eq_iff_iff.mpr
    exact (Gapped.run_iff.trans (meets_collapse row names)).trans Gapped.run_iff.symm
  refine ⟨hsame, fun b => ?_, collapse_ofText⟩
  rw [Gapped.Cursor.ends_start_iff, Gapped.Cursor.ends_start_iff]
  exact Eq.congr_right hsame

example : collapse [.stretch, .stretch, .exact "a", .stretch, .stretch, .stretch] =
    [.stretch, .exact "a", .stretch] := by decide

end Segment
end Fileset
