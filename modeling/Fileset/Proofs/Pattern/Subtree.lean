import Fileset.Proofs.Pattern.Prefix

namespace Fileset

namespace Gapped

/-- A pattern that ends in a gap goes on covering a list that goes on. -/
theorem Covers.extend {α : Type v} {β : Type u} {fits : β → α → Bool} {p : List (Item β)} {s : List α}
    (h : Covers fits (p ++ [.gap]) s) (t : List α) : Covers fits (p ++ [.gap]) (s ++ t) := by
  induction p generalizing s with
  | nil =>
    cases h with
    | gap r h =>
      rw [List.append_assoc]
      cases h
      simpa using Covers.gap (r ++ t) .nil
  | cons i p ih =>
    cases h with
    | one hf h => exact .one hf (ih h)
    | gap r h =>
      rw [List.append_assoc]
      exact .gap r (ih h)

end Gapped

/-- The normal form of the pattern ends in a stretch. -/
def Pattern.ForSubtree (raw : String) : Prop :=
  ∃ segments, normalize raw = .ok segments ∧ segments.getLast? = some "**"

namespace Matcher
open Segment

theorem fold_stretch (caseSensitive : Bool) : fold caseSensitive ["**"] = ["**"] := by
  cases caseSensitive <;> rfl

/-- An exclude for subtrees that accepts a directory accepts everything below it. -/
theorem exclude_accepts_below {caseSensitive : Bool} {raw : String} {m : Matcher}
    (hm : compile false caseSensitive raw = .ok m) (hs : Pattern.ForSubtree raw)
    {dir names : List String} {isFile : Bool} (h : m.accepts ⟨dir, false⟩ = true) :
    m.accepts ⟨dir ++ names, isFile⟩ = true := by
  obtain ⟨segments, hn, rfl⟩ := compile_ok hm
  obtain ⟨segments', hn', hlast⟩ := hs
  obtain rfl : segments = segments' := Except.ok.inj (hn.symm.trans hn')
  obtain ⟨front, rfl⟩ := List.getLast?_eq_some_iff.mp hlast
  simp only [accepts, ofSegments_accepts, fold_append, fold_stretch, List.map_append,
    List.map_singleton, ofText_stretch, Bool.false_and] at h ⊢
  rw [rowAccepts_false_iff, RowCovers, List.map_append] at h ⊢
  exact h.extend _

end Matcher
end Fileset
