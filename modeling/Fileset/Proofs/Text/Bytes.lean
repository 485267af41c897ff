import Fileset.Text.Bytes
import Mathlib.Data.List.Basic

namespace Fileset.Bytes

theorem ofText_append (a b : String) : ofText (a ++ b) = ofText a ++ ofText b := by
  simp only [ofText, String.toUTF8_eq_toByteArray, String.toByteArray_append,
    ByteArray.toList_data_append]

theorem ofText_join (texts : List String) : ofText (String.join texts) = (texts.map ofText).flatten := by
  induction texts with
  | nil => rfl
  | cons text texts ih => rw [String.join_cons, ofText_append, ih, List.map_cons, List.flatten_cons]

theorem ofText_intercalate (sep : String) (texts : List String) :
    ofText (sep.intercalate texts) = (ofText sep).intercalate (texts.map ofText) := by
  induction texts with
  | nil => rfl
  | cons text texts ih =>
    cases texts with
    | nil => rw [String.intercalate_singleton, List.map_singleton, List.intercalate_singleton]
    | cons next texts =>
      rw [String.intercalate_cons_cons, ofText_append, ofText_append, ih]
      exact List.intercalate_cons_cons.symm

section Pieces

variable {x : UInt8} {pieces : List Bytes}

theorem mem_intercalate {b : UInt8} (h : b ∈ [x].intercalate pieces) :
    b = x ∨ ∃ piece ∈ pieces, b ∈ piece := by
  induction pieces with
  | nil => cases h
  | cons piece pieces ih =>
    cases pieces with
    | nil =>
      rw [List.intercalate_singleton] at h
      exact .inr ⟨piece, List.mem_cons_self, h⟩
    | cons next pieces =>
      rw [List.intercalate_cons_cons, List.append_assoc] at h
      rcases List.mem_append.mp h with h | h
      · exact .inr ⟨piece, List.mem_cons_self, h⟩
      · rcases List.mem_append.mp h with h | h
        · exact .inl (List.mem_singleton.mp h)
        · refine (ih h).imp id ?_
          rintro ⟨found, hfound, hb⟩
          exact ⟨found, List.mem_cons_of_mem piece hfound, hb⟩

/-- The last byte is one of the last piece, unless that is empty. -/
theorem getLast?_intercalate (hne : pieces ≠ []) (hfull : ∀ piece ∈ pieces, piece ≠ []) :
    ([x].intercalate pieces).getLast? = (pieces.getLast hne).getLast? := by
  induction pieces with
  | nil => exact absurd rfl hne
  | cons piece pieces ih =>
    cases pieces with
    | nil => rw [List.intercalate_singleton, List.getLast_singleton]
    | cons next pieces =>
      obtain ⟨-, hfull⟩ := List.forall_mem_cons.mp hfull
      have hlast := ih (List.cons_ne_nil next pieces) hfull
      have hmore : [x].intercalate (next :: pieces) ≠ [] := by
        intro hnone
        rw [hnone, eq_comm, List.getLast?_nil, List.getLast?_eq_none_iff] at hlast
        exact hfull _ (List.getLast_mem _) hlast
      rw [List.intercalate_cons_cons, List.getLast?_append_of_ne_nil _ hmore, hlast,
        List.getLast_cons (List.cons_ne_nil next pieces)]

theorem flatten_ended : (pieces.map (· ++ [x])).flatten = [x].intercalate (pieces ++ [[]]) := by
  induction pieces with
  | nil => rfl
  | cons piece pieces ih =>
    rw [List.map_cons, List.flatten_cons, ih, List.cons_append,
      List.intercalate_cons_of_ne_nil (by simp)]

/-- Pieces that are ended by a byte that is in none of them can be taken apart behind it. -/
theorem splitOn_ended (h : ∀ piece ∈ pieces, x ∉ piece) :
    ((pieces.map (· ++ [x])).flatten.splitOn x).dropLast = pieces := by
  have hall : ∀ piece ∈ pieces ++ [[]], x ∉ piece := by
    intro piece hpiece
    rcases List.mem_append.mp hpiece with hpiece | hpiece
    · exact h piece hpiece
    · simp [List.mem_singleton.mp hpiece]
  rw [flatten_ended, List.splitOn_intercalate x hall (by simp), List.dropLast_concat]

end Pieces
end Fileset.Bytes
