import Fileset.Text.Blank
import Mathlib.Data.List.DropRight

namespace Fileset.Text

def Closed (s : List Char) : Prop := ∃ front c, s = front ++ [c] ∧ isBlank c = false

theorem Closed.prepend {s : List Char} (h : Closed s) (front : List Char) : Closed (front ++ s) := by
  obtain ⟨s', c, rfl, hc⟩ := h
  exact ⟨front ++ s', c, by rw [List.append_assoc], hc⟩

theorem Closed.ne_nil {s : List Char} (h : Closed s) : s ≠ [] := by
  obtain ⟨front, c, rfl, _⟩ := h
  simp

theorem Closed.dropWhile {s : List Char} (h : Closed s) : Closed (s.dropWhile isBlank) := by
  obtain ⟨front, c, rfl, hc⟩ := h
  rw [List.dropWhile_append]
  split
  · exact ⟨[], c, by simp [hc], hc⟩
  · exact ⟨front.dropWhile isBlank, c, rfl, hc⟩

/-- From a closed text white space is dropped in front only. -/
theorem Closed.trim {s : List Char} (h : Closed s) : trim s = s.dropWhile isBlank := by
  obtain ⟨front, c, hs, hc⟩ := h.dropWhile
  change (s.dropWhile isBlank).rdropWhile isBlank = _
  rw [hs, List.rdropWhile_concat_neg _ _ _ (by simp [hc])]

theorem closed_trim {s : List Char} (h : trim s ≠ []) : Closed (trim s) := by
  have hlast : ¬isBlank ((trim s).getLast h) = true := List.rdropWhile_last_not _ _ h
  exact ⟨(trim s).dropLast, (trim s).getLast h, (List.dropLast_append_getLast h).symm,
    by simpa using hlast⟩

theorem dropWhile_isBlank_iff {s : List Char} :
    s.dropWhile isBlank = s ↔ ∀ c ∈ s.head?, isBlank c = false := by
  rw [List.dropWhile_eq_self_iff]
  cases s <;> simp

theorem mem_of_mem_trim {s : List Char} {c : Char} (h : c ∈ trim s) : c ∈ s := by
  change c ∈ (s.dropWhile isBlank).rdropWhile isBlank at h
  exact (List.dropWhile_sublist _).mem ((List.rdropWhile_prefix _ _).mem h)

theorem trim_head {s : List Char} : ∀ c ∈ (trim s).head?, isBlank c = false := by
  intro c hc
  obtain ⟨back, hback⟩ : trim s <+: s.dropWhile isBlank := List.rdropWhile_prefix _ _
  have hfirst := List.head?_dropWhile_not isBlank s
  rw [← hback, List.head?_append, Option.mem_def.mp hc] at hfirst
  exact hfirst

theorem trim_eq_self_iff {s : List Char} : trim s = s ↔
    (∀ c ∈ s.head?, isBlank c = false) ∧ ∀ c ∈ s.getLast?, isBlank c = false := by
  constructor
  · intro h
    rw [← h]
    refine ⟨trim_head, fun c hc => ?_⟩
    have hne : trim s ≠ [] := by
      intro hnil
      simp [hnil] at hc
    obtain ⟨front, d, hs, hd⟩ := closed_trim hne
    rw [hs, List.getLast?_concat] at hc
    rwa [← Option.some.inj hc]
  · rintro ⟨hhead, hlast⟩
    cases hs : s.getLast? with
    | none =>
      rw [List.getLast?_eq_none_iff.mp hs]
      rfl
    | some c =>
      obtain ⟨front, rfl⟩ := List.getLast?_eq_some_iff.mp hs
      have hclosed : Closed (front ++ [c]) := ⟨front, c, rfl, hlast c hs⟩
      rw [hclosed.trim, dropWhile_isBlank_iff.mpr hhead]

theorem trim_trim (s : List Char) : trim (trim s) = trim s := by
  cases hs : trim s with
  | nil => rfl
  | cons c t =>
    have hne : trim s ≠ [] := by simp [hs]
    rw [← hs, (closed_trim hne).trim, dropWhile_isBlank_iff.mpr trim_head]

end Fileset.Text
