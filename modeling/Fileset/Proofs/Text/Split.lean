namespace Fileset.Text

theorem splitOn_cons_of_ne {c x : Char} (hc : c ≠ x) (s : List Char) : ∃ part rest,
    s.splitOn x = part :: rest ∧ (c :: s).splitOn x = (c :: part) :: rest := by
  obtain ⟨part, rest, hs⟩ := List.exists_cons_of_ne_nil (List.splitOn_ne_nil x s)
  refine ⟨part, rest, hs, ?_⟩
  rw [List.splitOn_cons_eq_if_modifyHead, if_neg (by simpa using hc), hs]
  rfl

theorem splitOn_head_nil {x : Char} {s : List Char} {rest : List (List Char)} (h : s.splitOn x = [] :: rest) :
    s = [] ∨ ∃ t, s = x :: t := by
  cases s with
  | nil => exact .inl rfl
  | cons c s =>
    by_cases hc : c = x
    · exact .inr ⟨s, by rw [hc]⟩
    · obtain ⟨part, rest', -, hs⟩ := splitOn_cons_of_ne hc s
      rw [hs] at h
      cases h

theorem splitOn_snoc_of_ne {c x : Char} (hc : c ≠ x) (s : List Char) :
    ∃ front part, (s ++ [c]).splitOn x = front ++ [part ++ [c]] := by
  induction s with
  | nil => exact ⟨[], [], List.splitOn_eq_singleton (by simpa using Ne.symm hc)⟩
  | cons d s ih =>
    obtain ⟨front, part, hs⟩ := ih
    rw [List.cons_append, List.splitOn_cons_eq_if_modifyHead, hs]
    split
    · exact ⟨[] :: front, part, rfl⟩
    · cases front with
      | nil => exact ⟨[], d :: part, rfl⟩
      | cons first front => exact ⟨(d :: first) :: front, part, rfl⟩

theorem splitOnP_congr {p q : Char → Bool} {s : List Char} (h : ∀ c ∈ s, p c = q c) :
    s.splitOnP p = s.splitOnP q := by
  induction s with
  | nil => simp only [List.splitOnP_nil]
  | cons d s ih =>
    obtain ⟨hd, hs⟩ := List.forall_mem_cons.mp h
    simp only [List.splitOnP_cons_eq_if_modifyHead, hd, ih hs]

/-- Only the separators are lost. -/
theorem flatten_splitOn (x : Char) (s : List Char) : (s.splitOn x).flatten = s.filter (· != x) := by
  induction s with
  | nil => rfl
  | cons c s ih =>
    by_cases hc : c = x
    · simp [List.splitOn_cons_eq_if_modifyHead, hc, ih]
    · obtain ⟨part, rest, hs, hsplit⟩ := splitOn_cons_of_ne hc s
      rw [hs] at ih
      rw [hsplit, List.filter_cons_of_pos (by simpa using hc), ← ih]
      rfl

theorem mem_of_mem_splitOnP {p : Char → Bool} {s part : List Char} (h : part ∈ s.splitOnP p) {c : Char}
    (hc : c ∈ part) : p c = false ∧ c ∈ s := by
  induction s generalizing part with
  | nil =>
    obtain rfl : part = [] := by simpa [List.splitOnP_nil] using h
    cases hc
  | cons d s ih =>
    rw [List.splitOnP_cons_eq_if_modifyHead] at h
    split at h
    · rcases List.mem_cons.mp h with rfl | h
      · cases hc
      · exact ⟨(ih h hc).1, List.mem_cons_of_mem d (ih h hc).2⟩
    · rename_i hd
      obtain ⟨first, rest, hs⟩ := List.exists_cons_of_ne_nil (List.splitOnP_ne_nil p s)
      rw [hs, List.modifyHead_cons] at h
      rw [hs] at ih
      rcases List.mem_cons.mp h with rfl | h
      · rcases List.mem_cons.mp hc with rfl | hc
        · exact ⟨by simpa using hd, List.mem_cons_self⟩
        · have := ih List.mem_cons_self hc
          exact ⟨this.1, List.mem_cons_of_mem d this.2⟩
      · have := ih (List.mem_cons_of_mem first h) hc
        exact ⟨this.1, List.mem_cons_of_mem d this.2⟩

theorem mem_of_mem_splitOn {s part : List Char} {x : Char} (h : part ∈ s.splitOn x) {c : Char}
    (hc : c ∈ part) : c ≠ x ∧ c ∈ s := by
  rw [List.splitOn_eq_splitOnP] at h
  simpa using mem_of_mem_splitOnP h hc

end Fileset.Text
