import Fileset.NameMap
import Mathlib.Data.List.Induction

namespace Fileset

namespace Assoc

variable {α : Type u} {es : List (String × α)} {k j : String} {a b : α}

theorem get?_put (k j : String) (a : α) (es : List (String × α)) :
    get? j (put k a es) = if j = k then some a else get? j es := by
  induction es with
  | nil => simp [put, get?, eq_comm]
  | cons e es ih =>
    obtain ⟨i, b⟩ := e
    simp only [put]
    split
    · simp [get?, eq_comm]
    · split
      · rename_i hki
        subst hki
        by_cases hj : j = k
        · simp [get?, hj]
        · simp [get?, hj, Ne.symm hj]
      · rename_i hki
        simp only [get?, ih]
        by_cases hi : i = j
        · simp [hi, Ne.symm (hi ▸ hki)]
        · simp [hi]

@[simp] theorem get?_put_self (k : String) (a : α) (es : List (String × α)) :
    get? k (put k a es) = some a := by
  rw [get?_put, if_pos rfl]

/-- Of two values for one name the later one counts. -/
theorem put_put (k : String) (a b : α) (es : List (String × α)) :
    put k a (put k b es) = put k a es := by
  have hirrefl : ¬k < k := String.lt_irrefl k
  induction es with
  | nil => simp [put]
  | cons e es ih =>
    obtain ⟨i, c⟩ := e
    simp only [put]
    split
    · simp [put]
    · split
      · simp [put]
      · rename_i hlt hne
        simp [put, hlt, hne, ih]

theorem mem_of_get? (h : get? k es = some a) : (k, a) ∈ es := by
  induction es with
  | nil => cases h
  | cons e es ih =>
    obtain ⟨j, b⟩ := e
    simp only [get?] at h
    split at h
    · rename_i hj
      cases h
      exact hj ▸ List.mem_cons_self
    · exact List.mem_cons_of_mem _ (ih h)

theorem get?_eq_none (h : ∀ e ∈ es, e.1 ≠ k) : get? k es = none := by
  cases hg : get? k es with
  | none => rfl
  | some a => exact absurd rfl (h _ (mem_of_get? hg))

/-- A name behind all others goes to the end. -/
theorem put_append (h : ∀ e ∈ es, e.1 < k) (a : α) : put k a es = es ++ [(k, a)] := by
  induction es with
  | nil => rfl
  | cons e es ih =>
    have hlt := h e List.mem_cons_self
    have hnot : ¬k < e.1 := fun hk => String.lt_irrefl k (String.lt_trans hk hlt)
    have hne : k ≠ e.1 := fun hk => String.lt_irrefl k (hk ▸ hlt)
    rw [put, if_neg hnot, if_neg hne, ih fun e' he' => h e' (List.mem_cons_of_mem _ he'),
      List.cons_append]

/-- To put what is there already changes nothing. -/
theorem put_get? (hes : Sorted es) (h : get? k es = some a) : put k a es = es := by
  induction es with
  | nil => cases h
  | cons e es ih =>
    obtain ⟨j, b⟩ := e
    obtain ⟨hfirst, hes⟩ := List.pairwise_cons.mp hes
    simp only [get?] at h
    split at h
    · rename_i hjk
      subst hjk
      cases h
      rw [put, if_neg (String.lt_irrefl j), if_pos rfl]
    · rename_i hjk
      have hlt : j < k := hfirst _ (mem_of_get? h)
      have hnot : ¬k < j := fun hk => String.lt_irrefl k (String.lt_trans hk hlt)
      rw [put, if_neg hnot, if_neg (Ne.symm hjk), ih hes h]

theorem get?_erase (k j : String) (es : List (String × α)) :
    get? j (erase k es) = if j = k then none else get? j es := by
  induction es with
  | nil => simp [erase, get?]
  | cons e es ih =>
    obtain ⟨i, b⟩ := e
    by_cases hi : i = k
    · subst hi
      rw [erase, List.filter_cons_of_neg (by simp), ← erase, ih]
      split
      · rfl
      · rename_i hj
        rw [get?, if_neg (Ne.symm hj)]
    · rw [erase, List.filter_cons_of_pos (by simpa using hi), ← erase, get?, get?, ih]
      by_cases hij : i = j
      · subst hij
        simp [hi]
      · simp [hij]

theorem erase_eq_self (h : get? k es = none) : erase k es = es := by
  apply List.filter_eq_self.mpr
  intro e he
  induction es with
  | nil => cases he
  | cons e' es ih =>
    obtain ⟨j, b⟩ := e'
    simp only [get?] at h
    split at h
    · cases h
    · rename_i hjk
      rcases List.mem_cons.mp he with rfl | he
      · simpa using hjk
      · exact ih h he

theorem erase_put (k : String) (a : α) (es : List (String × α)) : erase k (put k a es) = erase k es := by
  induction es with
  | nil => simp [put, erase]
  | cons e es ih =>
    obtain ⟨j, b⟩ := e
    simp only [put]
    split
    · simp [erase]
    · split
      · rename_i hkj
        simp [erase, hkj]
      · rename_i hkj
        rw [erase, List.filter_cons_of_pos (by simpa using Ne.symm hkj), ← erase, ih, erase, erase,
          List.filter_cons_of_pos (by simpa using Ne.symm hkj)]

end Assoc

namespace NameMap

variable {α : Type u} {m : NameMap α}

theorem ext {m' : NameMap α} (h : m.entries = m'.entries) : m = m' := by
  cases m
  cases m'
  cases h
  rfl

theorem mem_of_get? {k : String} {a : α} (h : m.get? k = some a) : (k, a) ∈ m.entries :=
  Assoc.mem_of_get? h

theorem get?_put (m : NameMap α) (k j : String) (a : α) :
    (m.put k a).get? j = if j = k then some a else m.get? j :=
  Assoc.get?_put k j a m.entries

theorem put_put (m : NameMap α) (k : String) (a b : α) : (m.put k b).put k a = m.put k a :=
  ext (Assoc.put_put k a b m.entries)

theorem put_get? {k : String} {a : α} (h : m.get? k = some a) : m.put k a = m :=
  ext (Assoc.put_get? m.sorted h)

theorem get?_erase (m : NameMap α) (k j : String) :
    (m.erase k).get? j = if j = k then none else m.get? j :=
  Assoc.get?_erase k j m.entries

theorem erase_put (m : NameMap α) (k : String) (a : α) : (m.put k a).erase k = m.erase k :=
  ext (Assoc.erase_put k a m.entries)

theorem erase_erase (m : NameMap α) (k : String) : (m.erase k).erase k = m.erase k :=
  ext (by simp [erase, Assoc.erase, List.filter_filter])

theorem erase_eq_self {k : String} (h : m.get? k = none) : m.erase k = m :=
  ext (Assoc.erase_eq_self h)

theorem ofList_entries_of_sorted {es : List (String × α)} (h : Assoc.Sorted es) :
    (ofList es).entries = es := by
  induction es using List.reverseRecOn with
  | nil => rfl
  | append_singleton es e ih =>
    obtain ⟨hes, _, hlt⟩ := List.pairwise_append.mp h
    have hlast : (ofList (es ++ [e])).entries = Assoc.put e.1 e.2 (ofList es).entries := by
      simp only [ofList, List.foldl_append, List.foldl_cons, List.foldl_nil, put]
    rw [hlast, ih hes, Assoc.put_append fun e' he' => hlt e' he' e (List.mem_singleton_self e)]

/-- A map is made up again of its own entries. -/
theorem ofList_entries (m : NameMap α) : ofList m.entries = m :=
  ext (ofList_entries_of_sorted m.sorted)

end NameMap
end Fileset
