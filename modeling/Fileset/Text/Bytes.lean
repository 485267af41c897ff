namespace Fileset

abbrev Bytes := List UInt8

namespace Bytes

def ofText (s : String) : Bytes := s.toUTF8.data.toList

/-- The text of these bytes, if they are well-formed UTF-8. -/
def text? (b : Bytes) : Option String := String.fromUTF8? ⟨b.toArray⟩

theorem text?_ofText (s : String) : text? (ofText s) = some s := by
  simp only [text?, ofText, Array.toArray_toList, String.fromUTF8?, String.toUTF8_eq_toByteArray]
  exact dif_pos s.isValidUTF8

theorem ofText_of_text? {b : Bytes} {s : String} (h : text? b = some s) : ofText s = b := by
  simp only [text?, String.fromUTF8?] at h
  split at h
  · cases h; rfl
  · cases h

def le : Bytes → Bytes → Bool
  | [], _ => true
  | _ :: _, [] => false
  | a :: s, b :: t => a < b || (a == b && le s t)

theorem le_total (s t : Bytes) : (le s t || le t s) = true := by
  induction s generalizing t with
  | nil => simp [le]
  | cons a s ih =>
    cases t with
    | nil => simp [le]
    | cons b t =>
      have := ih t
      simp only [le, Bool.or_eq_true, Bool.and_eq_true, decide_eq_true_eq, beq_iff_eq] at this ⊢
      by_cases h : a = b
      · subst h; exact this.imp (fun h => .inr ⟨rfl, h⟩) fun h => .inr ⟨rfl, h⟩
      · rcases UInt8.lt_or_lt_of_ne h with h | h
        · exact .inl (.inl h)
        · exact .inr (.inl h)

theorem le_trans {s t u : Bytes} (h₁ : le s t) (h₂ : le t u) : le s u := by
  induction s generalizing t u with
  | nil => rfl
  | cons a s ih =>
    cases t with
    | nil => simp [le] at h₁
    | cons b t =>
      cases u with
      | nil => simp [le] at h₂
      | cons c u =>
        simp only [le, Bool.or_eq_true, Bool.and_eq_true, decide_eq_true_eq, beq_iff_eq] at h₁ h₂ ⊢
        rcases h₁ with h₁ | ⟨rfl, h₁⟩ <;> rcases h₂ with h₂ | ⟨rfl, h₂⟩
        · exact .inl (UInt8.lt_trans h₁ h₂)
        · exact .inl h₁
        · exact .inl h₂
        · exact .inr ⟨rfl, ih h₁ h₂⟩

theorem le_antisymm {s t : Bytes} (h₁ : le s t) (h₂ : le t s) : s = t := by
  induction s generalizing t with
  | nil => cases t with
    | nil => rfl
    | cons => simp [le] at h₂
  | cons a s ih =>
    cases t with
    | nil => simp [le] at h₁
    | cons b t =>
      simp only [le, Bool.or_eq_true, Bool.and_eq_true, decide_eq_true_eq, beq_iff_eq] at h₁ h₂
      rcases h₁ with h₁ | ⟨rfl, h₁⟩ <;> rcases h₂ with h₂ | ⟨h, h₂⟩
      · exact absurd (UInt8.lt_trans h₁ h₂) (UInt8.lt_irrefl _)
      · exact absurd (h ▸ h₁) (UInt8.lt_irrefl _)
      · exact absurd h₂ (UInt8.lt_irrefl _)
      · rw [ih h₁ h₂]

/-- The bytes that may follow the first byte `b` of a character, as ranges; `none` if no character
starts with `b`. -/
def followers (b : UInt8) : Option (List (UInt8 × UInt8)) :=
  if b < 0x80 then some []
  else if 0xc2 ≤ b && b ≤ 0xdf then some [(0x80, 0xbf)]
  else if b == 0xe0 then some [(0xa0, 0xbf), (0x80, 0xbf)]
  else if b == 0xed then some [(0x80, 0x9f), (0x80, 0xbf)]
  else if 0xe1 ≤ b && b ≤ 0xef then some [(0x80, 0xbf), (0x80, 0xbf)]
  else if b == 0xf0 then some [(0x90, 0xbf), (0x80, 0xbf), (0x80, 0xbf)]
  else if 0xf1 ≤ b && b ≤ 0xf3 then some [(0x80, 0xbf), (0x80, 0xbf), (0x80, 0xbf)]
  else if b == 0xf4 then some [(0x80, 0x8f), (0x80, 0xbf), (0x80, 0xbf)]
  else none

/-- How many leading bytes of `s` fit the ranges, one each. -/
def fitting : List (UInt8 × UInt8) → Bytes → Nat
  | r :: rs, b :: s => if r.1 ≤ b && b ≤ r.2 then fitting rs s + 1 else 0
  | _, _ => 0

/-- The bytes with each ill-formed sequence replaced by the replacement character; a sequence
reaches as far as it could still have become a character. -/
def mend : Nat → Bytes → Bytes
  | 0, _ => []
  | _, [] => []
  | n + 1, b :: s =>
    match followers b with
    | none => 0xef :: 0xbf :: 0xbd :: mend n s
    | some rs =>
      let k := fitting rs s
      if k = rs.length then b :: s.take k ++ mend n (s.drop k)
      else 0xef :: 0xbf :: 0xbd :: mend n (s.drop k)

def display (b : Bytes) : String :=
  match text? b with
  | some s => s
  | none => (text? (mend b.length b)).getD ""

end Bytes
end Fileset
