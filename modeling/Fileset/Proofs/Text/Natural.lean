import Fileset.Text.Natural

namespace Fileset.Text.Natural

/-- A row of decimal digits that stands for `n`. There may be zeros in front. -/
structure Digits (s : List Char) (n : Nat) : Prop where
  nonempty : s ≠ []
  digits : ∀ c ∈ s, c.isDigit = true
  value : Nat.ofDigitChars 10 s 0 = n

def Denotes (text : List Char) (n : Nat) : Prop :=
  Digits text n ∨ ∃ s, text = '+' :: s ∧ Digits s n

theorem not_digits_plus (s : List Char) (n : Nat) : ¬Digits ('+' :: s) n := by
  intro h
  exact absurd (h.digits '+' List.mem_cons_self) (by decide)

theorem le_ofDigitChars (s : List Char) (n : Nat) : n ≤ Nat.ofDigitChars 10 s n := by
  induction s generalizing n with
  | nil => exact Nat.le_refl n
  | cons c s ih =>
    rw [Nat.ofDigitChars_cons]
    exact Nat.le_trans (by omega) (ih _)

theorem readOn_iff {limit n m : Nat} {s : List Char} (hn : n < limit) : readOn limit n s = .ok m ↔
    (∀ c ∈ s, c.isDigit = true) ∧ Nat.ofDigitChars 10 s n = m ∧ m < limit := by
  induction s generalizing n with
  | nil =>
    simp only [readOn, Except.ok.injEq, Nat.ofDigitChars_nil]
    constructor
    · rintro rfl
      exact ⟨nofun, rfl, hn⟩
    · exact fun h => h.2.1
  | cons c s ih =>
    have hcomm : n * 10 = 10 * n := Nat.mul_comm n 10
    rw [readOn, List.forall_mem_cons, Nat.ofDigitChars_cons, hcomm]
    split
    · rename_i hdigit
      simp only [hdigit, true_and]
      split
      · rename_i hlt
        exact ih hlt
      · rename_i hge
        -- the digits that are left only make the number larger
        have hle := le_ofDigitChars s (10 * n + (c.toNat - '0'.toNat))
        constructor
        · nofun
        · rintro ⟨-, rfl, hlt⟩
          omega
    · rename_i hdigit
      simp [hdigit]

theorem readOn_zero_iff {limit n : Nat} {s : List Char} (hlimit : 0 < limit) (hs : s ≠ []) :
    readOn limit 0 s = .ok n ↔ Digits s n ∧ n < limit := by
  rw [readOn_iff hlimit]
  constructor
  · rintro ⟨hdigits, hvalue, hlt⟩
    exact ⟨⟨hs, hdigits, hvalue⟩, hlt⟩
  · rintro ⟨⟨-, hdigits, hvalue⟩, hlt⟩
    exact ⟨hdigits, hvalue, hlt⟩

/-- A text is read exactly if it stands for a number below the limit. -/
theorem read_iff {limit n : Nat} {text : List Char} (hlimit : 0 < limit) :
    read limit text = .ok n ↔ Denotes text n ∧ n < limit := by
  have hplus (s : List Char) : Denotes ('+' :: s) n ↔ Digits s n := by
    simp [Denotes, not_digits_plus]
  unfold read
  split
  · simp [Denotes, show ¬Digits [] n from fun h => h.nonempty rfl]
  · simp [hplus, show ¬Digits [] n from fun h => h.nonempty rfl]
  · rename_i s hs
    rw [hplus, readOn_zero_iff hlimit hs]
  · rename_i hs _ hsign
    have hbare : Denotes text n ↔ Digits text n := by
      refine ⟨fun h => h.resolve_right ?_, .inl⟩
      rintro ⟨s, rfl, -⟩
      exact hsign s rfl
    rw [hbare, readOn_zero_iff hlimit hs]

theorem digits_repr (n : Nat) : Digits n.repr.toList n := by
  rw [Nat.toList_repr]
  exact ⟨Nat.toDigits_ne_nil, fun c hc => Nat.isDigit_of_mem_toDigits (by decide) (by decide) hc,
    Nat.ofDigitChars_ten_toDigits⟩

end Fileset.Text.Natural
