import Fileset.Proofs.Pattern.Row
import Mathlib.Data.List.Forall2

namespace Fileset

namespace Gapped

variable {α : Type v} {β : Type u} {fits : β → α → Bool}

def Item.Takes (fits : β → α → Bool) : Item β → List α → Prop
  | .gap, _ => True
  | .one b, piece => ∃ a, piece = [a] ∧ fits b a = true

theorem covers_iff_pieces {p : List (Item β)} {s : List α} :
    Covers fits p s ↔ ∃ pieces, pieces.flatten = s ∧ List.Forall₂ (Item.Takes fits) p pieces := by
  constructor
  · intro h
    induction h with
    | nil => exact ⟨[], rfl, .nil⟩
    | @one b a p s hf _ ih =>
      obtain ⟨pieces, rfl, hall⟩ := ih
      exact ⟨[a] :: pieces, rfl, .cons ⟨a, rfl, hf⟩ hall⟩
    | gap r _ ih =>
      obtain ⟨pieces, rfl, hall⟩ := ih
      exact ⟨r :: pieces, rfl, .cons trivial hall⟩
  · rintro ⟨pieces, rfl, hall⟩
    induction hall with
    | nil => exact .nil
    | @cons i piece p pieces htakes _ ih =>
      cases i with
      | gap => exact .gap piece ih
      | one b =>
        obtain ⟨a, rfl, hf⟩ := htakes
        exact .one hf ih

end Gapped

namespace Glob

/-- What one letter of a glob takes: a star any piece, a question mark any one character, and any
other letter itself. -/
inductive Takes : Char → List Char → Prop
  | star (piece : List Char) : Takes '*' piece
  | question (d : Char) : Takes '?' [d]
  | itself {c : Char} (hstar : c ≠ '*') (hquestion : c ≠ '?') : Takes c [c]

structure Cuts (pattern text : List Char) (pieces : List (List Char)) : Prop where
  whole : pieces.flatten = text
  takes : List.Forall₂ Takes pattern pieces

theorem takes_iff_item {c : Char} {piece : List Char} :
    Takes c piece ↔ (item c).Takes Letter.fits piece := by
  constructor
  · intro h
    cases h with
    | star => trivial
    | question d => exact ⟨d, rfl, rfl⟩
    | itself hstar hquestion =>
      rw [item, if_neg hstar, if_neg hquestion]
      exact ⟨c, rfl, by simp [Letter.fits]⟩
  · intro h
    unfold item at h
    split at h
    · rename_i hstar
      exact hstar ▸ .star piece
    · rename_i hstar
      split at h
      · rename_i hquestion
        obtain ⟨d, rfl, -⟩ := h
        exact hquestion ▸ .question d
      · rename_i hquestion
        obtain ⟨d, rfl, hf⟩ := h
        obtain rfl : c = d := by simpa [Letter.fits] using hf
        exact .itself hstar hquestion

theorem accepts_iff_covers {pattern text : List Char} :
    accepts pattern text = true ↔ Gapped.Covers Letter.fits (pattern.map item) text :=
  Gapped.run_iff.trans Gapped.meets_false

theorem accepts_iff_cuts {pattern text : List Char} :
    accepts pattern text = true ↔ ∃ pieces, Cuts pattern text pieces := by
  rw [accepts_iff_covers, Gapped.covers_iff_pieces]
  simp only [List.forall₂_map_left_iff, ← takes_iff_item]
  exact ⟨fun ⟨pieces, hw, ht⟩ => ⟨pieces, hw, ht⟩, fun ⟨pieces, h⟩ => ⟨pieces, h.whole, h.takes⟩⟩

/-- Matching a glob is a loop that always comes to an end without leaving the glob or the text. It
answers whether the text can be cut into consecutive pieces, one for each letter of the glob, that
these letters take. -/
theorem accepts_sound_complete (pattern text : List Char) :
    (∀ b, Gapped.Cursor.Ends Letter.fits false (pattern.map item) text .start b ↔
      b = accepts pattern text) ∧
    (accepts pattern text = true ↔ ∃ pieces, Cuts pattern text pieces) :=
  ⟨fun _ => Gapped.Cursor.ends_start_iff, accepts_iff_cuts⟩

end Glob
end Fileset
