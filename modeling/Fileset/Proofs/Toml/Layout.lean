import Fileset.Proofs.Toml.Quote
import Fileset.Toml.Layout
import Fileset.Toml.Statement
import Mathlib.Data.List.Basic

namespace Fileset.Toml

theorem ne_of_holds {p : Char → Bool} {c d : Char} (hc : p c = true) (hd : p d = false) : c ≠ d := by
  rintro rfl
  rw [hc] at hd
  cases hd

section Spaces

variable {c : Char} {s rest : List Char}

/-- The text starts with a character that is neither skipped nor a comment. -/
def Solid (s : List Char) : Prop :=
  ∃ c t, s = c :: t ∧ isSpace c = false ∧ c ≠ '\n' ∧ c ≠ '\r' ∧ c ≠ '#'

theorem Solid.append (h : Solid s) (rest : List Char) : Solid (s ++ rest) := by
  obtain ⟨c, t, rfl, hc⟩ := h
  exact ⟨c, t ++ rest, rfl, hc⟩

theorem Solid.skipSpace (h : Solid s) : skipSpace s = s := by
  obtain ⟨c, t, rfl, hc, _⟩ := h
  simp [Toml.skipSpace, hc]

theorem Solid.skipLines (h : Solid s) : skipLines false s = some s := by
  obtain ⟨c, t, rfl, hspace, hline, hreturn, hcomment⟩ := h
  unfold Toml.skipLines
  split
  · rename_i heq
    cases heq
  · rename_i heq
    exact absurd (List.cons.inj heq).1 hline
  · rename_i heq
    exact absurd (List.cons.inj heq).1 hreturn
  · rename_i heq
    obtain ⟨rfl, rfl⟩ := List.cons.inj heq
    simp [hspace, hcomment]

theorem solid_of_isBare (h : isBare c = true) (s : List Char) : Solid (c :: s) := by
  have hspace : c ≠ ' ' := ne_of_holds h (by decide)
  have htab : c ≠ '\t' := ne_of_holds h (by decide)
  refine ⟨c, s, rfl, ?_, ne_of_holds h (by decide), ne_of_holds h (by decide), ne_of_holds h (by decide)⟩
  simp [isSpace, hspace, htab]

theorem writeKey_solid (s : List Char) : Solid (writeKey s) := by
  obtain ⟨c, t, ht, hbare | rfl | rfl⟩ := writeKey_head s
  · rw [ht]
    exact solid_of_isBare hbare t
  · rw [ht]
    exact ⟨_, t, rfl, by decide⟩
  · rw [ht]
    exact ⟨_, t, rfl, by decide⟩

theorem writeText_solid (s : List Char) : Solid (writeText s) := by
  obtain ⟨t, ht | ht⟩ := writeText_head s <;>
    exact ⟨_, t, ht, by decide⟩

end Spaces

section Key

variable {rest : List Char}

theorem keyUpTo_last (n : Nat) (part : String) (hbare : rest.head?.all (fun c => !isBare c) = true)
    (hdot : (skipSpace rest).head? ≠ some '.') :
    keyUpTo (n + 1) (writeKey part.toList ++ rest) = some ([part], skipSpace rest) := by
  rw [keyUpTo, ((writeKey_solid part.toList).append rest).skipSpace, keyPart_writeKey _ hbare]
  simp only [String.ofList_toList]
  split
  · rename_i heq
    rw [heq] at hdot
    exact absurd rfl hdot
  · rfl

theorem keyUpTo_cons {n : Nat} (part : String) {parts : Key} {u : List Char}
    (h : keyUpTo n rest = some (parts, u)) :
    keyUpTo (n + 1) (writeKey part.toList ++ '.' :: rest) = some (part :: parts, u) := by
  have hdot : skipSpace ('.' :: rest) = '.' :: rest := by simp [skipSpace, isSpace]
  rw [keyUpTo, ((writeKey_solid part.toList).append _).skipSpace, keyPart_writeKey _ (by rfl)]
  simp only [hdot, h, Option.map_some, String.ofList_toList]

/-- A row of parts is read as it was written between dots. -/
theorem keyUpTo_write {n : Nat} {parts : Key} (hne : parts ≠ []) (hn : parts.length ≤ n)
    (hbare : rest.head?.all (fun c => !isBare c) = true)
    (hdot : (skipSpace rest).head? ≠ some '.') :
    keyUpTo n (['.'].intercalate (parts.map fun part => writeKey part.toList) ++ rest) =
      some (parts, skipSpace rest) := by
  induction parts generalizing n with
  | nil => exact absurd rfl hne
  | cons part parts ih =>
    cases n with
    | zero => exact absurd hn (by simp)
    | succ n =>
      cases parts with
      | nil => simpa [List.intercalate] using keyUpTo_last n part hbare hdot
      | cons next parts =>
        have hrest := ih (by simp) (Nat.le_of_succ_le_succ hn)
        simpa [List.intercalate, List.intersperse] using keyUpTo_cons part hrest

end Key

section Values

structure Reads (text : List Char) (t : Term) : Prop where
  solid : Solid text
  read : ∀ rest, term depthLimit (text ++ '\n' :: rest) = some (t, '\n' :: rest)

theorem noQuote_cons {c : Char} (hdouble : c ≠ '"') (hsingle : c ≠ '\'') (rest : List Char) :
    NoQuote (c :: rest) :=
  ⟨fun h => hdouble (Option.some.inj h), fun h => hsingle (Option.some.inj h)⟩

theorem reads_text (s : String) : Reads (writeText s.toList) (.scalar (.string s)) := by
  refine ⟨writeText_solid _, fun rest => ?_⟩
  rw [term_writeText _ _ (noQuote_cons (by decide) (by decide) rest), String.ofList_toList]

/-- A word that is a scalar is read as that scalar. -/
theorem reads_word {c : Char} {word : List Char} {v : Scalar} (hbare : isBare c = true)
    (hword : ∀ d ∈ word, isScalarChar d = true) (hv : scalarOf? (c :: word) = some v) :
    Reads (c :: word) (.scalar v) := by
  refine ⟨solid_of_isBare hbare word, fun rest => ?_⟩
  have hne {d : Char} (hd : isBare d = false) : c ≠ d := ne_of_holds hbare hd
  have hspan : (c :: word ++ '\n' :: rest).span isScalarChar = (c :: word, '\n' :: rest) :=
    span_append (List.forall_mem_cons.mpr ⟨by simp [isScalarChar, hbare], hword⟩) (by rfl)
  have hstop : scalarSpan (c :: word ++ '\n' :: rest) = (c :: word, '\n' :: rest) := by
    rw [scalarSpan, hspan]
    rfl
  have hscalar : scalar (c :: word ++ '\n' :: rest) = some (v, '\n' :: rest) := by
    unfold scalar
    split
    · rename_i heq
      exact absurd (List.cons.inj heq).1 (hne (by decide))
    · rename_i heq
      exact absurd (List.cons.inj heq).1 (hne (by decide))
    · simp only [hstop, hv, Option.map_some]
  unfold term
  split
  · rename_i heq
    exact absurd (List.cons.inj heq).1 (hne (by decide))
  · rename_i heq
    exact absurd (List.cons.inj heq).1 (hne (by decide))
  · rw [hscalar]
    rfl

theorem reads_boolean (b : Bool) : Reads (writeBoolean b) (.scalar (.boolean b)) := by
  cases b with
  | true => exact reads_word (by decide) (List.all_eq_true.mp rfl) rfl
  | false => exact reads_word (by decide) (List.all_eq_true.mp rfl) rfl

end Values

section Numbers

theorem isDigit_eq (c : Char) : isDigit c = c.isDigit := by
  rfl

theorem ungroup?_digits {s : List Char} (hne : s ≠ []) (hs : ∀ c ∈ s, isDigit c = true) :
    ungroup? isDigit s = some s := by
  induction s with
  | nil => exact absurd rfl hne
  | cons c s ih =>
    have hc := hs c List.mem_cons_self
    cases s with
    | nil => simp [ungroup?, hc]
    | cons d s =>
      have hd : d ≠ '_' := ne_of_holds (hs d (by simp)) (by decide)
      have hrest := ih (by simp) fun e he => hs e (List.mem_cons_of_mem _ he)
      rw [ungroup?, if_pos hc, hrest]
      · rfl
      all_goals simp [hd]

/-- Digits that do not start with a zero are read as the number that they stand for. -/
theorem integer?_digits {c : Char} {s : List Char} (hs : ∀ d ∈ c :: s, isDigit d = true) (hzero : c ≠ '0') :
    integer? (c :: s) = some (numeral 10 (c :: s) : Int) := by
  have hc := hs c List.mem_cons_self
  have hsign : sign (c :: s) = (false, c :: s) := by
    unfold sign
    split
    · rename_i heq
      exact absurd (List.cons.inj heq).1 (ne_of_holds hc (by decide))
    · rename_i heq
      exact absurd (List.cons.inj heq).1 (ne_of_holds hc (by decide))
    · rfl
  have hdecimal : decimal? (c :: s) = some (numeral 10 (c :: s)) := by
    rw [decimal?, ungroup?_digits (List.cons_ne_nil c s) hs]
    split
    · rename_i heq
      exact absurd (List.cons.inj (Option.some.inj heq)).1 hzero
    · rename_i heq
      exact absurd (List.cons.inj (Option.some.inj heq)).1 hzero
    · rename_i heq
      cases heq
      rfl
    · rename_i heq
      cases heq
  unfold integer?
  split
  · rename_i heq
    exact absurd (List.cons.inj heq).1 hzero
  · rename_i heq
    exact absurd (List.cons.inj heq).1 hzero
  · rename_i heq
    exact absurd (List.cons.inj heq).1 hzero
  · rw [hsign, hdecimal]
    rfl

theorem toDigits_digits (n : Nat) : ∀ c ∈ Nat.toDigits 10 n, isDigit c = true := by
  intro c hc
  rw [isDigit_eq]
  exact Nat.isDigit_of_mem_toDigits (by decide) (by decide) hc

theorem toDigits_head {n : Nat} (hn : n ≠ 0) : (Nat.toDigits 10 n).head? ≠ some '0' := by
  induction n using Nat.strongRecOn with
  | ind n ih =>
    rw [Nat.toDigits_eq_if (by decide)]
    split
    · rename_i hlt
      have hdigit : ∀ m, m < 10 → m ≠ 0 → m.digitChar ≠ '0' := by decide
      intro h
      exact hdigit n hlt hn (Option.some.inj h)
    · have hfront := ih (n / 10) (by omega) (by omega)
      cases hd : Nat.toDigits 10 (n / 10) with
      | nil => exact absurd hd Nat.toDigits_ne_nil
      | cons c s =>
        rw [hd] at hfront
        exact hfront

theorem numeral_toDigits (n : Nat) : numeral 10 (Nat.toDigits 10 n) = n := by
  have hsame : numeral 10 (Nat.toDigits 10 n) = Nat.ofDigitChars 10 (Nat.toDigits 10 n) 0 := by
    rw [numeral, Nat.ofDigitChars_eq_foldl]
    apply List.foldl_ext
    intro m c hc
    rw [digitValue, if_pos (toDigits_digits n c hc), Nat.mul_comm]
  rw [hsame, Nat.ofDigitChars_ten_toDigits]

theorem integer?_toDigits (n : Nat) : integer? (Nat.toDigits 10 n) = some (n : Int) := by
  by_cases hn : n = 0
  · subst hn
    rfl
  · have hdigits := toDigits_digits n
    have hhead := toDigits_head hn
    have hvalue := numeral_toDigits n
    cases hd : Nat.toDigits 10 n with
    | nil => exact absurd hd Nat.toDigits_ne_nil
    | cons c s =>
      rw [hd] at hdigits hhead hvalue
      rw [integer?_digits hdigits fun hzero => hhead (by rw [hzero]; rfl), hvalue]

theorem reads_natural (n : Nat) : Reads (writeNatural n) (.scalar (.integer n)) := by
  have hdigits := toDigits_digits n
  have hinteger := integer?_toDigits n
  unfold writeNatural
  cases hd : Nat.toDigits 10 n with
  | nil => exact absurd hd Nat.toDigits_ne_nil
  | cons c s =>
    rw [hd] at hdigits hinteger
    have hbare : ∀ d ∈ c :: s, isBare d = true := fun d hd => by simp [isBare, hdigits d hd]
    have hc := hdigits c List.mem_cons_self
    have htrue : c ≠ 't' := ne_of_holds hc (by decide)
    have hfalse : c ≠ 'f' := ne_of_holds hc (by decide)
    refine reads_word (hbare c List.mem_cons_self) (fun d hd => ?_) ?_
    · simp [isScalarChar, hbare d (List.mem_cons_of_mem _ hd)]
    · rw [scalarOf?, if_neg fun h => htrue (List.cons.inj h).1, if_neg fun h => hfalse (List.cons.inj h).1,
        hinteger]

end Numbers

section Texts

variable {α : Type} {item : Reader α} {close : Char} {s s' rest u : List Char}

/-- What is skipped in front of a list does not count. -/
theorem listUpTo_congr (h : skipLines false s = skipLines false s') (n : Nat) :
    listUpTo item close n s = listUpTo item close n s' := by
  cases n with
  | zero => rfl
  | succ n => rw [listUpTo, listUpTo, h]

theorem skipLines_line (s : List Char) : skipLines false ('\n' :: s) = skipLines false s := by
  rw [skipLines]

theorem listUpTo_close (n : Nat) (hsolid : Solid (close :: rest)) :
    listUpTo item close (n + 1) (close :: rest) = some ([], rest) := by
  rw [listUpTo, hsolid.skipLines]
  simp

/-- An item before a comma is the first of the list. -/
theorem listUpTo_item {n : Nat} {a : α} {as : List α} (hsolid : Solid s)
    (hhead : s.head? ≠ some close) (hitem : item s = some (a, ',' :: rest))
    (h : listUpTo item close n rest = some (as, u)) :
    listUpTo item close (n + 1) s = some (a :: as, u) := by
  have hcomma : skipLines false (',' :: rest) = some (',' :: rest) :=
    Solid.skipLines ⟨',', rest, rfl, by decide⟩
  rw [listUpTo, hsolid.skipLines]
  simp [hhead, hitem, hcomma, h]

/-- An item before the bracket is the last of the list. -/
theorem listUpTo_last {n : Nat} {a : α} (hsolid : Solid s) (hhead : s.head? ≠ some close)
    (hitem : item s = some (a, close :: rest)) (hclose : Solid (close :: rest)) (hcomma : close ≠ ',') :
    listUpTo item close (n + 1) s = some ([a], rest) := by
  rw [listUpTo, hsolid.skipLines]
  simp [hhead, hitem, hclose.skipLines]

theorem writeText_append_head (s : List Char) (rest : List Char) :
    (writeText s ++ rest).head? ≠ some ']' := by
  obtain ⟨t, ht | ht⟩ := writeText_head s <;> simp [ht]

/-- A line of a list: a text and a comma. -/
theorem listUpTo_line {d n : Nat} (s : String) {items : List Term}
    (h : listUpTo (term d) ']' n ('\n' :: rest) = some (items, u)) :
    listUpTo (term d) ']' (n + 1) (indent ++ writeText s.toList ++ [',', '\n'] ++ rest) =
      some (.scalar (.string s) :: items, u) := by
  have hindent : skipLines false (indent ++ writeText s.toList ++ [',', '\n'] ++ rest) =
      skipLines false (writeText s.toList ++ ',' :: '\n' :: rest) := by
    simp [indent, skipLines, isSpace]
  rw [listUpTo_congr hindent]
  refine listUpTo_item ((writeText_solid _).append _) (writeText_append_head _ _) ?_ h
  rw [term_writeText _ _ (noQuote_cons (by decide) (by decide) _), String.ofList_toList]

theorem listUpTo_lines {d n : Nat} {ss : List String} (hn : ss.length < n) :
    listUpTo (term d) ']' n
        (ss.flatMap (fun s => indent ++ writeText s.toList ++ [',', '\n']) ++ ']' :: rest) =
      some (ss.map fun s => .scalar (.string s), rest) := by
  induction ss generalizing n with
  | nil =>
    obtain ⟨n, rfl⟩ := Nat.exists_eq_add_one_of_ne_zero (Nat.ne_zero_of_lt hn)
    exact listUpTo_close n ⟨']', rest, rfl, by decide⟩
  | cons s ss ih =>
    obtain ⟨n, rfl⟩ := Nat.exists_eq_add_one_of_ne_zero (Nat.ne_zero_of_lt hn)
    have hrest := ih (Nat.lt_of_succ_lt_succ hn)
    rw [List.flatMap_cons, List.append_assoc]
    refine listUpTo_line s ?_
    rw [← hrest]
    exact listUpTo_congr (skipLines_line _) n

theorem length_le_flatMap {β : Type} {f : β → List Char} (hf : ∀ b, f b ≠ []) (bs : List β) :
    bs.length ≤ (bs.flatMap f).length := by
  induction bs with
  | nil => exact Nat.zero_le _
  | cons b bs ih =>
    have hb := List.length_pos_iff.mpr (hf b)
    rw [List.flatMap_cons, List.length_append, List.length_cons]
    omega

/-- Lists are read as they were written. -/
theorem reads_texts (ss : List String) :
    Reads (writeTexts ss) (.array (ss.map fun s => .scalar (.string s))) := by
  have hlist {body : List Char} {rest : List Char} {items : List Term}
      (h : listUpTo (term (depthLimit - 1)) ']' body.length body = some (items, rest)) :
      term depthLimit ('[' :: body) = some (.array items, rest) := by
    have hdepth : depthLimit = (depthLimit - 1) + 1 := rfl
    rw [hdepth, term, h]
    rfl
  rcases ss with _ | ⟨s, _ | ⟨next, ss⟩⟩
  · refine ⟨⟨'[', [']'], rfl, by decide⟩, fun rest => hlist ?_⟩
    exact listUpTo_close _ ⟨']', _, rfl, by decide⟩
  · refine ⟨⟨'[', _, rfl, by decide⟩, fun rest => ?_⟩
    simp only [writeTexts, List.cons_append, List.append_assoc, List.nil_append]
    refine hlist ?_
    have hclose : Solid (']' :: '\n' :: rest) := ⟨']', _, rfl, by decide⟩
    rw [List.length_append, List.length_cons, ← Nat.add_assoc]
    refine listUpTo_last ((writeText_solid _).append _) (writeText_append_head _ _) ?_ hclose (by decide)
    rw [term_writeText _ _ (noQuote_cons (by decide) (by decide) _), String.ofList_toList]
  · refine ⟨⟨'[', _, rfl, by decide⟩, fun rest => ?_⟩
    have hlength := length_le_flatMap (f := fun s : String => indent ++ writeText s.toList ++ [',', '\n'])
      (by simp) (s :: next :: ss)
    generalize hitems : s :: next :: ss = items at hlength
    have hwritten : writeTexts (s :: next :: ss) ++ '\n' :: rest =
        '[' :: '\n' :: (items.flatMap (fun s => indent ++ writeText s.toList ++ [',', '\n'])
          ++ ']' :: '\n' :: rest) := by
      rw [← hitems]
      simp only [writeTexts, List.cons_append, List.append_assoc, List.nil_append]
    rw [← hitems, hwritten, hitems]
    refine hlist ?_
    rw [listUpTo_congr (skipLines_line _)]
    refine listUpTo_lines ?_
    rw [List.length_cons, List.length_append]
    omega

end Texts

end Fileset.Toml
