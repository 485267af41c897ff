import Fileset.Toml.Quote
import Fileset.Toml.Strings
import Fileset.Toml.Term
import Mathlib.Data.List.TakeDrop

namespace Fileset.Toml

section Escape

theorem isHexDigit_hexDigit : ∀ n, n < 16 → isHexDigit (hexDigit n) = true := by decide

theorem digitValue_hexDigit : ∀ n, n < 16 → digitValue (hexDigit n) = n := by decide

theorem scalarChar?_toNat (c : Char) : scalarChar? c.toNat = some c := by
  have hvalid : c.toNat.isValidChar := c.valid
  have hof : Char.ofNat c.toNat = Char.ofNatAux c.toNat hvalid := dif_pos hvalid
  rw [scalarChar?, dif_pos hvalid, ← hof, Char.ofNat_toNat]

theorem lt_of_isControl {c : Char} (h : isControl c = true) : c.toNat < 0x100 := by
  simp only [isControl, isPrinting, Bool.and_eq_true, Bool.not_eq_true', Bool.or_eq_false_iff,
    Bool.and_eq_false_iff, decide_eq_false_iff_not, bne_eq_false_iff_eq] at h
  omega

theorem codeChar?_hexDigit {c : Char} (h : c.toNat < 0x100) :
    codeChar? ['0', '0', hexDigit (c.toNat / 16), hexDigit (c.toNat % 16)] = some c := by
  have hhigh : c.toNat / 16 < 16 := by omega
  have hlow : c.toNat % 16 < 16 := Nat.mod_lt _ (by decide)
  have hzero : isHexDigit '0' = true := by decide
  have hvalue : digitValue '0' = 0 := by decide
  rw [codeChar?, if_pos (by
    simp [hzero, isHexDigit_hexDigit _ hhigh, isHexDigit_hexDigit _ hlow])]
  simp only [numeral, List.foldl_cons, List.foldl_nil, hvalue, digitValue_hexDigit _ hhigh,
    digitValue_hexDigit _ hlow, Nat.zero_mul, Nat.zero_add]
  rw [Nat.div_add_mod' c.toNat 16, scalarChar?_toNat]

/-- A character stands for itself, or an escape stands for it, which never looks like the end of a
line. -/
theorem escapeCode_cases (c : Char) :
    (∃ code, escapeCode c = '\\' :: code ∧ ∀ rest,
      escape? (code ++ rest) = some (c, rest) ∧ continued? (code ++ rest) = none) ∨
    escapeCode c = [c] ∧ isPrinting c = true ∧ c ≠ '\\' := by
  by_cases hnamed : c ∈ ['\\', '\x08', '\t', '\n', '\x0c', '\r']
  · simp only [List.mem_cons, List.not_mem_nil, or_false] at hnamed
    rcases hnamed with rfl | rfl | rfl | rfl | rfl | rfl <;>
      exact .inl ⟨_, rfl, fun rest => ⟨rfl, rfl⟩⟩
  · simp only [List.mem_cons, List.not_mem_nil, or_false, not_or] at hnamed
    obtain ⟨hslash, _, _, hline, _⟩ := id hnamed
    cases hc : isControl c with
    | true =>
      have hcode := codeChar?_hexDigit (lt_of_isControl hc)
      refine .inl ⟨['u', '0', '0', hexDigit (c.toNat / 16), hexDigit (c.toNat % 16)],
        by simp [escapeCode, hnamed, hc], fun rest => ⟨?_, rfl⟩⟩
      simp only [List.cons_append, List.nil_append, escape?, hcode, Option.map_some]
    | false =>
      refine .inr ⟨by simp [escapeCode, hnamed, hc], ?_, hslash⟩
      simpa [isControl, hline] using hc

end Escape

section OneLine

variable {c : Char} {s t rest u : List Char}

theorem basicBody_escape (hc : escape? s = some (c, rest)) (h : basicBody rest = some (t, u)) :
    basicBody ('\\' :: s) = some (c :: t, u) := by
  rw [basicBody, if_neg (by decide), if_pos rfl]
  split
  · rename_i hnone
    rw [hc] at hnone
    cases hnone
  · rename_i d s' hsome
    rw [hc] at hsome
    cases hsome
    rw [h]
    rfl

theorem basicBody_plain (hquote : c ≠ '"') (hslash : c ≠ '\\') (hc : isPrinting c = true)
    (h : basicBody s = some (t, u)) : basicBody (c :: s) = some (c :: t, u) := by
  rw [basicBody, if_neg hquote, if_neg hslash, if_pos hc, h]
  rfl

theorem basicBody_escaped (s rest : List Char) :
    basicBody (escaped s ++ '"' :: rest) = some (s, rest) := by
  induction s with
  | nil => rw [escaped, List.flatMap_nil, List.nil_append, basicBody, if_pos rfl]
  | cons c s ih =>
    rw [escaped, List.flatMap_cons, List.append_assoc]
    split
    · rename_i hc
      subst hc
      exact basicBody_escape rfl ih
    · rename_i hc
      rcases escapeCode_cases c with ⟨code, hcode, hread⟩ | ⟨hcode, hprinting, hslash⟩
      · rw [hcode]
        exact basicBody_escape (hread _).1 ih
      · rw [hcode]
        exact basicBody_plain hc hslash hprinting ih

theorem literalBody_append (h : ∀ c ∈ s, c ≠ '\'' ∧ isPrinting c = true) :
    literalBody (s ++ '\'' :: rest) = some (s, rest) := by
  induction s with
  | nil => rfl
  | cons c s ih =>
    obtain ⟨hquote, hprinting⟩ := h c List.mem_cons_self
    have hrest := ih fun d hd => h d (List.mem_cons_of_mem _ hd)
    rw [List.cons_append, literalBody, if_neg hquote, if_pos hprinting, hrest]
    rfl

end OneLine

section Closing

variable {quote c : Char} {s rest : List Char}

def quotes (quote : Char) (s : List Char) : Nat := (s.takeWhile (· == quote)).length

theorem quotes_cons_self (quote : Char) (s : List Char) :
    quotes quote (quote :: s) = quotes quote s + 1 := by
  simp [quotes]

theorem quotes_cons_ne (h : c ≠ quote) (s : List Char) : quotes quote (c :: s) = 0 := by
  simp [quotes, h]

theorem closing?_few (h : quotes quote s < 3) : closing? quote s = none := if_pos h

/-- Up to two quotes in front of the closing ones belong to the text. -/
theorem closing?_replicate {m : Nat} (hm : m ≤ 2) (hrest : rest.head? ≠ some quote) :
    closing? quote (List.replicate m quote ++ ([quote, quote, quote] ++ rest)) =
      some (List.replicate m quote, rest) := by
  have htail : rest.takeWhile (· == quote) = [] := by
    cases rest with
    | nil => rfl
    | cons c rest =>
      have hne : c ≠ quote := fun h => hrest (by rw [h]; rfl)
      simp [hne]
  have hall : List.replicate m quote ++ ([quote, quote, quote] ++ rest) =
      List.replicate (m + 3) quote ++ rest := by
    rw [← List.append_assoc, List.replicate_append_replicate.symm]
    rfl
  have hcount : (List.replicate (m + 3) quote ++ rest).takeWhile (· == quote) =
      List.replicate (m + 3) quote := by
    rw [List.takeWhile_append_of_pos (by simp), htail, List.append_nil]
  rw [hall, closing?, hcount, List.length_replicate, if_neg (by omega), Nat.min_eq_left (by omega)]
  rw [List.drop_left' (List.length_replicate ..), Nat.add_sub_cancel]

end Closing

section LongBasic

variable {c : Char} {s t rest u : List Char}

theorem longBasicBody_escape (hline : continued? s = none) (hc : escape? s = some (c, rest))
    (h : longBasicBody rest = some (t, u)) : longBasicBody ('\\' :: s) = some (c :: t, u) := by
  rw [longBasicBody, if_pos rfl]
  split
  · rename_i s' hsome
    rw [hline] at hsome
    cases hsome
  · split
    · rename_i hnone
      rw [hc] at hnone
      cases hnone
    · rename_i d s' hsome
      rw [hc] at hsome
      cases hsome
      rw [h]
      rfl

theorem longBasicBody_close {r : List Char × List Char} (h : closing? '"' ('"' :: s) = some r) :
    longBasicBody ('"' :: s) = some r := by
  rw [longBasicBody, if_neg (by decide), if_pos rfl, h]

theorem longBasicBody_plain (hslash : c ≠ '\\') (hquote : c = '"' → closing? '"' (c :: s) = none)
    (hc : staysInLines c s = true) (h : longBasicBody s = some (t, u)) :
    longBasicBody (c :: s) = some (c :: t, u) := by
  have hopen : (if c = '"' then closing? '"' (c :: s) else none) = none := by
    split
    · rename_i hc
      exact hquote hc
    · rfl
  rw [longBasicBody, if_neg hslash, hopen]
  simp only [hc, if_true, h, Option.map_some]

/-- Behind `before` quotes a text either goes on with so few that they do not end it, or it holds
nothing but quotes. -/
theorem longEscaped_quotes (rest s : List Char) {before : Nat} (hb : before ≤ 2) :
    quotes '"' (longEscaped before s ++ (['"', '"', '"'] ++ rest)) + before < 3 ∨
      ∃ m, s = List.replicate m '"' ∧ longEscaped before s = s ∧ m + before ≤ 2 := by
  induction s generalizing before with
  | nil => exact .inr ⟨0, rfl, rfl, by omega⟩
  | cons c s ih =>
    simp only [longEscaped]
    split
    · rename_i hc
      subst hc
      split
      · rename_i hlt
        rw [List.cons_append, quotes_cons_self]
        rcases @ih (before + 1) hlt with hfew | ⟨m, hs, hsame, hm⟩
        · exact .inl (by omega)
        · exact .inr ⟨m + 1, by rw [hs]; rfl, by rw [hsame], by omega⟩
      · rw [List.cons_append, quotes_cons_ne (by decide)]
        exact .inl (by omega)
    · rename_i hc
      split
      · rw [List.cons_append, quotes_cons_ne (by decide)]
        exact .inl (by omega)
      · left
        rcases escapeCode_cases c with ⟨code, hcode, _⟩ | ⟨hcode, _⟩
        · rw [hcode, List.cons_append, List.cons_append, quotes_cons_ne (by decide)]
          omega
        · rw [hcode, List.cons_append, List.cons_append, quotes_cons_ne hc]
          omega

theorem longBasicBody_longEscaped (hrest : rest.head? ≠ some '"') (s : List Char) {before : Nat}
    (hb : before ≤ 2) :
    longBasicBody (longEscaped before s ++ (['"', '"', '"'] ++ rest)) = some (s, rest) := by
  induction s generalizing before with
  | nil => exact longBasicBody_close (closing?_replicate (Nat.zero_le 2) hrest)
  | cons c s ih =>
    have hquotes := longEscaped_quotes rest (c :: s) hb
    simp only [longEscaped] at hquotes ⊢
    split
    · rename_i hc
      subst hc
      split
      · rename_i hlt
        rw [if_pos rfl, if_pos hlt] at hquotes
        rcases hquotes with hfew | ⟨m, hs, hsame, hm⟩
        · rw [List.cons_append] at hfew ⊢
          exact longBasicBody_plain (by decide) (fun _ => closing?_few (by omega)) rfl (ih hlt)
        · rw [hsame, hs]
          cases m with
          | zero => cases hs
          | succ m => exact longBasicBody_close (closing?_replicate (m := m + 1) (by omega) hrest)
      · exact longBasicBody_escape rfl rfl (ih (Nat.zero_le 2))
    · rename_i hc
      split
      · rename_i hline
        subst hline
        exact longBasicBody_plain (by decide) (fun h => absurd h (by decide)) rfl (ih (Nat.zero_le 2))
      · rw [List.append_assoc]
        rcases escapeCode_cases c with ⟨code, hcode, hread⟩ | ⟨hcode, hprinting, hslash⟩
        · rw [hcode]
          exact longBasicBody_escape (hread _).2 (hread _).1 (ih (Nat.zero_le 2))
        · rw [hcode]
          exact longBasicBody_plain hslash (fun h => absurd h hc) (by simp [staysInLines, hprinting])
            (ih (Nat.zero_le 2))

end LongBasic

section LongLiteral

variable {c : Char} {s t rest u : List Char}

theorem longLiteralBody_close {r : List Char × List Char} (h : closing? '\'' ('\'' :: s) = some r) :
    longLiteralBody ('\'' :: s) = some r := by
  rw [longLiteralBody, if_pos rfl, h]

theorem longLiteralBody_plain (hquote : c = '\'' → closing? '\'' (c :: s) = none)
    (hc : staysInLines c s = true) (h : longLiteralBody s = some (t, u)) :
    longLiteralBody (c :: s) = some (c :: t, u) := by
  have hopen : (if c = '\'' then closing? '\'' (c :: s) else none) = none := by
    split
    · rename_i hc
      exact hquote hc
    · rfl
  rw [longLiteralBody, hopen]
  simp only [hc, if_true, h, Option.map_some]

theorem hasRun_quotes {quote : Char} (rest s : List Char) {before : Nat} (hb : before ≤ 2)
    (h : hasRun quote 2 before s = false) :
    quotes quote (s ++ ([quote, quote, quote] ++ rest)) + before < 3 ∨
      ∃ m, s = List.replicate m quote ∧ m + before ≤ 2 := by
  induction s generalizing before with
  | nil => exact .inr ⟨0, rfl, by omega⟩
  | cons c s ih =>
    simp only [hasRun] at h
    rw [List.cons_append]
    split at h
    · rename_i hc
      subst hc
      obtain ⟨hne, hrun⟩ := Bool.or_eq_false_iff.mp h
      have hlt : before + 1 ≤ 2 := by simp at hne; omega
      rw [quotes_cons_self]
      rcases ih hlt hrun with hfew | ⟨m, hs, hm⟩
      · exact .inl (by omega)
      · exact .inr ⟨m + 1, by rw [hs]; rfl, by omega⟩
    · rename_i hc
      rw [quotes_cons_ne hc]
      exact .inl (by omega)

theorem longLiteralBody_append (hrest : rest.head? ≠ some '\'') {before : Nat} (hb : before ≤ 2)
    (h : hasRun '\'' 2 before s = false) (hs : ∀ c ∈ s, isControl c = false) :
    longLiteralBody (s ++ (['\'', '\'', '\''] ++ rest)) = some (s, rest) := by
  induction s generalizing before with
  | nil => exact longLiteralBody_close (closing?_replicate (Nat.zero_le 2) hrest)
  | cons c s ih =>
    have hstays : staysInLines c (s ++ (['\'', '\'', '\''] ++ rest)) = true := by
      have hc := hs c List.mem_cons_self
      simp only [isControl, Bool.and_eq_false_iff, Bool.not_eq_false', bne_eq_false_iff_eq] at hc
      rcases hc with hc | hc <;> simp [staysInLines, hc]
    have hquotes := hasRun_quotes rest (c :: s) hb h
    have hrest' : ∀ d ∈ s, isControl d = false := fun d hd => hs d (List.mem_cons_of_mem _ hd)
    simp only [hasRun] at h
    split at h
    · rename_i hc
      subst hc
      obtain ⟨hne, hrun⟩ := Bool.or_eq_false_iff.mp h
      have hlt : before + 1 ≤ 2 := by simp at hne; omega
      rcases hquotes with hfew | ⟨m, heq, hm⟩
      · rw [List.cons_append] at hfew hstays ⊢
        exact longLiteralBody_plain (fun _ => closing?_few (by omega)) hstays (ih hlt hrun hrest')
      · rw [heq]
        cases m with
        | zero => cases heq
        | succ m => exact longLiteralBody_close (closing?_replicate (m := m + 1) (by omega) hrest)
    · rename_i hc
      exact longLiteralBody_plain (fun heq => absurd heq hc) hstays (ih (Nat.zero_le 2) h hrest')

end LongLiteral

section Style

variable {s t rest : List Char}

/-- No quote follows, which would be taken for a part of the text before it. -/
structure NoQuote (rest : List Char) : Prop where
  double : rest.head? ≠ some '"'
  single : rest.head? ≠ some '\''

def Style.Holds (s : List Char) : Style → Prop
  | .basic | .longBasic => True
  | .literal => ∀ c ∈ s, c ≠ '\'' ∧ isPrinting c = true
  | .longLiteral => hasRun '\'' 2 0 s = false ∧ ∀ c ∈ s, isControl c = false

theorem forText_holds (s : List Char) : (Style.forText s).Holds s := by
  cases hcontrol : s.any isControl with
  | true =>
    cases hlines : s.contains '\n' <;> simp only [Style.forText, hcontrol, hlines] <;> trivial
  | false =>
    have hplain : ∀ c ∈ s, isControl c = false := by simpa using hcontrol
    simp only [Style.forText, hcontrol, Bool.false_eq_true, if_false]
    split
    · trivial
    split
    · rename_i hone
      intro c hc
      simp only [Bool.and_eq_true, Bool.not_eq_true', List.contains_eq_mem,
        decide_eq_false_iff_not] at hone
      refine ⟨fun h => hone.2 (h ▸ hc), ?_⟩
      have hline : c ≠ '\n' := fun h => hone.1 (h ▸ hc)
      simpa [isControl, hline] using hplain c hc
    split
    · trivial
    split
    · rename_i hrun
      exact ⟨by simpa using hrun, hplain⟩
    split <;> trivial

theorem string_double (h : ∀ u, t ≠ '"' :: '"' :: u) : string ('"' :: t) = basicBody t := by
  unfold string
  split
  · rename_i heq
    exact absurd (List.cons.inj heq).2 (h _)
  · rename_i heq
    exact absurd (List.cons.inj heq).1 (by decide)
  · rfl

theorem string_single (h : ∀ u, t ≠ '\'' :: '\'' :: u) : string ('\'' :: t) = literalBody t := by
  unfold string
  split
  · rename_i heq
    exact absurd (List.cons.inj heq).1 (by decide)
  · rename_i heq
    exact absurd (List.cons.inj heq).2 (h _)
  · rfl

theorem escaped_head (s : List Char) : (escaped s).head? ≠ some '"' := by
  cases s with
  | nil => simp [escaped]
  | cons c s =>
    rw [escaped, List.flatMap_cons]
    split
    · simp
    · rename_i hc
      rcases escapeCode_cases c with ⟨code, hcode, _⟩ | ⟨hcode, _⟩
      · simp [hcode]
      · simpa [hcode] using hc

/-- The line end that opens a text on several lines is skipped, and nothing else is. -/
theorem skipFirstBreak_openLine
    (h : '\n' ∉ s → t.head? ≠ some '\n' ∧ t.head? ≠ some '\r') :
    skipFirstBreak (openLine s ++ t) = t := by
  unfold openLine
  split
  · rfl
  · rename_i hline
    obtain ⟨hbreak, hreturn⟩ := h (by simpa using hline)
    rw [List.nil_append]
    unfold skipFirstBreak
    split
    · exact absurd rfl hbreak
    · exact absurd rfl hreturn
    · rfl

theorem longEscaped_head (s rest : List Char) (h : '\n' ∉ s) :
    (longEscaped 0 s ++ (['"', '"', '"'] ++ rest)).head? ≠ some '\n' ∧
      (longEscaped 0 s ++ (['"', '"', '"'] ++ rest)).head? ≠ some '\r' := by
  cases s with
  | nil => simp [longEscaped]
  | cons c s =>
    have hline : c ≠ '\n' := fun hc => h (hc ▸ List.mem_cons_self)
    simp only [longEscaped, Nat.zero_lt_two, if_true]
    split
    · simp
    · rcases escapeCode_cases c with ⟨code, hcode, _⟩ | ⟨hcode, hprinting, _⟩
      · simp [hcode]
      · have hreturn : c ≠ '\r' := by
          rintro rfl
          exact absurd hprinting (by decide)
        simpa [hcode] using ⟨hline, hreturn⟩

theorem literal_head (rest : List Char) (hs : ∀ c ∈ s, isControl c = false) (h : '\n' ∉ s) :
    (s ++ (['\'', '\'', '\''] ++ rest)).head? ≠ some '\n' ∧
      (s ++ (['\'', '\'', '\''] ++ rest)).head? ≠ some '\r' := by
  cases s with
  | nil => simp
  | cons c s =>
    have hline : c ≠ '\n' := fun hc => h (hc ▸ List.mem_cons_self)
    have hreturn : c ≠ '\r' := by
      rintro rfl
      exact absurd (hs _ List.mem_cons_self) (by decide)
    simpa using ⟨hline, hreturn⟩

/-- A text is read as it was written, in any style that holds it. -/
theorem string_write {style : Style} (h : style.Holds s) (hrest : NoQuote rest) :
    string (style.write s ++ rest) = some (s, rest) := by
  cases style with
  | basic =>
    have htext : Style.basic.write s ++ rest = '"' :: (escaped s ++ '"' :: rest) := by
      simp [Style.write]
    rw [htext, string_double, basicBody_escaped]
    intro u hu
    have hhead := escaped_head s
    cases he : escaped s with
    | nil =>
      rw [he] at hu
      exact hrest.double (by rw [(List.cons.inj hu).2]; rfl)
    | cons c t =>
      rw [he] at hu hhead
      exact hhead (by rw [(List.cons.inj hu).1]; rfl)
  | literal =>
    have htext : Style.literal.write s ++ rest = '\'' :: (s ++ '\'' :: rest) := by
      simp [Style.write]
    rw [htext, string_single, literalBody_append h]
    intro u hu
    cases s with
    | nil => exact hrest.single (by rw [(List.cons.inj hu).2]; rfl)
    | cons c s => exact (h c List.mem_cons_self).1 (List.cons.inj hu).1
  | longBasic =>
    have htext : Style.longBasic.write s ++ rest = '"' :: '"' :: '"' ::
        (openLine s ++ (longEscaped 0 s ++ (['"', '"', '"'] ++ rest))) := by simp [Style.write]
    rw [htext, string, skipFirstBreak_openLine (longEscaped_head s _)]
    exact longBasicBody_longEscaped hrest.double s (Nat.zero_le 2)
  | longLiteral =>
    have htext : Style.longLiteral.write s ++ rest = '\'' :: '\'' :: '\'' ::
        (openLine s ++ (s ++ (['\'', '\'', '\''] ++ rest))) := by simp [Style.write]
    rw [htext, string, skipFirstBreak_openLine (literal_head _ h.2)]
    exact longLiteralBody_append hrest.single (Nat.zero_le 2) h.1 h.2

/-- A written text starts with a quote. -/
theorem writeText_head (s : List Char) :
    ∃ t, writeText s = '"' :: t ∨ writeText s = '\'' :: t := by
  unfold writeText
  cases Style.forText s with
  | basic | longBasic => exact ⟨_, .inl rfl⟩
  | literal | longLiteral => exact ⟨_, .inr rfl⟩

theorem term_writeText (depth : Nat) (s : List Char) (hrest : NoQuote rest) :
    term depth (writeText s ++ rest) = some (.scalar (.string (String.ofList s)), rest) := by
  have hread := string_write (forText_holds s) hrest
  change string (writeText s ++ rest) = some (s, rest) at hread
  obtain ⟨t, ht | ht⟩ := writeText_head s
  all_goals
    rw [ht, List.cons_append] at hread ⊢
    rw [term, scalar, hread]
    · rfl
    all_goals simp

end Style

section Key

variable {s rest : List Char}

theorem keyPart_basic (s rest : List Char) :
    keyPart (Style.basic.write s ++ rest) = some (String.ofList s, rest) := by
  have htext : Style.basic.write s ++ rest = '"' :: (escaped s ++ '"' :: rest) := by
    simp [Style.write]
  rw [htext, keyPart, basicBody_escaped]
  rfl

theorem keyPart_literal (hs : ∀ c ∈ s, c ≠ '\'' ∧ isPrinting c = true) (rest : List Char) :
    keyPart (Style.literal.write s ++ rest) = some (String.ofList s, rest) := by
  have htext : Style.literal.write s ++ rest = '\'' :: (s ++ '\'' :: rest) := by
    simp [Style.write]
  rw [htext, keyPart, literalBody_append hs]
  rfl

/-- A span takes all that it may take. -/
theorem span_append {p : Char → Bool} (hs : ∀ c ∈ s, p c = true)
    (hrest : rest.head?.all (fun c => !p c) = true) : (s ++ rest).span p = (s, rest) := by
  have hstop : rest.takeWhile p = [] ∧ rest.dropWhile p = rest := by
    cases rest with
    | nil => exact ⟨rfl, rfl⟩
    | cons c rest =>
      have hc : p c = false := by simpa using hrest
      simp [hc]
  rw [List.span_eq_takeWhile_dropWhile, List.takeWhile_append_of_pos hs,
    List.dropWhile_append_of_pos hs, hstop.1, hstop.2, List.append_nil]

theorem keyPart_bare (hne : s ≠ []) (hs : ∀ c ∈ s, isBare c = true)
    (hrest : rest.head?.all (fun c => !isBare c) = true) :
    keyPart (s ++ rest) = some (String.ofList s, rest) := by
  have hspan := span_append hs hrest
  cases s with
  | nil => exact absurd rfl hne
  | cons c s =>
    have hc := hs c List.mem_cons_self
    rw [List.cons_append] at hspan ⊢
    unfold keyPart
    split
    · rename_i heq
      rw [(List.cons.inj heq).1] at hc
      exact absurd hc (by decide)
    · rename_i heq
      rw [(List.cons.inj heq).1] at hc
      exact absurd hc (by decide)
    · rw [hspan]

/-- A key is read as it was written, up to a character that cannot go on a bare one. -/
theorem keyPart_writeKey (s : List Char) (hrest : rest.head?.all (fun c => !isBare c) = true) :
    keyPart (writeKey s ++ rest) = some (String.ofList s, rest) := by
  unfold writeKey
  simp only
  split
  · rename_i hbare
    simp only [Bool.and_eq_true, Bool.not_eq_true', List.isEmpty_eq_false_iff, List.all_eq_true]
      at hbare
    exact keyPart_bare hbare.1 hbare.2 hrest
  split
  · split
    · exact keyPart_basic s rest
    · rename_i hvisible
      simp only [Bool.or_eq_true, not_or, Bool.not_eq_true, List.contains_eq_mem,
        decide_eq_false_iff_not, List.any_eq_false] at hvisible
      obtain ⟨⟨hcontrol, hline⟩, hquote⟩ := hvisible
      refine keyPart_literal (fun c hc => ⟨fun h => hquote (h ▸ hc), ?_⟩) rest
      have hne : c ≠ '\n' := fun h => hline (h ▸ hc)
      simpa [isControl, hne] using hcontrol c hc
  · exact keyPart_basic s rest

/-- A written key starts with a bare character or with a quote. -/
theorem writeKey_head (s : List Char) :
    ∃ c t, writeKey s = c :: t ∧ (isBare c = true ∨ c = '"' ∨ c = '\'') := by
  unfold writeKey
  simp only
  split
  · rename_i hbare
    simp only [Bool.and_eq_true, Bool.not_eq_true', List.isEmpty_eq_false_iff, List.all_eq_true]
      at hbare
    cases s with
    | nil => exact absurd rfl hbare.1
    | cons c s => exact ⟨c, s, rfl, .inl (hbare.2 c List.mem_cons_self)⟩
  split
  · split
    · exact ⟨'"', _, rfl, .inr (.inl rfl)⟩
    · exact ⟨'\'', _, rfl, .inr (.inr rfl)⟩
  · exact ⟨'"', _, rfl, .inr (.inl rfl)⟩

end Key

end Fileset.Toml
