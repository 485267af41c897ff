import Fileset.Toml.Lexis

namespace Fileset.Toml

def scalarChar? (n : Nat) : Option Char :=
  if h : n.isValidChar then some (Char.ofNatAux n h) else none

def codeChar? (digits : List Char) : Option Char :=
  if digits.all isHexDigit then scalarChar? (numeral 16 digits) else none

def plainEscape? : Char → Option Char
  | 'b' => some '\x08'
  | 't' => some '\t'
  | 'n' => some '\n'
  | 'f' => some '\x0c'
  | 'r' => some '\r'
  | 'e' => some '\x1b'
  | '"' => some '"'
  | '\\' => some '\\'
  | _ => none

def escape? : Reader Char
  | 'x' :: a :: b :: s => (codeChar? [a, b]).map (·, s)
  | 'u' :: a :: b :: c :: d :: s => (codeChar? [a, b, c, d]).map (·, s)
  | 'U' :: a :: b :: c :: d :: e :: f :: g :: h :: s =>
    (codeChar? [a, b, c, d, e, f, g, h]).map (·, s)
  | c :: s => (plainEscape? c).map (·, s)
  | [] => none

theorem length_of_escape? {s t : List Char} {c : Char} (h : escape? s = some (c, t)) :
    t.length < s.length := by
  unfold escape? at h
  split at h <;> first
    | (obtain ⟨_, _, h⟩ := Option.map_eq_some_iff.1 h; cases h; simp; done)
    | (obtain ⟨_, _, h⟩ := Option.map_eq_some_iff.1 h; cases h; simp; omega)
    | cases h

def basicBody (s : List Char) : Option (List Char × List Char) :=
  match s with
  | [] => none
  | c :: s =>
    if c = '"' then some ([], s)
    else if c = '\\' then
      match _ : escape? s with
      | none => none
      | some (d, t) => (basicBody t).map fun (r, u) => (d :: r, u)
    else if isPrinting c then (basicBody s).map fun (r, u) => (c :: r, u)
    else none
termination_by s.length
decreasing_by
  · have := length_of_escape? ‹escape? s = some (d, t)›; simp; omega
  · simp

def literalBody : Reader (List Char)
  | [] => none
  | c :: s =>
    if c = '\'' then some ([], s)
    else if isPrinting c then (literalBody s).map fun (r, u) => (c :: r, u)
    else none

/-- The end of a string on several lines: three quotes, and up to two more that belong to it. -/
def closing? (quote : Char) (s : List Char) : Option (List Char × List Char) :=
  let n := (s.takeWhile (· == quote)).length
  if n < 3 then none
  else some (List.replicate (min n 5 - 3) quote, s.drop (min n 5))

def skipBreaks : List Char → List Char
  | '\n' :: s => skipBreaks s
  | '\r' :: '\n' :: s => skipBreaks s
  | c :: s => if isSpace c then skipBreaks s else c :: s
  | [] => []

/-- A backslash at the end of a line takes the spaces and line ends behind it away. -/
def continued? (s : List Char) : Option (List Char) :=
  match skipSpace s with
  | '\n' :: t => some (skipBreaks t)
  | '\r' :: '\n' :: t => some (skipBreaks t)
  | _ => none

theorem length_skipBreaks_le (s : List Char) : (skipBreaks s).length ≤ s.length := by
  fun_induction skipBreaks s <;> simp_all <;> omega

theorem length_of_continued? {s t : List Char} (h : continued? s = some t) :
    t.length < s.length := by
  have hs : (skipSpace s).length ≤ s.length := (List.dropWhile_sublist _).length_le
  unfold continued? at h
  split at h
  · rename_i u hu
    have := length_skipBreaks_le u
    cases h; simp [hu] at hs; omega
  · rename_i u hu
    have := length_skipBreaks_le u
    cases h; simp [hu] at hs; omega
  · cases h

/-- A line end inside a string stays as it is; a carriage return stands only before a line feed. -/
def staysInLines (c : Char) (s : List Char) : Bool :=
  c == '\n' || (c == '\r' && s.head? == some '\n') || isPrinting c

def longBasicBody (s : List Char) : Option (List Char × List Char) :=
  match s with
  | [] => none
  | c :: s =>
    if c = '\\' then
      match _ : continued? s with
      | some t => longBasicBody t
      | none =>
        match _ : escape? s with
        | none => none
        | some (d, t) => (longBasicBody t).map fun (r, u) => (d :: r, u)
    else
      match if c = '"' then closing? '"' (c :: s) else none with
      | some r => some r
      | none =>
        if staysInLines c s then (longBasicBody s).map fun (r, u) => (c :: r, u) else none
termination_by s.length
decreasing_by
  · have := length_of_continued? ‹continued? s = some t›; simp; omega
  · have := length_of_escape? ‹escape? s = some (d, t)›; simp; omega
  · simp

def longLiteralBody : Reader (List Char)
  | [] => none
  | c :: s =>
    match if c = '\'' then closing? '\'' (c :: s) else none with
    | some r => some r
    | none => if staysInLines c s then (longLiteralBody s).map fun (r, u) => (c :: r, u) else none

/-- A line end right behind the first three quotes does not count. -/
def skipFirstBreak : List Char → List Char
  | '\n' :: s => s
  | '\r' :: '\n' :: s => s
  | s => s

def shortString : Reader (List Char)
  | '"' :: s => basicBody s
  | '\'' :: s => literalBody s
  | _ => none

def string : Reader (List Char)
  | '"' :: '"' :: '"' :: s => longBasicBody (skipFirstBreak s)
  | '\'' :: '\'' :: '\'' :: s => longLiteralBody (skipFirstBreak s)
  | s => shortString s

end Fileset.Toml
