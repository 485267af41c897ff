import Fileset.Toml.Lexis
import Fileset.Toml.Value

namespace Fileset.Toml

def ungroup? (isDigit : Char → Bool) : List Char → Option (List Char)
  | [] => none
  | [c] => if isDigit c then some [c] else none
  | c :: '_' :: s => if isDigit c then (ungroup? isDigit s).map (c :: ·) else none
  | c :: s => if isDigit c then (ungroup? isDigit s).map (c :: ·) else none

/-- A decimal number without a sign; only zero itself starts with a zero. -/
def decimal? (s : List Char) : Option Nat :=
  match ungroup? isDigit s with
  | some ['0'] => some 0
  | some ('0' :: _) => none
  | some digits => some (numeral 10 digits)
  | none => none

def sign (s : List Char) : Bool × List Char :=
  match s with
  | '-' :: s => (true, s)
  | '+' :: s => (false, s)
  | s => (false, s)

def negateIf (negative : Bool) (n : Nat) : Int := if negative then -(n : Int) else n

def integer? (s : List Char) : Option Int :=
  match s with
  | '0' :: 'x' :: s => (ungroup? isHexDigit s).map fun d => (numeral 16 d : Int)
  | '0' :: 'o' :: s => (ungroup? (fun c => '0' ≤ c && c ≤ '7') s).map fun d => (numeral 8 d : Int)
  | '0' :: 'b' :: s => (ungroup? (fun c => c == '0' || c == '1') s).map fun d => (numeral 2 d : Int)
  | s => (decimal? (sign s).2).map (negateIf (sign s).1)

def fraction? (s : List Char) : Option (List Char × List Char) :=
  match s with
  | '.' :: s =>
    let (digits, rest) := s.span fun c => isDigit c || c == '_'
    (ungroup? isDigit digits).map (·, rest)
  | s => some ([], s)

def exponent? (s : List Char) : Option Int :=
  match s with
  | [] => some 0
  | c :: s =>
    if c = 'e' ∨ c = 'E' then
      (ungroup? isDigit (sign s).2).map fun d => negateIf (sign s).1 (numeral 10 d)
    else none

/-- A number with a fraction, an exponent or both. -/
def real? (s : List Char) : Option Real :=
  match (sign s).2 with
  | ['i', 'n', 'f'] => some .infinite
  | ['n', 'a', 'n'] => some .undefined
  | s =>
    let (whole, rest) := s.span fun c => isDigit c || c == '_'
    if rest = [] then none
    else do
      let n ← decimal? whole
      let (digits, rest) ← fraction? rest
      let e ← exponent? rest
      return .decimal (n * Nat.pow 10 digits.length + numeral 10 digits) (e - digits.length)

end Fileset.Toml
