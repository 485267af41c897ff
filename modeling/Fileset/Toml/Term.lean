import Fileset.Toml.Moment
import Fileset.Toml.Number
import Fileset.Toml.Strings

namespace Fileset.Toml

abbrev Key := List String

inductive Term
  | scalar (s : Scalar)
  | array (items : List Term)
  | inline (pairs : List (Key × Term))
  deriving Repr

def depthLimit : Nat := 80

def keyLimit : Nat := 80

def keyPart : Reader String
  | '"' :: s => (basicBody s).map fun (t, u) => (String.ofList t, u)
  | '\'' :: s => (literalBody s).map fun (t, u) => (String.ofList t, u)
  | s =>
    match s.span isBare with
    | ([], _) => none
    | (t, u) => some (String.ofList t, u)

def keyUpTo : Nat → Reader Key
  | 0, _ => none
  | n + 1, s =>
    match keyPart (skipSpace s) with
    | none => none
    | some (part, s) =>
      match skipSpace s with
      | '.' :: s => (keyUpTo n s).map fun (parts, u) => (part :: parts, u)
      | s => some ([part], s)

def key : Reader Key := keyUpTo keyLimit

def isScalarChar (c : Char) : Bool :=
  isBare c || c == '+' || c == '.' || c == ':'

/-- The characters of a scalar other than a string; a date takes a time behind a space with it. -/
def scalarSpan (s : List Char) : List Char × List Char :=
  let (t, u) := s.span isScalarChar
  match u with
  | ' ' :: c :: v =>
    if Moment.isDate t && isDigit c then
      let (w, x) := (c :: v).span isScalarChar
      (t ++ ' ' :: w, x)
    else (t, u)
  | _ => (t, u)

def scalarOf? (t : List Char) : Option Scalar :=
  if t = ['t', 'r', 'u', 'e'] then some (.boolean true)
  else if t = ['f', 'a', 'l', 's', 'e'] then some (.boolean false)
  else match integer? t with
    | some n => some (.integer n)
    | none =>
      match real? t with
      | some x => some (.real x)
      | none => if Moment.isMoment t then some (.moment (String.ofList t)) else none

def scalar : Reader Scalar
  | '"' :: s => (string ('"' :: s)).map fun (t, u) => (.string (String.ofList t), u)
  | '\'' :: s => (string ('\'' :: s)).map fun (t, u) => (.string (String.ofList t), u)
  | s =>
    let (t, u) := scalarSpan s
    (scalarOf? t).map (·, u)

/-- Items between commas up to `close`, from behind the opening bracket. A comma may follow the last
item; lines may end anywhere between. -/
def listUpTo (item : Reader α) (close : Char) : Nat → Reader (List α)
  | 0, _ => none
  | n + 1, s => do
    let s ← skipLines false s
    if s.head? = some close then return ([], s.tail)
    let (a, s) ← item s
    let s ← skipLines false s
    match s with
    | ',' :: s =>
      let (as, s) ← listUpTo item close n s
      return (a :: as, s)
    | c :: s => if c = close then return ([a], s) else none
    | [] => none

def pair (value : Reader α) : Reader (Key × α) := fun s => do
  let (k, s) ← key s
  let '=' :: s := s | none
  let (v, s) ← value (skipSpace s)
  return ((k, v), s)

/-- A value in which arrays and tables stand at most `depth` deep. -/
def term : Nat → Reader Term
  | depth, '[' :: s =>
    match depth with
    | 0 => none
    | depth + 1 =>
      (listUpTo (term depth) ']' s.length s).map fun (items, u) => (.array items, u)
  | depth, '\x7b' :: s =>
    match depth with
    | 0 => none
    | depth + 1 =>
      (listUpTo (pair (term depth)) '\x7d' s.length s).map fun (pairs, u) => (.inline pairs, u)
  | _, s => (scalar s).map fun (v, u) => (.scalar v, u)

end Fileset.Toml
