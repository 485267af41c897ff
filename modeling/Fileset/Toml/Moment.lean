import Fileset.Toml.Lexis

namespace Fileset.Toml.Moment

def two? : Reader Nat
  | a :: b :: s => if isDigit a && isDigit b then some (numeral 10 [a, b], s) else none
  | _ => none

def daysIn (year month : Nat) : Nat :=
  if month = 2 then
    if year % 4 = 0 ∧ (year % 100 ≠ 0 ∨ year % 400 = 0) then 29 else 28
  else if month = 4 ∨ month = 6 ∨ month = 9 ∨ month = 11 then 30
  else 31

def date? (s : List Char) : Option (List Char) := do
  let (century, s) ← two? s
  let (years, s) ← two? s
  let '-' :: s := s | none
  let (month, s) ← two? s
  let '-' :: s := s | none
  let (day, s) ← two? s
  if 1 ≤ month ∧ month ≤ 12 ∧ 1 ≤ day ∧ day ≤ daysIn (100 * century + years) month then some s
  else none

def secondFraction? (s : List Char) : Option (List Char) :=
  match s with
  | '.' :: s => if (s.head?.any isDigit) then some (s.dropWhile isDigit) else none
  | s => some s

/-- A time of day at the start of the text, leap seconds included; what follows it. -/
def time? (s : List Char) : Option (List Char) := do
  let (hour, s) ← two? s
  let ':' :: s := s | none
  let (minute, s) ← two? s
  if hour > 23 ∨ minute > 59 then none
  else match s with
    | ':' :: s =>
      let (second, s) ← two? s
      if second > 60 then none else secondFraction? s
    | s => some s

/-- An offset is all that may follow a date with a time. -/
def isOffset (s : List Char) : Bool :=
  match s with
  | [] => true
  | [c] => c == 'Z' || c == 'z'
  | c :: s =>
    (c == '+' || c == '-') &&
      match two? s with
      | some (hours, ':' :: s) =>
        match two? s with
        | some (minutes, []) => hours ≤ 23 && minutes ≤ 59
        | _ => false
      | _ => false

def isDate (s : List Char) : Bool := date? s = some []

def isMoment (s : List Char) : Bool :=
  match date? s with
  | some [] => true
  | some (c :: s) =>
    (c == 'T' || c == 't' || c == ' ') &&
      match time? s with
      | some rest => isOffset rest
      | none => false
  | none => time? s = some []

end Fileset.Toml.Moment
