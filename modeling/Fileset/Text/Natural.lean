namespace Fileset.Text.Natural

inductive Fault
  | empty
  | notDigit
  | tooLarge
  deriving DecidableEq, Repr

def Fault.message : Fault → String
  | .empty => "cannot parse integer from empty string"
  | .notDigit => "invalid digit found in string"
  | .tooLarge => "number too large to fit in target type"

/-- Go on reading after the number `n`. The first character that cannot be taken decides the fault. -/
def readOn (limit : Nat) (n : Nat) : List Char → Except Fault Nat
  | [] => .ok n
  | c :: s =>
    if c.isDigit then
      let m := n * 10 + (c.toNat - '0'.toNat)
      if m < limit then readOn limit m s else .error .tooLarge
    else .error .notDigit

def read (limit : Nat) : List Char → Except Fault Nat
  | [] => .error .empty
  | ['+'] => .error .notDigit
  | '+' :: s => readOn limit 0 s
  | s => readOn limit 0 s

end Fileset.Text.Natural
