namespace Fileset.Toml

/-- A number with a fraction or an exponent, without its sign. -/
inductive Real
  | infinite
  | undefined
  /-- `digits * 10 ^ exponent` -/
  | decimal (digits : Nat) (exponent : Int)
  deriving DecidableEq, Repr

/-- The least number that rounds to infinity in double precision. -/
def Real.bound : Nat := Nat.pow 2 1024 - Nat.pow 2 970

/-- A finite number beyond double precision. Exponents far out are decided without the power. -/
def Real.tooLarge : Real → Bool
  | .decimal digits exponent =>
    let size := ((Nat.toDigits 10 digits).length : Int) + exponent
    if digits = 0 ∨ size < 300 then false
    else if size > 320 then true
    else Real.bound * Nat.pow 10 (-exponent).toNat ≤ digits * Nat.pow 10 exponent.toNat
  | _ => false

inductive Scalar
  | string (s : String)
  | integer (n : Int)
  | real (x : Real)
  | boolean (b : Bool)
  /-- A date, a time, or both, as written. -/
  | moment (text : String)
  deriving DecidableEq, Repr

inductive Value
  | scalar (s : Scalar)
  | array (items : List Value)
  | table (entries : List (String × Value))
  deriving Repr

namespace Value

mutual

/-- Every number in the value can be held: integers from `low` to `high`, others in double
precision. -/
def fits (low high : Int) : Value → Bool
  | .scalar (.integer n) => low ≤ n && n ≤ high
  | .scalar (.real x) => !x.tooLarge
  | .scalar _ => true
  | .array items => itemsFit low high items
  | .table entries => entriesFit low high entries

def itemsFit (low high : Int) : List Value → Bool
  | [] => true
  | v :: vs => v.fits low high && itemsFit low high vs

def entriesFit (low high : Int) : List (String × Value) → Bool
  | [] => true
  | (_, v) :: es => v.fits low high && entriesFit low high es

end

end Value
end Fileset.Toml
