import Fileset.Text.Bytes

namespace Fileset

/-- The names from the top of the tree down to one place. -/
abbrev Location := List Bytes

namespace Path

def slash : UInt8 := 0x2f
def dot : UInt8 := 0x2e

inductive Step
  /-- An empty part or a single dot: stay, in what must be a directory. -/
  | stay
  | up
  | name (name : Bytes)
  deriving DecidableEq, Repr

def Step.ofPart (part : Bytes) : Step :=
  if part = [] ∨ part = [dot] then .stay else if part = [dot, dot] then .up else .name part

def steps (path : Bytes) : List Step := (path.splitOn slash).map Step.ofPart

def isAbsolute (path : Bytes) : Bool := path.head? == some slash

def join (base path : Bytes) : Bytes :=
  if isAbsolute path then path
  else if base = [] ∨ base.getLast? = some slash then base ++ path
  else base ++ slash :: path

/-- The last step and the steps before it, where the last step counts: `stay` at the end does not. -/
def split? (path : Bytes) : Option (List Step × Step) :=
  match (steps path).reverse.dropWhile (· == .stay) with
  | [] => none
  | last :: before => some (before.reverse, last)

/-- The written path without trailing slashes and single dots. -/
def strip : Nat → Bytes → Bytes
  | 0, path => path
  | n + 1, path =>
    match path.reverse with
    | [] => path
    | b :: rest =>
      if b = slash ∧ rest ≠ [] then strip n rest.reverse
      else if b = dot ∧ rest.head? = some slash then strip n rest.reverse
      else path

def parent (path : Bytes) : Bytes :=
  let path := strip path.length path
  let kept := (path.reverse.dropWhile (· != slash)).reverse
  strip kept.length kept

end Path

namespace Location

def path : Location → Bytes
  | [] => [Path.slash]
  | names => names.flatMap (Path.slash :: ·)

def display (loc : Location) : String := Bytes.display loc.path

end Location
end Fileset
