import Fileset.Toml.Term

namespace Fileset.Toml

inductive Statement
  | assign (key : Key) (value : Term)
  /-- `[key]` -/
  | header (key : Key)
  /-- `[[key]]` -/
  | item (key : Key)
  deriving Repr

namespace Statement

def readHeader : Reader Statement
  | '[' :: s => do
    let (k, s) ← key s
    let ']' :: ']' :: s := s | none
    return (.item k, s)
  | s => do
    let (k, s) ← key s
    let ']' :: s := s | none
    return (.header k, s)

def read : Reader Statement
  | '[' :: s => readHeader s
  | s => (pair (term depthLimit) s).map fun ((k, v), u) => (.assign k v, u)

/-- The statements of a text, which has fewer than `n` lines. -/
def readAll : Nat → List Char → Option (List Statement)
  | 0, _ => none
  | n + 1, s => do
    let s ← skipLines false s
    if s.isEmpty then return []
    let (statement, s) ← read s
    let s ← endLine false s
    return statement :: (← readAll n s)

end Statement
end Fileset.Toml
