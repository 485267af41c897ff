import Fileset.Pattern.Error
import Fileset.Text.Blank

namespace Fileset.Pattern

/-- A pattern starts at the root of the walk whether or not it says so. -/
def dropStart : List Char → List Char
  | '.' :: '/' :: s => dropStart s
  | '/' :: s => dropStart s
  | s => s

def unifySlash (c : Char) : Char := if c = '\\' then '/' else c

def hasStretch : List Char → Bool
  | '*' :: '*' :: _ => true
  | _ :: s => hasStretch s
  | [] => false

def fault? (raw : String) : List (List Char) → Option Error
  | [] => none
  | part :: parts =>
    if part.isEmpty then some (.emptySegment raw)
    else if part ≠ ['*', '*'] ∧ hasStretch part then some (.mixedStretch raw (String.ofList part))
    else fault? raw parts

def collapse : List (List Char) → List (List Char)
  | ['*', '*'] :: ['*', '*'] :: parts => collapse (['*', '*'] :: parts)
  | part :: parts => part :: collapse parts
  | [] => []

def body (raw : String) : List Char := dropStart ((Text.trim raw.toList).map unifySlash)

def closeWithStretch (parts : List (List Char)) : List (List Char) :=
  if parts.getLast? = some ['*', '*'] then parts else parts ++ [['*', '*']]

def normalize (raw : String) : Except Error (List String) :=
  if raw.toList.contains '\x00' then .error .nul
  else
    let text := body raw
    if text = [] ∨ text = ['.'] then .error .empty
    else
      let parts := (Text.dropEnd (· == '/') text).splitOn '/'
      match fault? raw parts with
      | some e => .error e
      | none =>
        let row := collapse parts
        .ok ((if text.getLast? = some '/' then closeWithStretch row else row).map String.ofList)

end Fileset.Pattern
