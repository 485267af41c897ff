import Fileset.Text.Paint
import Fileset.Toml.Table

namespace Fileset.Settings

open Toml (Value)

inductive Warning
  | unknown (field : String)
  | deprecated (field : String)
  deriving DecidableEq, Repr

namespace Warning

def knownFields : List String :=
  ["walk.case_sensitive", "walk.follow_symlinks", "walk.sort_entries", "walk.on_unreadable",
    "walk.default_excludes", "performance.parallel_threads"]

/-- The field that once turned case sensitivity off. -/
def ignoreCase : String := "walk.ignore_case"

def dotted (above key : String) : String := if above.isEmpty then key else above ++ "." ++ key

def setName? (field : String) : Option String :=
  match field.toList with
  | 's' :: 'e' :: 't' :: 's' :: '.' :: name => some (String.ofList name)
  | _ => none

/-- A set has its two lists and nothing else. -/
def ofSet (field : String) : Value → List Warning
  | .table es =>
    (es.filter fun e => e.1 != "includes" && e.1 != "excludes").map fun e =>
      .unknown (field ++ "." ++ e.1)
  | _ => [.unknown field]

mutual

def ofField (field : String) : Value → List Warning
  | .table es => ofEntries field es
  | _ => if knownFields.contains field then [] else [.unknown field]

def ofEntries (above : String) : List (String × Value) → List Warning
  | [] => []
  | (key, v) :: rest =>
    let field := dotted above key
    (if (setName? field).isSome then ofSet field v
      else if field = ignoreCase then [.deprecated field]
      else ofField field v) ++ ofEntries above rest

end

def isUnknown : Warning → Bool
  | .unknown _ => true
  | .deprecated _ => false

/-- The warnings about a document, unknown fields first. -/
def ofTable (es : List (String × Value)) : List Warning :=
  let all := ofEntries "" es
  all.filter isUnknown ++ all.filter (!·.isUnknown)

/-- The warnings about the text of a document. Its integers must fit into 64 bits. -/
def ofText? (text : String) : Option (List Warning) := do
  let es ← Toml.parse? text
  if Value.entriesFit (-Nat.pow 2 63) (Nat.pow 2 63 - 1) es then some (ofTable es) else none

def message (colours : Bool) : Warning → String
  | .unknown field => "Unknown configuration field: " ++ Text.Paint.yellow.apply colours field
  | .deprecated field =>
    "Deprecated field '" ++ Text.Paint.yellow.apply colours field ++ "': " ++
      Text.Paint.dim.apply colours "Use walk.case_sensitive instead."

end Warning
end Fileset.Settings
