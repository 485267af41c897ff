import Fileset.Settings.Valid
import Fileset.Toml.Table

namespace Fileset.Settings

open Toml (Value)

/-- Every number in a value that is passed over must still fit into 128 bits. -/
def passes (v : Value) : Bool := v.fits (-Nat.pow 2 127) (Nat.pow 2 128 - 1)

/-- What a section gives for each of its fields. A date names no field at all. -/
def fields? (names : List String) : Value → Option (String → Option Value)
  | .table es =>
    if es.all fun e => names.contains e.1 || passes e.2 then some fun name => Assoc.get? name es
    else none
  | .array items => some fun name => (names.idxOf? name).bind (items[·]?)
  | .scalar (.moment _) => some fun _ => none
  | .scalar _ => none

/-- The default where there is no value; else the value, if it is of the right kind. -/
def orDefault (default : α) (read : Value → Option α) : Option Value → Option α
  | none => some default
  | some v => read v

def bool? : Value → Option Bool
  | .scalar (.boolean b) => some b
  | _ => none

def text? : Value → Option String
  | .scalar (.string s) => some s
  | _ => none

def texts? : Value → Option (List String)
  | .array items => items.mapM text?
  | _ => none

def threads? : Value → Option Nat
  | .scalar (.integer n) => if 0 ≤ n ∧ n < threadLimit then some n.toNat else none
  | _ => none

def policyNamed? (name : String) : Option Walk.OnUnreadable :=
  if name = "skip" then some .skip else if name = "abort" then some .abort else none

/-- A policy stands as its name, or as a table with its name and nothing under it. -/
def policy? : Value → Option Walk.OnUnreadable
  | .scalar (.string name) => policyNamed? name
  | .table [(name, .table [])] => policyNamed? name
  | .table [(name, .array [])] => policyNamed? name
  | _ => none

def walkFields : List String :=
  ["case_sensitive", "follow_symlinks", "sort_entries", "on_unreadable", "default_excludes"]

def readWalk (v : Value) (s : Settings) : Option Settings := do
  let field ← fields? walkFields v
  return { s with
    caseSensitive := ← orDefault s.caseSensitive bool? (field "case_sensitive")
    walk := {
      followLinks := ← orDefault s.walk.followLinks bool? (field "follow_symlinks")
      sorted := ← orDefault s.walk.sorted bool? (field "sort_entries")
      onUnreadable := ← orDefault s.walk.onUnreadable policy? (field "on_unreadable") }
    defaultExcludes := ← orDefault s.defaultExcludes bool? (field "default_excludes") }

def readPerformance (v : Value) (s : Settings) : Option Settings := do
  let field ← fields? ["parallel_threads"] v
  return { s with threads := ← orDefault s.threads threads? (field "parallel_threads") }

def set? (v : Value) : Option PatternSet := do
  let field ← fields? ["includes", "excludes"] v
  return {
    includes := ← orDefault [] texts? (field "includes")
    excludes := ← orDefault [] texts? (field "excludes") }

def readSets (v : Value) (s : Settings) : Option Settings :=
  match v with
  | .table es => do
    let sets ← es.mapM fun e => (set? e.2).map (e.1, ·)
    return { s with sets := .ofList sets }
  | _ => none

def ifGiven (read : Value → Settings → Option Settings) (v : Option Value) (s : Settings) :
    Option Settings :=
  match v with
  | none => some s
  | some v => read v s

def ofTable? (es : List (String × Value)) (machine : Machine := .silent) : Option Settings := do
  let field ← fields? ["walk", "performance", "sets"] (.table es)
  let s ← ifGiven readWalk (field "walk") (initial machine)
  let s ← ifGiven readPerformance (field "performance") s
  ifGiven readSets (field "sets") s

def parse (text : String) (machine : Machine := .silent) : Except Error Settings :=
  match (Toml.parse? text).bind fun es => ofTable? es machine with
  | none => .error .malformed
  | some s => s.check.map fun _ => s

end Fileset.Settings
