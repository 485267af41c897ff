import Fileset.Settings.Basic
import Fileset.Toml.Layout

namespace Fileset.Settings

open Toml (line writeBoolean writeHeader writeNatural writeText writeTexts)

def writeWalk (s : Settings) : List Char :=
  writeHeader ["walk"]
    ++ line "case_sensitive" (writeBoolean s.caseSensitive)
    ++ line "follow_symlinks" (writeBoolean s.walk.followLinks)
    ++ line "sort_entries" (writeBoolean s.walk.sorted)
    ++ line "on_unreadable" (writeText s.walk.onUnreadable.name.toList)
    ++ line "default_excludes" (writeBoolean s.defaultExcludes)

def writePerformance (s : Settings) : List Char :=
  writeHeader ["performance"] ++ line "parallel_threads" (writeNatural s.threads)

def writeSet (name : String) (set : PatternSet) : List Char :=
  writeHeader ["sets", name]
    ++ line "includes" (writeTexts set.includes)
    ++ line "excludes" (writeTexts set.excludes)

/-- A bare header stands for no sets. -/
def writeSets : List (String × PatternSet) → List Char
  | [] => writeHeader ["sets"]
  | sets => ['\n'].intercalate (sets.map fun e => writeSet e.1 e.2)

def write (s : Settings) : String :=
  String.ofList (writeWalk s ++ '\n' :: writePerformance s ++ '\n' :: writeSets s.sets.entries)

end Fileset.Settings
