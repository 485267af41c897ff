import Fileset.NameMap
import Fileset.Walk.Options

namespace Fileset

structure PatternSet where
  includes : List String := []
  excludes : List String := []
  deriving DecidableEq, Repr

/-- A machine, as far as it says how many threads it can run at a time. -/
structure Machine where
  processors : Nat
  working : 0 < processors
  deriving DecidableEq, Repr

namespace Machine

/-- It does not say anything. -/
def silent : Machine := ⟨1, Nat.one_pos⟩

def ofCount (processors : Nat) : Machine := if h : 0 < processors then ⟨processors, h⟩ else silent

/-- The threads that are used if nobody says how many. -/
def threads (machine : Machine) : Nat := min machine.processors 8

end Machine

structure Settings where
  caseSensitive : Bool := true
  walk : Walk.Options := {}
  /-- Leave out what version control systems and editors leave behind. -/
  defaultExcludes : Bool := true
  /-- How many roots may be walked at a time. What is selected does not depend on it. -/
  threads : Nat := Machine.silent.threads
  sets : NameMap PatternSet := .empty
  deriving DecidableEq

namespace Settings

def initial (machine : Machine) : Settings := { threads := machine.threads }

def threadLimit : Nat := Nat.pow 2 64

def leftovers : List String :=
  ["**/*~", "**/#*#", "**/.#*", "**/%*%", "**/._*",
    "**/CVS", "**/CVS/**", "**/.cvsignore",
    "**/SCCS", "**/SCCS/**",
    "**/vssver.scc",
    "**/.svn", "**/.svn/**",
    "**/.DS_Store",
    "**/.git", "**/.git/**", "**/.gitattributes", "**/.gitignore", "**/.gitmodules",
    "**/.hg", "**/.hg/**", "**/.hgignore", "**/.hgsub", "**/.hgsubstate", "**/.hgtags",
    "**/.bzr", "**/.bzr/**", "**/.bzrignore"]

def implicitExcludes (s : Settings) : List String := if s.defaultExcludes then leftovers else []

def patternSet? (s : Settings) (name : String) : Option PatternSet := s.sets.get? name

end Settings
end Fileset
