import Fileset.RelPath
import Fileset.Tree.Error
import Fileset.Tree.Path

namespace Fileset.Walk

structure Notice where
  location : Location
  path : RelPath
  deriving DecidableEq, Repr

inductive LogLine
  | rootMissing (root : String)
  | rootUnresolved (cause : Tree.Error)
  | rootNotText (root : Location)
  | rootRejected (path : RelPath)
  | unreadable (dir : Location) (cause : Tree.Error)
  | pruned (path : RelPath)
  | alreadyWalked (dir : Location)
  | notText (entry : Location)
  | dangling (entry : Location) (cause : Tree.Error)
  | complete (files dirs pruned unreadable : Nat)
  deriving DecidableEq, Repr

namespace LogLine

inductive Level
  | debug
  | info
  | warn
  deriving DecidableEq, Repr

def Level.name : Level → String
  | .debug => "DEBUG"
  | .info => "INFO"
  | .warn => "WARN"

def level : LogLine → Level
  | .rootMissing _ => .info
  | .rootNotText _ | .unreadable .. | .alreadyWalked _ | .notText _ | .dangling .. => .warn
  | .rootUnresolved _ | .rootRejected _ | .pruned _ | .complete .. => .debug

def message : LogLine → String
  | .rootMissing root => s!"file or directory '{root}' not found"
  | .rootUnresolved _ => "root could not be resolved"
  | .rootNotText _ => "skipping root with non UTF-8 name"
  | .rootRejected _ => "root file rejected by patterns"
  | .unreadable .. => "skipping unreadable directory"
  | .pruned _ => "pruned directory"
  | .alreadyWalked _ => "directory already walked through another link, not descending"
  | .notText _ => "skipping entry with non UTF-8 name"
  | .dangling .. => "skipping dangling link"
  | .complete .. => "walk complete"

end LogLine

inductive Event
  | notice (n : Notice)
  | log (line : LogLine)
  deriving DecidableEq, Repr

abbrev Trace := List Event

namespace Trace

def notices (t : Trace) : List Notice := t.filterMap fun | .notice n => some n | .log _ => none
def log (t : Trace) : List LogLine := t.filterMap fun | .log l => some l | .notice _ => none

end Trace

structure Summary where
  rootFound : Bool := false
  files : Nat := 0
  dirs : Nat := 0
  /-- Directories that the patterns rejected. -/
  pruned : Nat := 0
  /-- Directories that could not be listed. -/
  unreadable : List Location := []
  deriving DecidableEq, Repr

/-- Entries reported. Counts are 64-bit words. -/
def Summary.total (s : Summary) : Nat := (s.files + s.dirs) % Nat.pow 2 64

def Summary.closing (s : Summary) : LogLine := .complete s.files s.dirs s.pruned s.unreadable.length

inductive Stop (ε : Type u)
  /-- The visitor did not take the entry. -/
  | refused (notice : Notice) (error : ε)
  | unreadable (dir : Location) (cause : Tree.Error)
  /-- The allotted number of directories was used up. -/
  | exhausted
  deriving DecidableEq, Repr

/-- The text of a stop, given the texts of the errors of the visitor. -/
def Stop.message (text : ε → String) : Stop ε → String
  | .refused _ error => text error
  | .unreadable dir _ => s!"cannot read directory {dir.display}"
  | .exhausted => "too many directories"

end Fileset.Walk
