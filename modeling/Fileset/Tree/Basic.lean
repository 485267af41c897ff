import Fileset.Tree.Path

namespace Fileset

namespace Tree

inductive Kind
  /-- One that may not be read can still be passed through. -/
  | directory (readable : Bool := true)
  | file (content : Bytes)
  /-- A file that may be neither read nor written. -/
  | locked
  /-- Neither a directory nor a regular file. -/
  | pipe
  | link (target : Bytes)
  deriving DecidableEq, Repr

def Kind.isDirectory : Kind → Bool
  | .directory _ => true
  | _ => false

def Kind.isFile : Kind → Bool
  | .file _ | .locked => true
  | _ => false

structure Entry where
  dir : Location
  name : Bytes
  kind : Kind
  deriving DecidableEq, Repr

def Entry.location (e : Entry) : Location := e.dir ++ [e.name]

end Tree

structure Tree where
  entries : List Tree.Entry
  deriving DecidableEq, Repr

namespace Tree

def empty : Tree := ⟨[]⟩

def find? (t : Tree) (dir : Location) (name : Bytes) : Option Kind :=
  (t.entries.find? fun e => e.name == name && e.dir == dir).map (·.kind)

def kindAt? (t : Tree) (loc : Location) : Option Kind :=
  match loc.getLast? with
  | none => some .directory
  | some name => t.find? loc.dropLast name

def isDirectory (t : Tree) (loc : Location) : Bool := (t.kindAt? loc).any Kind.isDirectory

def isFile (t : Tree) (loc : Location) : Bool := (t.kindAt? loc).any Kind.isFile

/-- What is in a directory, in the order in which the system hands it out. -/
def inside (t : Tree) (dir : Location) : List (Bytes × Kind) :=
  (t.entries.filter (·.dir == dir)).map fun e => (e.name, e.kind)

def directories (t : Tree) : List Location :=
  [] :: (t.entries.filter (·.kind.isDirectory)).map Entry.location

end Tree
end Fileset
