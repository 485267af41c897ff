import Fileset.Tree.Resolve

namespace Fileset.Tree

def insert (t : Tree) (dir : Location) (name : Bytes) (kind : Kind) : Tree :=
  ⟨t.entries ++ [⟨dir, name, kind⟩]⟩

def replace (t : Tree) (loc : Location) (kind : Kind) : Tree :=
  ⟨t.entries.map fun e => if e.location = loc then { e with kind } else e⟩

def erase (t : Tree) (loc : Location) : Tree :=
  ⟨t.entries.filter fun e => !loc.isPrefixOf e.location⟩

/-- The directory and the name that a path ends with; a link there is not followed. -/
def place (t : Tree) (path : Bytes) : Except Error (Location × Option Bytes) :=
  match Path.split? path with
  | none => .ok ([], none)
  | some (before, last) => do
    let dir ← t.locate before
    if t.isDirectory dir then
      match last with
      | .name name => return (dir, some name)
      | _ => return (dir, none)
    else throw .notDirectory

def add (t : Tree) (path : Bytes) (kind : Kind) : Except Error Tree := do
  match ← t.place path with
  | (_, none) => throw .alreadyThere
  | (dir, some name) =>
    if (t.find? dir name).isSome then throw .alreadyThere else return t.insert dir name kind

def makeDirectories (t : Tree) : Nat → Bytes → Except Error Tree
  | 0, _ => .ok t
  | n + 1, path =>
    match t.add path .directory with
    | .ok t => .ok t
    | .error .notFound =>
      match makeDirectories t n (Path.parent path) with
      | .error e => .error e
      | .ok t =>
        match t.add path .directory with
        | .ok t => .ok t
        | .error e => if t.isDirectoryAt path then .ok t else .error e
    | .error e => if t.isDirectoryAt path then .ok t else .error e

def makeDirectory (t : Tree) (path : Bytes) : Except Error Tree :=
  t.makeDirectories (Path.steps path).length path

/-- Write a file: the one that the path leads to, or a new one. -/
def write (t : Tree) (path : Bytes) (content : Bytes) : Except Error Tree :=
  match t.resolve (Path.steps path) with
  | .error e => .error e
  | .ok (.absent dir name) => .ok (t.insert dir name (.file content))
  | .ok (.present loc) =>
    match t.kindAt? loc with
    | some (.directory _) => .error .isDirectory
    | some (.file _) => .ok (t.replace loc (.file content))
    | some .locked => .error .denied
    | _ => .ok t

/-- Remove what is at the end of a path, a directory with all that is in it; a link itself goes, not
what it leads to. -/
def remove (t : Tree) (path : Bytes) : Except Error Tree := do
  match ← t.place path with
  | (_, none) => throw .isDirectory
  | (dir, some name) =>
    if (t.find? dir name).isSome then return t.erase (dir ++ [name]) else throw .notFound

end Fileset.Tree
