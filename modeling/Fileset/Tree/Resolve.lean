import Fileset.Tree.Basic
import Fileset.Tree.Error

namespace Fileset.Tree

/-- The end of a path: a place that is there, or a free name in a directory that is. -/
inductive Spot
  | present (loc : Location)
  | absent (dir : Location) (name : Bytes)
  deriving DecidableEq, Repr

/-- The number of links that one path may lead through. -/
def linkLimit : Nat := 40

/-- Take `steps` from `here`, through at most `links` links. Each step must start in a directory. -/
def resolveFrom (t : Tree) (links : Nat) (here : Location) : List Path.Step → Except Error Spot
  | [] => .ok (.present here)
  | step :: rest =>
    if t.isDirectory here then
      match step with
      | .stay => resolveFrom t links here rest
      | .up => resolveFrom t links here.dropLast rest
      | .name n =>
        match t.find? here n with
        | none => if rest.isEmpty then .ok (.absent here n) else .error .notFound
        | some (.link target) =>
          match links with
          | 0 => .error .tooManyLinks
          | links + 1 =>
            resolveFrom t links (if Path.isAbsolute target then [] else here)
              (Path.steps target ++ rest)
        | some _ => resolveFrom t links (here ++ [n]) rest
    else .error .notDirectory
termination_by steps => (links, steps.length)

def resolve (t : Tree) (steps : List Path.Step) : Except Error Spot :=
  resolveFrom t linkLimit [] steps

def locate (t : Tree) (steps : List Path.Step) : Except Error Location :=
  match t.resolve steps with
  | .ok (.present loc) => .ok loc
  | .ok (.absent _ _) => .error .notFound
  | .error e => .error e

def locatePath (t : Tree) (path : Bytes) : Except Error Location :=
  if path.isEmpty then .error .notFound else t.locate (Path.steps path)

/-- The place at a location that may lead through links. -/
def locateAt (t : Tree) (loc : Location) : Except Error Location := t.locate (loc.map .name)

def existsAt (t : Tree) (path : Bytes) : Bool := (t.locatePath path).isOk

def isDirectoryAt (t : Tree) (path : Bytes) : Bool :=
  match t.locatePath path with
  | .ok loc => t.isDirectory loc
  | .error _ => false

def read (t : Tree) (path : Bytes) : Except Error Bytes := do
  match t.kindAt? (← t.locatePath path) with
  | some (.file content) => return content
  | some (.directory true) => throw .isDirectory
  | some (.directory false) | some .locked => throw .denied
  | some .pipe => return []
  | _ => throw .notFound

/-- What is in the directory at a location, if it may be read. Nothing is in what is no directory. -/
def contents (t : Tree) (loc : Location) : Except Error (List (Bytes × Kind)) :=
  match t.kindAt? loc with
  | some (.directory true) => .ok (t.inside loc)
  | some (.directory false) => .error .denied
  | _ => .ok []

end Fileset.Tree
