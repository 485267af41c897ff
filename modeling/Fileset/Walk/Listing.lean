import Fileset.Tree.Resolve
import Fileset.Walk.Options
import Fileset.Walk.Trace

namespace Fileset.Walk

structure Child where
  name : String
  isDir : Bool
  deriving DecidableEq, Repr

namespace Child

def location (c : Child) (dir : Location) : Location := dir ++ [Bytes.ofText c.name]
def path (c : Child) (dir : RelPath) : RelPath := dir.child (!c.isDir) c.name

/-- One entry of the directory `dir`. An entry whose name is no text is left out, and so is a link
that leads nowhere when links are followed. -/
def ofEntry (t : Tree) (follow : Bool) (dir : Location) :
    Bytes × Tree.Kind → Except LogLine Child
  | (name, kind) =>
    match name.text? with
    | none => .error (.notText (dir ++ [name]))
    | some text =>
      match follow, kind with
      | true, .link _ =>
        match t.locateAt (dir ++ [name]) with
        | .ok loc => .ok ⟨text, t.isDirectory loc⟩
        | .error cause => .error (.dangling (dir ++ [name]) cause)
      | _, kind => .ok ⟨text, kind.isDirectory⟩

end Child

def byName (entries : List (Bytes × Tree.Kind)) : List (Bytes × Tree.Kind) :=
  entries.mergeSort fun a b => a.1.le b.1

def ordered (options : Options) (entries : List (Bytes × Tree.Kind)) : List (Bytes × Tree.Kind) :=
  if options.sorted then byName entries else entries

structure Listing where
  children : List Child
  skipped : List LogLine

def Listing.ofResults (results : List (Except LogLine Child)) : Listing where
  children := results.filterMap (·.toOption)
  skipped := results.filterMap fun | .error line => some line | .ok _ => none

/-- List the directory that `dir` leads to. It fails only if the directory itself cannot be read. -/
def list (t : Tree) (options : Options) (dir : Location) : Except Tree.Error Listing :=
  (t.locateAt dir >>= t.contents).map fun entries =>
    .ofResults ((ordered options entries).map (Child.ofEntry t options.followLinks dir))

end Fileset.Walk
