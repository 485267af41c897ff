namespace Fileset.Walk

inductive OnUnreadable
  | skip
  | abort
  deriving DecidableEq, Repr

def OnUnreadable.name : OnUnreadable → String
  | .skip => "skip"
  | .abort => "abort"

structure Options where
  /-- A link to a directory is walked like a directory; else a link is reported as a file. -/
  followLinks : Bool := false
  /-- Children are taken in the order of their names, else in the order of the file system. -/
  sorted : Bool := true
  onUnreadable : OnUnreadable := .skip
  deriving DecidableEq, Repr

end Fileset.Walk
