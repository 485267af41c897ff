import Fileset.Settings.Document
import Fileset.Settings.Written
import Fileset.Tree.Edit

namespace Fileset.Settings

namespace File

inductive Error
  | cannotCreate (dir : Bytes) (cause : Tree.Error)
  | cannotWrite (path : Bytes) (cause : Tree.Error)
  | cannotRead (path : Bytes) (cause : Tree.Error)
  /-- A large file is no text. -/
  | notText
  | invalid (cause : Settings.Error)
  deriving DecidableEq, Repr

def Error.message : Error → String
  | .cannotCreate dir cause => s!"Failed to create {dir.display}: {cause.message}"
  | .cannotWrite path cause => s!"Failed to write config file: {path.display}: {cause.message}"
  | .cannotRead path cause => s!"Failed to read config file: {path.display}: {cause.message}"
  | .notText => "Invalid UTF-8 in config file: invalid utf-8 sequence"
  | .invalid cause => cause.message

/-- The size from which a file counts as large. -/
def large : Nat := 4096

end File

def ofBytes (path content : Bytes) (machine : Machine := .silent) : Except File.Error Settings :=
  match content.text? with
  | some text => (parse text machine).mapError .invalid
  | none => .error (if content.length < File.large then .cannotRead path .notText else .notText)

def read (path : Bytes) (t : Tree) (machine : Machine := .silent) : Except File.Error Settings :=
  match t.read path with
  | .ok content => ofBytes path content machine
  | .error cause => .error (.cannotRead path cause)

def save (s : Settings) (path : Bytes) (t : Tree) : Except File.Error Tree := do
  let t ← (t.makeDirectory (Path.parent path)).mapError (.cannotCreate (Path.parent path))
  (t.write path (Bytes.ofText s.write)).mapError (.cannotWrite path)

def load (path : Bytes) (t : Tree) (machine : Machine := .silent) : Except File.Error (Settings × Tree) :=
  if t.existsAt path then (read path t machine).map (·, t)
  else ((initial machine).save path t).map (initial machine, ·)

end Fileset.Settings
