import Fileset.Command.Basic
import Fileset.Selection.Error
import Fileset.Selection.Home
import Fileset.Settings.File
import Fileset.Text.Paint

namespace Fileset.Command

inductive Error
  | home (cause : Home.Error)
  | loading (path : Bytes) (cause : Settings.File.Error)
  | saving (cause : Settings.File.Error)
  | setting (cause : Settings.Error)
  | selecting (cause : Selection.Error)
  | pattern (raw : String) (cause : Pattern.Error)
  deriving DecidableEq, Repr

def Error.message : Error → String
  | .home cause => cause.message
  | .loading path cause => s!"Failed to load config from {path.display}: {cause.message}"
  | .saving cause => cause.message
  | .setting cause => cause.message
  | .selecting cause => cause.message
  | .pattern raw cause => s!"Cannot compile pattern '{raw}': {cause.message}"

structure Output where
  out : String := ""
  err : String := ""
  deriving DecidableEq, Repr

namespace Output

def append (a b : Output) : Output := ⟨a.out ++ b.out, a.err ++ b.err⟩

def ofResult (text : String) : Output := { out := text }
def ofMessage (text : String) : Output := { err := text ++ "\n" }

end Output

structure Voice where
  verbosity : Verbosity
  colours : Bool
  deriving DecidableEq, Repr

namespace Voice

def warning (v : Voice) (text : String) : Output :=
  .ofMessage (Text.Paint.boldYellow.apply v.colours text)

def success (v : Voice) (text : String) : Output :=
  if v.verbosity = .quiet then {} else .ofMessage (Text.Paint.green.apply v.colours text)

def detail (v : Voice) (text : String) : Output :=
  if v.verbosity = .verbose then .ofMessage (Text.Paint.dim.apply v.colours text) else {}

def failure (v : Voice) (e : Error) : Output :=
  .ofMessage (Text.Paint.boldRed.apply v.colours "Error:" ++ " " ++ e.message)

end Voice

structure Outcome where
  output : Output := {}
  error : Option Error := none
  tree : Tree
  deriving DecidableEq, Repr

end Fileset.Command
