import Fileset.Selection.Request

namespace Fileset

inductive Verbosity
  | quiet
  | normal
  | verbose
  deriving DecidableEq, Repr

structure Trial where
  pattern : String
  paths : List String
  exclude : Bool := false
  ignoreCase : Bool := false
  /-- The paths are those of directories. -/
  directories : Bool := false
  deriving DecidableEq, Repr

inductive Action
  | select (roots : List String) (request : Request)
  /-- Show all settings. -/
  | list
  | get (key : String)
  | set (key value : String)
  | unset (key : String)
  deriving DecidableEq, Repr

inductive Command
  | test (trial : Trial)
  | act (action : Action)
  deriving DecidableEq, Repr

inductive Invocation
  | run (verbosity : Verbosity) (command : Command)
  | help
  | version
  deriving DecidableEq, Repr

end Fileset
