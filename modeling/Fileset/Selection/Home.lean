import Fileset.RelPath

namespace Fileset.Home

inductive Error
  | emptyPath
  | unknown
  deriving DecidableEq, Repr

def Error.message : Error → String
  | .emptyPath => "Path cannot be empty"
  | .unknown => "Could not find home directory"

/-- The path with a tilde in front of it replaced; a tilde in front of a name stands for itself. -/
def expand (home : Option String) (path : String) : Except Error String :=
  match path.toList with
  | [] => .error .emptyPath
  | ['~'] => known home
  | '~' :: '/' :: rest => (known home).map (RelPath.enter · (String.ofList rest))
  | _ => .ok path
where
  known : Option String → Except Error String
    | some home => .ok home
    | none => .error .unknown

end Fileset.Home
