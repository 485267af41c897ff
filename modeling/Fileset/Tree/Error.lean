namespace Fileset.Tree

inductive Error
  | notFound
  | alreadyThere
  | notDirectory
  | isDirectory
  | tooManyLinks
  | denied
  /-- What was read is no text. -/
  | notText
  deriving DecidableEq, Repr

namespace Error

def message : Error → String
  | .notFound => "No such file or directory (os error 2)"
  | .alreadyThere => "File exists (os error 17)"
  | .notDirectory => "Not a directory (os error 20)"
  | .isDirectory => "Is a directory (os error 21)"
  | .tooManyLinks => "Too many levels of symbolic links (os error 40)"
  | .denied => "Permission denied (os error 13)"
  | .notText => "stream did not contain valid UTF-8"

def name : Error → String
  | .notFound => "NotFound"
  | .alreadyThere => "AlreadyExists"
  | .notDirectory => "NotADirectory"
  | .isDirectory => "IsADirectory"
  | .tooManyLinks => "FilesystemLoop"
  | .denied => "PermissionDenied"
  | .notText => "InvalidData"

end Error
end Fileset.Tree
