namespace Fileset.Pattern

inductive Error
  | empty
  | emptySegment (pattern : String)
  /-- Two stars together with other characters in one segment. -/
  | mixedStretch (pattern segment : String)
  | nul
  deriving DecidableEq, Repr

def Error.message : Error → String
  | .empty => "empty pattern"
  | .emptySegment pattern => s!"empty path segment in pattern '{pattern}'"
  | .mixedStretch pattern segment =>
    s!"'**' must be a whole path segment in pattern '{pattern}' (found '{segment}')"
  | .nul => "pattern contains a NUL character"

end Fileset.Pattern
