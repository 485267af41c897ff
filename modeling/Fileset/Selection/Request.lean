namespace Fileset

structure Request where
  includes : List String := []
  excludes : List String := []
  /-- The name of a set to start from. -/
  set : Option String := none
  ignoreCase : Bool := false
  noDefaultExcludes : Bool := false
  followLinks : Bool := false
  sort : Bool := false
  noSort : Bool := false
  filesOnly : Bool := false
  dirsOnly : Bool := false
  /-- Show where entries lie instead of their paths below the root. -/
  absolute : Bool := false
  /-- End each entry with a NUL instead of a line end. -/
  nul : Bool := false
  failOnUnreadable : Bool := false
  deriving DecidableEq, Repr

def Request.sortOverride? (r : Request) : Option Bool :=
  if r.sort then some true else if r.noSort then some false else none

end Fileset
