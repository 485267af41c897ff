import Fileset.Pattern.Matcher

namespace Fileset.Walk

structure Rules where
  includes : List Matcher := []
  excludes : List Matcher := []
  deriving DecidableEq, Repr

/-- Some include accepts the path, or there are none; and no exclude does. -/
def Rules.admits (r : Rules) (path : RelPath) : Bool :=
  (r.includes.isEmpty || r.includes.any (·.accepts path)) && !r.excludes.any (·.accepts path)

end Fileset.Walk
