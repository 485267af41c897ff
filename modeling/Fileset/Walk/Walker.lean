import Fileset.Walk.Run

namespace Fileset.Walk

structure Walker where
  caseSensitive : Bool
  rules : Rules := {}
  options : Options := {}
  deriving DecidableEq, Repr

namespace Walker

def setIncludes (w : Walker) (raws : List String) : Except Pattern.Error Walker := do
  let includes ← Matcher.compileAll true w.caseSensitive raws
  return { w with rules := { w.rules with includes } }

def setExcludes (w : Walker) (raws : List String) : Except Pattern.Error Walker := do
  let excludes ← Matcher.compileAll false w.caseSensitive raws
  return { w with rules := { w.rules with excludes } }

def walk (w : Walker) (v : Visitor ω ε) (limit : Nat) (root : Bytes) (world : ω) :
    Step ω ε (ω × Summary) :=
  Walk.walk v w.rules w.options limit root world

end Walker
end Fileset.Walk
