import Fileset.Pattern.Normal
import Fileset.Pattern.Segment
import Fileset.RelPath
import Fileset.Text.Lowercase

namespace Fileset

namespace Matcher

inductive Shape
  /-- A lone stretch: every path. -/
  | everything
  /-- No wildcard at all: the names as they are. -/
  | literal (names : List String)
  /-- One segment with wildcards. -/
  | single (segment : Segment)
  | row (segments : List Segment)
  deriving DecidableEq, Repr

def Shape.ofSegments (texts : List String) : Shape :=
  if texts = ["**"] then .everything
  else if !texts.any (·.toList.any Glob.isWild) then .literal texts
  else match texts with
    | [text] => .single (.ofText text)
    | texts => .row (texts.map .ofText)

def Shape.accepts (early : Bool) : Shape → List String → Bool
  | .everything, _ => true
  | .literal names, path =>
    if names.length < path.length then false
    else if path.length < names.length && !early then false
    else (path.zip names).all fun p => p.1 == p.2
  | .single _, [] => early
  | .single segment, [name] => segment.accepts name
  | .single _, _ => false
  | .row segments, path => Segment.rowAccepts early segments path

end Matcher

structure Matcher where
  /-- The normal form, in the case it was given in. -/
  pattern : String
  shape : Matcher.Shape
  forInclude : Bool
  caseSensitive : Bool
  deriving DecidableEq, Repr

namespace Matcher

def fold (caseSensitive : Bool) (names : List String) : List String :=
  if caseSensitive then names else names.map Text.lowercase

def compile (forInclude caseSensitive : Bool) (raw : String) : Except Pattern.Error Matcher := do
  let segments ← Pattern.normalize raw
  return {
    pattern := "/".intercalate segments
    shape := .ofSegments (fold caseSensitive segments)
    forInclude, caseSensitive }

def compileAll (forInclude caseSensitive : Bool) (raws : List String) :
    Except Pattern.Error (List Matcher) :=
  raws.mapM (compile forInclude caseSensitive)

def accepts (m : Matcher) (path : RelPath) : Bool :=
  m.shape.accepts (m.forInclude && !path.isFile) (fold m.caseSensitive path.segments)

def kind (m : Matcher) : String :=
  match m.shape with
  | .everything => "all"
  | .literal _ => "literal"
  | .single _ => "name"
  | .row _ => "wildcard"

end Matcher
end Fileset
