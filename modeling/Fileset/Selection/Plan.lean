import Fileset.Selection.Error
import Fileset.Selection.Request
import Fileset.Settings.Basic
import Fileset.Walk.Walker

namespace Fileset

structure Plan where
  includes : List String
  excludes : List String
  caseSensitive : Bool
  options : Walk.Options
  deriving DecidableEq, Repr

structure Selection where
  /-- The root as it was given. -/
  root : String
  notices : List Walk.Notice
  summary : Walk.Summary
  deriving DecidableEq, Repr

namespace Plan

/-- The set that the request starts from; an empty one if it names none. -/
def startSet (s : Settings) : Option String → Except Selection.Error PatternSet
  | none => .ok {}
  | some name =>
    match s.patternSet? name with
    | some set => .ok set
    | none => .error (.noSuchSet name)

def mergeOptions (o : Walk.Options) (r : Request) : Walk.Options where
  followLinks := o.followLinks || r.followLinks
  sorted := r.sortOverride?.getD o.sorted
  onUnreadable := if r.failOnUnreadable then .abort else o.onUnreadable

/-- Patterns of the named set come first, then those of the request, then the implicit excludes. -/
def resolve (s : Settings) (r : Request) : Except Selection.Error Plan := do
  let set ← startSet s r.set
  return {
    includes := set.includes ++ r.includes
    excludes := set.excludes ++ r.excludes
      ++ if r.noDefaultExcludes then [] else s.implicitExcludes
    caseSensitive := s.caseSensitive && !r.ignoreCase
    options := mergeOptions s.walk r }

def walker (p : Plan) : Except Selection.Error Walk.Walker := do
  let w : Walk.Walker := { caseSensitive := p.caseSensitive, options := p.options }
  let w ← (w.setIncludes p.includes).mapError .badInclude
  (w.setExcludes p.excludes).mapError .badExclude

def select (p : Plan) (t : Tree) (base : Bytes) (root : String) : Except Selection.Error Selection := do
  let w ← p.walker
  let run := w.walk Walk.observer (Walk.limitFor t) (Path.join base (Bytes.ofText root)) t
  match run.result with
  | .ok (_, summary) => return ⟨root, run.trace.notices, summary⟩
  | .error halt => throw (.stopped root halt.stop)

end Plan
end Fileset
