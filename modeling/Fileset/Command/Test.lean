import Fileset.Command.Outcome
import Fileset.Pattern.Matcher

namespace Fileset.Command

def accepts (trial : Trial) (m : Matcher) (path : String) : Bool :=
  m.accepts (.parse (!trial.directories) path)

def showMatcher (m : Matcher) : String :=
  s!"compiled '{m.pattern}' as {m.kind} " ++ (if m.forInclude then "include" else "exclude")
    ++ " matcher"

def showVerdict (v : Voice) (path : String) (accepted : Bool) : Output :=
  .ofResult ((if accepted then Text.Paint.green.apply v.colours "match"
    else Text.Paint.dim.apply v.colours "no match") ++ "\t" ++ path ++ "\n")

def runTest (v : Voice) (trial : Trial) : Output × Option Error :=
  match Matcher.compile (!trial.exclude) (!trial.ignoreCase) trial.pattern with
  | .error e => ({}, some (.pattern trial.pattern e))
  | .ok m =>
    let verdicts := trial.paths.map fun p => showVerdict v p (accepts trial m p)
    (verdicts.foldl .append (v.detail (showMatcher m)), none)

end Fileset.Command
