import Fileset.Command.Outcome
import Fileset.Selection.Listing

namespace Fileset.Command

def showSelection (v : Voice) (r : Request) (s : Selection) : Output :=
  if s.summary.rootFound then
    let skipped := s.summary.unreadable.map fun dir =>
      v.warning s!"skipped unreadable directory {dir.display}"
    ((Output.ofResult (s.text r)).append (skipped.foldl .append {})).append
      (v.detail (Selection.summaryLine s.root s.summary))
  else v.warning s!"{s.root}: no such file or directory"

/-- What is shown of the roots, and the error of the first that failed. -/
def showAll (v : Voice) (r : Request) :
    List (Except Selection.Error Selection) → Output × Option Error
  | [] => ({}, none)
  | .error e :: _ => ({}, some (.selecting e))
  | .ok s :: rest =>
    let (output, error) := showAll v r rest
    ((showSelection v r s).append output, error)

def runSelect (v : Voice) (home : Option String) (base : Bytes) (settings : Settings) (t : Tree)
    (roots : List String) (r : Request) : Output × Option Error :=
  match Plan.resolve settings r, roots.mapM (Home.expand home) with
  | .error e, _ => ({}, some (.selecting e))
  | .ok _, .error e => ({}, some (.home e))
  | .ok plan, .ok roots => showAll v r (roots.map (plan.select t base))

end Fileset.Command
