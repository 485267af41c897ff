import Fileset.Selection.Plan

namespace Fileset

/-- An entry by its path or its location. Directories end in a slash. -/
def entryText (absolute : Bool) (location : String) (path : RelPath) : String :=
  let shown := if absolute then location else path.render
  if path.isFile || shown.toList.getLast? = some '/' then shown else shown ++ "/"

namespace Selection

def isShown (r : Request) (n : Walk.Notice) : Bool :=
  if n.path.isFile then !r.dirsOnly else !r.filesOnly

def items (s : Selection) (r : Request) : List String :=
  (s.notices.filter (isShown r)).map fun n => entryText r.absolute n.location.display n.path

def terminator (r : Request) : String := if r.nul then "\x00" else "\n"

def text (s : Selection) (r : Request) : String :=
  String.join ((s.items r).map (· ++ terminator r))

def summaryLine (root : String) (s : Walk.Summary) : String :=
  if !s.rootFound then s!"{root}: not found"
  else
    s!"{root}: {s.files} files, {s.dirs} directories, {s.pruned} pruned"
      ++ if s.unreadable.isEmpty then "" else s!", {s.unreadable.length} unreadable"

end Selection
end Fileset
