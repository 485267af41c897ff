import Fileset.Settings.Edit
import Fileset.Text.Paint
import Fileset.Text.Quoted

namespace Fileset.Settings

def listSet (colours : Bool) (name : String) (set : PatternSet) : List String :=
  ["", Text.Paint.bold.apply colours s!"[sets.{name}]",
    "  includes = " ++ Text.quotedList set.includes,
    "  excludes = " ++ Text.quotedList set.excludes]

def listLines (colours : Bool) (s : Settings) : List String :=
  [Text.Paint.bold.apply colours "[walk]",
    "  case_sensitive = " ++ boolText s.caseSensitive,
    "  follow_symlinks = " ++ boolText s.walk.followLinks,
    "  sort_entries = " ++ boolText s.walk.sorted,
    "  on_unreadable = " ++ s.walk.onUnreadable.name,
    "  default_excludes = " ++ boolText s.defaultExcludes ++ " " ++
      Text.Paint.dim.apply colours s!"({leftovers.length} patterns)",
    "",
    Text.Paint.bold.apply colours "[performance]",
    "  parallel_threads = " ++ s.threads.repr]
    ++ s.sets.entries.flatMap fun e => listSet colours e.1 e.2

def list (colours : Bool) (s : Settings) : String := "\n".intercalate (s.listLines colours)

end Fileset.Settings
