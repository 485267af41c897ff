import Fileset.Pattern.Matcher
import Fileset.Settings.Basic
import Fileset.Settings.Error

namespace Fileset.Settings

def checkPatterns (name : String) (raws : List String) : Except Error Unit :=
  match Matcher.compileAll true true raws with
  | .ok _ => .ok ()
  | .error cause => .error (.badPattern name cause)

def checkSets : List (String × PatternSet) → Except Error Unit
  | [] => .ok ()
  | (name, set) :: rest => do
    checkPatterns name set.includes
    checkPatterns name set.excludes
    checkSets rest

def check (s : Settings) : Except Error Unit :=
  if s.threads = 0 then .error .noThreads else checkSets s.sets.entries

end Fileset.Settings
