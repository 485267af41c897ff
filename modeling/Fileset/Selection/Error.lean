import Fileset.Pattern.Error
import Fileset.Walk.Trace

namespace Fileset.Selection

inductive Error
  | noSuchSet (name : String)
  | badInclude (cause : Pattern.Error)
  | badExclude (cause : Pattern.Error)
  | stopped (root : String) (stop : Walk.Stop Empty)
  deriving DecidableEq, Repr

def behind : Walk.Stop Empty → String
  | .unreadable _ cause => ": " ++ cause.message
  | _ => ""

def Error.message : Error → String
  | .noSuchSet name => s!"No pattern set named '{name}' in config"
  | .badInclude cause => s!"Invalid include pattern: {cause.message}"
  | .badExclude cause => s!"Invalid exclude pattern: {cause.message}"
  | .stopped root stop => s!"Failed to walk {root}: " ++ stop.message nofun ++ behind stop

end Fileset.Selection
