import Fileset.Pattern.Error
import Fileset.Text.Natural

namespace Fileset.Settings

inductive Error
  /-- The text is no document, or its values are not of the kinds that settings have. -/
  | malformed
  | noThreads
  | badPattern (set : String) (cause : Pattern.Error)
  | notBoolean (value : String)
  | notNumber (value : String) (cause : Text.Natural.Fault)
  | notPolicy (value : String)
  | unknownKey (key : String)
  | cannotUnset (key : String)
  | noSuchSet (name : String)
  deriving DecidableEq, Repr

def Error.message : Error → String
  | .malformed => "Failed to parse TOML config"
  | .noThreads => "Parallel threads must be at least 1"
  | .badPattern set cause => s!"Invalid pattern in set '{set}': {cause.message}"
  | .notBoolean value =>
    s!"Invalid boolean: {value}: provided string was not " ++ "`true` or `false`"
  | .notNumber value cause => s!"Invalid number: {value}: {cause.message}"
  | .notPolicy value => s!"on_unreadable must be 'skip' or 'abort', got '{value}'"
  | .unknownKey key => s!"Unknown configuration key: {key}"
  | .cannotUnset key => s!"Cannot unset configuration key: {key}"
  | .noSuchSet name => s!"No pattern set named '{name}'"

end Fileset.Settings
