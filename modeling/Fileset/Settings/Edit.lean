import Fileset.Settings.Key
import Fileset.Settings.Valid
import Fileset.Text.Blank

namespace Fileset

def PatternSet.side (set : PatternSet) : Settings.Side → List String
  | .includes => set.includes
  | .excludes => set.excludes

def PatternSet.setSide (set : PatternSet) (raws : List String) : Settings.Side → PatternSet
  | .includes => { set with includes := raws }
  | .excludes => { set with excludes := raws }

namespace Settings

def boolText (b : Bool) : String := if b then "true" else "false"

def getAt (s : Settings) : Key → Option String
  | .caseSensitive => some (boolText s.caseSensitive)
  | .followLinks => some (boolText s.walk.followLinks)
  | .sorted => some (boolText s.walk.sorted)
  | .onUnreadable => some s.walk.onUnreadable.name
  | .defaultExcludes => some (boolText s.defaultExcludes)
  | .threads => some s.threads.repr
  | .patterns name side => (s.patternSet? name).map fun set => ",".intercalate (set.side side)
  | .whole _ => none

def get? (s : Settings) (key : String) : Option String := (Key.parse? key).bind s.getAt

def parseBool (value : String) : Except Error Bool :=
  if value = "true" then .ok true
  else if value = "false" then .ok false
  else .error (.notBoolean value)

def parsePolicy (value : String) : Except Error Walk.OnUnreadable :=
  if value = "skip" then .ok .skip
  else if value = "abort" then .ok .abort
  else .error (.notPolicy value)

def parseThreads (value : String) : Except Error Nat :=
  match Text.Natural.read threadLimit value.toList with
  | .ok 0 => .error .noThreads
  | .ok n => .ok n
  | .error cause => .error (.notNumber value cause)

def splitPatterns (value : String) : List String :=
  (((value.toList.splitOn ',').map Text.trim).filter (!·.isEmpty)).map String.ofList

def setPatterns (s : Settings) (name : String) (side : Side) (raws : List String) : Settings :=
  { s with sets := s.sets.put name (((s.patternSet? name).getD {}).setSide raws side) }

def setAt (s : Settings) (key value : String) : Option Key → Except Error Settings
  | some .caseSensitive => (parseBool value).map fun b => { s with caseSensitive := b }
  | some .followLinks => (parseBool value).map fun b => { s with walk := { s.walk with followLinks := b } }
  | some .sorted => (parseBool value).map fun b => { s with walk := { s.walk with sorted := b } }
  | some .onUnreadable =>
    (parsePolicy value).map fun p => { s with walk := { s.walk with onUnreadable := p } }
  | some .defaultExcludes => (parseBool value).map fun b => { s with defaultExcludes := b }
  | some .threads => (parseThreads value).map fun n => { s with threads := n }
  | some (.patterns name side) =>
    let raws := splitPatterns value
    (checkPatterns name raws).map fun _ => s.setPatterns name side raws
  | some (.whole _) | none => .error (.unknownKey key)

def set (s : Settings) (key value : String) : Except Error Settings :=
  s.setAt key value (Key.parse? key)

def unsetAt (s : Settings) (key : String) (machine : Machine := .silent) :
    Option Key → Except Error Settings
  | some .caseSensitive => .ok { s with caseSensitive := (initial machine).caseSensitive }
  | some .followLinks => .ok { s with walk := { s.walk with followLinks := (initial machine).walk.followLinks } }
  | some .sorted => .ok { s with walk := { s.walk with sorted := (initial machine).walk.sorted } }
  | some .onUnreadable =>
    .ok { s with walk := { s.walk with onUnreadable := (initial machine).walk.onUnreadable } }
  | some .defaultExcludes => .ok { s with defaultExcludes := (initial machine).defaultExcludes }
  | some .threads => .ok { s with threads := (initial machine).threads }
  | some (.patterns name side) =>
    if (s.patternSet? name).isSome then .ok (s.setPatterns name side []) else .error (.noSuchSet name)
  | some (.whole name) =>
    if (s.patternSet? name).isSome then .ok { s with sets := s.sets.erase name }
    else .error (.noSuchSet name)
  | none => .error (.cannotUnset key)

/-- Give a setting its default again; a list becomes empty, and a whole set goes. -/
def unset (s : Settings) (key : String) (machine : Machine := .silent) : Except Error Settings :=
  s.unsetAt key machine (Key.parse? key)

end Settings
end Fileset
