import Fileset.Settings.Edit

namespace Fileset.Settings.InPlace

abbrev Steps := EStateM Error Settings

def provide (name : String) : Steps Unit :=
  modify fun s => { s with sets := s.sets.put name ((s.patternSet? name).getD {}) }

def setAt (key value : String) : Option Key → Steps Unit
  | some .caseSensitive => do
    let b ← ofExcept (parseBool value)
    modify fun s => { s with caseSensitive := b }
  | some .followLinks => do
    let b ← ofExcept (parseBool value)
    modify fun s => { s with walk := { s.walk with followLinks := b } }
  | some .sorted => do
    let b ← ofExcept (parseBool value)
    modify fun s => { s with walk := { s.walk with sorted := b } }
  | some .onUnreadable => do
    let p ← ofExcept (parsePolicy value)
    modify fun s => { s with walk := { s.walk with onUnreadable := p } }
  | some .defaultExcludes => do
    let b ← ofExcept (parseBool value)
    modify fun s => { s with defaultExcludes := b }
  | some .threads => do
    let n ← ofExcept (parseThreads value)
    modify fun s => { s with threads := n }
  | some (.patterns name side) => do
    let raws := splitPatterns value
    ofExcept (checkPatterns name raws)
    provide name
    modify fun s => s.setPatterns name side raws
  | some (.whole _) | none => throw (.unknownKey key)

def set (key value : String) : Steps Unit := setAt key value (Key.parse? key)

def take (name : String) : Steps Bool :=
  modifyGet fun s => ((s.patternSet? name).isSome, { s with sets := s.sets.erase name })

def unsetAt (key : String) (machine : Machine := .silent) : Option Key → Steps Unit
  | some .caseSensitive => modify fun s => { s with caseSensitive := (initial machine).caseSensitive }
  | some .followLinks =>
    modify fun s => { s with walk := { s.walk with followLinks := (initial machine).walk.followLinks } }
  | some .sorted =>
    modify fun s => { s with walk := { s.walk with sorted := (initial machine).walk.sorted } }
  | some .onUnreadable =>
    modify fun s => { s with walk := { s.walk with onUnreadable := (initial machine).walk.onUnreadable } }
  | some .defaultExcludes =>
    modify fun s => { s with defaultExcludes := (initial machine).defaultExcludes }
  | some .threads => modify fun s => { s with threads := (initial machine).threads }
  | some (.patterns name side) => do
    let s ← get
    if (s.patternSet? name).isSome then modify fun s => s.setPatterns name side []
    else throw (.noSuchSet name)
  | some (.whole name) => do
    let there ← take name
    if there then pure () else throw (.noSuchSet name)
  | none => throw (.cannotUnset key)

def unset (key : String) (machine : Machine := .silent) : Steps Unit :=
  unsetAt key machine (Key.parse? key)

end Fileset.Settings.InPlace
