namespace Fileset.Settings

inductive Side
  | includes
  | excludes
  deriving DecidableEq, Repr

inductive Key
  | caseSensitive
  | followLinks
  | sorted
  | onUnreadable
  | defaultExcludes
  | threads
  | patterns (set : String) (side : Side)
  /-- A whole set. -/
  | whole (set : String)
  deriving DecidableEq, Repr

namespace Key

def ofParts? : List String → Option Key
  | ["walk", "case_sensitive"] => some .caseSensitive
  | ["walk", "follow_symlinks"] => some .followLinks
  | ["walk", "sort_entries"] => some .sorted
  | ["walk", "on_unreadable"] => some .onUnreadable
  | ["walk", "default_excludes"] => some .defaultExcludes
  | ["performance", "parallel_threads"] => some .threads
  | ["sets", name] => some (.whole name)
  | ["sets", name, "includes"] => some (.patterns name .includes)
  | ["sets", name, "excludes"] => some (.patterns name .excludes)
  | _ => none

def parse? (text : String) : Option Key :=
  ofParts? ((text.toList.splitOn '.').map String.ofList)

end Key
end Fileset.Settings
