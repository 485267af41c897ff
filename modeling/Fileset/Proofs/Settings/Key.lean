import Fileset.Proofs.Text.Split
import Fileset.Settings.Key

namespace Fileset.Settings

def Side.text : Side → String
  | .includes => "includes"
  | .excludes => "excludes"

namespace Key

def set? : Key → Option String
  | .patterns name _ | .whole name => some name
  | _ => none

def text : Key → String
  | .caseSensitive => "walk.case_sensitive"
  | .followLinks => "walk.follow_symlinks"
  | .sorted => "walk.sort_entries"
  | .onUnreadable => "walk.on_unreadable"
  | .defaultExcludes => "walk.default_excludes"
  | .threads => "performance.parallel_threads"
  | .patterns name side => "sets." ++ name ++ "." ++ side.text
  | .whole name => "sets." ++ name

/-- A set whose name has a dot in it has keys, but no text reaches them. -/
def WrittenAs (key : Key) (text : String) : Prop :=
  text = key.text ∧ ∀ name ∈ key.set?, '.' ∉ name.toList

def parts : Key → List String
  | .caseSensitive => ["walk", "case_sensitive"]
  | .followLinks => ["walk", "follow_symlinks"]
  | .sorted => ["walk", "sort_entries"]
  | .onUnreadable => ["walk", "on_unreadable"]
  | .defaultExcludes => ["walk", "default_excludes"]
  | .threads => ["performance", "parallel_threads"]
  | .patterns name side => ["sets", name, side.text]
  | .whole name => ["sets", name]

variable {key : Key} {text : String}

theorem text_toList (key : Key) : key.text.toList = ['.'].intercalate (key.parts.map String.toList) := by
  cases key with
  | patterns name side => simp [Key.text, parts, List.intercalate]
  | whole name => simp [Key.text, parts, List.intercalate]
  | _ => rfl

theorem ofParts?_iff {names : List String} : ofParts? names = some key ↔ names = key.parts := by
  constructor
  · intro h
    unfold ofParts? at h
    split at h <;> cases h <;> rfl
  · rintro rfl
    cases key with
    | patterns name side => cases side <;> rfl
    | _ => rfl

theorem dotless_parts (hset : ∀ name ∈ key.set?, '.' ∉ name.toList) :
    ∀ part ∈ key.parts.map String.toList, '.' ∉ part := by
  cases key with
  | patterns name side =>
    have hname : '.' ∉ name.toList := hset name rfl
    cases side <;> simp [parts, Side.text, hname]
  | whole name =>
    have hname : '.' ∉ name.toList := hset name rfl
    simp [parts, hname]
  | _ => decide

/-- What a text names is told from the text alone: each key has one spelling, and there are no others. -/
theorem parse?_iff : parse? text = some key ↔ key.WrittenAs text := by
  rw [parse?, ofParts?_iff]
  constructor
  · intro h
    have hparts : text.toList.splitOn '.' = key.parts.map String.toList := by
      rw [← h, List.map_map]
      simp [Function.comp_def]
    refine ⟨?_, fun name hname hdot => ?_⟩
    · rw [← String.toList_inj, text_toList, ← hparts, List.intercalate_splitOn]
    · have hmem : name ∈ key.parts := by
        cases key <;> cases hname <;> simp [parts]
      have hpart : name.toList ∈ text.toList.splitOn '.' := hparts ▸ List.mem_map_of_mem hmem
      exact (Text.mem_of_mem_splitOn hpart hdot).1 rfl
  · rintro ⟨rfl, hset⟩
    have hne : key.parts.map String.toList ≠ [] := by cases key <;> simp [parts]
    rw [text_toList, List.splitOn_intercalate '.' (dotless_parts hset) hne, List.map_map]
    simp [Function.comp_def]

example : parse? "sets.java.excludes" = some (.patterns "java" .excludes) := by decide

end Key
end Fileset.Settings
