import Fileset.Settings.Document
import Fileset.Settings.Warning
import Mathlib

namespace Fileset.Settings

open Toml (Value)

/-- A value that is not a table, and the keys that lead to it. -/
inductive Leaf : List (String × Value) → List String → Value → Prop
  | here {es : List (String × Value)} {key : String} {v : Value} (h : (key, v) ∈ es)
    (hv : ∀ inner, v ≠ .table inner) : Leaf es [key] v
  | inside {es inner : List (String × Value)} {key : String} {path : List String} {v : Value}
    (h : (key, .table inner) ∈ es) (hleaf : Leaf inner path v) : Leaf es (key :: path) v

def setFields : List String := ["includes", "excludes"]

/-- The keys of what settings are read from, and of what lies inside of that. -/
inductive Read : List String → Prop
  | walk {field : String} (h : field ∈ walkFields) (below : List String) :
    Read ("walk" :: field :: below)
  | threads (below : List String) : Read ("performance" :: "parallel_threads" :: below)
  | set (name : String) {field : String} (h : field ∈ setFields) (below : List String) :
    Read ("sets" :: name :: field :: below)

theorem Read.two_le_length {path : List String} (h : Read path) : 2 ≤ path.length := by
  cases h <;> simp

/-- Keys that are taken for others, as only their names with dots between them are looked at. -/
inductive Mistaken : List String → Prop
  /-- An empty key in front leaves no dot behind. -/
  | nameless {path : List String} (h : ∃ key ∈ path, key ≠ "") : Mistaken ("" :: path)
  /-- One key looks like that of a section with a field of it. -/
  | field {key : String} (h : key ∈ Warning.knownFields) : Mistaken [key]
  /-- One key looks like that of the sets with a name of one. -/
  | set {key field : String} (hkey : (Warning.setName? key).isSome = true) (h : field ∈ setFields)
    (below : List String) : Mistaken (key :: field :: below)

namespace Warning

def field : Warning → String
  | .unknown field => field
  | .deprecated field => field

def Names (w : Warning) (path : List String) : Prop :=
  ∃ front, front ≠ [] ∧ front <+: path ∧ w.field = ".".intercalate front

theorem names_self {w : Warning} {path : List String} (hne : path ≠ [])
    (h : w.field = ".".intercalate path) : w.Names path :=
  ⟨path, hne, List.prefix_refl path, h⟩

section Dots

/-- A dot after a part without dots is the first dot. -/
theorem first_dot {part rest front back : List Char} (hpart : '.' ∉ part)
    (h : part ++ '.' :: rest = front ++ '.' :: back) :
    front = part ∧ back = rest ∨ ∃ more, front = part ++ '.' :: more ∧ rest = more ++ '.' :: back := by
  rcases List.append_eq_append_iff.mp h with ⟨more, rfl, hrest⟩ | ⟨more, rfl, hback⟩
  · cases more with
    | nil => simpa using hrest.symm
    | cons c more =>
      obtain ⟨rfl, rfl⟩ := List.cons.inj hrest
      exact .inr ⟨more, rfl, rfl⟩
  · cases more with
    | nil => simpa using hback
    | cons c more =>
      obtain ⟨rfl, -⟩ := List.cons.inj hback
      exact absurd (List.mem_append_right _ List.mem_cons_self) hpart

theorem setName?_eq_some {field name : String} : setName? field = some name ↔ field = "sets." ++ name := by
  have hchars (name : String) : ("sets." ++ name).toList = 's' :: 'e' :: 't' :: 's' :: '.' :: name.toList := by
    rw [String.toList_append]
    rfl
  constructor
  · intro h
    unfold setName? at h
    split at h
    · rename_i chars heq
      cases h
      apply String.toList_inj.mp
      rw [heq, hchars, String.toList_ofList]
    · cases h
  · rintro rfl
    simp only [setName?, hchars, String.ofList_toList]

theorem intercalate_concat {front : List String} (hne : front ≠ []) (key : String) :
    ".".intercalate (front ++ [key]) = ".".intercalate front ++ "." ++ key := by
  rw [String.intercalate_append_of_ne_nil hne (List.cons_ne_nil key []), String.intercalate_singleton]

/-- Keys without a dot between them are one key. -/
theorem eq_singleton_of_no_dot {front : List String} (hne : front ≠ [])
    (h : '.' ∉ (".".intercalate front).toList) : front = [".".intercalate front] := by
  cases front with
  | nil => exact absurd rfl hne
  | cons key front =>
    cases front with
    | nil => rw [String.intercalate_singleton]
    | cons next front =>
      rw [String.intercalate_cons_cons] at h
      simp at h

/-- What follows a section is the name of a set only below the sets. -/
theorem eq_sets {above key : String} (h : (setName? (above ++ "." ++ key)).isSome = true)
    (hnone : setName? above = none) : above = "sets" := by
  obtain ⟨name, hname⟩ := Option.isSome_iff_exists.mp h
  rw [setName?_eq_some] at hname
  have hchars : "sets".toList ++ '.' :: name.toList = above.toList ++ '.' :: key.toList := by
    have htext := congrArg String.toList hname
    simpa using htext.symm
  rcases first_dot (by decide) hchars with ⟨heq, -⟩ | ⟨more, heq, -⟩
  · exact String.toList_inj.mp heq
  · have habove : above = "sets." ++ String.ofList more := by
      apply String.toList_inj.mp
      simpa using heq
    rw [setName?_eq_some.mpr habove] at hnone
    cases hnone

/-- The known fields have a dot after the section, and no other. -/
theorem parts_of_known {field : String} (h : field ∈ knownFields) : ∃ part key,
    field = part ++ "." ++ key ∧ '.' ∉ part.toList ∧ '.' ∉ key.toList ∧ Read [part, key] := by
  have hwalk (key : String) (hkey : key ∈ walkFields) (hdot : '.' ∉ key.toList) : ∃ part key',
      "walk" ++ "." ++ key = part ++ "." ++ key' ∧ '.' ∉ part.toList ∧ '.' ∉ key'.toList ∧
        Read [part, key'] := ⟨"walk", key, rfl, by decide, hdot, .walk hkey []⟩
  simp only [knownFields, List.mem_cons, List.not_mem_nil, or_false] at h
  rcases h with rfl | rfl | rfl | rfl | rfl | rfl
  · exact hwalk "case_sensitive" (by decide) (by decide)
  · exact hwalk "follow_symlinks" (by decide) (by decide)
  · exact hwalk "sort_entries" (by decide) (by decide)
  · exact hwalk "on_unreadable" (by decide) (by decide)
  · exact hwalk "default_excludes" (by decide) (by decide)
  · exact ⟨"performance", "parallel_threads", rfl, by decide, by decide, .threads []⟩

/-- Several keys that look like a known field are the keys of it. -/
theorem read_of_known {front : List String} {key : String} (hne : front ≠ [])
    (h : ".".intercalate (front ++ [key]) ∈ knownFields) : Read (front ++ [key]) := by
  obtain ⟨part, key', hfield, hpart, hkey, hread⟩ := parts_of_known h
  rw [intercalate_concat hne] at hfield
  have hchars : part.toList ++ '.' :: key'.toList =
      (".".intercalate front).toList ++ '.' :: key.toList := by
    have htext := congrArg String.toList hfield
    simpa using htext.symm
  rcases first_dot hpart hchars with ⟨hfront, hlast⟩ | ⟨more, -, hrest⟩
  · rw [eq_singleton_of_no_dot hne (hfront ▸ hpart), String.toList_inj.mp hfront,
      String.toList_inj.mp hlast]
    exact hread
  · rw [hrest] at hkey
    exact absurd (List.mem_append_right _ List.mem_cons_self) hkey

end Dots

def ofEntry (above : String) (e : String × Value) : List Warning :=
  let field := dotted above e.1
  if (setName? field).isSome then ofSet field e.2
  else if field = ignoreCase then [.deprecated field]
  else ofField field e.2

theorem ofEntries_eq_flatMap (above : String) (es : List (String × Value)) :
    ofEntries above es = es.flatMap (ofEntry above) := by
  induction es with
  | nil => rfl
  | cons e es ih => rw [ofEntries, ih, List.flatMap_cons, ofEntry]

theorem mem_ofTable {es : List (String × Value)} {w : Warning} :
    w ∈ ofTable es ↔ w ∈ es.flatMap (ofEntry "") := by
  rw [ofTable, ofEntries_eq_flatMap]
  cases w <;> simp [isUnknown]

section Entry

theorem ofField_value (field : String) {v : Value} (hv : ∀ inner, v ≠ .table inner) :
    ofField field v = if field ∈ knownFields then [] else [.unknown field] := by
  simp only [← List.contains_iff_mem]
  cases v with
  | table inner => exact absurd rfl (hv inner)
  | scalar s => rw [ofField]; exact hv
  | array items => rw [ofField]; exact hv

variable (above key : String)

/-- A value that is no table is named, unless its name is known. -/
theorem ofEntry_value {v : Value} (hv : ∀ inner, v ≠ .table inner) :
    (∃ w ∈ ofEntry above (key, v), w.field = dotted above key) ∨ dotted above key ∈ knownFields := by
  have hset : ofSet (dotted above key) v = [.unknown (dotted above key)] := by
    cases v with
    | table inner => exact absurd rfl (hv inner)
    | scalar s => rfl
    | array items => rfl
  simp only [ofEntry, hset, ofField_value _ hv]
  split
  · exact .inl ⟨_, List.mem_cons_self, rfl⟩
  · split
    · exact .inl ⟨_, List.mem_cons_self, rfl⟩
    · split
      · exact .inr ‹_›
      · exact .inl ⟨_, List.mem_cons_self, rfl⟩

/-- A table is that of a set, or is named, or is looked into. -/
theorem ofEntry_table (inner : List (String × Value)) :
    ((setName? (dotted above key)).isSome = true ∧
      ofEntry above (key, .table inner) = ofSet (dotted above key) (.table inner)) ∨
    (∃ w ∈ ofEntry above (key, .table inner), w.field = dotted above key) ∨
    setName? (dotted above key) = none ∧
      ofEntry above (key, .table inner) = inner.flatMap (ofEntry (dotted above key)) := by
  simp only [ofEntry]
  split
  · rename_i hset
    exact .inl ⟨hset, rfl⟩
  · rename_i hset
    split
    · exact .inr (.inl ⟨_, List.mem_cons_self, rfl⟩)
    · refine .inr (.inr ⟨by simpa using hset, ?_⟩)
      rw [ofField, ofEntries_eq_flatMap]

end Entry

section Step

variable {above key : String} {keys path : List String} {es inner : List (String × Value)} {v : Value}
  (hkeys : keys ≠ []) (hname : dotted above key = ".".intercalate keys)
include hkeys hname

/-- A value that is no table is named by its keys, unless they look like those of a known field. -/
theorem names_value (h : (key, v) ∈ es) (hv : ∀ inner, v ≠ .table inner) :
    (∃ w ∈ es.flatMap (ofEntry above), w.Names keys) ∨ ".".intercalate keys ∈ knownFields := by
  rcases ofEntry_value above key hv with ⟨w, hw, hfield⟩ | hknown
  · exact .inl ⟨w, List.mem_flatMap.mpr ⟨_, h, hw⟩, names_self hkeys (hfield.trans hname)⟩
  · exact .inr (hname ▸ hknown)

/-- A value in a table is named by the keys of that, or as a field that sets do not have, or else the
table is looked into. -/
theorem names_table (h : (key, .table inner) ∈ es) (hleaf : Leaf inner path v) :
    (∃ w ∈ es.flatMap (ofEntry above), w.Names (keys ++ path)) ∨
    ((setName? (".".intercalate keys)).isSome = true ∧
      ∃ field below, path = field :: below ∧ field ∈ setFields) ∨
    (setName? (".".intercalate keys) = none ∧
      inner.flatMap (ofEntry (".".intercalate keys)) ⊆ es.flatMap (ofEntry above)) := by
  have hentry {w : Warning} (hw : w ∈ ofEntry above (key, .table inner)) : w ∈ es.flatMap (ofEntry above) :=
    List.mem_flatMap.mpr ⟨_, h, hw⟩
  rcases ofEntry_table above key inner with ⟨hset, heq⟩ | ⟨w, hw, hfield⟩ | ⟨hnone, heq⟩
  · rw [hname] at hset heq
    obtain ⟨field, below, u, rfl, hmem⟩ : ∃ field below u, path = field :: below ∧ (field, u) ∈ inner := by
      cases hleaf with
      | here h => exact ⟨_, _, _, rfl, h⟩
      | inside h => exact ⟨_, _, _, rfl, h⟩
    by_cases hfield : field ∈ setFields
    · exact .inr (.inl ⟨hset, field, below, rfl, hfield⟩)
    · refine .inl ⟨.unknown (".".intercalate keys ++ "." ++ field), hentry ?_, keys ++ [field], ?_⟩
      · rw [heq]
        refine List.mem_map.mpr ⟨(field, u), List.mem_filter.mpr ⟨hmem, ?_⟩, rfl⟩
        simpa [setFields] using hfield
      · exact ⟨by simp, by simp, (intercalate_concat hkeys field).symm⟩
  · exact .inl ⟨w, hentry hw, keys, hkeys, List.prefix_append keys path, hfield.trans hname⟩
  · rw [hname] at hnone heq
    exact .inr (.inr ⟨hnone, fun w hw => hentry (heq ▸ hw)⟩)

end Step

/-- Below a section that is not that of the sets, a value that is not read is named. -/
theorem names_below {front path : List String} {es : List (String × Value)} {v : Value}
    (hleaf : Leaf es path v) (hfull : ".".intercalate front ≠ "")
    (hsets : setName? (".".intercalate front) = none) (hread : ¬Read (front ++ path)) :
    ∃ w ∈ es.flatMap (ofEntry (".".intercalate front)), w.Names (front ++ path) := by
  have hne {front : List String} (hfull : ".".intercalate front ≠ "") : front ≠ [] := by
    rintro rfl
    exact hfull String.intercalate_nil
  have hname {front : List String} (hfull : ".".intercalate front ≠ "") (key : String) :
      dotted (".".intercalate front) key = ".".intercalate (front ++ [key]) := by
    rw [intercalate_concat (hne hfull), dotted, if_neg (by simpa using hfull)]
  have hkeys (front : List String) (key : String) : front ++ [key] ≠ [] := by simp
  induction hleaf generalizing front with
  | @here es key v h hv =>
    refine (names_value (hkeys front key) (hname hfull key) h hv).resolve_right fun hknown => ?_
    exact hread (read_of_known (hne hfull) hknown)
  | @inside es inner key path v h hleaf ih =>
    rw [List.append_cons] at hread ⊢
    rcases names_table (hkeys front key) (hname hfull key) h hleaf with
      hnamed | ⟨hset, field, below, rfl, hfield⟩ | ⟨hnone, hsub⟩
    · exact hnamed
    · rw [intercalate_concat (hne hfull)] at hset
      have hsection := eq_sets hset hsets
      have hfront : front = ["sets"] := by
        rw [eq_singleton_of_no_dot (hne hfull) (hsection ▸ by decide), hsection]
      exact absurd (hfront ▸ Read.set key hfield below) hread
    · have hlonger : ".".intercalate (front ++ [key]) ≠ "" := by
        rw [intercalate_concat (hne hfull)]
        simp
      obtain ⟨w, hw, hnames⟩ := ih hlonger hnone hread
      exact ⟨w, hsub hw, hnames⟩

/-- Where all keys are empty, so is the name of the value. -/
theorem names_nameless {es : List (String × Value)} {path : List String} {v : Value}
    (hleaf : Leaf es path v) (hempty : ∀ key ∈ path, key = "") :
    ∃ w ∈ es.flatMap (ofEntry ""), w.field = "" := by
  induction hleaf with
  | @here es key v h hv =>
    obtain rfl := hempty key List.mem_cons_self
    obtain ⟨w, hw, hfield⟩ := (ofEntry_value "" "" hv).resolve_right (by decide)
    exact ⟨w, List.mem_flatMap.mpr ⟨_, h, hw⟩, hfield⟩
  | @inside es inner key path v h hleaf ih =>
    obtain ⟨rfl, hbelow⟩ := List.forall_mem_cons.mp hempty
    rcases ofEntry_table "" "" inner with ⟨hset, -⟩ | ⟨w, hw, hfield⟩ | ⟨-, heq⟩
    · exact absurd hset (by decide)
    · exact ⟨w, List.mem_flatMap.mpr ⟨_, h, hw⟩, hfield⟩
    · obtain ⟨w, hw, hfield⟩ := ih hbelow
      exact ⟨w, List.mem_flatMap.mpr ⟨_, h, heq ▸ hw⟩, hfield⟩

theorem names_leaf {path : List String} {es : List (String × Value)} {v : Value} (hleaf : Leaf es path v)
    (hread : ¬Read path) (hmistaken : ¬Mistaken path) : ∃ w ∈ ofTable es, w.Names path := by
  have hone (key : String) : ".".intercalate [key] = key := String.intercalate_singleton
  have hname (key : String) : dotted "" key = ".".intercalate [key] := (hone key).symm
  have hkeys (key : String) : [key] ≠ [] := List.cons_ne_nil key []
  simp only [mem_ofTable]
  cases hleaf with
  | @here _ key _ h hv =>
    refine (names_value (hkeys key) (hname key) h hv).resolve_right fun hknown => hmistaken ?_
    rw [hone] at hknown
    exact .field hknown
  | @inside _ inner key path _ h hleaf =>
    rcases names_table (hkeys key) (hname key) h hleaf with
      hnamed | ⟨hset, field, below, rfl, hfield⟩ | ⟨hnone, hsub⟩
    · exact hnamed
    · rw [hone] at hset
      exact absurd (.set hset hfield below) hmistaken
    · by_cases hkey : key = ""
      · subst hkey
        have hempty : ∀ key ∈ path, key = "" := by
          intro key hmem
          by_contra hfull
          exact hmistaken (.nameless ⟨key, hmem, hfull⟩)
        obtain ⟨w, hw, hfield⟩ := names_nameless hleaf hempty
        rw [hone] at hsub
        exact ⟨w, hsub hw, [""], hkeys "", List.prefix_append [""] path, hfield⟩
      · have hfull : ".".intercalate [key] ≠ "" := by rwa [hone]
        obtain ⟨w, hw, hnames⟩ := names_below hleaf hfull hnone hread
        exact ⟨w, hsub hw, hnames⟩

end Warning

/-- Whatever a document holds is read, or a warning names its keys or the first of them, unless it stands
under keys that are taken for others. So a document without warnings holds nothing else. -/
theorem leaves_named (es : List (String × Value)) :
    (∀ path v, Leaf es path v → ¬Read path → ¬Mistaken path →
      ∃ w ∈ Warning.ofTable es, w.Names path) ∧
    (Warning.ofTable es = [] → ∀ path v, Leaf es path v → Read path ∨ Mistaken path) := by
  have hnamed : ∀ path v, Leaf es path v → ¬Read path → ¬Mistaken path →
      ∃ w ∈ Warning.ofTable es, w.Names path := fun _ _ => Warning.names_leaf
  refine ⟨hnamed, fun hnone path v hleaf => ?_⟩
  by_contra hneither
  obtain ⟨hread, hmistaken⟩ := not_or.mp hneither
  obtain ⟨w, hw, -⟩ := hnamed path v hleaf hread hmistaken
  rw [hnone] at hw
  cases hw

def misspelt : String := "[walk]\ncolour = true\n"

theorem leaves_named_misspelt : ∃ es v, Toml.parse? misspelt = some es ∧ Leaf es ["walk", "colour"] v ∧
    ¬Read ["walk", "colour"] ∧ ¬Mistaken ["walk", "colour"] ∧
    ∃ w ∈ Warning.ofTable es, w.Names ["walk", "colour"] := by
  have hparse : Toml.parse? misspelt = some [("walk", .table [("colour", .scalar (.boolean true))])] := by
    cbv
  have hleaf : Leaf [("walk", .table [("colour", .scalar (.boolean true))])] ["walk", "colour"]
      (.scalar (.boolean true)) := by
    refine .inside List.mem_cons_self (.here List.mem_cons_self ?_)
    intro inner h
    cases h
  have hread : ¬Read ["walk", "colour"] := by
    intro h
    generalize hpath : ["walk", "colour"] = path at h
    cases h with
    | walk h =>
      obtain ⟨-, hpath⟩ := List.cons.inj hpath
      obtain ⟨rfl, -⟩ := List.cons.inj hpath
      exact absurd h (by decide)
    | threads => simp at hpath
    | set => simp at hpath
  have hmistaken : ¬Mistaken ["walk", "colour"] := by
    intro h
    generalize hpath : ["walk", "colour"] = path at h
    cases h with
    | nameless => simp at hpath
    | field => simp at hpath
    | set hkey =>
      obtain ⟨rfl, -⟩ := List.cons.inj hpath
      exact absurd hkey (by decide)
  exact ⟨_, _, hparse, hleaf, hread, hmistaken, (leaves_named _).1 _ _ hleaf hread hmistaken⟩

/-- A field whose whole name is one key is neither read nor warned about. -/
theorem quoted_field (machine : Machine) {key : String} (hkey : key ∈ Warning.knownFields) {v : Value}
    (hv : ∀ inner, v ≠ .table inner) (hpasses : passes v = true) :
    ofTable? [(key, v)] machine = some (initial machine) ∧ Warning.ofTable [(key, v)] = [] := by
  have hsection : key ∉ ["walk", "performance", "sets"] ∧
      (Warning.setName? key).isSome = false ∧ key ≠ Warning.ignoreCase := by
    simp only [Warning.knownFields, List.mem_cons, List.not_mem_nil, or_false] at hkey
    rcases hkey with rfl | rfl | rfl | rfl | rfl | rfl <;> decide
  obtain ⟨hother, hset, hignore⟩ := hsection
  have hget : ∀ name ∈ ["walk", "performance", "sets"], Assoc.get? name [(key, v)] = none := by
    intro name hname
    have hne : key ≠ name := by
      rintro rfl
      exact hother hname
    rw [Assoc.get?, if_neg hne, Assoc.get?]
  constructor
  · simp [ofTable?, fields?, ifGiven, hget, hpasses]
  · have hentry : Warning.ofEntry "" (key, v) = [] := by
      have hfield : Warning.dotted "" key = key := rfl
      simp [Warning.ofEntry, hfield, hset, hignore, Warning.ofField_value _ hv, hkey]
    simp [Warning.ofTable, Warning.ofEntries_eq_flatMap, hentry]

def flattened : String := "\"walk.case_sensitive\" = false\n"

/-- What is under a quoted key with a dot in it can be left out without a warning. -/
theorem leaf_unnamed : ¬∀ text s es path v, parse text = .ok s → Toml.parse? text = some es →
    Leaf es path v → ¬Read path → ∃ w ∈ Warning.ofTable es, w.Names path := by
  intro hall
  have hloads : parse flattened = .ok {} := by decide +kernel
  have hparse : Toml.parse? flattened = some [("walk.case_sensitive", .scalar (.boolean false))] := by cbv
  have hv : ∀ inner, Value.scalar (.boolean false) ≠ .table inner := by
    intro inner h
    cases h
  have hleaf : Leaf [("walk.case_sensitive", .scalar (.boolean false))] ["walk.case_sensitive"]
      (.scalar (.boolean false)) := .here List.mem_cons_self hv
  have hread : ¬Read ["walk.case_sensitive"] := fun h => absurd h.two_le_length (by decide)
  obtain ⟨w, hw, -⟩ := hall flattened {} _ _ _ hloads hparse hleaf hread
  rw [(quoted_field .silent (by decide) hv rfl).2] at hw
  cases hw

end Fileset.Settings
