import Fileset.Tree.Resolve
import Mathlib.Data.List.Induction
import Mathlib.Data.List.Nodup

namespace Fileset.Tree

structure WellFormed (t : Tree) : Prop where
  /-- No two entries share a place. -/
  distinct : (t.entries.map Entry.location).Nodup
  /-- What an entry lies in is a directory. -/
  rooted : ∀ e ∈ t.entries, t.isDirectory e.dir = true

theorem isDirectory_iff {t : Tree} {loc : Location} :
    t.isDirectory loc = true ↔ ∃ readable, t.kindAt? loc = some (.directory readable) := by
  unfold isDirectory
  cases hk : t.kindAt? loc with
  | none => simp
  | some kind => cases kind <;> simp [Kind.isDirectory]

def Listable (t : Tree) : Prop := ∀ e ∈ t.entries, e.kind ≠ .directory false

instance (t : Tree) : Decidable t.Listable :=
  inferInstanceAs (Decidable (∀ e ∈ t.entries, e.kind ≠ .directory false))

theorem isDirectory_of_readable {t : Tree} {loc : Location} {readable : Bool}
    (hk : t.kindAt? loc = some (.directory readable)) : t.isDirectory loc = true :=
  isDirectory_iff.mpr ⟨readable, hk⟩

theorem isFile_of_isDirectory {t : Tree} {loc : Location} (hd : t.isDirectory loc = true) :
    t.isFile loc = false := by
  obtain ⟨readable, hk⟩ := isDirectory_iff.mp hd
  simp [isFile, hk, Kind.isFile]

/-- Nothing is in what is no directory. -/
theorem contents_special {t : Tree} {loc : Location} (hd : t.isDirectory loc = false) :
    t.contents loc = .ok [] := by
  unfold contents
  split
  · simp_all [isDirectory, Kind.isDirectory]
  · simp_all [isDirectory, Kind.isDirectory]
  · rfl

theorem contents_error {t : Tree} {loc : Location} {e : Error} (h : t.contents loc = .error e) :
    t.kindAt? loc = some (.directory false) ∧ e = .denied := by
  unfold contents at h
  split at h
  · cases h
  · cases h
    exact ⟨‹_›, rfl⟩
  · cases h

theorem kindAt?_append_singleton (t : Tree) (dir : Location) (name : Bytes) :
    t.kindAt? (dir ++ [name]) = t.find? dir name := by
  simp [kindAt?]

theorem mem_inside {t : Tree} {dir : Location} {name : Bytes} {kind : Kind} :
    (name, kind) ∈ t.inside dir ↔ ⟨dir, name, kind⟩ ∈ t.entries := by
  constructor
  · intro h
    obtain ⟨e, he, hnk⟩ := List.mem_map.mp h
    obtain ⟨he, hdir⟩ := List.mem_filter.mp he
    obtain ⟨rfl, rfl⟩ := Prod.mk.inj hnk
    have hdir : e.dir = dir := by simpa using hdir
    exact hdir ▸ he
  · intro h
    exact List.mem_map.mpr ⟨⟨dir, name, kind⟩, List.mem_filter.mpr ⟨h, by simp⟩, rfl⟩

/-- What is found under a name is the first of that name in the directory. -/
theorem find?_eq_inside (t : Tree) (dir : Location) (name : Bytes) :
    t.find? dir name = ((t.inside dir).find? (·.1 == name)).map Prod.snd := by
  rw [inside, List.find?_map, List.find?_filter, Option.map_map, find?]
  simp only [Function.comp_def, Bool.decide_and, Bool.decide_eq_true, Bool.and_comm]

/-- Where an entry is found, an entry lies. -/
theorem mem_of_find? {t : Tree} {dir : Location} {name : Bytes} {kind : Kind}
    (h : t.find? dir name = some kind) : ⟨dir, name, kind⟩ ∈ t.entries := by
  obtain ⟨e, he, rfl⟩ := Option.map_eq_some_iff.mp h
  have hkey := List.find?_some he
  simp only [Bool.and_eq_true, beq_iff_eq] at hkey
  obtain ⟨rfl, rfl⟩ := hkey
  exact List.mem_of_find?_eq_some he

theorem mem_directories {t : Tree} {loc : Location} (h : t.isDirectory loc = true) :
    loc ∈ t.directories := by
  rcases List.eq_nil_or_concat loc with rfl | ⟨dir, name, rfl⟩
  · exact List.mem_cons_self
  · obtain ⟨readable, hk⟩ := isDirectory_iff.mp h
    rw [List.concat_eq_append, kindAt?_append_singleton] at hk
    refine List.mem_cons_of_mem _ (List.mem_map.mpr ⟨⟨dir, name, .directory readable⟩, ?_, ?_⟩)
    · exact List.mem_filter.mpr ⟨mem_of_find? hk, rfl⟩
    · simp [Entry.location]

theorem Listable.readable {t : Tree} (h : t.Listable) {loc : Location}
    (hd : t.isDirectory loc = true) : t.kindAt? loc = some (.directory true) := by
  obtain ⟨readable, hk⟩ := isDirectory_iff.mp hd
  cases readable with
  | true => exact hk
  | false =>
    exfalso
    rcases List.eq_nil_or_concat loc with rfl | ⟨dir, name, rfl⟩
    · cases hk
    · rw [List.concat_eq_append, kindAt?_append_singleton] at hk
      exact h _ (mem_of_find? hk) rfl

section Distinct

variable {t : Tree} (hu : (t.entries.map Entry.location).Nodup)
include hu

theorem find?_of_mem {dir : Location} {name : Bytes} {kind : Kind}
    (he : ⟨dir, name, kind⟩ ∈ t.entries) : t.find? dir name = some kind := by
  cases hfound : t.find? dir name with
  | none =>
    have hnone := List.find?_eq_none.mp (Option.map_eq_none_iff.mp hfound) _ he
    simp at hnone
  | some other =>
    have heq := List.inj_on_of_nodup_map hu (mem_of_find? hfound) he rfl
    cases heq
    rfl

theorem mem_directories_iff {loc : Location} :
    loc ∈ t.directories ↔ t.isDirectory loc = true := by
  refine ⟨fun hmem => ?_, mem_directories⟩
  rcases List.mem_cons.mp hmem with rfl | hmem
  · rfl
  · obtain ⟨⟨dir, name, kind⟩, he, rfl⟩ := List.mem_map.mp hmem
    obtain ⟨he, hkind⟩ := List.mem_filter.mp he
    rw [isDirectory, Entry.location, kindAt?_append_singleton, find?_of_mem hu he]
    exact hkind

end Distinct

namespace WellFormed

variable {t : Tree} (h : t.WellFormed)
include h

theorem find?_iff {dir : Location} {name : Bytes} {kind : Kind} :
    t.find? dir name = some kind ↔ ⟨dir, name, kind⟩ ∈ t.entries :=
  ⟨mem_of_find?, find?_of_mem h.distinct⟩

/-- What is in a directory is what lies one name further. -/
theorem mem_inside_iff {dir : Location} {name : Bytes} {kind : Kind} :
    (name, kind) ∈ t.inside dir ↔ t.kindAt? (dir ++ [name]) = some kind := by
  rw [mem_inside, kindAt?_append_singleton, h.find?_iff]

theorem inside_nodup (dir : Location) : ((t.inside dir).map Prod.fst).Nodup := by
  have hsub : ((t.entries.filter (·.dir == dir)).map Entry.location).Nodup :=
    h.distinct.sublist (List.filter_sublist.map _)
  have hnames : (t.entries.filter (·.dir == dir)).map Entry.location =
      ((t.inside dir).map Prod.fst).map fun name => dir ++ [name] := by
    simp only [inside, List.map_map]
    apply List.map_congr_left
    intro e he
    have hdir : e.dir = dir := by simpa using (List.mem_filter.mp he).2
    simp [Entry.location, hdir]
  rw [hnames] at hsub
  exact hsub.of_map

theorem isDirectory_above {dir : Location} {name : Bytes} {kind : Kind}
    (hk : t.kindAt? (dir ++ [name]) = some kind) : t.isDirectory dir = true := by
  rw [kindAt?_append_singleton] at hk
  exact h.rooted _ (mem_of_find? hk)

theorem isDirectory_front {dir names : Location} (hd : t.isDirectory (dir ++ names) = true) :
    t.isDirectory dir = true := by
  induction names using List.reverseRecOn with
  | nil => simpa using hd
  | append_singleton names name ih =>
    rw [← List.append_assoc] at hd
    obtain ⟨readable, hk⟩ := isDirectory_iff.mp hd
    exact ih (h.isDirectory_above hk)

theorem resolveFrom_directory (links : Nat) {dir names : Location}
    (hd : t.isDirectory (dir ++ names) = true) :
    t.resolveFrom links dir (names.map .name) = .ok (.present (dir ++ names)) := by
  induction names generalizing dir with
  | nil => simp [resolveFrom]
  | cons name names ih =>
    rw [List.append_cons] at hd
    have hnext := h.isDirectory_front hd
    obtain ⟨readable, hkind⟩ := isDirectory_iff.mp hnext
    have hdir := h.isDirectory_above hkind
    rw [kindAt?_append_singleton] at hkind
    simp [resolveFrom, hdir, hkind, ih hd]

/-- A directory is found at its own location. -/
theorem locateAt_directory {loc : Location} (hd : t.isDirectory loc = true) :
    t.locateAt loc = .ok loc := by
  have hd' : t.isDirectory ([] ++ loc) = true := hd
  have hres := h.resolveFrom_directory linkLimit hd'
  simp [locateAt, locate, resolve, hres]

end WellFormed
end Fileset.Tree
