import Fileset.Proofs.Text.Split
import Fileset.RelPath
import Mathlib.Data.List.Basic

namespace Fileset

structure PlainName (name : String) : Prop where
  full : name ≠ ""
  slash : '/' ∉ name.toList
  backslash : '\\' ∉ name.toList

namespace RelPath

def Plain (p : RelPath) : Prop := ∀ name ∈ p.segments, PlainName name

theorem isSeparator_iff {c : Char} : isSeparator c = true ↔ c = '/' ∨ c = '\\' := by
  simp [isSeparator]

theorem plainName_iff {name : String} :
    PlainName name ↔ name.toList ≠ [] ∧ ∀ c ∈ name.toList, isSeparator c = false := by
  constructor
  · rintro ⟨hfull, hslash, hback⟩
    refine ⟨by simpa using hfull, fun c hc => Bool.eq_false_iff.mpr fun hsep => ?_⟩
    rcases isSeparator_iff.mp hsep with rfl | rfl
    · exact hslash hc
    · exact hback hc
  · rintro ⟨hfull, hplain⟩
    refine ⟨by simpa using hfull, fun hslash => ?_, fun hback => ?_⟩
    · exact absurd (hplain _ hslash) (by decide)
    · exact absurd (hplain _ hback) (by decide)

section Parts

def parts (text : List Char) : List (List Char) := (text.splitOnP isSeparator).filter (!·.isEmpty)

theorem parse_eq (isFile : Bool) (text : String) :
    parse isFile text = ⟨(parts text.toList).map String.ofList, isFile⟩ := rfl

theorem parts_nil : parts [] = [] := by
  simp [parts, List.splitOnP_nil]

theorem parts_append_cons {c : Char} (hc : isSeparator c = true) (s t : List Char) :
    parts (s ++ c :: t) = parts s ++ parts t := by
  rw [parts, List.splitOnP_append_cons s t hc, List.filter_append]
  rfl

theorem parts_of_plain {s : List Char} (hs : s ≠ []) (h : ∀ c ∈ s, isSeparator c = false) :
    parts s = [s] := by
  rw [parts, List.splitOnP_eq_singleton h]
  simpa using hs

theorem mem_parts {s part : List Char} (h : part ∈ parts s) :
    part ≠ [] ∧ ∀ c ∈ part, isSeparator c = false := by
  obtain ⟨hsplit, hfull⟩ := List.mem_filter.mp h
  exact ⟨by simpa using hfull, fun c hc => (Text.mem_of_mem_splitOnP hsplit hc).1⟩

/-- What stands between two slashes is read apart from the rest. -/
theorem parts_intercalate (names : List (List Char)) :
    parts (['/'].intercalate names) = names.flatMap parts := by
  induction names with
  | nil => exact parts_nil
  | cons name names ih =>
    cases names with
    | nil => simp
    | cons next names =>
      rw [List.intercalate_cons_cons, List.append_assoc, List.singleton_append,
        parts_append_cons rfl, ih]
      rfl

end Parts

/-- What is shown of a path is read name by name. -/
theorem parse_render (isFile : Bool) (p : RelPath) :
    parse isFile p.render = ⟨p.segments.flatMap fun name => (parse isFile name).segments, isFile⟩ := by
  have hparts : parts p.render.toList = p.segments.flatMap fun name => parts name.toList := by
    rw [render, String.toList_intercalate]
    exact (parts_intercalate _).trans (List.flatMap_map _ _ _)
  simp only [parse_eq, hparts, List.map_flatMap]

theorem parse_plain (isFile : Bool) (text : String) : (parse isFile text).Plain := by
  intro name hname
  obtain ⟨part, hpart, rfl⟩ := List.mem_map.mp hname
  exact plainName_iff.mpr (by simpa using mem_parts hpart)

theorem PlainName.parse {name : String} (h : PlainName name) (isFile : Bool) :
    (RelPath.parse isFile name).segments = [name] := by
  obtain ⟨hfull, hplain⟩ := plainName_iff.mp h
  have hparts : parts name.toList = [name.toList] := parts_of_plain hfull hplain
  simp only [parse_eq, hparts, List.map_singleton, String.ofList_toList]

theorem Plain.parse_render {p : RelPath} (h : p.Plain) : parse p.isFile p.render = p := by
  have hnames : (p.segments.flatMap fun name => (parse p.isFile name).segments) = p.segments := by
    rw [List.flatMap, List.map_congr_left fun name hname => PlainName.parse (h name hname) p.isFile]
    exact List.flatMap_singleton' p.segments
  rw [RelPath.parse_render, hnames]

theorem parse_render_iff {p : RelPath} : parse p.isFile p.render = p ↔ p.Plain :=
  ⟨fun h => h ▸ parse_plain _ _, Plain.parse_render⟩

section OnDisk

/-- A step by a name goes on from where one is. -/
theorem enter_name {base name : String} (hbase : base ≠ "") (hopen : base.toList.getLast? ≠ some '/')
    (hname : '/' ∉ name.toList) : enter base name = base ++ "/" ++ name := by
  have hrelative : name.toList.head? ≠ some '/' := fun hhead => hname (List.mem_of_head? hhead)
  simp [enter, hrelative, hbase, hopen]

theorem foldl_enter {names : List String} (hnames : ∀ name ∈ names, PlainName name) {base : String}
    (hbase : base ≠ "") (hopen : base.toList.getLast? ≠ some '/') :
    names.foldl enter base = "/".intercalate (base :: names) := by
  induction names generalizing base with
  | nil => rfl
  | cons name names ih =>
    obtain ⟨hname, hnames⟩ := List.forall_mem_cons.mp hnames
    have hlast : (base ++ "/" ++ name).toList.getLast? = name.toList.getLast? := by
      rw [String.toList_append, List.getLast?_append_of_ne_nil _ (plainName_iff.mp hname).1]
    have hnext : (base ++ "/" ++ name).toList.getLast? ≠ some '/' := by
      rw [hlast]
      exact fun h => hname.slash (List.mem_of_getLast? h)
    rw [List.foldl_cons, enter_name hbase hopen hname.slash, ih hnames (by simp) hnext]
    cases names <;> simp [String.intercalate_cons_cons, String.append_assoc]

theorem Plain.onDisk {p : RelPath} (h : p.Plain) : p.onDisk = p.render := by
  obtain ⟨segments, isFile⟩ := p
  cases segments with
  | nil => rfl
  | cons name names =>
    obtain ⟨hname, hnames⟩ := List.forall_mem_cons.mp h
    have hrelative : name.toList.head? ≠ some '/' := fun hhead => hname.slash (List.mem_of_head? hhead)
    have hfirst : enter "" name = name := by simp [enter, hrelative]
    have hopen : name.toList.getLast? ≠ some '/' := fun hlast => hname.slash (List.mem_of_getLast? hlast)
    rw [RelPath.onDisk, List.foldl_cons, hfirst, foldl_enter hnames hname.full hopen]
    rfl

end OnDisk

/-- The paths that are read back from what is shown of them are those with plain names, and a file system
spells these as they are shown. Every text reads as one of them. -/
theorem texts_read_back :
    (∀ p : RelPath, (parse p.isFile p.render = p ↔ p.Plain) ∧ (p.Plain → p.onDisk = p.render)) ∧
    ∀ isFile text, (parse isFile text).Plain ∧
      parse isFile (parse isFile text).render = parse isFile text :=
  ⟨fun _ => ⟨parse_render_iff, Plain.onDisk⟩,
    fun isFile text => ⟨parse_plain isFile text, (parse_plain isFile text).parse_render⟩⟩

/-- Neither dots nor blanks are taken for anything but names. -/
theorem texts_read_back_dotted :
    (⟨["..", " ", ".a"], true⟩ : RelPath).Plain ∧
    parse true "../ /.a" = ⟨["..", " ", ".a"], true⟩ ∧
    onDisk ⟨["..", " ", ".a"], true⟩ = "../ /.a" ∧
    parse true (parse true "\\..//\\ /.a\\").render = parse true "\\..//\\ /.a\\" := by
  have hplain : (⟨["..", " ", ".a"], true⟩ : RelPath).Plain := by
    intro name hname
    simp only [List.mem_cons, List.not_mem_nil, or_false] at hname
    rcases hname with rfl | rfl | rfl <;> exact ⟨by decide, by decide, by decide⟩
  obtain ⟨hpaths, htexts⟩ := texts_read_back
  obtain ⟨hread, hdisk⟩ := hpaths ⟨["..", " ", ".a"], true⟩
  exact ⟨hplain, hread.mpr hplain, hdisk hplain, (htexts true "\\..//\\ /.a\\").2⟩

end RelPath
end Fileset
