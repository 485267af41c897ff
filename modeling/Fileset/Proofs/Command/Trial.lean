import Fileset.Command.Test
import Fileset.Proofs.Pattern.Lengths
import Fileset.Proofs.RelPath
import Fileset.Proofs.Text.Bytes
import Fileset.Proofs.Walk.Named

namespace Fileset

namespace RelPath

def pieces (name : String) : List String :=
  ((name.toList.splitOn '\\').filter (!·.isEmpty)).map String.ofList

def cut (p : RelPath) : RelPath := ⟨p.segments.flatMap pieces, p.isFile⟩

variable {p : RelPath}

theorem ne_empty_of_isName {name : String} (h : (Bytes.ofText name).IsName) : name ≠ "" := by
  rintro rfl
  exact h.full rfl

theorem slash_of_isName {name : String} (h : (Bytes.ofText name).IsName) : '/' ∉ name.toList := by
  intro hslash
  obtain ⟨front, back, hname⟩ := List.append_of_mem hslash
  have htext : name = String.ofList front ++ "/" ++ String.ofList back := by
    apply String.toList_inj.mp
    simp [hname]
  have hbytes : Bytes.ofText "/" = [Path.slash] := by decide
  apply h.slash
  simp [htext, Bytes.ofText_append, hbytes]

theorem segments_parse_of_isName {name : String} (h : (Bytes.ofText name).IsName) (isFile : Bool) :
    (parse isFile name).segments = pieces name := by
  have hsplit : name.toList.splitOnP isSeparator = name.toList.splitOn '\\' := by
    rw [List.splitOn_eq_splitOnP]
    refine Text.splitOnP_congr fun c hc => ?_
    have hslash : c ≠ '/' := fun h' => slash_of_isName h (h' ▸ hc)
    simp [isSeparator, hslash]
  rw [parse_eq, parts, hsplit]
  rfl

theorem Named.parse_render (h : p.Named) : parse p.isFile p.render = p.cut := by
  rw [RelPath.parse_render, cut, List.flatMap, List.flatMap,
    List.map_congr_left fun name hname => segments_parse_of_isName (h name hname) p.isFile]

theorem Named.plain (h : p.Named) (hback : ∀ name ∈ p.segments, '\\' ∉ name.toList) : p.Plain := by
  intro name hname
  exact ⟨ne_empty_of_isName (h name hname), slash_of_isName (h name hname), hback name hname⟩

/-- Cutting takes the backslashes away, and no other character. -/
theorem cut_text (p : RelPath) : p.cut.segments.flatMap String.toList =
    (p.segments.flatMap String.toList).filter (· != '\\') := by
  have hname (name : String) : (pieces name).flatMap String.toList = name.toList.filter (· != '\\') := by
    have hflatten : (pieces name).flatMap String.toList =
        ((name.toList.splitOn '\\').filter (!·.isEmpty)).flatten := by
      simp [pieces, List.flatMap_map]
    rw [hflatten, List.flatten_filter_not_isEmpty, Text.flatten_splitOn]
  simp only [cut, List.flatMap_assoc, List.filter_flatMap, hname]

/-- A name with a backslash in it is cut into shorter ones. -/
theorem no_backslash_of_lengths (h : p.cut.segments.map String.length = p.segments.map String.length) :
    ∀ name ∈ p.segments, '\\' ∉ name.toList := by
  have hlength (names : List String) :
      (names.flatMap String.toList).length = (names.map String.length).sum := by
    simp only [List.length_flatMap, String.length_toList]
  have hall : ((p.segments.flatMap String.toList).filter (· != '\\')).length =
      (p.segments.flatMap String.toList).length := by
    rw [← cut_text, hlength, hlength, h]
  intro name hname hback
  have hkept := List.length_filter_eq_length_iff.mp hall '\\' (List.mem_flatMap.mpr ⟨name, hname, hback⟩)
  exact absurd hkept (by decide)

end RelPath

namespace Command

section Trial

variable {trial : Trial} {p : RelPath}

theorem accepts_render (hp : p.Named) (hkind : trial.directories = !p.isFile) (m : Matcher) :
    accepts trial m p.render = m.accepts p.cut := by
  rw [accepts, hkind, Bool.not_not, hp.parse_render]

/-- A file with a backslash in its path is lost by some pattern that accepts it. -/
theorem exists_lost (hp : p.Named) (hfile : p.isFile = true) (hkind : trial.directories = !p.isFile)
    (hback : ∃ name ∈ p.segments, '\\' ∈ name.toList) : ∃ raw m,
      Matcher.compile true true raw = .ok m ∧ m.accepts p = true ∧ accepts trial m p.render = false := by
  obtain ⟨name, hname, hback⟩ := hback
  have hne : p.segments.map String.length ≠ [] := by
    simpa using List.ne_nil_of_mem hname
  have hfull : ∀ n ∈ p.segments.map String.length, 0 < n := by
    intro n hn
    obtain ⟨name, hname, rfl⟩ := List.mem_map.mp hn
    exact Nat.pos_of_ne_zero fun hzero =>
      RelPath.ne_empty_of_isName (hp name hname) (String.length_eq_zero_iff.mp hzero)
  obtain ⟨raw, m, hm, haccepts⟩ := Matcher.exists_accepts_lengths true hne hfull
  refine ⟨raw, m, hm, (haccepts p hfile).mpr rfl, ?_⟩
  rw [accepts_render hp hkind, Bool.eq_false_iff]
  intro hcut
  exact RelPath.no_backslash_of_lengths ((haccepts p.cut hfile).mp hcut) name hname hback

end Trial

/-- What a trial says of an entry that a walk with the same pattern reports. Every entry is tried by its
path with the names cut at backslashes; so the pattern accepts it if there are none, and if there are, for
a file, it is not so for every pattern. -/
theorem reported_tried {v : Walk.Visitor ω ε} {world : ω}
    (hknown : ∀ w, v.Reaches world w → (v.tree w).Named) {m : Matcher} (options : Walk.Options)
    (limit : Nat) {root : Bytes} {n : Walk.Notice}
    (hn : n ∈ (Walk.walk v ⟨[m], []⟩ options limit root world).calls) {trial : Trial}
    (hkind : trial.directories = !n.path.isFile) :
    accepts trial m n.path.render = m.accepts n.path.cut ∧
    ((∀ name ∈ n.path.segments, '\\' ∉ name.toList) → accepts trial m n.path.render = true) ∧
    (n.path.isFile = true → (∃ name ∈ n.path.segments, '\\' ∈ name.toList) →
      ∃ raw m', Matcher.compile true true raw = .ok m' ∧ m'.accepts n.path = true ∧
        accepts trial m' n.path.render = false) := by
  obtain ⟨hadmitted, hnamed⟩ := Walk.walk_reportable hknown ⟨[m], []⟩ options limit root n hn
  have haccepted : m.accepts n.path = true := by simpa [Walk.Rules.admits] using hadmitted
  refine ⟨accepts_render hnamed hkind m, fun hback => ?_, fun hfile => exists_lost hnamed hfile hkind⟩
  rw [accepts, hkind, Bool.not_not, (hnamed.plain hback).parse_render, haccepted]

def slanted : Tree :=
  ⟨[⟨[], [0x61, 0x5c, 0x62], .file []⟩, ⟨[], [0x64], .directory⟩, ⟨[[0x64]], [0x20], .file []⟩]⟩

theorem slanted_named : slanted.Named := by
  intro e he
  simp only [slanted, List.mem_cons, List.not_mem_nil, or_false] at he
  rcases he with rfl | rfl | rfl <;> exact ⟨by decide, by decide, by decide⟩

def single : Matcher := ⟨"**/?", .row [.stretch, .glob "?"], true, true⟩

def spanned : Matcher := ⟨"a?b", .single (.glob "a?b"), true, true⟩

theorem reported_tried_slanted :
    Matcher.compile true true "**/?" = .ok single ∧ slanted.Named ∧
    (Walk.walk Walk.observer ⟨[single], []⟩ {} 3 [Path.slash] slanted).calls =
      [⟨[[0x64]], ⟨["d"], false⟩⟩, ⟨[[0x64], [0x20]], ⟨["d", " "], true⟩⟩] ∧
    accepts { pattern := "**/?", paths := ["d/ "] } single "d/ " = true := by
  have hcalls : (Walk.walk Walk.observer ⟨[single], []⟩ {} 3 [Path.slash] slanted).calls =
      [⟨[[0x64]], ⟨["d"], false⟩⟩, ⟨[[0x64], [0x20]], ⟨["d", " "], true⟩⟩] := by cbv
  have hknown : ∀ t, Walk.observer.Reaches slanted t → (Walk.observer.tree t).Named := fun t ht =>
    (Walk.observer_quiet.tree_eq ht).symm ▸ slanted_named
  have hn : ⟨[[0x64], [0x20]], ⟨["d", " "], true⟩⟩ ∈
      (Walk.walk Walk.observer ⟨[single], []⟩ {} 3 [Path.slash] slanted).calls := by
    rw [hcalls]
    exact List.mem_cons_of_mem _ List.mem_cons_self
  have hkind : Trial.directories { pattern := "**/?", paths := ["d/ "] } = false := rfl
  have htried := reported_tried hknown {} 3 hn hkind
  exact ⟨rfl, slanted_named, hcalls, htried.2.1 (by decide)⟩

/-- A walk takes a name with a backslash in it as one name. -/
theorem reported_lost :
    Matcher.compile true true "a?b" = .ok spanned ∧ slanted.Named ∧
    (Walk.walk Walk.observer ⟨[spanned], []⟩ {} 3 [Path.slash] slanted).calls =
      [⟨[[0x61, 0x5c, 0x62]], ⟨["a\\b"], true⟩⟩] ∧
    RelPath.render ⟨["a\\b"], true⟩ = "a\\b" ∧
    accepts { pattern := "a?b", paths := ["a\\b"] } spanned "a\\b" = false := by
  exact ⟨rfl, slanted_named, by cbv, rfl, by cbv⟩

end Command
end Fileset
