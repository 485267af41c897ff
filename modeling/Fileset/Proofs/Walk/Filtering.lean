import Fileset.Proofs.Pattern.Subtree
import Fileset.Proofs.Walk.Order
import Fileset.Proofs.Walk.Selection

namespace Fileset.Walk

/-- Every exclude that holds for a directory holds for all that is below it. -/
def Rules.ExcludesSubtrees (rules : Rules) : Prop :=
  ∀ m ∈ rules.excludes, ∀ dir names isFile,
    m.accepts ⟨dir, false⟩ = true → m.accepts ⟨dir ++ names, isFile⟩ = true

theorem excludesSubtrees_of_compileAll {rules : Rules} {caseSensitive : Bool} {raws : List String}
    (h : Matcher.compileAll false caseSensitive raws = .ok rules.excludes)
    (hs : ∀ raw ∈ raws, Pattern.ForSubtree raw) : rules.ExcludesSubtrees := by
  intro m hm dir names isFile hacc
  obtain ⟨raw, hraw, hc⟩ := (Matcher.mem_compileAll h).mp hm
  exact Matcher.exclude_accepts_below hc (hs raw hraw) hacc

/-- An entry that is admitted by itself lies in admitted directories. -/
theorem admittedAbove_of_admits {rules : Rules} (hi : rules.ReachIncludes)
    (he : rules.ExcludesSubtrees) {names : List String} {isFile : Bool}
    (h : rules.admits ⟨names, isFile⟩ = true) : AdmittedAbove rules names := by
  refine (admittedAbove_iff hi h).mpr fun dir hp _ _ m hm => ?_
  obtain ⟨more, rfl⟩ := hp
  have hkept := (admits_iff.mp h).2 m hm
  cases hdir : m.accepts ⟨dir, false⟩ with
  | false => rfl
  | true => exact absurd (he m hm dir more isFile hdir) (by simp [hkept])

/-- An entry of `t` below `place`, as a walk would report it: all its names are texts. -/
inductive EntryBelow (t : Tree) (place : Location) : Notice → Prop
  | entry (path : List Bytes) (names : List String) (kind : Tree.Kind)
      (below : path ≠ [])
      (there : t.kindAt? (place ++ path) = some kind)
      (texts : path.map Bytes.text? = names.map some) :
      EntryBelow t place ⟨place ++ path, names, !kind.isDirectory⟩

theorem entryBelow_iff {t : Tree} {place : Location} {n : Notice} :
    EntryBelow t place n ↔ ∃ names kind, names ≠ [] ∧
      n = ⟨place ++ names.map Bytes.ofText, names, !kind.isDirectory⟩ ∧
      t.kindAt? n.location = some kind := by
  constructor
  · intro h
    obtain ⟨path, names, kind, hne, hk, htexts⟩ := h
    rw [texts_iff.mp htexts] at hne hk ⊢
    exact ⟨names, kind, by simpa using hne, rfl, hk⟩
  · rintro ⟨names, kind, hne, rfl, hk⟩
    exact .entry _ names kind (by simpa using hne) hk (texts_iff.mpr rfl)

/-- What a walk reports is what it would report without rules, less what the rules reject. -/
theorem reported_iff_filtered {t : Tree} (ht : t.WellFormed) (hlistable : t.Listable) {rules : Rules}
    {options : Options} (hf : options.followLinks = false) {place : Location} (hd : t.isDirectory place = true)
    (hi : rules.ReachIncludes) (he : rules.ExcludesSubtrees) {n : Notice} :
    Reported t rules options [⟨place, .root false⟩] n ↔
      EntryBelow t place n ∧ rules.admits n.path = true := by
  rw [reported_iff ht hlistable rules hf hd, entryBelow_iff]
  constructor
  · rintro ⟨names, kind, hne, rfl, hk, hadmits, _⟩
    exact ⟨⟨names, kind, hne, rfl, hk⟩, hadmits⟩
  · rintro ⟨⟨names, kind, hne, rfl, hk⟩, hadmits⟩
    exact ⟨names, kind, hne, rfl, hk, hadmits, admittedAbove_of_admits hi he hadmits⟩

/-- If the normal forms of all excludes end in a stretch, a walk of a tree that stays as it is, with no
directory that may not be read, reports the entries below its root that the rules admit by themselves. No
entry that they admit is lost with a directory that they reject. -/
theorem walk_filters {v : Visitor ω ε} (hv : v.Quiet) {world : ω} (ht : (v.tree world).WellFormed)
    (hlistable : (v.tree world).Listable) {rules : Rules} {caseSensitive : Bool} {includes excludes : List String}
    (hi : Matcher.compileAll true caseSensitive includes = .ok rules.includes)
    (he : Matcher.compileAll false caseSensitive excludes = .ok rules.excludes)
    (hs : ∀ raw ∈ excludes, Pattern.ForSubtree raw) {options : Options}
    (hf : options.followLinks = false) {root : Bytes} {place : Location}
    (hr : (v.tree world).locatePath root = .ok place)
    (hd : (v.tree world).isDirectory place = true) {limit : Nat}
    (hl : limitFor (v.tree world) ≤ limit) :
    ∃ ns out, (walk v rules options limit root world).Yields ns out ∧ ns.Nodup ∧
      ∀ n, n ∈ ns ↔ EntryBelow (v.tree world) place n ∧ rules.admits n.path = true := by
  obtain ⟨hsettles, hreports⟩ := drain_below hv ht rules hf hl hd
  obtain ⟨s, hy⟩ := hsettles.yields (.inr hlistable)
  obtain ⟨hnodup, hmem⟩ := hreports s hy.2
  refine ⟨_, _, walk_yields hr (Tree.isFile_of_isDirectory hd) hy, hnodup.of_map, fun n => ?_⟩
  rw [hmem]
  exact reported_iff_filtered ht hlistable hf hd (reachIncludes_of_compileAll hi)
    (excludesSubtrees_of_compileAll he hs)

def outside (name : String) : Rules :=
  ⟨[], [⟨name ++ "/**", .row [.exact name, .stretch], false, true⟩]⟩

/-- A slash at the end of `a/` asks for the subtree. Of `linked` the link `c` is left. -/
theorem walk_filters_linked :
    observer.Quiet ∧ linked.WellFormed ∧ linked.Listable ∧
    Matcher.compileAll true true [] = .ok (outside "a").includes ∧
    Matcher.compileAll false true ["a/"] = .ok (outside "a").excludes ∧
    (∀ raw ∈ ["a/"], Pattern.ForSubtree raw) ∧ ({} : Options).followLinks = false ∧
    linked.locatePath [Path.slash] = .ok [] ∧ linked.isDirectory [] = true ∧ limitFor linked ≤ 2 ∧
    (walk observer (outside "a") {} 2 [Path.slash] linked).calls = [⟨[[0x63]], ⟨["c"], true⟩⟩] ∧
    ∃ ns out, (walk observer (outside "a") {} 2 [Path.slash] linked).Yields ns out ∧ ns.Nodup ∧
      ∀ n, n ∈ ns ↔ EntryBelow linked [] n ∧ (outside "a").admits n.path = true := by
  have ht : (observer.tree linked).WellFormed := ⟨by decide, by decide⟩
  have hlistable : (observer.tree linked).Listable := by decide
  have hi : Matcher.compileAll true true [] = .ok (outside "a").includes := rfl
  have he : Matcher.compileAll false true ["a/"] = .ok (outside "a").excludes := rfl
  have hs : ∀ raw ∈ ["a/"], Pattern.ForSubtree raw := by
    intro raw hraw
    rw [List.mem_singleton.mp hraw]
    exact ⟨["a", "**"], rfl, rfl⟩
  have hf : ({} : Options).followLinks = false := rfl
  have hr : (observer.tree linked).locatePath [Path.slash] = .ok [] := by
    show linked.locatePath [Path.slash] = .ok []
    cbv
  have hd : (observer.tree linked).isDirectory [] = true := by decide
  have hl : limitFor (observer.tree linked) ≤ 2 := by decide
  exact ⟨observer_quiet, ht, hlistable, hi, he, hs, hf, hr, hd, hl, by cbv,
    walk_filters observer_quiet ht hlistable hi he hs hf hr hd hl⟩

end Fileset.Walk
