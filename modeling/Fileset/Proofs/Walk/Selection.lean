import Fileset.Proofs.Pattern.Prefix
import Fileset.Proofs.Walk.Below
import Mathlib.Data.List.Forall2

namespace Fileset

namespace Matcher

section CompileAll

variable {forInclude caseSensitive : Bool} {raws raws' : List String} {ms ms' : List Matcher}
  (h : compileAll forInclude caseSensitive raws = .ok ms)
include h

theorem compileAll_forall₂ :
    List.Forall₂ (fun raw m => compile forInclude caseSensitive raw = .ok m) raws ms := by
  unfold compileAll at h
  induction raws generalizing ms with
  | nil =>
    cases h
    exact .nil
  | cons raw raws ih =>
    rw [List.mapM_cons] at h
    cases hm : compile forInclude caseSensitive raw with
    | error e => simp [hm, bind, Except.bind] at h
    | ok m =>
      cases hms : raws.mapM (compile forInclude caseSensitive) with
      | error e => simp [hm, hms, bind, Except.bind] at h
      | ok rest =>
        simp only [hm, hms, bind, pure, Except.bind, Except.pure, Except.ok.injEq] at h
        subst h
        exact .cons hm (ih hms)

theorem mem_compileAll {m : Matcher} :
    m ∈ ms ↔ ∃ raw ∈ raws, compile forInclude caseSensitive raw = .ok m := by
  have hall := compileAll_forall₂ h
  clear h
  induction hall with
  | nil => simp
  | cons hm _ ih => simp [hm, ih, eq_comm]

theorem compileAll_eq_nil : ms = [] ↔ raws = [] := by
  rw [← List.length_eq_zero_iff, ← (compileAll_forall₂ h).length_eq, List.length_eq_zero_iff]

theorem compileAll_subset (hsub : raws ⊆ raws')
    (h' : compileAll forInclude caseSensitive raws' = .ok ms') : ms ⊆ ms' := by
  intro m hm
  obtain ⟨raw, hraw, hc⟩ := (mem_compileAll h).mp hm
  exact (mem_compileAll h').mpr ⟨raw, hsub hraw, hc⟩

theorem compileAll_append (h' : compileAll forInclude caseSensitive raws' = .ok ms') :
    compileAll forInclude caseSensitive (raws ++ raws') = .ok (ms ++ ms') := by
  unfold compileAll at h h' ⊢
  rw [List.mapM_append, h, h']
  rfl

end CompileAll
end Matcher

namespace Walk

theorem admits_iff {rules : Rules} {path : RelPath} :
    rules.admits path = true ↔
      (rules.includes = [] ∨ ∃ m ∈ rules.includes, m.accepts path = true) ∧
      ∀ m ∈ rules.excludes, m.accepts path = false := by
  simp only [Rules.admits, Bool.and_eq_true, Bool.or_eq_true, List.isEmpty_iff, List.any_eq_true,
    Bool.not_eq_true', List.any_eq_false, Bool.not_eq_true]

/-- The entry of `t` at `path` below `place`, as a walk reports it: all its names are texts, an
include asks for it if there are includes, and no exclude holds for it or for a directory between it
and `place`. -/
inductive Selected (t : Tree) (rules : Rules) (place : Location) : Notice → Prop
  | entry (path : List Bytes) (names : List String) (kind : Tree.Kind)
      (below : path ≠ [])
      (there : t.kindAt? (place ++ path) = some kind)
      (texts : path.map Bytes.text? = names.map some)
      (included : rules.includes = [] ∨
        ∃ m ∈ rules.includes, m.accepts ⟨names, !kind.isDirectory⟩ = true)
      (kept : ∀ m ∈ rules.excludes, m.accepts ⟨names, !kind.isDirectory⟩ = false)
      (above : ∀ dir, dir <+: names → dir ≠ [] → dir ≠ names →
        ∀ m ∈ rules.excludes, m.accepts ⟨dir, false⟩ = false) :
      Selected t rules place ⟨place ++ path, names, !kind.isDirectory⟩

/-- The names are texts exactly when they are the bytes of these texts. -/
theorem texts_iff {path : List Bytes} {names : List String} :
    path.map Bytes.text? = names.map some ↔ path = names.map Bytes.ofText := by
  induction path generalizing names with
  | nil => cases names <;> simp
  | cons b path ih =>
    cases names with
    | nil => simp
    | cons name names => simp [ih, Bytes.text?_eq_some]

def AdmittedAbove (rules : Rules) (names : List String) : Prop :=
  ∀ dir, dir <+: names → dir ≠ [] → dir ≠ names → rules.admits ⟨dir, false⟩ = true

theorem admittedAbove_nil (rules : Rules) : AdmittedAbove rules [] :=
  fun _ hp hne _ => absurd (List.prefix_nil.mp hp) hne

theorem admittedAbove_snoc {rules : Rules} {names : List String} {name : String} :
    AdmittedAbove rules (names ++ [name]) ↔
      (names = [] ∨ rules.admits ⟨names, false⟩ = true) ∧ AdmittedAbove rules names := by
  constructor
  · intro h
    constructor
    · by_cases hn : names = []
      · exact Or.inl hn
      · exact Or.inr (h names (List.prefix_append _ _) hn (by simp))
    · intro dir hp hne hneq
      refine h dir (hp.trans (List.prefix_append _ _)) hne ?_
      rintro rfl
      have hlen := hp.length_le
      rw [List.length_append, List.length_singleton] at hlen
      omega
  · intro hm dir hp hne hneq
    obtain ⟨hlast, h⟩ := hm
    rcases List.prefix_concat_iff.mp hp with rfl | hp
    · exact absurd rfl hneq
    · by_cases heq : dir = names
      · subst heq
        exact hlast.resolve_left hne
      · exact h dir hp hne heq

/-- Nothing is above a single name. -/
theorem admittedAbove_singleton (rules : Rules) (name : String) : AdmittedAbove rules [name] := by
  have hsnoc : AdmittedAbove rules ([] ++ [name]) :=
    admittedAbove_snoc.mpr ⟨.inl rfl, admittedAbove_nil rules⟩
  exact hsnoc

section Reach

variable {t : Tree} (ht : t.WellFormed) (hlistable : t.Listable) (rules : Rules)
  {options : Options} (hf : options.followLinks = false) {place : Location}
  (hd : t.isDirectory place = true)
include ht hlistable hf hd

/-- The directories that a walk takes: those that it meets under admitted names. -/
theorem opened_iff {e : Pending} :
    Relation.ReflTransGen (Opens t rules options) ⟨place, .root false⟩ e ↔
      ∃ names, e = ⟨place ++ names.map Bytes.ofText, names, false⟩ ∧
        t.isDirectory e.location = true ∧
        (names = [] ∨ rules.admits ⟨names, false⟩ = true) ∧ AdmittedAbove rules names := by
  constructor
  · intro h
    induction h with
    | refl =>
      exact ⟨[], by simp [RelPath.root], hd, Or.inl rfl, admittedAbove_nil rules⟩
    | tail _ hstep ih =>
      obtain ⟨names, rfl, hdir, hadmits, habove⟩ := ih
      obtain ⟨_, name, rfl, hdir', hadmits'⟩ := (mem_opens ht rules hf hdir).mp hstep
      refine ⟨names ++ [name], by simp [RelPath.child], hdir', Or.inr hadmits', ?_⟩
      exact admittedAbove_snoc.mpr ⟨hadmits, habove⟩
  · intro h
    obtain ⟨names, rfl, hdir, hadmits, habove⟩ := h
    induction names using List.reverseRecOn with
    | nil => simpa [RelPath.root] using Relation.ReflTransGen.refl
    | append_singleton names name ih =>
      have hsplit : place ++ (names ++ [name]).map Bytes.ofText =
          (place ++ names.map Bytes.ofText) ++ [Bytes.ofText name] := by simp
      rw [hsplit] at hdir ⊢
      obtain ⟨hadmits', habove'⟩ := admittedAbove_snoc.mp habove
      have hdir' := ht.isDirectory_front hdir
      refine .tail (ih hdir' hadmits' habove') ?_
      apply (mem_opens ht rules hf hdir').mpr
      exact ⟨hlistable.readable hdir', name, rfl, hdir, hadmits.resolve_left (by simp)⟩

theorem reported_iff {n : Notice} :
    Reported t rules options [⟨place, .root false⟩] n ↔
      ∃ names kind, names ≠ [] ∧
        n = ⟨place ++ names.map Bytes.ofText, names, !kind.isDirectory⟩ ∧
        t.kindAt? n.location = some kind ∧ rules.admits n.path = true ∧
        AdmittedAbove rules names := by
  constructor
  · intro h
    obtain ⟨d, hmem, e, hde, hn⟩ := h
    rw [List.mem_singleton.mp hmem] at hde
    obtain ⟨names, rfl, hdir, hadmits, habove⟩ := (opened_iff ht hlistable rules hf hd).mp hde
    obtain ⟨_, name, kind, rfl, hk, hadmits'⟩ := (mem_reports ht rules hf hdir).mp hn
    exact ⟨names ++ [name], kind, by simp, by simp [RelPath.child], hk, hadmits',
      admittedAbove_snoc.mpr ⟨hadmits, habove⟩⟩
  · intro h
    obtain ⟨names, kind, hne, rfl, hk, hadmits, habove⟩ := h
    rcases List.eq_nil_or_concat names with rfl | ⟨names, name, rfl⟩
    · exact absurd rfl hne
    rw [List.concat_eq_append] at hk hadmits habove ⊢
    have hsplit : place ++ (names ++ [name]).map Bytes.ofText =
        (place ++ names.map Bytes.ofText) ++ [Bytes.ofText name] := by simp
    rw [hsplit] at hk ⊢
    obtain ⟨hadmits', habove'⟩ := admittedAbove_snoc.mp habove
    have hdir := ht.isDirectory_above hk
    refine ⟨_, List.mem_singleton_self _,
      ⟨place ++ names.map Bytes.ofText, names, false⟩, ?_, ?_⟩
    · exact (opened_iff ht hlistable rules hf hd).mpr ⟨names, rfl, hdir, hadmits', habove'⟩
    · exact (mem_reports ht rules hf hdir).mpr
        ⟨hlistable.readable hdir, name, kind, rfl, hk, hadmits⟩

end Reach

/-- The includes of a rule set keep the directories above whatever they accept. -/
def Rules.ReachIncludes (rules : Rules) : Prop :=
  ∀ m ∈ rules.includes, ∀ dir names isFile,
    m.accepts ⟨dir ++ names, isFile⟩ = true → m.accepts ⟨dir, false⟩ = true

theorem reachIncludes_of_compileAll {rules : Rules} {caseSensitive : Bool} {raws : List String}
    (h : Matcher.compileAll true caseSensitive raws = .ok rules.includes) :
    rules.ReachIncludes := by
  intro m hm dir names isFile hacc
  obtain ⟨raw, _, hc⟩ := (Matcher.mem_compileAll h).mp hm
  exact Matcher.include_accepts_above hc hacc

/-- Of the directories above an admitted entry only the excludes have to be asked. -/
theorem admittedAbove_iff {rules : Rules} (h : rules.ReachIncludes) {names : List String}
    {isFile : Bool} (hadmits : rules.admits ⟨names, isFile⟩ = true) :
    AdmittedAbove rules names ↔ ∀ dir, dir <+: names → dir ≠ [] → dir ≠ names →
      ∀ m ∈ rules.excludes, m.accepts ⟨dir, false⟩ = false := by
  constructor
  · intro habove dir hp hne hneq
    exact (admits_iff.mp (habove dir hp hne hneq)).2
  · intro hkept dir hp hne hneq
    refine admits_iff.mpr ⟨?_, hkept dir hp hne hneq⟩
    obtain ⟨more, rfl⟩ := hp
    rcases (admits_iff.mp hadmits).1 with hnone | ⟨m, hm, hacc⟩
    · exact Or.inl hnone
    · exact Or.inr ⟨m, hm, h m hm dir more isFile hacc⟩

theorem selected_iff {t : Tree} {rules : Rules} (h : rules.ReachIncludes) {place : Location}
    {n : Notice} :
    Selected t rules place n ↔
      ∃ names kind, names ≠ [] ∧
        n = ⟨place ++ names.map Bytes.ofText, names, !kind.isDirectory⟩ ∧
        t.kindAt? n.location = some kind ∧ rules.admits n.path = true ∧
        AdmittedAbove rules names := by
  constructor
  · intro hsel
    obtain ⟨path, names, kind, hne, hk, htexts, hinc, hkept, habove⟩ := hsel
    rw [texts_iff.mp htexts] at hne hk ⊢
    have hadmits := admits_iff.mpr ⟨hinc, hkept⟩
    exact ⟨names, kind, by simpa using hne, rfl, hk, hadmits,
      (admittedAbove_iff h hadmits).mpr habove⟩
  · intro hadm
    obtain ⟨names, kind, hne, rfl, hk, hadmits, habove⟩ := hadm
    obtain ⟨hinc, hkept⟩ := admits_iff.mp hadmits
    exact .entry (names.map Bytes.ofText) names kind (by simpa using hne) hk (texts_iff.mpr rfl)
      hinc hkept ((admittedAbove_iff h hadmits).mp habove)

/-- A walk of a tree that stays as it is, with no directory that may not be read, comes to an end, reports
no entry twice, and reports what is selected and nothing else. Whatever an include accepts lies in
directories that it accepts, so no directory on the way to it is lost for lack of an include. -/
theorem walk_selects {v : Visitor ω ε} (hv : v.Quiet) {world : ω}
    (ht : (v.tree world).WellFormed) (hlistable : (v.tree world).Listable) {rules : Rules}
    {caseSensitive : Bool} {raws : List String}
    (hi : Matcher.compileAll true caseSensitive raws = .ok rules.includes) {options : Options}
    (hf : options.followLinks = false) {root : Bytes} {place : Location}
    (hr : (v.tree world).locatePath root = .ok place)
    (hd : (v.tree world).isDirectory place = true) {limit : Nat}
    (hl : limitFor (v.tree world) ≤ limit) :
    (∃ ns out, (walk v rules options limit root world).Yields ns out ∧
      (ns.map Notice.location).Nodup ∧
      ∀ n, n ∈ ns ↔ Selected (v.tree world) rules place n) ∧
    ∀ m ∈ rules.includes, ∀ names isFile, m.accepts ⟨names, isFile⟩ = true →
      ∀ dir, dir <+: names → m.accepts ⟨dir, false⟩ = true := by
  have hreach := reachIncludes_of_compileAll hi
  constructor
  · obtain ⟨hsettles, hreports⟩ := drain_below hv ht rules hf hl hd
    obtain ⟨s, hy⟩ := hsettles.yields (.inr hlistable)
    obtain ⟨hnodup, hmem⟩ := hreports s hy.2
    refine ⟨_, (s.world, s.summary), walk_yields hr (Tree.isFile_of_isDirectory hd) hy, hnodup, ?_⟩
    intro n
    rw [hmem, selected_iff hreach]
    exact reported_iff ht hlistable rules hf hd
  · rintro m hm names isFile hacc dir ⟨more, rfl⟩
    exact hreach m hm dir more isFile hacc

def linked : Tree :=
  ⟨[⟨[], [0x61], .directory⟩, ⟨[[0x61]], [0x62], .file []⟩, ⟨[], [0x63], .link [0x61]⟩]⟩

def onlyInside : Rules := ⟨[⟨"*/?", .row [.glob "*", .glob "?"], true, true⟩], []⟩

theorem walk_selects_linked :
    observer.Quiet ∧ linked.WellFormed ∧ linked.Listable ∧
    Matcher.compileAll true true ["*/?"] = .ok onlyInside.includes ∧
    ({} : Options).followLinks = false ∧ linked.locatePath [Path.slash] = .ok [] ∧
    linked.isDirectory [] = true ∧ limitFor linked ≤ 2 ∧
    (∃ ns out, (walk observer onlyInside {} 2 [Path.slash] linked).Yields ns out ∧
      (ns.map Notice.location).Nodup ∧ ∀ n, n ∈ ns ↔ Selected linked onlyInside [] n) ∧
    ∀ m ∈ onlyInside.includes, ∀ names isFile, m.accepts ⟨names, isFile⟩ = true →
      ∀ dir, dir <+: names → m.accepts ⟨dir, false⟩ = true := by
  have ht : (observer.tree linked).WellFormed := ⟨by decide, by decide⟩
  have hlistable : (observer.tree linked).Listable := by decide
  have hi : Matcher.compileAll true true ["*/?"] = .ok onlyInside.includes := rfl
  have hf : ({} : Options).followLinks = false := rfl
  have hr : (observer.tree linked).locatePath [Path.slash] = .ok [] := by
    show linked.locatePath [Path.slash] = .ok []
    cbv
  have hd : (observer.tree linked).isDirectory [] = true := by decide
  have hl : limitFor (observer.tree linked) ≤ 2 := by decide
  exact ⟨observer_quiet, ht, hlistable, hi, hf, hr, hd, hl,
    walk_selects observer_quiet ht hlistable hi hf hr hd hl⟩

end Walk
end Fileset
