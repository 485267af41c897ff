import Fileset.Proofs.Walk.Order
import Fileset.Proofs.Walk.Selection
import Mathlib.Data.Set.Basic

namespace Fileset

def Matcher.Spares (m : Matcher) (path : RelPath) : Prop :=
  m.accepts path = false ∧ ∀ dir, dir <+: path.segments → dir ≠ [] → dir ≠ path.segments →
    m.accepts ⟨dir, false⟩ = false

namespace Walk

/-- What the rules ask of a path. The includes are not asked of the directories above it. -/
def Rules.Selects (r : Rules) (path : RelPath) : Prop :=
  (r.includes = [] ∨ ∃ m ∈ r.includes, m.accepts path = true) ∧ ∀ m ∈ r.excludes, m.Spares path

theorem Rules.ReachIncludes.selects_iff {r : Rules} (h : r.ReachIncludes) {path : RelPath} :
    r.Selects path ↔ r.admits path = true ∧ AdmittedAbove r path.segments := by
  constructor
  · rintro ⟨hwanted, hspared⟩
    have hadmits := admits_iff.mpr ⟨hwanted, fun m hm => (hspared m hm).1⟩
    refine ⟨hadmits, (admittedAbove_iff h hadmits).mpr fun dir hp hne hneq m hm => ?_⟩
    exact (hspared m hm).2 dir hp hne hneq
  · rintro ⟨hadmits, habove⟩
    obtain ⟨hwanted, hkept⟩ := admits_iff.mp hadmits
    refine ⟨hwanted, fun m hm => ⟨hkept m hm, fun dir hp hne hneq => ?_⟩⟩
    exact (admittedAbove_iff h hadmits).mp habove dir hp hne hneq m hm

section Selects

variable {Is Is' Es Es' : List Matcher} {path : RelPath}

theorem selects_append_includes (h : Is ≠ []) (h' : Is' ≠ []) :
    Rules.Selects ⟨Is ++ Is', Es⟩ path ↔ Rules.Selects ⟨Is, Es⟩ path ∨ Rules.Selects ⟨Is', Es⟩ path := by
  simp only [Rules.Selects, List.append_eq_nil_iff, h, h', false_and, false_or, List.mem_append,
    or_and_right, exists_or]

theorem selects_append_excludes : Rules.Selects ⟨Is, Es ++ Es'⟩ path ↔
    Rules.Selects ⟨Is, Es⟩ path ∧ Rules.Selects ⟨Is, Es'⟩ path := by
  simp only [Rules.Selects, List.mem_append, or_imp, forall_and]
  exact and_and_left

theorem Rules.Selects.more_includes (h : Rules.Selects ⟨Is, Es⟩ path) (hne : Is ≠ [])
    (hsub : Is ⊆ Is') : Rules.Selects ⟨Is', Es⟩ path := by
  obtain ⟨hwanted, hspared⟩ := h
  obtain ⟨m, hm, haccepts⟩ := hwanted.resolve_left hne
  exact ⟨.inr ⟨m, hsub hm, haccepts⟩, hspared⟩

theorem Rules.Selects.fewer_excludes (h : Rules.Selects ⟨Is, Es'⟩ path) (hsub : Es ⊆ Es') :
    Rules.Selects ⟨Is, Es⟩ path :=
  ⟨h.1, fun m hm => h.2 m (hsub hm)⟩

end Selects

structure Rules.Compiled (r : Rules) (caseSensitive : Bool) (includes excludes : List String) :
    Prop where
  includes : Matcher.compileAll true caseSensitive includes = .ok r.includes
  excludes : Matcher.compileAll false caseSensitive excludes = .ok r.excludes

structure Distributes (caseSensitive : Bool) (notified : Rules → Set Notice) : Prop where
  includes : ∀ {I I' E r r'}, I ≠ [] → I' ≠ [] → Rules.Compiled r caseSensitive I E →
    Rules.Compiled r' caseSensitive I' E → ∃ both, Rules.Compiled both caseSensitive (I ++ I') E ∧
      notified both = notified r ∪ notified r'
  excludes : ∀ {I E E' r r'}, Rules.Compiled r caseSensitive I E →
    Rules.Compiled r' caseSensitive I E' → ∃ both, Rules.Compiled both caseSensitive I (E ++ E') ∧
      notified both = notified r ∩ notified r'
  moreIncludes : ∀ {I I' E r r'}, I ≠ [] → I ⊆ I' → Rules.Compiled r caseSensitive I E →
    Rules.Compiled r' caseSensitive I' E → notified r ⊆ notified r'
  moreExcludes : ∀ {I E E' r r'}, E ⊆ E' → Rules.Compiled r caseSensitive I E →
    Rules.Compiled r' caseSensitive I E' → notified r' ⊆ notified r

/-- Sets of entries distribute that are cut out of the same candidates, by what the rules select. -/
theorem distributes_of_candidates (caseSensitive : Bool) {notified : Rules → Set Notice}
    {candidate : Notice → Prop} (h : ∀ rules : Rules, rules.ReachIncludes →
      ∀ n, n ∈ notified rules ↔ candidate n ∧ rules.Selects n.path) :
    Distributes caseSensitive notified := by
  have hmem {Is Es : List Matcher} {I : List String}
      (hI : Matcher.compileAll true caseSensitive I = .ok Is) (n : Notice) :
      n ∈ notified ⟨Is, Es⟩ ↔ candidate n ∧ Rules.Selects ⟨Is, Es⟩ n.path :=
    h ⟨Is, Es⟩ (reachIncludes_of_compileAll hI) n
  constructor
  case includes =>
    rintro I I' E ⟨Is, Es⟩ ⟨Is', Es'⟩ hne hne' ⟨hI, hE⟩ ⟨hI', hE'⟩
    obtain rfl : Es = Es' := Except.ok.inj (hE.symm.trans hE')
    have hboth := Matcher.compileAll_append hI hI'
    refine ⟨⟨Is ++ Is', Es⟩, ⟨hboth, hE⟩, Set.ext fun n => ?_⟩
    rw [Set.mem_union, hmem hboth, hmem hI, hmem hI',
      selects_append_includes ((Matcher.compileAll_eq_nil hI).not.mpr hne)
        ((Matcher.compileAll_eq_nil hI').not.mpr hne'), and_or_left]
  case excludes =>
    rintro I E E' ⟨Is, Es⟩ ⟨Is', Es'⟩ ⟨hI, hE⟩ ⟨hI', hE'⟩
    obtain rfl : Is = Is' := Except.ok.inj (hI.symm.trans hI')
    refine ⟨⟨Is, Es ++ Es'⟩, ⟨hI, Matcher.compileAll_append hE hE'⟩, Set.ext fun n => ?_⟩
    rw [Set.mem_inter_iff, hmem hI, hmem hI, hmem hI, selects_append_excludes, and_and_left]
  case moreIncludes =>
    rintro I I' E ⟨Is, Es⟩ ⟨Is', Es'⟩ hne hsub ⟨hI, hE⟩ ⟨hI', hE'⟩ n hn
    obtain rfl : Es = Es' := Except.ok.inj (hE.symm.trans hE')
    obtain ⟨hcandidate, hselects⟩ := (hmem hI n).mp hn
    exact (hmem hI' n).mpr ⟨hcandidate, hselects.more_includes
      ((Matcher.compileAll_eq_nil hI).not.mpr hne) (Matcher.compileAll_subset hI hsub hI')⟩
  case moreExcludes =>
    rintro I E E' ⟨Is, Es⟩ ⟨Is', Es'⟩ hsub ⟨hI, hE⟩ ⟨hI', hE'⟩ n hn
    obtain rfl : Is = Is' := Except.ok.inj (hI.symm.trans hI')
    obtain ⟨hcandidate, hselects⟩ := (hmem hI n).mp hn
    exact (hmem hI n).mpr
      ⟨hcandidate, hselects.fewer_excludes (Matcher.compileAll_subset hE hsub hE')⟩

theorem rootEntry_above (rules : Rules) {file : Location} {n : Notice} (h : n ∈ rootEntry file) :
    AdmittedAbove rules n.path.segments := by
  unfold rootEntry at h
  split at h
  · cases h
  · rw [List.mem_singleton.mp h]
    exact admittedAbove_singleton rules _

section Walks

variable {v : Visitor ω ε} (hv : v.Quiet) {world : ω} (ht : (v.tree world).WellFormed)
  (hlistable : (v.tree world).Listable) {options : Options} (hf : options.followLinks = false)
  {limit : Nat} (hl : limitFor (v.tree world) ≤ limit) (root : Bytes)
include hv ht hlistable hf hl

/-- Whatever the rules, a walk takes its reports from the same entries. -/
theorem walk_candidates : ∃ candidate : Notice → Prop, ∀ (rules : Rules) n,
    n ∈ (walk v rules options limit root world).calls ↔
      candidate n ∧ rules.admits n.path = true ∧ AdmittedAbove rules n.path.segments := by
  cases hr : (v.tree world).locatePath root with
  | error e => exact ⟨fun _ => False, fun rules n => by simp [(walk_yields_missing hr).calls]⟩
  | ok place =>
    cases hd : (v.tree world).isDirectory place with
    | true =>
      refine ⟨fun n => ∃ names kind, names ≠ [] ∧
        n = ⟨place ++ names.map Bytes.ofText, names, !kind.isDirectory⟩ ∧
        (v.tree world).kindAt? n.location = some kind, fun rules n => ?_⟩
      obtain ⟨hsettles, hreports⟩ := drain_below hv ht rules hf hl hd
      obtain ⟨s, hy⟩ := hsettles.yields (.inr hlistable)
      rw [walk_calls hr hd, (hreports s hy.2).2, reported_iff ht hlistable rules hf hd]
      constructor
      · rintro ⟨names, kind, hne, rfl, hk, hadmitted⟩
        exact ⟨⟨names, kind, hne, rfl, hk⟩, hadmitted⟩
      · rintro ⟨⟨names, kind, hne, rfl, hk⟩, hadmitted⟩
        exact ⟨names, kind, hne, rfl, hk, hadmitted⟩
    | false =>
      cases hfile : (v.tree world).isFile place with
      | true =>
        refine ⟨fun n => n ∈ rootEntry place, fun rules n => ?_⟩
        obtain ⟨s, hy⟩ :=
          takeRootFile_quiet hv rules place { initial world options place with queue := [] }
        have hwalk : (walk v rules options limit root world).Yields _ _ :=
          walk_yields_rootFile hr hfile hy
        rw [hwalk.calls, List.mem_filter]
        exact and_congr_right fun hn => (and_iff_left (rootEntry_above rules hn)).symm
      | false =>
        refine ⟨fun _ => False, fun rules n => ?_⟩
        have hnone : (walk v rules options limit root world).Yields [] _ :=
          walk_yields_special hr (ht.locateAt_locatePath hr) hd hfile hl
        simp [hnone.calls]

end Walks

/-- Of a tree that stays as it is, with no directory that may not be read, a walk that follows no links
reports with two lists of includes together what it reports with either, with two lists of excludes
together what it reports with both.
More excludes never add an entry, and more includes never remove one, unless there were none. -/
theorem walk_distributes {v : Visitor ω ε} (hv : v.Quiet) {world : ω}
    (ht : (v.tree world).WellFormed) (hlistable : (v.tree world).Listable) {options : Options}
    (hf : options.followLinks = false) {limit : Nat} (hl : limitFor (v.tree world) ≤ limit)
    (root : Bytes) (caseSensitive : Bool) :
    (∀ rules, ∃ ns out, (walk v rules options limit root world).Yields ns out) ∧
      Distributes caseSensitive fun rules =>
        {n | n ∈ (walk v rules options limit root world).calls} := by
  refine ⟨fun rules => ⟨_, (walk_settles hv ht rules options root hl).yields (.inr hlistable)⟩, ?_⟩
  obtain ⟨candidate, hmem⟩ := walk_candidates hv ht hlistable hf hl root
  exact distributes_of_candidates caseSensitive fun rules hreach n =>
    (hmem rules n).trans (and_congr_right fun _ => hreach.selects_iff.symm)

def only (names : List String) : Rules :=
  ⟨[⟨"/".intercalate names, .literal names, true, true⟩], []⟩

/-- The directory `a` is on the way to `a/b`, and not to `c`. -/
theorem walk_distributes_linked :
    observer.Quiet ∧ linked.WellFormed ∧ linked.Listable ∧ ({} : Options).followLinks = false ∧
    limitFor linked ≤ 2 ∧
    (∀ rules, ∃ ns out, (walk observer rules {} 2 [Path.slash] linked).Yields ns out) ∧
    (only ["c"]).Compiled true ["c"] [] ∧ (only ["a", "b"]).Compiled true ["a/b"] [] ∧
    (walk observer (only ["c"]) {} 2 [Path.slash] linked).calls =
      [⟨[[0x63]], ⟨["c"], true⟩⟩] ∧
    (walk observer (only ["a", "b"]) {} 2 [Path.slash] linked).calls =
      [⟨[[0x61]], ⟨["a"], false⟩⟩, ⟨[[0x61], [0x62]], ⟨["a", "b"], true⟩⟩] ∧
    ∃ both : Rules, both.Compiled true ["c", "a/b"] [] ∧
      {n | n ∈ (walk observer both {} 2 [Path.slash] linked).calls} =
        {n | n ∈ (walk observer (only ["c"]) {} 2 [Path.slash] linked).calls} ∪
          {n | n ∈ (walk observer (only ["a", "b"]) {} 2 [Path.slash] linked).calls} := by
  have ht : linked.WellFormed := ⟨by decide, by decide⟩
  have hl : limitFor linked ≤ 2 := by decide
  have hc : (only ["c"]).Compiled true ["c"] [] := ⟨rfl, rfl⟩
  have hab : (only ["a", "b"]).Compiled true ["a/b"] [] := ⟨rfl, rfl⟩
  have hlistable : linked.Listable := by decide
  obtain ⟨hends, hlaws⟩ := walk_distributes observer_quiet ht hlistable
    (rfl : ({} : Options).followLinks = false) hl [Path.slash] true
  exact ⟨observer_quiet, ht, hlistable, rfl, hl, hends, hc, hab, by cbv, by cbv,
    hlaws.includes (by simp) (by simp) hc hab⟩

end Walk
end Fileset
