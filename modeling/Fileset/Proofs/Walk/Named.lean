import Fileset.Proofs.Walk.Levels
import Fileset.Proofs.Walk.Quiet

namespace Fileset

structure Bytes.IsName (name : Bytes) : Prop where
  full : name ≠ []
  slash : Path.slash ∉ name
  zero : 0 ∉ name

def Tree.Named (t : Tree) : Prop := ∀ e ∈ t.entries, e.name.IsName

def RelPath.Named (p : RelPath) : Prop := ∀ name ∈ p.segments, (Bytes.ofText name).IsName

theorem RelPath.Named.child {p : RelPath} (h : p.Named) (isFile : Bool) {name : String}
    (hname : (Bytes.ofText name).IsName) : (p.child isFile name).Named := by
  intro segment hsegment
  rcases List.mem_append.mp hsegment with hold | hnew
  · exact h segment hold
  · rw [List.mem_singleton.mp hnew]
    exact hname

namespace Walk

section Reports

variable {t : Tree} (ht : t.Named) {rules : Rules} {options : Options}
include ht

theorem child_named {dir : Location} {c : Child} (hc : c ∈ children t options dir) :
    (Bytes.ofText c.name).IsName := by
  obtain ⟨place, hsub⟩ := children_names t options dir
  have hname : Bytes.ofText c.name ∈ (entriesOf t options place).map Prod.fst :=
    hsub.subset (List.mem_map_of_mem hc)
  obtain ⟨e, he, heq⟩ := List.mem_map.mp hname
  rw [← heq]
  exact ht _ (Tree.mem_inside.mp (mem_entriesOf.mp he).2)

theorem reports_named {dir : Pending} (hdir : dir.path.Named) {n : Notice}
    (hn : n ∈ reports t rules options dir) : n.path.Named := by
  obtain ⟨c, hc, -, rfl⟩ := mem_reports_iff.mp hn
  exact hdir.child _ (child_named ht hc)

theorem rootEntry_named {file : Location} (hfile : t.isFile file = true) {n : Notice}
    (hn : n ∈ rootEntry file) : n.path.segments ≠ [] ∧ n.path.Named := by
  unfold rootEntry at hn
  cases htext : file.getLast?.bind Bytes.text? with
  | none => simp [htext] at hn
  | some text =>
    obtain rfl : n = ⟨file, ⟨[text], true⟩⟩ := by simpa [htext] using hn
    obtain ⟨name, hlast, hname⟩ := Option.bind_eq_some_iff.mp htext
    obtain ⟨kind, hk, -⟩ := (Option.any_eq_true _ _).mp hfile
    rw [Tree.kindAt?, hlast] at hk
    refine ⟨List.cons_ne_nil text [], fun segment hsegment => ?_⟩
    rw [List.mem_singleton.mp hsegment, Bytes.ofText_of_text? hname]
    exact ht _ (Tree.mem_of_find? hk)

end Reports

theorem walk_calls_missing {v : Visitor ω ε} {rules : Rules} {options : Options} {limit : Nat}
    {root : Bytes} {world : ω} {e : Tree.Error} (hr : (v.tree world).locatePath root = .error e) :
    (walk v rules options limit root world).calls = [] := by
  simp [walk, hr, Recorded.calls_record, Recorded.calls_ok, Trace.notices]

theorem takeRootFile_begins (v : Visitor ω ε) (rules : Rules) (file : Location) (s : State ω) :
    (takeRootFile v rules file s).calls <+:
      (rootEntry file).filter fun n => rules.admits n.path := by
  have htake := takeRootFile_calls v rules file s
  cases hres : (takeRootFile v rules file s).result with
  | ok s' => exact (htake.through s' hres).1 ▸ List.prefix_refl _
  | error h => exact (htake.ended h hres).2

structure Reportable (rules : Rules) (n : Notice) : Prop where
  admitted : rules.admits n.path = true
  named : n.path.Named

section Entries

variable {v : Visitor ω ε} {world : ω} (hknown : ∀ w, v.Reaches world w → (v.tree w).Named)
  (rules : Rules) (options : Options) (limit : Nat)
include hknown

theorem drain_reportable (place : Location) : ∀ n ∈
    (drain v rules options limit (initial world options place)).calls, Reportable rules n := by
  let inv (ns : List Notice) (queue : List Pending) :=
    (∀ n ∈ ns, Reportable rules n) ∧ ∀ d ∈ queue, d.path.Named
  have hstart : inv [] [⟨place, .root false⟩] := by
    refine ⟨List.forall_mem_nil _, fun d hd => ?_⟩
    rw [List.mem_singleton.mp hd]
    exact List.forall_mem_nil _
  have hstep : ∀ t ns dir queue more, t.Named → inv ns (dir :: queue) →
      more.Sublist (opens t rules options dir) →
      inv (ns ++ reports t rules options dir) (queue ++ more) := by
    rintro t ns dir queue more ht ⟨hns, hqueue⟩ hmore
    obtain ⟨hdir, hqueue⟩ := List.forall_mem_cons.mp hqueue
    have hnew : ∀ n ∈ reports t rules options dir, Reportable rules n := by
      intro n hn
      obtain ⟨-, -, -, hadmits⟩ := reports_child hn
      exact ⟨hadmits, reports_named ht hdir hn⟩
    constructor
    · exact List.forall_mem_append.mpr ⟨hns, hnew⟩
    · refine List.forall_mem_append.mpr ⟨hqueue, fun d hd => ?_⟩
      have hreport : d.notice ∈ reports t rules options dir :=
        List.mem_append_right _ (List.mem_map_of_mem (hmore.subset hd))
      exact (hnew d.notice hreport).named
  have hrun : ∃ all rest, inv all rest ∧
      [] ++ (drain v rules options limit (initial world options place)).calls <+: all :=
    drain_keeps inv hstep limit hknown hstart
  obtain ⟨all, rest, ⟨hall, -⟩, hcalls⟩ := hrun
  exact fun n hn => hall n (hcalls.subset hn)

/-- Whatever the visitor makes of the tree, as long as all names in it are proper ones, the visitor is
called with admitted entries only, and with proper names in their paths. -/
theorem walk_reportable (root : Bytes) : ∀ n ∈ (walk v rules options limit root world).calls,
    Reportable rules n := by
  cases hr : (v.tree world).locatePath root with
  | error e =>
    rw [walk_calls_missing hr]
    exact List.forall_mem_nil _
  | ok place =>
    rw [walk_calls_from hr]
    unfold walkFrom
    dsimp only
    split
    · rename_i hk
      intro n hn
      obtain ⟨hentry, hadmits⟩ :=
        List.mem_filter.mp ((takeRootFile_begins v rules place _).subset hn)
      exact ⟨hadmits, (rootEntry_named (hknown world .start) hk hentry).2⟩
    · exact drain_reportable hknown rules options limit place

end Entries

structure Legible (ns : List Notice) : Prop where
  below : ∀ n ∈ ns, n.path.segments ≠ []
  named : ∀ n ∈ ns, n.path.Named
  once : (ns.map fun n => n.path.segments).Nodup

theorem Legible.front {ns ks : List Notice} (h : Legible ks) (hns : ns <+: ks) : Legible ns :=
  ⟨fun n hn => h.below n (hns.subset hn), fun n hn => h.named n (hns.subset hn),
    h.once.sublist (hns.sublist.map _)⟩

section Runs

variable {v : Visitor ω ε} {world : ω}
  (hknown : ∀ w, v.Reaches world w → (v.tree w).ListsOnce ∧ (v.tree w).Named)
  (rules : Rules) (options : Options) (limit : Nat)
include hknown

theorem drain_legible (place : Location) :
    Legible (drain v rules options limit (initial world options place)).calls := by
  have hrun : ∃ all rest, Waiting rules place all rest ∧
      [] ++ (drain v rules options limit (initial world options place)).calls <+: all :=
    drain_keeps (Waiting rules place) (fun _ _ _ _ _ ht h hmore => h.take ht hmore) limit
      (fun w hw => (hknown w hw).1) Waiting.initial
  obtain ⟨all, rest, hwaiting, more, rfl⟩ := hrun
  have hreportable := drain_reportable (fun w hw => (hknown w hw).2) rules options limit place
  have hlevelled := hwaiting.levelled.front
  exact ⟨hlevelled.below, fun n hn => (hreportable n hn).named, hlevelled.once⟩

/-- Whatever the visitor makes of the tree, as long as each listing hands out proper names, and each of
them once, the entries that a walk reports can be told apart by their paths. -/
theorem walk_legible (root : Bytes) : Legible (walk v rules options limit root world).calls := by
  have hnil : Legible [] := ⟨List.forall_mem_nil _, List.forall_mem_nil _, List.nodup_nil⟩
  cases hr : (v.tree world).locatePath root with
  | error e =>
    rw [walk_calls_missing hr]
    exact hnil
  | ok place =>
    rw [walk_calls_from hr]
    unfold walkFrom
    dsimp only
    split
    · rename_i hk
      have hroot : Legible ((rootEntry place).filter fun n => rules.admits n.path) := by
        have hsub := List.filter_sublist (l := rootEntry place) (p := fun n => rules.admits n.path)
        have hmem {n : Notice} (hn : n ∈ (rootEntry place).filter fun n => rules.admits n.path) :=
          rootEntry_named (hknown world .start).2 hk (hsub.subset hn)
        refine ⟨fun n hn => (hmem hn).1, fun n hn => (hmem hn).2, ?_⟩
        refine pairwise_of_length_le_one ?_ _
        rw [List.length_map]
        exact Nat.le_trans hsub.length_le (rootEntry_length place)
      exact hroot.front (takeRootFile_begins v rules place _)
    · exact drain_legible hknown rules options limit place

end Runs
end Walk
end Fileset
