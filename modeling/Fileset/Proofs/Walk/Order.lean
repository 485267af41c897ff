import Fileset.Proofs.Walk.Lockstep
import Fileset.Proofs.Walk.Ranked
import Fileset.Proofs.Walk.Selection
import Fileset.Proofs.Walk.Survey
import Fileset.Proofs.Walk.Unreadable

namespace Fileset.Walk

def reportedDirs (ns : List Notice) : List Pending :=
  (ns.filter fun n => !n.path.isFile).map fun n => ⟨n.location, n.path⟩

def rejections (t : Tree) (rules : Rules) (options : Options) (dir : Pending) : Nat :=
  (rejectedDirs rules dir (children t options dir.location)).length

def unlisted (t : Tree) (options : Options) (dirs : List Pending) : List Location :=
  (dirs.filter fun d => !(list t options d.location).isOk).map Pending.location

/-- The account of a walk that has listed what waited in `queue`, reported `ns`, and listed the
directories that it reported. -/
def Summary.account (t : Tree) (rules : Rules) (options : Options) (queue : List Pending)
    (ns : List Notice) (s : Summary) : Summary :=
  { s.plus (ns.countP fun n => n.path.isFile) (ns.countP fun n => !n.path.isFile)
      ((queue ++ reportedDirs ns).map (rejections t rules options)).sum with
    unreadable := s.unreadable ++ unlisted t options (queue ++ reportedDirs ns) }

section Account

variable {t : Tree} {rules : Rules} {options : Options} {dir : Pending}

theorem reportedDirs_reports :
    reportedDirs (reports t rules options dir) = opens t rules options dir := by
  have hfiles : ((admittedFiles rules dir (children t options dir.location)).filter
      fun n => !n.path.isFile) = [] :=
    List.filter_eq_nil_iff.mpr fun n hn => by simp [admittedFiles_isFile n hn]
  have hdirs : (((opens t rules options dir).map Pending.notice).filter fun n => !n.path.isFile) =
      (opens t rules options dir).map Pending.notice :=
    List.filter_eq_self.mpr fun n hn => by simp [opens_isFile n hn]
  rw [reportedDirs, reports, List.filter_append, hfiles, hdirs, List.nil_append, List.map_map]
  exact List.map_id _

theorem reports_countP_files : (reports t rules options dir).countP (fun n => n.path.isFile) =
    (admittedFiles rules dir (children t options dir.location)).length := by
  rw [reports, List.countP_append, List.countP_eq_length.mpr admittedFiles_isFile,
    List.countP_eq_zero.mpr fun n hn => by simp [opens_isFile n hn], Nat.add_zero]

theorem reports_countP_dirs : (reports t rules options dir).countP (fun n => !n.path.isFile) =
    (opens t rules options dir).length := by
  rw [reports, List.countP_append,
    List.countP_eq_zero.mpr fun n hn => by simp [admittedFiles_isFile n hn],
    List.countP_eq_length.mpr fun n hn => by simp [opens_isFile n hn], List.length_map,
    Nat.zero_add]

theorem take_account (s : Summary) :
    s.take t rules options dir = { s.plus ((reports t rules options dir).countP fun n => n.path.isFile)
      ((reports t rules options dir).countP fun n => !n.path.isFile)
      (rejections t rules options dir) with
        unreadable := s.unreadable ++ unlisted t options [dir] } := by
  rw [reports_countP_files, reports_countP_dirs]
  cases hlist : list t options dir.location with
  | ok listing =>
    simp [Summary.take, Summary.plus, rejections, opens, unlisted, hlist, children_of_ok hlist,
      Except.isOk, Except.toBool]
  | error cause =>
    simp [Summary.take, Summary.plus, rejections, opens, unlisted, hlist, children_of_error hlist,
      Except.isOk, Except.toBool, admittedFiles, admittedDirs, rejectedDirs]

theorem account_cons (queue : List Pending) (ns : List Notice) (s : Summary) :
    (s.take t rules options dir).account t rules options (queue ++ opens t rules options dir) ns =
      s.account t rules options (dir :: queue) (reports t rules options dir ++ ns) := by
  have hdirs : reportedDirs (reports t rules options dir ++ ns) =
      opens t rules options dir ++ reportedDirs ns := by
    rw [← reportedDirs_reports]
    simp [reportedDirs]
  have hunlisted : unlisted t options (dir :: (queue ++ (opens t rules options dir ++ reportedDirs ns))) =
      unlisted t options [dir] ++
        unlisted t options (queue ++ (opens t rules options dir ++ reportedDirs ns)) := by
    rw [unlisted, unlisted, unlisted, ← List.map_append, ← List.filter_append, List.singleton_append]
  rw [take_account, Summary.account, Summary.account, hdirs, List.cons_append, hunlisted]
  simp [Summary.plus, List.countP_append, Nat.add_assoc]

end Account

section Unfollowed

variable {v : Visitor ω ε} (hv : v.Quiet) {t : Tree} {rules : Rules} {options : Options}
  (hf : options.followLinks = false)
include hv hf

/-- What the account of a walk says follows from what it reported. -/
theorem drain_account (limit : Nat) {s s' : State ω} (hw : v.tree s.world = t)
    (hs : (drain v rules options limit s).result = .ok s') :
    s'.summary =
      s.summary.account t rules options s.queue (drain v rules options limit s).calls := by
  have hend (limit : Nat) {s : State ω} (hq : s.queue = [])
      (hs : (drain v rules options limit s).result = .ok s') : s'.summary =
        s.summary.account t rules options s.queue (drain v rules options limit s).calls := by
    rw [drain_nil limit hq] at hs ⊢
    cases hs
    simp [Summary.account, reportedDirs, unlisted, hq, Recorded.calls_ok]
  induction limit generalizing s with
  | zero =>
    cases hq : s.queue with
    | nil => exact hq ▸ hend 0 hq hs
    | cons dir queue =>
      simp only [drain, hq] at hs
      cases hs
  | succ limit ih =>
    cases hq : s.queue with
    | nil => exact hq ▸ hend (limit + 1) hq hs
    | cons dir queue =>
      simp only [drain, hq] at hs ⊢
      obtain ⟨s₁, hs₁, hrest⟩ := Recorded.andThen_result_ok hs
      obtain ⟨hcalls, hw₁, hq₁, hsummary⟩ :=
        takeDirectory_quiet hv (s := { s with queue }) hf hw hs₁
      rw [ih hw₁ hrest, hq₁, hsummary, Recorded.calls_andThen_ok hs₁, hcalls]
      exact account_cons queue _ s.summary

end Unfollowed

section Unsorted

variable {t : Tree} {rules : Rules} {options : Options}

theorem children_unsorted (dir : Location) :
    (children t { options with sorted := false } dir).Perm (children t options dir) := by
  cases hp : t.locateAt dir with
  | error e =>
    rw [children_of_error (list_missing _ hp), children_of_error (list_missing _ hp)]
  | ok place =>
    rw [children_eq _ hp, children_eq _ hp]
    exact ((entriesOf_perm t _ place).trans (entriesOf_perm t _ place).symm).filterMap _

theorem opens_unsorted (dir : Pending) :
    (opens t rules { options with sorted := false } dir).Perm (opens t rules options dir) :=
  ((children_unsorted dir.location).filter _).map _

theorem reports_unsorted (dir : Pending) :
    (reports t rules { options with sorted := false } dir).Perm (reports t rules options dir) :=
  (((children_unsorted dir.location).filter _).map _).append ((opens_unsorted dir).map _)

/-- What lies below a directory is the same for a sorted walk and an unsorted one. -/
theorem reported_unsorted {queue : List Pending} {n : Notice} :
    Reported t rules { options with sorted := false } queue n ↔ Reported t rules options queue n := by
  have hopens : Opens t rules { options with sorted := false } = Opens t rules options := by
    funext d e
    exact propext (opens_unsorted d).mem_iff
  simp only [Reported, hopens, (reports_unsorted _).mem_iff]

theorem unlisted_unsorted (dirs : List Pending) :
    unlisted t { options with sorted := false } dirs = unlisted t options dirs := by
  have hlist (dir : Location) :
      (list t { options with sorted := false } dir).isOk = (list t options dir).isOk := by
    unfold list
    cases t.locateAt dir >>= t.contents <;> rfl
  simp only [unlisted, hlist]

/-- The same account, but for the order in which it names the directories that could not be listed. -/
structure Summary.Alike (s s' : Summary) : Prop where
  counts : { s' with unreadable := s.unreadable } = s
  unreadable : s'.unreadable.Perm s.unreadable

/-- Neither the order of the listings nor the order of the reports changes the account. -/
theorem account_perm (queue : List Pending) {ns ns' : List Notice} (h : ns'.Perm ns) (s : Summary) :
    (s.account t rules options queue ns).Alike
      (s.account t rules { options with sorted := false } queue ns') := by
  have hrejections : rejections t rules { options with sorted := false } =
      rejections t rules options := by
    funext dir
    exact ((children_unsorted dir.location).filter _).length_eq
  have hdirs : (queue ++ reportedDirs ns').Perm (queue ++ reportedDirs ns) :=
    ((h.filter _).map _).append_left queue
  constructor
  case counts =>
    simp only [Summary.account, Summary.plus, hrejections, h.countP_eq,
      (hdirs.map (rejections t rules options)).sum_nat]
  case unreadable =>
    rw [Summary.account, Summary.account, unlisted_unsorted]
    exact ((hdirs.filter _).map _).append_left _

end Unsorted

section Walk

variable {v : Visitor ω ε} (hv : v.Quiet) {world : ω} (ht : (v.tree world).WellFormed)
  (rules : Rules) (options : Options) {limit : Nat} (root : Bytes)
  (hl : limitFor (v.tree world) ≤ limit)
include hv ht hl

/-- A walk that does not start from a directory reports at most its root, sorted or not. -/
theorem walk_small :
    (∃ ns out, ns.length ≤ 1 ∧ ∀ sorted,
      (walk v rules { options with sorted } limit root world).Yields ns out) ∨
    ∃ place, (v.tree world).locatePath root = .ok place ∧
      (v.tree world).isDirectory place = true := by
  cases hr : (v.tree world).locatePath root with
  | error e => exact .inl ⟨[], _, Nat.zero_le 1, fun _ => walk_yields_missing hr⟩
  | ok place =>
    cases hd : (v.tree world).isDirectory place with
    | true => exact .inr ⟨place, rfl, hd⟩
    | false =>
      left
      cases hfile : (v.tree world).isFile place with
      | true =>
        obtain ⟨s, hy⟩ :=
          takeRootFile_quiet hv rules place { initial world options place with queue := [] }
        refine ⟨_, (s.world, s.summary), ?_, fun sorted => walk_yields_rootFile hr hfile hy⟩
        exact Nat.le_trans (List.length_filter_le _ _) (rootEntry_length place)
      | false =>
        refine ⟨[], (world, { rootFound := true }), Nat.zero_le 1, fun sorted => ?_⟩
        exact walk_yields_special hr (ht.locateAt_locatePath hr) hd hfile hl

/-- A quiet walk comes to an end, whether it follows links or not. -/
theorem walk_settles :
    (walk v rules options limit root world).Settles (v.tree world) options := by
  rcases walk_small hv ht rules options root hl with ⟨ns, out, _, hy⟩ | ⟨place, hr, hd⟩
  · exact .through (hy options.sorted).2
  · have hroot := Tree.isFile_of_isDirectory hd
    cases hf : options.followLinks with
    | true => exact (walk_survey rules hv rfl ht hf hl hr hroot).1.settles
    | false =>
      exact walk_settles_from hr (walkFrom_drain hroot ▸ (drain_below hv ht rules hf hl hd).1)

/-- A sorted walk reports in strictly increasing order of the keys. -/
theorem walk_ranked (hs : options.sorted = true) :
    (walk v rules options limit root world).calls.Pairwise fun m n => m.key < n.key := by
  rcases walk_small hv ht rules options root hl with ⟨ns, out, hlen, hy⟩ | ⟨place, hr, hd⟩
  · rw [(hy options.sorted).calls]
    exact pairwise_of_length_le_one hlen _
  · have hlists : ∀ w, v.Reaches world w → (v.tree w).ListsOnce := by
      intro w hw
      exact hv.tree_eq hw ▸ ht.listsOnce
    rw [walk_calls hr hd]
    exact drain_ranked hs limit hlists

/-- Without sorting, a walk that follows no links reports the same entries in some order. -/
theorem walk_unsorted (hf : options.followLinks = false) {out out' : ω × Summary}
    (hout : (walk v rules options limit root world).result = .ok out)
    (hout' : (walk v rules { options with sorted := false } limit root world).result = .ok out') :
    (walk v rules { options with sorted := false } limit root world).calls.Perm
        (walk v rules options limit root world).calls ∧ out.2.Alike out'.2 := by
  rcases walk_small hv ht rules options root hl with ⟨ns, both, _, hy⟩ | ⟨place, hr, hd⟩
  · have hsorted := hy options.sorted
    have hunsorted := hy false
    obtain rfl := Except.ok.inj (hsorted.2.symm.trans hout)
    obtain rfl := Except.ok.inj (hunsorted.2.symm.trans hout')
    rw [hsorted.calls, hunsorted.calls]
    exact ⟨.refl ns, rfl, .refl _⟩
  · have hf' : ({ options with sorted := false } : Options).followLinks = false := hf
    obtain ⟨s, hs, rfl⟩ := walk_result_from hr hout
    obtain ⟨s', hs', rfl⟩ := walk_result_from hr hout'
    rw [walkFrom_drain (Tree.isFile_of_isDirectory hd)] at hs hs'
    obtain ⟨hnodup, hmem⟩ := (drain_below hv ht rules hf hl hd).2 s hs
    obtain ⟨hnodup', hmem'⟩ := (drain_below hv ht rules hf' hl hd).2 s' hs'
    -- What is below the root is the same for both, and both report it once.
    have hperm := (List.perm_ext_iff_of_nodup hnodup'.of_map hnodup.of_map).mpr fun n =>
      (hmem' n).trans (reported_unsorted.trans (hmem n).symm)
    rw [walk_calls hr hd, walk_calls hr hd]
    refine ⟨hperm, ?_⟩
    rw [drain_account hv hf limit rfl hs, drain_account hv hf' limit rfl hs']
    exact account_perm _ hperm _

end Walk

/-- A sorted walk reports the same entries, in one order, and comes to the same in whatever order the
system hands out what is in a directory. If it follows no links and passes directories by that may not
be read, an unsorted walk differs from it in the order of the reports alone. -/
theorem walk_sorted {v : Visitor ω ε} (hv : v.Quiet) {world world' : ω}
    (ht : (v.tree world).WellFormed) (hperm : (v.tree world').entries.Perm (v.tree world).entries)
    (rules : Rules) {options : Options} (hs : options.sorted = true) {limit : Nat} (root : Bytes)
    (hl : limitFor (v.tree world) ≤ limit) :
    (walk v rules options limit root world).Settles (v.tree world) options ∧
    (walk v rules options limit root world').calls = (walk v rules options limit root world).calls ∧
    (walk v rules options limit root world').outcome =
      (walk v rules options limit root world).outcome ∧
    ((walk v rules options limit root world).calls.Pairwise fun m n => m.key < n.key) ∧
    (options.followLinks = false → options.onUnreadable = .skip → ∃ ns out ms out',
      (walk v rules options limit root world).Yields ns out ∧
      (walk v rules { options with sorted := false } limit root world').Yields ms out' ∧
      ms.Perm ns ∧ out.2.Alike out'.2) := by
  have hsettles := walk_settles hv ht rules options root hl
  obtain ⟨htrace, houtcome⟩ :=
    (walk_alike hv rules (sameView_of_perm hperm ht hs) limit root rfl rfl).outcome
  have hcalls := Recorded.calls_of_outcome htrace houtcome
  refine ⟨hsettles, hcalls, houtcome, walk_ranked hv ht rules options root hl hs, fun hf hskip => ?_⟩
  have ht' : (v.tree world').WellFormed := Tree.wellFormed_perm hperm ht
  have hl' : limitFor (v.tree world') ≤ limit := by
    rwa [limitFor, (Tree.directories_perm hperm).length_eq]
  obtain ⟨out, hy⟩ := hsettles.yields (.inl hskip)
  obtain ⟨mid, hmid⟩ := (walk_settles hv ht' rules options root hl').yields (.inl hskip)
  obtain ⟨out', hy'⟩ :=
    (walk_settles hv ht' rules { options with sorted := false } root hl').yields (.inl hskip)
  obtain ⟨hms, hsummary⟩ := walk_unsorted hv ht' rules options root hl' hf hmid.2 hy'.2
  have hsame : mid.2 = out.2 := by
    simpa [Recorded.outcome, hy.2, hmid.2] using houtcome
  exact ⟨_, out, _, out', hy, hy', hcalls ▸ hms, hsame ▸ hsummary⟩

theorem walk_sorted_shut :
    observer.Quiet ∧ shut.WellFormed ∧ (⟨shut.entries.reverse⟩ : Tree).entries.Perm shut.entries ∧
    ({} : Options).sorted = true ∧ limitFor shut ≤ 3 ∧
    (walk observer {} {} 3 [Path.slash] ⟨shut.entries.reverse⟩).calls =
      (walk observer {} {} 3 [Path.slash] shut).calls ∧
    (walk observer {} {} 3 [Path.slash] ⟨shut.entries.reverse⟩).outcome =
      .ok { rootFound := true, files := 2, dirs := 2, unreadable := [[[0x61]]] } ∧
    (walk observer {} ({} : Options).aborting 3 [Path.slash] ⟨shut.entries.reverse⟩).outcome =
      .error (.unreadable [[0x61]] .denied) ∧
    ({} : Options).followLinks = false ∧ ({} : Options).onUnreadable = .skip ∧
    ∃ ns out ms out', (walk observer {} {} 3 [Path.slash] shut).Yields ns out ∧
      (walk observer {} { sorted := false } 3 [Path.slash] ⟨shut.entries.reverse⟩).Yields ms out' ∧
      ms.Perm ns ∧ out.2.Alike out'.2 := by
  have hperm : (⟨shut.entries.reverse⟩ : Tree).entries.Perm shut.entries :=
    List.reverse_perm shut.entries
  have hs : ({} : Options).sorted = true := rfl
  have hl : limitFor shut ≤ 3 := by decide
  have hskips : (walk observer {} {} 3 [Path.slash] shut).outcome =
      .ok { rootFound := true, files := 2, dirs := 2, unreadable := [[[0x61]]] } := by cbv
  have haborts : (walk observer {} ({} : Options).aborting 3 [Path.slash] shut).outcome =
      .error (.unreadable [[0x61]] .denied) := by cbv
  obtain ⟨-, hcalls, houtcome, -, hunsorted⟩ :=
    walk_sorted observer_quiet shut_wellFormed hperm {} hs [Path.slash] hl
  obtain ⟨-, -, houtcome', -, -⟩ := walk_sorted observer_quiet shut_wellFormed hperm {}
    (rfl : ({} : Options).aborting.sorted = true) [Path.slash] hl
  exact ⟨observer_quiet, shut_wellFormed, hperm, hs, hl, hcalls, houtcome.trans hskips, houtcome'.trans haborts,
    rfl, rfl, hunsorted rfl rfl⟩

end Fileset.Walk
