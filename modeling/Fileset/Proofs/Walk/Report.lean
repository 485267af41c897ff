import Fileset.Proofs.Walk.Listing
import Fileset.Walk.Run

namespace Fileset.Walk

def Pending.notice (d : Pending) : Notice := ⟨d.location, d.path⟩

def admittedFiles (rules : Rules) (dir : Pending) (cs : List Child) : List Notice :=
  (cs.filter fun c => rules.admits (c.path dir.path) && !c.isDir).map fun c =>
    ⟨c.location dir.location, c.path dir.path⟩

def admittedDirs (rules : Rules) (dir : Pending) (cs : List Child) : List Pending :=
  (cs.filter fun c => rules.admits (c.path dir.path) && c.isDir).map fun c =>
    ⟨c.location dir.location, c.path dir.path⟩

def rejectedDirs (rules : Rules) (dir : Pending) (cs : List Child) : List Child :=
  cs.filter fun c => !rules.admits (c.path dir.path) && c.isDir

def opens (t : Tree) (rules : Rules) (options : Options) (dir : Pending) : List Pending :=
  admittedDirs rules dir (children t options dir.location)

def reports (t : Tree) (rules : Rules) (options : Options) (dir : Pending) : List Notice :=
  admittedFiles rules dir (children t options dir.location) ++
    (opens t rules options dir).map Pending.notice

theorem admittedFiles_isFile {rules : Rules} {dir : Pending} {cs : List Child} :
    ∀ n ∈ admittedFiles rules dir cs, n.path.isFile = true := by
  intro n hn
  obtain ⟨c, hc, rfl⟩ := List.mem_map.mp hn
  have hdir := (Bool.and_eq_true_iff.mp (List.mem_filter.mp hc).2).2
  simpa [Child.path, RelPath.child] using hdir

theorem admittedDirs_isFile {rules : Rules} {dir : Pending} {cs : List Child} :
    ∀ d ∈ admittedDirs rules dir cs, d.path.isFile = false := by
  intro d hd
  obtain ⟨c, hc, rfl⟩ := List.mem_map.mp hd
  have hdir := (Bool.and_eq_true_iff.mp (List.mem_filter.mp hc).2).2
  simp [Child.path, RelPath.child, hdir]

section Reports

variable {t : Tree} {rules : Rules} {options : Options} {dir : Pending}

theorem opens_of_error {cause : Tree.Error} (h : list t options dir.location = .error cause) :
    opens t rules options dir = [] := by
  simp [opens, children_of_error h, admittedDirs]

theorem reports_of_error {cause : Tree.Error} (h : list t options dir.location = .error cause) :
    reports t rules options dir = [] := by
  simp [reports, opens_of_error h, children_of_error h, admittedFiles]

theorem opens_isFile :
    ∀ n ∈ (opens t rules options dir).map Pending.notice, n.path.isFile = false := by
  intro n hn
  obtain ⟨d, hd, rfl⟩ := List.mem_map.mp hn
  exact admittedDirs_isFile d hd

/-- The reports are the admitted children, files moved to the front. -/
theorem reports_perm : (reports t rules options dir).Perm
    (((children t options dir.location).filter fun c => rules.admits (c.path dir.path)).map fun c =>
      ⟨c.location dir.location, c.path dir.path⟩) := by
  have hsplit := List.filter_append_perm (fun c => !c.isDir)
    ((children t options dir.location).filter fun c => rules.admits (c.path dir.path))
  simp only [List.filter_filter, Bool.not_not] at hsplit
  simpa [reports, opens, admittedFiles, admittedDirs, Pending.notice, Function.comp_def,
    Bool.and_comm] using hsplit.map fun c =>
      (⟨c.location dir.location, c.path dir.path⟩ : Notice)

theorem mem_reports_iff {n : Notice} :
    n ∈ reports t rules options dir ↔ ∃ c ∈ children t options dir.location,
      rules.admits (c.path dir.path) = true ∧ n = ⟨c.location dir.location, c.path dir.path⟩ := by
  simp only [reports_perm.mem_iff, List.mem_map, List.mem_filter, and_assoc, eq_comm (a := n)]

theorem mem_opens_iff {e : Pending} :
    e ∈ opens t rules options dir ↔ ∃ c ∈ children t options dir.location,
      rules.admits (c.path dir.path) = true ∧ c.isDir = true ∧
      e = ⟨c.location dir.location, c.path dir.path⟩ := by
  simp only [opens, admittedDirs, List.mem_map, List.mem_filter, Bool.and_eq_true, and_assoc,
    eq_comm (a := e)]

/-- What is reported lies one name below the directory, and is admitted. -/
theorem reports_child {n : Notice} (h : n ∈ reports t rules options dir) :
    ∃ name, n.location = dir.location ++ [Bytes.ofText name] ∧
      n.path.segments = dir.path.segments ++ [name] ∧ rules.admits n.path = true := by
  obtain ⟨c, _, hadmits, rfl⟩ := mem_reports_iff.mp h
  exact ⟨c.name, rfl, rfl, hadmits⟩

theorem reports_location_nodup (h : t.ListsOnce) :
    ((reports t rules options dir).map Notice.location).Nodup := by
  have hlocs := (children_location_nodup h options dir.location).sublist
    ((List.filter_sublist (p := fun c => rules.admits (c.path dir.path))).map _)
  rw [(reports_perm.map Notice.location).nodup_iff, List.map_map]
  exact hlocs

theorem reports_segments_nodup (h : t.ListsOnce) :
    ((reports t rules options dir).map fun n => n.path.segments).Nodup := by
  have hinj : Function.Injective fun name => dir.path.segments ++ [name] := by
    intro a b hab
    exact List.singleton_inj.mp (List.append_cancel_left hab)
  have hnames := (children_names_nodup h options dir.location).sublist
    ((List.filter_sublist (p := fun c => rules.admits (c.path dir.path))).map _)
  have hsegments := hnames.map hinj
  rw [List.map_map] at hsegments
  rw [(reports_perm.map fun n => n.path.segments).nodup_iff, List.map_map]
  exact hsegments

end Reports
end Fileset.Walk
