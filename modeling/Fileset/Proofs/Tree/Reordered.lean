import Fileset.Proofs.Tree.Leads

namespace Fileset.Tree

section Lookup

variable {t t' : Tree} (h : ∀ dir name, t'.find? dir name = t.find? dir name)
include h

theorem kindAt?_congr (loc : Location) : t'.kindAt? loc = t.kindAt? loc := by
  unfold kindAt?
  split
  · rfl
  · exact h _ _

theorem isDirectory_congr (loc : Location) : t'.isDirectory loc = t.isDirectory loc := by
  rw [isDirectory, isDirectory, kindAt?_congr h]

theorem isFile_congr (loc : Location) : t'.isFile loc = t.isFile loc := by
  rw [isFile, isFile, kindAt?_congr h]

/-- Where a path leads depends on what is found under each name, and on nothing else. -/
theorem resolveFrom_congr (links : Nat) (here : Location) (steps : List Path.Step) :
    t'.resolveFrom links here steps = t.resolveFrom links here steps := by
  have hdir := isDirectory_congr h
  fun_induction resolveFrom t links here steps with
  | case1 => rw [resolveFrom]
  | case2 links here rest hd ih => rw [resolveFrom_stay ((hdir here).trans hd), ih]
  | case3 links here rest hd ih => rw [resolveFrom_up ((hdir here).trans hd), ih]
  | case4 links here rest hd name hfind hempty =>
    rw [resolveFrom, if_pos ((hdir here).trans hd)]
    simp [h, hfind, hempty]
  | case5 links here rest hd name hfind hempty =>
    rw [resolveFrom, if_pos ((hdir here).trans hd)]
    simp [h, hfind, hempty]
  | case6 here rest hd name target hfind =>
    rw [resolveFrom, if_pos ((hdir here).trans hd)]
    simp [h, hfind]
  | case7 here rest hd name target hfind links ih =>
    rw [resolveFrom_link ((hdir here).trans hd) _ _ ((h here name).trans hfind)]
    simpa using ih
  | case8 links here rest hd name kind hnot hfind ih =>
    rw [resolveFrom_entry ((hdir here).trans hd) _ _ ((h here name).trans hfind)
      fun target hlink => hnot target hlink, ih]
  | case9 links here step rest hd =>
    rw [resolveFrom.eq_def]
    exact if_neg (by rwa [hdir])

theorem locate_congr (steps : List Path.Step) : t'.locate steps = t.locate steps := by
  rw [locate, locate, resolve, resolve, resolveFrom_congr h]

theorem locateAt_congr (loc : Location) : t'.locateAt loc = t.locateAt loc := locate_congr h _

theorem locatePath_congr (path : Bytes) : t'.locatePath path = t.locatePath path := by
  rw [locatePath, locatePath, locate_congr h]

end Lookup

section Perm

variable {t t' : Tree} (hperm : t'.entries.Perm t.entries)
include hperm

theorem inside_perm (dir : Location) : (t'.inside dir).Perm (t.inside dir) :=
  (hperm.filter _).map _

theorem directories_perm : t'.directories.Perm t.directories :=
  ((hperm.filter _).map _).cons []

theorem find?_perm (ht : t.WellFormed) (dir : Location) (name : Bytes) :
    t'.find? dir name = t.find? dir name := by
  have hdistinct : (t'.entries.map Entry.location).Nodup :=
    (hperm.map Entry.location).nodup_iff.mpr ht.distinct
  refine Option.ext fun kind => ⟨fun hk => ?_, fun hk => ?_⟩
  · exact find?_of_mem ht.distinct (hperm.mem_iff.mp (mem_of_find? hk))
  · exact find?_of_mem hdistinct (hperm.mem_iff.mpr (mem_of_find? hk))

theorem wellFormed_perm (ht : t.WellFormed) : t'.WellFormed := by
  constructor
  case distinct => exact (hperm.map Entry.location).nodup_iff.mpr ht.distinct
  case rooted =>
    intro e he
    rw [isDirectory_congr (find?_perm hperm ht)]
    exact ht.rooted e (hperm.mem_iff.mp he)

end Perm
end Fileset.Tree
