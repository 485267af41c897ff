import Fileset.Proofs.Tree.Leads
import Fileset.Tree.Edit

namespace Fileset.Tree

theorem inside_erase (t : Tree) (loc dir : Location) :
    (t.erase loc).inside dir = (t.inside dir).filter fun e => !loc.isPrefixOf (dir ++ [e.1]) := by
  simp only [inside, erase, List.filter_map, List.filter_filter]
  congr 1
  apply List.filter_congr
  intro e _
  cases hdir : e.dir == dir with
  | false => simp
  | true => simp [Entry.location, beq_iff_eq.mp hdir]

/-- A tree is well-formed as soon as what its entries lie in is among its directories. -/
theorem wellFormed_of_directories {t : Tree} (hu : (t.entries.map Entry.location).Nodup)
    (hr : ∀ e ∈ t.entries, e.dir ∈ t.directories) : t.WellFormed :=
  ⟨hu, fun e he => (mem_directories_iff hu).mp (hr e he)⟩

namespace WellFormed

variable {t t' : Tree} (h : t.WellFormed)
include h

theorem dir_mem {e : Entry} (he : e ∈ t.entries) : e.dir ∈ t.directories :=
  mem_directories (h.rooted e he)

theorem insert {dir : Location} {name : Bytes} (hd : t.isDirectory dir = true)
    (hfree : t.find? dir name = none) (kind : Kind) : (t.insert dir name kind).WellFormed := by
  apply wellFormed_of_directories
  · simp only [Tree.insert, List.map_append, List.map_cons, List.map_nil]
    rw [List.nodup_append]
    refine ⟨h.distinct, List.nodup_singleton _, ?_⟩
    intro loc hloc loc' hloc' heq
    obtain ⟨⟨dir', name', kind'⟩, he, rfl⟩ := List.mem_map.mp hloc
    rw [List.mem_singleton.mp hloc'] at heq
    obtain ⟨rfl, hname⟩ := List.append_inj' heq rfl
    cases hname
    rw [h.find?_iff.mpr he] at hfree
    cases hfree
  · intro e he
    have hold : e.dir ∈ t.directories := by
      rcases List.mem_append.mp he with he | he
      · exact h.dir_mem he
      · rw [List.mem_singleton.mp he]
        exact mem_directories hd
    simp only [Tree.insert, directories, List.filter_append, List.map_append]
    exact List.mem_append_left _ hold

/-- Giving what is no directory another kind moves nothing and takes no directory away. -/
theorem replace {loc : Location} (hd : t.isDirectory loc = false) (kind : Kind) :
    (t.replace loc kind).WellFormed := by
  have hloc : (t.replace loc kind).entries.map Entry.location =
      t.entries.map Entry.location := by
    simp only [Tree.replace, List.map_map]
    apply List.map_congr_left
    intro e _
    simp only [Function.comp_apply]
    split <;> rfl
  have hdirs : ∀ dir ∈ t.directories, dir ∈ (t.replace loc kind).directories := by
    intro dir hdir
    rcases List.mem_cons.mp hdir with rfl | hdir
    · exact List.mem_cons_self
    · obtain ⟨e, he, rfl⟩ := List.mem_map.mp hdir
      have hne : e.location ≠ loc := by
        rintro rfl
        have hdir := (mem_directories_iff h.distinct).mp (List.mem_cons_of_mem _ hdir)
        exact Bool.noConfusion (hd.symm.trans hdir)
      obtain ⟨he, hkind⟩ := List.mem_filter.mp he
      refine List.mem_cons_of_mem _ (List.mem_map.mpr ⟨e, List.mem_filter.mpr ⟨?_, hkind⟩, rfl⟩)
      exact List.mem_map.mpr ⟨e, he, if_neg hne⟩
  apply wellFormed_of_directories (hloc ▸ h.distinct)
  intro e he
  obtain ⟨e', he', rfl⟩ := List.mem_map.mp he
  apply hdirs
  split
  · exact h.dir_mem (e := e') he'
  · exact h.dir_mem he'

theorem erase (loc : Location) : (t.erase loc).WellFormed := by
  apply wellFormed_of_directories (h.distinct.sublist (List.filter_sublist.map _))
  intro e he
  obtain ⟨he, hkept⟩ := List.mem_filter.mp he
  rcases List.mem_cons.mp (h.dir_mem he) with hdir | hdir
  · rw [hdir]
    exact List.mem_cons_self
  · obtain ⟨above, hab, hdir⟩ := List.mem_map.mp hdir
    obtain ⟨hab, hkind⟩ := List.mem_filter.mp hab
    -- The directory stays too, or the entry in it would have gone with it.
    have hstay : (!loc.isPrefixOf above.location) = true := by
      rw [Bool.not_eq_true', ← Bool.not_eq_true, List.isPrefixOf_iff_prefix] at hkept ⊢
      intro hp
      exact hkept (hp.trans (hdir ▸ List.prefix_append e.dir [e.name]))
    refine List.mem_cons_of_mem _ (List.mem_map.mpr ⟨above, List.mem_filter.mpr ⟨?_, hkind⟩, hdir⟩)
    exact List.mem_filter.mpr ⟨hab, hstay⟩

/-- Removing an entry puts nothing in its place. -/
theorem kindAt?_erase {loc loc' : Location} {kind : Kind}
    (hk : (t.erase loc).kindAt? loc' = some kind) : t.kindAt? loc' = some kind := by
  rcases List.eq_nil_or_concat loc' with rfl | ⟨dir, name, rfl⟩
  · exact hk
  · rw [List.concat_eq_append, kindAt?_append_singleton] at hk ⊢
    exact h.find?_iff.mpr (List.mem_filter.mp (mem_of_find? hk)).1

end WellFormed

theorem isDirectory_of_place {t : Tree} {path : Bytes} {dir : Location} {name : Bytes}
    (h : t.place path = .ok (dir, some name)) : t.isDirectory dir = true := by
  unfold place at h
  split at h
  · cases h
  · rename_i before last _
    cases hl : t.locate before with
    | error e => simp [hl, bind, Except.bind] at h
    | ok dir' =>
      simp only [hl, bind, pure, Except.bind, Except.pure] at h
      split at h
      · rename_i hd
        split at h
        · cases h
          exact hd
        · cases h
      · cases h

-- Every change that can be made to a file system keeps it well-formed.
namespace WellFormed

variable {t t' : Tree} (h : t.WellFormed)
include h

theorem add {path : Bytes} {kind : Kind} (ha : t.add path kind = .ok t') : t'.WellFormed := by
  unfold Tree.add at ha
  cases hp : t.place path with
  | error e => simp [hp, bind, Except.bind] at ha
  | ok spot =>
    obtain ⟨dir, name?⟩ := spot
    cases name? with
    | none => simp [hp, bind, Except.bind, throw, throwThe, MonadExceptOf.throw] at ha
    | some name =>
      simp only [hp, bind, pure, Except.bind, Except.pure] at ha
      split at ha
      · cases ha
      · rename_i hfree
        cases ha
        exact h.insert (isDirectory_of_place hp) (by simpa using hfree) kind

theorem makeDirectories {n : Nat} {path : Bytes} (hm : t.makeDirectories n path = .ok t') :
    t'.WellFormed := by
  induction n generalizing path t' with
  | zero =>
    cases hm
    exact h
  | succ n ih =>
    simp only [Tree.makeDirectories] at hm
    split at hm
    · rename_i hadd
      cases hm
      exact h.add hadd
    · split at hm
      · cases hm
      · rename_i t₁ hparent
        have h₁ := ih hparent
        split at hm
        · rename_i hadd
          cases hm
          exact h₁.add hadd
        · split at hm
          · cases hm
            exact h₁
          · cases hm
    · split at hm
      · cases hm
        exact h
      · cases hm

theorem makeDirectory {path : Bytes} (hm : t.makeDirectory path = .ok t') : t'.WellFormed :=
  h.makeDirectories hm

theorem write {path content : Bytes} (hw : t.write path content = .ok t') : t'.WellFormed := by
  unfold Tree.write at hw
  split at hw
  · cases hw
  · rename_i dir name hres
    cases hw
    obtain ⟨hd, hfree⟩ := free_of_resolveFrom hres
    exact h.insert hd hfree _
  · split at hw
    · cases hw
    · rename_i hk
      cases hw
      exact h.replace (by simp [isDirectory, hk, Kind.isDirectory]) _
    · cases hw
    · cases hw
      exact h

theorem remove {path : Bytes} (hr : t.remove path = .ok t') : t'.WellFormed := by
  unfold Tree.remove at hr
  cases hp : t.place path with
  | error e => simp [hp, bind, Except.bind] at hr
  | ok spot =>
    obtain ⟨dir, name?⟩ := spot
    cases name? with
    | none => simp [hp, bind, Except.bind, throw, throwThe, MonadExceptOf.throw] at hr
    | some name =>
      simp only [hp, bind, pure, Except.bind, Except.pure] at hr
      split at hr
      · cases hr
        exact h.erase _
      · cases hr

end WellFormed
end Fileset.Tree
