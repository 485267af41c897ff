import Fileset.Proofs.Tree.WellFormed
import Fileset.Walk.Listing

namespace Fileset

theorem Bytes.text?_eq_some {b : Bytes} {s : String} : b.text? = some s ↔ b = ofText s :=
  ⟨fun h => (ofText_of_text? h).symm, fun h => h ▸ text?_ofText s⟩

theorem Bytes.ofText_injective {a b : String} (h : ofText a = ofText b) : a = b := by
  have ha := text?_ofText a
  rw [h, text?_ofText b] at ha
  exact (Option.some.inj ha).symm

def Tree.ListsOnce (t : Tree) : Prop := ∀ dir, ((t.inside dir).map Prod.fst).Nodup

theorem Tree.WellFormed.listsOnce {t : Tree} (h : t.WellFormed) : t.ListsOnce := h.inside_nodup

namespace Walk

theorem ordered_perm (options : Options) (entries : List (Bytes × Tree.Kind)) :
    (ordered options entries).Perm entries := by
  unfold ordered
  split
  · exact List.mergeSort_perm _ _
  · exact List.Perm.refl _

@[simp] theorem ordered_nil (options : Options) : ordered options [] = [] :=
  (ordered_perm options []).eq_nil

def entriesOf (t : Tree) (options : Options) (place : Location) : List (Bytes × Tree.Kind) :=
  ordered options ((t.contents place).toOption.getD [])

theorem entriesOf_perm (t : Tree) (options : Options) (place : Location) :
    (entriesOf t options place).Perm ((t.contents place).toOption.getD []) :=
  ordered_perm options _

/-- What is listed is in a directory that may be read. -/
theorem mem_entriesOf {t : Tree} {options : Options} {place : Location} {e : Bytes × Tree.Kind} :
    e ∈ entriesOf t options place ↔
      t.kindAt? place = some (.directory true) ∧ e ∈ t.inside place := by
  rw [(entriesOf_perm t options place).mem_iff, Tree.contents]
  split <;> simp_all [Except.toOption]

theorem byName_pairwise (entries : List (Bytes × Tree.Kind)) :
    (byName entries).Pairwise fun a b => a.1.le b.1 = true := by
  refine List.pairwise_mergeSort ?_ ?_ entries
  · exact fun a b c => Bytes.le_trans
  · exact fun a b => Bytes.le_total a.1 b.1

/-- The children that a walk finds in a directory; none if it cannot be listed. -/
def children (t : Tree) (options : Options) (dir : Location) : List Child :=
  match list t options dir with
  | .ok listing => listing.children
  | .error _ => []

theorem children_of_ok {t : Tree} {options : Options} {dir : Location} {listing : Listing}
    (h : list t options dir = .ok listing) : children t options dir = listing.children := by
  simp only [children, h]

theorem children_of_error {t : Tree} {options : Options} {dir : Location} {cause : Tree.Error}
    (h : list t options dir = .error cause) : children t options dir = [] := by
  simp only [children, h]

theorem list_missing {t : Tree} (options : Options) {dir : Location} {e : Tree.Error}
    (hl : t.locateAt dir = .error e) : list t options dir = .error e := by
  simp only [list, hl, Except.bind, bind, Except.map]

/-- Where two trees have the same under a location, and make the same of its entries, the location is
listed alike. -/
theorem list_congr {t t' : Tree} {options options' : Options} {dir : Location}
    (hl : t'.locateAt dir = t.locateAt dir)
    (h : ∀ place, t.locateAt dir = .ok place → t'.kindAt? place = t.kindAt? place ∧
      (ordered options' (t'.inside place)).map (Child.ofEntry t' options'.followLinks dir) =
        (ordered options (t.inside place)).map (Child.ofEntry t options.followLinks dir)) :
    list t' options' dir = list t options dir := by
  unfold list
  rw [hl]
  cases hplace : t.locateAt dir with
  | error e => rfl
  | ok place =>
    obtain ⟨hkind, hentries⟩ := h place hplace
    simp only [bind, Except.bind, Tree.contents, hkind]
    split
    · simp only [Except.map, hentries]
    · rfl
    · simp only [Except.map, ordered_nil, List.map_nil]

theorem children_eq {t : Tree} (options : Options) {dir place : Location}
    (hl : t.locateAt dir = .ok place) :
    children t options dir = (entriesOf t options place).filterMap fun e =>
      (Child.ofEntry t options.followLinks dir e).toOption := by
  simp only [children, list, hl, Except.bind, bind, entriesOf]
  cases t.contents place with
  | ok entries => simp [Except.map, Except.toOption, Listing.ofResults, List.filterMap_map]
  | error e => simp [Except.map, Except.toOption]

theorem ofEntry_toOption {t : Tree} {dir : Location} {name : Bytes} {kind : Tree.Kind} :
    (Child.ofEntry t false dir (name, kind)).toOption =
      name.text?.map fun text => ⟨text, kind.isDirectory⟩ := by
  cases ht : name.text? with
  | none => simp [Child.ofEntry, ht, Except.toOption]
  | some text => simp [Child.ofEntry, ht, Except.toOption]

/-- What is there and is no directory has no children. -/
theorem list_special {t : Tree} (options : Options) {dir place : Location}
    (hl : t.locateAt dir = .ok place) (hd : t.isDirectory place = false) :
    list t options dir = .ok ⟨[], []⟩ := by
  have hnone : t.contents place = .ok [] := Tree.contents_special hd
  simp [list, hl, hnone, Except.bind, bind, Except.map, Listing.ofResults]

/-- Only a directory that may not be read, or a place that is not there, is not listed. -/
theorem list_error {t : Tree} {options : Options} {dir place : Location} {cause : Tree.Error}
    (hl : t.locateAt dir = .ok place) (he : list t options dir = .error cause) :
    t.kindAt? place = some (.directory false) ∧ cause = .denied := by
  simp only [list, hl, Except.bind, bind] at he
  cases hc : t.contents place with
  | ok entries => simp [hc, Except.map] at he
  | error e =>
    rw [hc] at he
    cases he
    exact Tree.contents_error hc

/-- A child keeps the name of its entry. -/
theorem ofEntry_name {t : Tree} {follow : Bool} {dir : Location} {e : Bytes × Tree.Kind} {c : Child}
    (h : Child.ofEntry t follow dir e = .ok c) : Bytes.ofText c.name = e.1 := by
  obtain ⟨name, kind⟩ := e
  unfold Child.ofEntry at h
  cases ht : name.text? with
  | none => simp [ht] at h
  | some text =>
    have hname := Bytes.ofText_of_text? ht
    simp only [ht] at h
    split at h
    · split at h
      · cases h
        exact hname
      · cases h
    · cases h
      exact hname

theorem filterMap_names_sublist {t : Tree} {follow : Bool} {dir : Location}
    (entries : List (Bytes × Tree.Kind)) :
    ((entries.filterMap fun e => (Child.ofEntry t follow dir e).toOption).map fun c =>
      Bytes.ofText c.name).Sublist (entries.map Prod.fst) := by
  induction entries with
  | nil => exact List.Sublist.refl _
  | cons e entries ih =>
    cases hc : Child.ofEntry t follow dir e with
    | error line => simpa [hc, Except.toOption] using ih.cons e.1
    | ok c => simpa [hc, Except.toOption, ofEntry_name hc] using ih.cons_cons e.1

/-- The children of a directory have the names of its entries, in the same order. -/
theorem children_names (t : Tree) (options : Options) (dir : Location) :
    ∃ place, ((children t options dir).map fun c => Bytes.ofText c.name).Sublist
      ((entriesOf t options place).map Prod.fst) := by
  cases hp : t.locateAt dir with
  | error e => exact ⟨dir, by simp [children_of_error (list_missing options hp)]⟩
  | ok place =>
    rw [children_eq options hp]
    exact ⟨place, filterMap_names_sublist _⟩

theorem contents_nodup {t : Tree} (h : t.ListsOnce) (place : Location) :
    (((t.contents place).toOption.getD []).map Prod.fst).Nodup := by
  unfold Tree.contents
  split
  · exact h place
  · exact List.nodup_nil
  · exact List.nodup_nil

theorem children_names_nodup {t : Tree} (h : t.ListsOnce) (options : Options) (dir : Location) :
    ((children t options dir).map Child.name).Nodup := by
  obtain ⟨place, hsub⟩ := children_names t options dir
  have hentries := ((entriesOf_perm t options place).map Prod.fst).nodup_iff.mpr (contents_nodup h place)
  have hbytes := hentries.sublist hsub
  rw [← Function.comp_def, ← List.map_map] at hbytes
  exact hbytes.of_map

theorem children_location_nodup {t : Tree} (h : t.ListsOnce) (options : Options) (dir : Location) :
    ((children t options dir).map fun c => c.location dir).Nodup := by
  have hinj : Function.Injective fun name => dir ++ [Bytes.ofText name] := by
    intro a b hab
    exact Bytes.ofText_injective (List.singleton_inj.mp (List.append_cancel_left hab))
  have hnames := (children_names_nodup h options dir).map hinj
  rwa [List.map_map] at hnames

section Unfollowed

variable {t : Tree} (h : t.WellFormed) {options : Options} (hf : options.followLinks = false)
  {dir : Location} (hd : t.isDirectory dir = true)
include h hf hd

theorem mem_children {c : Child} :
    c ∈ children t options dir ↔ t.kindAt? dir = some (.directory true) ∧
      ∃ kind, t.kindAt? (c.location dir) = some kind ∧ c.isDir = kind.isDirectory := by
  rw [children_eq options (h.locateAt_directory hd), hf, List.mem_filterMap]
  constructor
  · intro hm
    obtain ⟨⟨name, kind⟩, he, hc⟩ := hm
    rw [ofEntry_toOption] at hc
    obtain ⟨text, htext, rfl⟩ := Option.map_eq_some_iff.mp hc
    have hname : name = Bytes.ofText text := Bytes.text?_eq_some.mp htext
    obtain ⟨hread, hin⟩ := mem_entriesOf.mp he
    rw [h.mem_inside_iff, hname] at hin
    exact ⟨hread, kind, hin, rfl⟩
  · intro hm
    obtain ⟨hread, kind, hk, hdir⟩ := hm
    refine ⟨(Bytes.ofText c.name, kind), mem_entriesOf.mpr ⟨hread, h.mem_inside_iff.mpr hk⟩, ?_⟩
    rw [ofEntry_toOption]
    simp [Bytes.text?_ofText, ← hdir]

end Unfollowed
end Walk
end Fileset
