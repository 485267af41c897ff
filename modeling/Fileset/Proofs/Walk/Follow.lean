import Fileset.Proofs.Tree.Leads
import Fileset.Proofs.Walk.Quiet

namespace Fileset.Walk

def placeOf (t : Tree) (d : Pending) : Location := (t.locateAt d.location).toOption.getD d.location

theorem placeOf_eq {t : Tree} {d : Pending} {place : Location} (h : t.locateAt d.location = .ok place) :
    placeOf t d = place := by
  simp [placeOf, h, Except.toOption]

section Children

variable {t : Tree} (ht : t.WellFormed) {dir place : Location} (hl : t.locateAt dir = .ok place)
  (hd : t.isDirectory place = true)
include hl hd

/-- A link or not, an entry is what lies where it leads. -/
theorem ofEntry_followed {name : Bytes} {kind : Tree.Kind} (he : t.find? place name = some kind)
    {c : Child} :
    (Child.ofEntry t true dir (name, kind)).toOption = some c ↔ Bytes.ofText c.name = name ∧
      ∃ loc, t.locateAt (dir ++ [name]) = .ok loc ∧ c.isDir = t.isDirectory loc := by
  cases htext : name.text? with
  | none =>
    have hname : Bytes.ofText c.name ≠ name := by
      intro heq
      rw [← heq, Bytes.text?_ofText] at htext
      cases htext
    simp [Child.ofEntry, htext, hname, Except.toOption]
  | some text =>
    have hname : Bytes.ofText c.name = name ↔ text = c.name := by
      rw [eq_comm, ← Bytes.text?_eq_some, htext, Option.some.injEq]
    rw [hname]
    have hchild {isDir : Bool} : (⟨text, isDir⟩ : Child) = c ↔ text = c.name ∧ c.isDir = isDir := by
      rw [Child.mk.injEq, eq_comm (a := isDir)]
    cases hkind : kind with
    | link target =>
      cases hloc : t.locateAt (dir ++ [name]) with
      | ok loc => simp [Child.ofEntry, htext, hloc, hchild, Except.toOption]
      | error e => simp [Child.ofEntry, htext, hloc, Except.toOption]
    | _ =>
      have hloc : t.locateAt (dir ++ [name]) = .ok (place ++ [name]) :=
        Tree.locateAt_entry hl hd (hkind ▸ he) (by simp)
      have hdir : t.isDirectory (place ++ [name]) = kind.isDirectory := by
        simp [Tree.isDirectory, Tree.kindAt?_append_singleton, he]
      simp [Child.ofEntry, htext, hloc, hchild, hdir, hkind, Except.toOption]

include ht

theorem mem_children_followed {options : Options} (hf : options.followLinks = true) {c : Child} :
    c ∈ children t options dir ↔ t.kindAt? place = some (.directory true) ∧
      ∃ loc, t.locateAt (c.location dir) = .ok loc ∧ c.isDir = t.isDirectory loc := by
  have hmem {name : Bytes} {kind : Tree.Kind} : (name, kind) ∈ entriesOf t options place ↔
      t.kindAt? place = some (.directory true) ∧ t.find? place name = some kind := by
    rw [mem_entriesOf, ht.mem_inside_iff, Tree.kindAt?_append_singleton]
  rw [children_eq options hl, hf, List.mem_filterMap]
  constructor
  · intro h
    obtain ⟨⟨name, kind⟩, he, hc⟩ := h
    obtain ⟨hread, hfind⟩ := hmem.mp he
    obtain ⟨rfl, hloc⟩ := (ofEntry_followed hl hd hfind).mp hc
    exact ⟨hread, hloc⟩
  · intro h
    obtain ⟨hread, loc, hloc, hdir⟩ := h
    obtain ⟨kind, he⟩ := (Tree.leads_of_locateAt hl hloc).find?
    exact ⟨(Bytes.ofText c.name, kind), hmem.mpr ⟨hread, he⟩,
      (ofEntry_followed hl hd he).mpr ⟨rfl, loc, hloc, hdir⟩⟩

end Children

section Directory

variable {t : Tree} (ht : t.WellFormed) (rules : Rules) {options : Options}
  (hf : options.followLinks = true) {dir : Pending} {place : Location}
  (hl : t.locateAt dir.location = .ok place) (hd : t.isDirectory place = true)
include ht hf hl hd

theorem mem_opens_followed {e : Pending} :
    e ∈ opens t rules options dir ↔ t.kindAt? place = some (.directory true) ∧ ∃ name loc,
      e = ⟨dir.location ++ [Bytes.ofText name], dir.path.child false name⟩ ∧
      t.locateAt e.location = .ok loc ∧ t.isDirectory loc = true ∧ rules.admits e.path = true := by
  rw [mem_opens_iff]
  constructor
  · intro h
    obtain ⟨c, hc, hadmits, hcdir, rfl⟩ := h
    obtain ⟨hread, loc, hloc, hdir⟩ := (mem_children_followed ht hl hd hf).mp hc
    have hpath : c.path dir.path = dir.path.child false c.name := by simp [Child.path, hcdir]
    exact ⟨hread, c.name, loc, by rw [hpath]; rfl, hloc, hdir.symm.trans hcdir, hadmits⟩
  · intro h
    obtain ⟨hread, name, loc, rfl, hloc, hdir, hadmits⟩ := h
    refine ⟨⟨name, true⟩, ?_, hadmits, rfl, rfl⟩
    exact (mem_children_followed ht hl hd hf).mpr ⟨hread, loc, hloc, hdir.symm⟩

theorem mem_reports_followed {n : Notice} :
    n ∈ reports t rules options dir ↔ t.kindAt? place = some (.directory true) ∧ ∃ name loc,
      n = ⟨dir.location ++ [Bytes.ofText name], dir.path.child (!t.isDirectory loc) name⟩ ∧
      t.locateAt n.location = .ok loc ∧ rules.admits n.path = true := by
  rw [mem_reports_iff]
  constructor
  · intro h
    obtain ⟨c, hc, hadmits, rfl⟩ := h
    obtain ⟨hread, loc, hloc, hdir⟩ := (mem_children_followed ht hl hd hf).mp hc
    exact ⟨hread, c.name, loc, by simp [Child.location, Child.path, hdir], hloc, hadmits⟩
  · intro h
    obtain ⟨hread, name, loc, rfl, hloc, hadmits⟩ := h
    exact ⟨⟨name, t.isDirectory loc⟩,
      (mem_children_followed ht hl hd hf).mpr ⟨hread, loc, hloc, rfl⟩, hadmits, rfl⟩

end Directory

/-- What a step leaves that goes through the directories `ds` and follows links: of those that lie in
one place, at most one is queued, and none in a place that was walked before. -/
structure Entered (v : Visitor ω ε) (t : Tree) (ds : List Pending) (s s' : State ω) : Prop where
  tree : v.tree s'.world = t
  more : ∃ more, more.Sublist ds ∧ s'.queue = s.queue ++ more ∧
    s'.walked = s.walked ++ more.map (placeOf t)
  once : s.walked.Nodup → s'.walked.Nodup
  all : ∀ d ∈ ds, placeOf t d ∈ s'.walked

namespace Entered

variable {v : Visitor ω ε} {t : Tree} {ds es : List Pending} {s s₁ s₂ : State ω}

/-- A step that leaves the tree, the queue and the walked places as they are. -/
theorem of_eq (htree : v.tree s₁.world = t) (hqueue : s₁.queue = s.queue)
    (hwalked : s₁.walked = s.walked) : Entered v t [] s s₁ := by
  constructor
  case tree => exact htree
  case more => exact ⟨[], List.Sublist.refl _, by simp [hqueue], by simp [hwalked]⟩
  case once => simp [hwalked]
  case all => simp

theorem trans (h : Entered v t ds s s₁) (h' : Entered v t es s₁ s₂) :
    Entered v t (ds ++ es) s s₂ := by
  obtain ⟨more, hsub, hqueue, hwalked⟩ := h.more
  obtain ⟨more', hsub', hqueue', hwalked'⟩ := h'.more
  constructor
  case tree => exact h'.tree
  case more =>
    refine ⟨more ++ more', hsub.append hsub', ?_, ?_⟩
    · rw [hqueue', hqueue, List.append_assoc]
    · rw [hwalked', hwalked, List.append_assoc, List.map_append]
  case once => exact fun hnodup => h'.once (h.once hnodup)
  case all =>
    intro d hd
    rcases List.mem_append.mp hd with hd | hd
    · rw [hwalked']
      exact List.mem_append_left _ (h.all d hd)
    · exact h'.all d hd

end Entered

section Steps

variable {v : Visitor ω ε} {t : Tree}

theorem enqueue_followed (d : Pending) {s : State ω} (hw : v.tree s.world = t) :
    ∃ s', (enqueue v true d s).Yields [] s' ∧ Entered v t [d] s s' := by
  unfold enqueue
  rw [if_pos rfl, hw]
  dsimp only
  split
  case isTrue hwalked =>
    have hplace : placeOf t d ∈ s.walked := List.contains_iff_mem.mp hwalked
    refine ⟨s, (Recorded.yields_ok s).log [.alreadyWalked d.location], hw, ⟨[], ?_⟩, id, ?_⟩
    · simp
    · simpa using hplace
  case isFalse hwalked =>
    have hplace : placeOf t d ∉ s.walked := fun hmem => hwalked (List.contains_iff_mem.mpr hmem)
    refine ⟨_, Recorded.yields_ok _, hw, ⟨[d], List.Sublist.refl _, rfl, rfl⟩, fun hnodup => ?_, ?_⟩
    · simpa [List.concat_eq_append, placeOf] using hnodup.concat hplace
    · simp [placeOf]

variable (hv : v.Quiet)
include hv

theorem takeDirs_followed (ds : List Pending) {s : State ω} (hw : v.tree s.world = t) :
    ∃ s', (takeDirs v true ds s).Yields (ds.map Pending.notice) s' ∧ Entered v t ds s s' := by
  induction ds generalizing s with
  | nil => exact ⟨s, Recorded.yields_ok s, .of_eq hw rfl rfl⟩
  | cons d ds ih =>
    have hvisited : Entered v t [] s { s with
        world := (v.visit d.notice s.world).1, summary := countVisit s.summary d.path.isFile } :=
      .of_eq ((hv.keeps d.notice s.world).trans hw) rfl rfl
    obtain ⟨s₂, hy₂, hentered⟩ := enqueue_followed d hvisited.tree
    obtain ⟨s₃, hy₃, hrest⟩ := ih hentered.tree
    exact ⟨s₃, (visit_quiet hv d.notice s).andThen (hy₂.andThen hy₃),
      hvisited.trans (hentered.trans hrest)⟩

theorem takeDirectory_followed {rules : Rules} {options : Options}
    (hf : options.followLinks = true) {dir : Pending} {s s' : State ω} (hw : v.tree s.world = t)
    (hs : (takeDirectory v rules options dir s).result = .ok s') :
    Entered v t (opens t rules options dir) s s' := by
  cases hlist : list t options dir.location with
  | error cause =>
    rw [opens_of_error hlist]
    simp only [takeDirectory, hw, hlist] at hs
    cases habort : options.onUnreadable with
    | skip =>
      rw [habort] at hs
      cases hs
      exact .of_eq hw rfl rfl
    | abort =>
      rw [habort] at hs
      cases hs
  | ok listing =>
    have hchildren := children_of_ok hlist
    obtain ⟨⟨s₁, dirs⟩, hy₁, hs₁⟩ := takeChildren_quiet hv rules dir listing.children s
    have hdirs : dirs = admittedDirs rules dir listing.children := hs₁.dirs
    rw [← hchildren] at hdirs
    subst hdirs
    have htaken : Entered v t [] s s₁ :=
      .of_eq ((hv.tree_eq hs₁.world).trans hw) hs₁.queue hs₁.walked
    obtain ⟨s₂, hy₂, hs₂⟩ := takeDirs_followed hv (opens t rules options dir) htaken.tree
    have hall := (hy₁.andThen (f := fun p => takeDirs v true p.2 p.1) hy₂).log listing.skipped
    simp only [takeDirectory, hw, hlist, hf] at hs
    obtain rfl : s₂ = s' := Except.ok.inj (hall.2.symm.trans hs)
    exact htaken.trans hs₂

end Steps
end Fileset.Walk
