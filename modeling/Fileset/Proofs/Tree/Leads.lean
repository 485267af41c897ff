import Fileset.Proofs.Tree.WellFormed

namespace Fileset.Tree

section Steps

variable {t : Tree} {here : Location} (hd : t.isDirectory here = true) (links : Nat)
  (rest : List Path.Step)
include hd

theorem resolveFrom_stay :
    t.resolveFrom links here (.stay :: rest) = t.resolveFrom links here rest := by
  rw [resolveFrom, if_pos hd]

theorem resolveFrom_up :
    t.resolveFrom links here (.up :: rest) = t.resolveFrom links here.dropLast rest := by
  rw [resolveFrom, if_pos hd]

theorem resolveFrom_link {name target : Bytes} (hfind : t.find? here name = some (.link target)) :
    t.resolveFrom (links + 1) here (.name name :: rest) =
      t.resolveFrom links (if Path.isAbsolute target then [] else here)
        (Path.steps target ++ rest) := by
  rw [resolveFrom, if_pos hd]
  simp only [hfind]

theorem resolveFrom_entry {name : Bytes} {kind : Kind} (hfind : t.find? here name = some kind)
    (hkind : ∀ target, kind ≠ .link target) :
    t.resolveFrom links here (.name name :: rest) = t.resolveFrom links (here ++ [name]) rest := by
  rw [resolveFrom, if_pos hd]
  cases kind with
  | link target => exact absurd rfl (hkind target)
  | directory readable => simp only [hfind]
  | file content => simp only [hfind]
  | locked => simp only [hfind]
  | pipe => simp only [hfind]

theorem resolveFrom_free {name : Bytes} (hfind : t.find? here name = none) :
    t.resolveFrom links here (.name name :: rest) =
      if rest.isEmpty then .ok (.absent here name) else .error .notFound := by
  rw [resolveFrom, if_pos hd]
  simp only [hfind]

end Steps

theorem resolveFrom_blocked {t : Tree} {here : Location} (hd : t.isDirectory here = false)
    (links : Nat) (step : Path.Step) (rest : List Path.Step) :
    t.resolveFrom links here (step :: rest) = .error .notDirectory := by
  rw [resolveFrom.eq_def]
  exact if_neg (by simp [hd])

variable {t : Tree}

/-- A path goes on from the place that its beginning leads to. -/
theorem resolveFrom_append {links : Nat} {here place : Location} {steps : List Path.Step}
    (h : t.resolveFrom links here steps = .ok (.present place)) :
    ∃ left, ∀ more, t.resolveFrom links here (steps ++ more) = t.resolveFrom left place more := by
  fun_induction resolveFrom t links here steps with
  | case1 links here =>
    cases h
    exact ⟨links, fun _ => rfl⟩
  | case2 links here rest hd ih =>
    obtain ⟨left, hmore⟩ := ih h
    exact ⟨left, fun more => by rw [← hmore, List.cons_append, resolveFrom_stay hd]⟩
  | case3 links here rest hd ih =>
    obtain ⟨left, hmore⟩ := ih h
    exact ⟨left, fun more => by rw [← hmore, List.cons_append, resolveFrom_up hd]⟩
  | case4 => cases h
  | case5 => cases h
  | case6 => cases h
  | case7 here rest hd name target hfind links ih =>
    obtain ⟨left, hmore⟩ := ih (by simpa using h)
    refine ⟨left, fun more => ?_⟩
    rw [← hmore, List.cons_append, resolveFrom_link hd _ _ hfind]
    simp only [List.append_assoc, dite_eq_ite]
  | case8 links here rest hd name kind hnot hfind ih =>
    obtain ⟨left, hmore⟩ := ih h
    refine ⟨left, fun more => ?_⟩
    rw [← hmore, List.cons_append]
    exact resolveFrom_entry hd _ _ hfind fun target hlink => hnot target hlink
  | case9 => cases h

/-- With more links allowed a path still leads where it led. -/
theorem resolveFrom_mono {links links' : Nat} (hle : links ≤ links') {here : Location}
    {steps : List Path.Step} {spot : Spot} (h : t.resolveFrom links here steps = .ok spot) :
    t.resolveFrom links' here steps = .ok spot := by
  fun_induction resolveFrom t links here steps generalizing links' with
  | case1 => simpa [resolveFrom] using h
  | case2 links here rest hd ih =>
    rw [resolveFrom_stay hd]
    exact ih hle h
  | case3 links here rest hd ih =>
    rw [resolveFrom_up hd]
    exact ih hle h
  | case4 links here rest hd name hfind hempty =>
    rw [resolveFrom, if_pos hd]
    simpa [hfind, hempty] using h
  | case5 => cases h
  | case6 => cases h
  | case7 here rest hd name target hfind links ih =>
    cases links' with
    | zero => exact absurd hle (Nat.not_succ_le_zero links)
    | succ links' =>
      rw [resolveFrom_link hd _ _ hfind]
      simpa using ih (Nat.le_of_succ_le_succ hle) (by simpa using h)
  | case8 links here rest hd name kind hnot hfind ih =>
    rw [resolveFrom_entry hd _ _ hfind fun target hlink => hnot target hlink]
    exact ih hle h
  | case9 => cases h

/-- Where a path leads does not depend on the number of links allowed, as long as they are enough. -/
theorem resolveFrom_unique {links links' : Nat} {here : Location} {steps : List Path.Step}
    {spot spot' : Spot} (h : t.resolveFrom links here steps = .ok spot)
    (h' : t.resolveFrom links' here steps = .ok spot') : spot = spot' := by
  have hmax := resolveFrom_mono (Nat.le_max_left links links') h
  rw [resolveFrom_mono (Nat.le_max_right links links') h'] at hmax
  exact (Except.ok.inj hmax).symm

/-- A free spot is a free name in a directory. -/
theorem free_of_resolveFrom {links : Nat} {here dir : Location} {steps : List Path.Step}
    {name : Bytes} (h : t.resolveFrom links here steps = .ok (.absent dir name)) :
    t.isDirectory dir = true ∧ t.find? dir name = none := by
  fun_induction resolveFrom t links here steps with
  | case1 => cases h
  | case2 _ _ _ _ ih => exact ih h
  | case3 _ _ _ _ ih => exact ih h
  | case4 _ _ _ hd _ hnone =>
    cases h
    exact ⟨hd, hnone⟩
  | case5 => cases h
  | case6 => cases h
  | case7 _ _ _ _ _ _ _ ih => exact ih (by simpa using h)
  | case8 _ _ _ _ _ _ _ _ ih => exact ih h
  | case9 => cases h

/-- The entry `name` of the directory `dir` leads to `place`: it lies there itself, or it is a link
that leads there through however many more. -/
def Leads (t : Tree) (dir : Location) (name : Bytes) (place : Location) : Prop :=
  ∃ links, t.resolveFrom links dir [.name name] = .ok (.present place)

section Leads

variable {dir place place' : Location} {name : Bytes}

theorem Leads.unique (h : t.Leads dir name place) (h' : t.Leads dir name place') :
    place = place' := by
  obtain ⟨links, h⟩ := h
  obtain ⟨links', h'⟩ := h'
  exact Spot.present.inj (resolveFrom_unique h h')

theorem Leads.isDirectory (h : t.Leads dir name place) : t.isDirectory dir = true := by
  obtain ⟨links, h⟩ := h
  rw [resolveFrom] at h
  split at h
  · assumption
  · cases h

theorem Leads.find? (h : t.Leads dir name place) : ∃ kind, t.find? dir name = some kind := by
  have hd := h.isDirectory
  obtain ⟨links, h'⟩ := h
  rw [resolveFrom, if_pos hd] at h'
  cases hfind : t.find? dir name with
  | none => simp [hfind] at h'
  | some kind => exact ⟨kind, rfl⟩

/-- What is no link lies in its own place. -/
theorem leads_entry (hd : t.isDirectory dir = true) {kind : Kind}
    (hfind : t.find? dir name = some kind) (hkind : ∀ target, kind ≠ .link target) :
    t.Leads dir name (dir ++ [name]) :=
  ⟨0, by rw [resolveFrom_entry hd _ _ hfind hkind, resolveFrom]⟩

end Leads

inductive Through (t : Tree) (place : Location) : List String → Location → Prop
  | root (h : t.isDirectory place = true) : Through t place [] place
  | enter {names : List String} {name : String} {dir dir' : Location} (h : Through t place names dir)
      (hl : t.Leads dir (Bytes.ofText name) dir') (hd : t.isDirectory dir' = true) :
      Through t place (names ++ [name]) dir'

theorem Through.start {t : Tree} {place dir : Location} {names : List String}
    (h : t.Through place names dir) : t.isDirectory place = true := by
  induction h with
  | root h => exact h
  | enter _ _ _ ih => exact ih

/-- The system resolves every link of the directory at `loc` that leads somewhere. It refuses a path
that leads through too many links, be it that each of them leads somewhere. -/
def Resolves (t : Tree) (loc : Location) : Prop :=
  ∀ dir name place, t.locateAt loc = .ok dir → t.Leads dir name place →
    t.locateAt (loc ++ [name]) = .ok place

theorem locateAt_iff {loc place : Location} :
    t.locateAt loc = .ok place ↔
      t.resolveFrom linkLimit [] (loc.map .name) = .ok (.present place) := by
  unfold locateAt locate resolve
  cases hres : t.resolveFrom linkLimit [] (loc.map .name) with
  | error e => simp
  | ok spot => cases spot <;> simp

section Child

variable {loc dir place : Location} {name : Bytes} (hl : t.locateAt loc = .ok dir)
include hl

/-- Where a child of a directory is located, there its entry in the directory leads. -/
theorem leads_of_locateAt (h : t.locateAt (loc ++ [name]) = .ok place) : t.Leads dir name place := by
  obtain ⟨left, hmore⟩ := resolveFrom_append (locateAt_iff.mp hl)
  have hchild := locateAt_iff.mp h
  rw [List.map_append, hmore] at hchild
  exact ⟨left, hchild⟩

/-- If each entry of a directory is located somewhere, then all that lead somewhere are. -/
theorem resolves_of_all
    (h : (t.entries.all fun e => e.dir != dir || (t.locateAt (loc ++ [e.name])).isOk) = true) :
    t.Resolves loc := by
  intro dir' name place hl' hleads
  obtain rfl : dir = dir' := Except.ok.inj (hl.symm.trans hl')
  obtain ⟨kind, hfind⟩ := hleads.find?
  have hentry := List.all_eq_true.mp h _ (mem_of_find? hfind)
  cases hloc : t.locateAt (loc ++ [name]) with
  | error e => simp [hloc, Except.isOk, Except.toBool] at hentry
  | ok place' => rw [hleads.unique (leads_of_locateAt hl hloc)]

/-- A child that is no link is always located. -/
theorem locateAt_entry (hd : t.isDirectory dir = true) {kind : Kind}
    (hfind : t.find? dir name = some kind) (hkind : ∀ target, kind ≠ .link target) :
    t.locateAt (loc ++ [name]) = .ok (dir ++ [name]) := by
  obtain ⟨left, hmore⟩ := resolveFrom_append (locateAt_iff.mp hl)
  rw [locateAt_iff, List.map_append, hmore, List.map_singleton,
    resolveFrom_entry hd _ _ hfind hkind, resolveFrom]

end Child

/-- What is no link is located at its own location. -/
theorem WellFormed.locateAt_self (h : t.WellFormed) {loc : Location} {kind : Kind}
    (hk : t.kindAt? loc = some kind) (hkind : ∀ target, kind ≠ .link target) :
    t.locateAt loc = .ok loc := by
  rcases List.eq_nil_or_concat loc with rfl | ⟨dir, name, rfl⟩
  · exact h.locateAt_directory rfl
  · rw [List.concat_eq_append] at hk ⊢
    have hd := h.isDirectory_above hk
    rw [kindAt?_append_singleton] at hk
    exact locateAt_entry (h.locateAt_directory hd) hd hk hkind

/-- Paths end at places that are there and are no links. -/
theorem WellFormed.kindAt?_of_resolveFrom (h : t.WellFormed) {links : Nat} {here place : Location}
    {steps : List Path.Step}
    (hhere : ∃ kind, t.kindAt? here = some kind ∧ ∀ target, kind ≠ .link target)
    (hr : t.resolveFrom links here steps = .ok (.present place)) :
    ∃ kind, t.kindAt? place = some kind ∧ ∀ target, kind ≠ .link target := by
  have hdirectory {loc : Location} (hd : t.isDirectory loc = true) :
      ∃ kind, t.kindAt? loc = some kind ∧ ∀ target, kind ≠ .link target := by
    obtain ⟨readable, hk⟩ := isDirectory_iff.mp hd
    exact ⟨.directory readable, hk, by simp⟩
  fun_induction resolveFrom t links here steps with
  | case1 =>
    cases hr
    exact hhere
  | case2 links here rest hd ih => exact ih hhere hr
  | case3 links here rest hd ih =>
    refine ih (hdirectory ?_) hr
    rcases List.eq_nil_or_concat here with rfl | ⟨dir, name, rfl⟩
    · exact hd
    · rw [List.concat_eq_append] at hd ⊢
      rw [List.dropLast_concat]
      exact h.isDirectory_front hd
  | case4 => cases hr
  | case5 => cases hr
  | case6 => cases hr
  | case7 here rest hd name target hfind links ih =>
    refine ih ?_ (by simpa using hr)
    split
    · exact hdirectory rfl
    · exact hhere
  | case8 links here rest hd name kind hnot hfind ih =>
    refine ih ⟨kind, ?_, fun target hlink => hnot target hlink⟩ hr
    rw [kindAt?_append_singleton]
    exact hfind
  | case9 => cases hr

/-- A written path leads to a place that is there and is no link. -/
theorem WellFormed.kindAt?_locatePath (h : t.WellFormed) {path : Bytes} {place : Location}
    (hr : t.locatePath path = .ok place) :
    ∃ kind, t.kindAt? place = some kind ∧ ∀ target, kind ≠ .link target := by
  unfold locatePath locate resolve at hr
  split at hr
  · cases hr
  · split at hr
    · rename_i hres
      cases hr
      exact h.kindAt?_of_resolveFrom ⟨.directory, rfl, by simp⟩ hres
    · cases hr
    · cases hr

/-- What a written path leads to is located at its own location. -/
theorem WellFormed.locateAt_locatePath (h : t.WellFormed) {path : Bytes} {place : Location}
    (hr : t.locatePath path = .ok place) : t.locateAt place = .ok place := by
  obtain ⟨kind, hk, hkind⟩ := h.kindAt?_locatePath hr
  exact h.locateAt_self hk hkind

end Fileset.Tree
