import Fileset.Proofs.Tree.Edit

namespace Fileset.Tree

/-- What an entry may become while every path still leads where it led. -/
inductive Kind.Becomes : Kind → Kind → Prop
  | same (kind : Kind) : Becomes kind kind
  | file (old new : Bytes) : Becomes (.file old) (.file new)

def Grown (t t' : Tree) : Prop :=
  ∀ dir name kind, t.find? dir name = some kind →
    ∃ kind', t'.find? dir name = some kind' ∧ kind.Becomes kind'

def Spot.place : Spot → Location
  | .present loc => loc
  | .absent dir name => dir ++ [name]

def Taken (t : Tree) : Spot → Prop
  | .present _ => True
  | .absent dir name => ∃ kind, t.find? dir name = some kind ∧ ∀ target, kind ≠ .link target

variable {t t' : Tree}

namespace Grown

variable (h : t.Grown t')
include h

theorem isDirectory {loc : Location} (hd : t.isDirectory loc = true) : t'.isDirectory loc = true := by
  obtain ⟨readable, hk⟩ := isDirectory_iff.mp hd
  refine isDirectory_iff.mpr ⟨readable, ?_⟩
  rcases List.eq_nil_or_concat loc with rfl | ⟨dir, name, rfl⟩
  · exact hk
  · rw [List.concat_eq_append, kindAt?_append_singleton] at hk ⊢
    obtain ⟨kind', hfind, hbecomes⟩ := h _ _ _ hk
    cases hbecomes
    exact hfind

/-- A path leads to the same place, if there is something now. -/
theorem resolveFrom {links : Nat} {here : Location} {steps : List Path.Step} {spot : Spot}
    (hr : t.resolveFrom links here steps = .ok spot) (htaken : t'.Taken spot) :
    t'.resolveFrom links here steps = .ok (.present spot.place) := by
  fun_induction Tree.resolveFrom t links here steps with
  | case1 =>
    cases hr
    rw [Tree.resolveFrom, Spot.place]
  | case2 links here rest hd ih =>
    rw [resolveFrom_stay (h.isDirectory hd)]
    exact ih hr
  | case3 links here rest hd ih =>
    rw [resolveFrom_up (h.isDirectory hd)]
    exact ih hr
  | case4 links here rest hd name hfind hempty =>
    cases hr
    obtain ⟨kind, hnew, hkind⟩ := htaken
    rw [resolveFrom_entry (h.isDirectory hd) _ _ hnew hkind, List.isEmpty_iff.mp hempty,
      Tree.resolveFrom, Spot.place]
  | case5 => cases hr
  | case6 => cases hr
  | case7 here rest hd name target hfind links ih =>
    obtain ⟨kind', hfind', hbecomes⟩ := h _ _ _ hfind
    cases hbecomes
    rw [resolveFrom_link (h.isDirectory hd) _ _ hfind']
    simpa using ih (by simpa using hr)
  | case8 links here rest hd name kind hnot hfind ih =>
    obtain ⟨kind', hfind', hbecomes⟩ := h _ _ _ hfind
    have hnot' : ∀ target, kind' ≠ .link target := by
      cases hbecomes with
      | same => exact fun target hlink => hnot target hlink
      | file => exact fun target hlink => by cases hlink
    rw [resolveFrom_entry (h.isDirectory hd) _ _ hfind' hnot']
    exact ih hr
  | case9 => cases hr

theorem locatePath {path : Bytes} {loc : Location} (hl : t.locatePath path = .ok loc) :
    t'.locatePath path = .ok loc := by
  unfold Tree.locatePath at hl ⊢
  split at hl
  · cases hl
  · rename_i hne
    rw [if_neg hne]
    unfold locate at hl ⊢
    split at hl
    · rename_i hr
      cases hl
      have hr' : t'.resolve (Path.steps path) = .ok (.present loc) := h.resolveFrom hr trivial
      rw [hr']
    · cases hl
    · cases hl

theorem isDirectoryAt {path : Bytes} (hd : t.isDirectoryAt path = true) :
    t'.isDirectoryAt path = true := by
  unfold Tree.isDirectoryAt at hd ⊢
  split at hd
  · rename_i hl
    rw [h.locatePath hl]
    exact h.isDirectory hd
  · cases hd

end Grown

section Insert

variable {dir : Location} {name : Bytes}

theorem grown_insert (dir : Location) (name : Bytes) (kind : Kind) : t.Grown (t.insert dir name kind) := by
  intro dir' name' kind' hfind
  refine ⟨kind', ?_, .same kind'⟩
  obtain ⟨e, he, rfl⟩ := Option.map_eq_some_iff.mp hfind
  rw [find?, insert, List.find?_append, he]
  rfl

theorem find?_insert (hfree : t.find? dir name = none) (kind : Kind) :
    (t.insert dir name kind).find? dir name = some kind := by
  have hnone := Option.map_eq_none_iff.mp hfree
  rw [find?, insert, List.find?_append, hnone]
  simp

end Insert

section Replace

variable {loc : Location} {old : Bytes}

theorem find?_replace (t : Tree) (loc : Location) (kind : Kind) (dir : Location) (name : Bytes) :
    (t.replace loc kind).find? dir name =
      (t.find? dir name).map fun old => if dir ++ [name] = loc then kind else old := by
  have hsame : ((fun e : Entry => e.name == name && e.dir == dir) ∘
      fun e => if e.location = loc then { e with kind } else e) = fun e => e.name == name && e.dir == dir := by
    funext e
    simp only [Function.comp_apply]
    split <;> rfl
  rw [find?, find?, replace, List.find?_map, hsame]
  cases he : t.entries.find? (fun e => e.name == name && e.dir == dir) with
  | none => rfl
  | some e =>
    have hkey := List.find?_some he
    simp only [Bool.and_eq_true, beq_iff_eq] at hkey
    obtain ⟨rfl, rfl⟩ := hkey
    by_cases hloc : e.dir ++ [e.name] = loc <;> simp [Entry.location, hloc]

theorem grown_replace (hk : t.kindAt? loc = some (.file old)) (content : Bytes) :
    t.Grown (t.replace loc (.file content)) := by
  intro dir name kind hfind
  rw [find?_replace, hfind, Option.map_some]
  refine ⟨_, rfl, ?_⟩
  split
  · rename_i hloc
    rw [← hloc, kindAt?_append_singleton, hfind] at hk
    cases hk
    exact .file old content
  · exact .same kind

theorem kindAt?_replace (hk : t.kindAt? loc = some (.file old)) (kind : Kind) :
    (t.replace loc kind).kindAt? loc = some kind := by
  rcases List.eq_nil_or_concat loc with rfl | ⟨dir, name, rfl⟩
  · cases hk
  · rw [List.concat_eq_append, kindAt?_append_singleton] at hk ⊢
    rw [find?_replace, hk, Option.map_some, if_pos rfl]

end Replace

section Directory

/-- The beginning of a path that leads somewhere leads to a directory, from which the path goes on. -/
theorem resolveFrom_front {links : Nat} {here : Location} {steps rest : List Path.Step} {step : Path.Step}
    {spot : Spot} (h : t.resolveFrom links here (steps ++ step :: rest) = .ok spot) :
    ∃ left dir, t.resolveFrom links here steps = .ok (.present dir) ∧ t.isDirectory dir = true ∧
      t.resolveFrom left dir (step :: rest) = .ok spot := by
  fun_induction resolveFrom t links here steps with
  | case1 links here =>
    refine ⟨links, here, rfl, ?_, h⟩
    cases hd : t.isDirectory here with
    | true => rfl
    | false =>
      rw [List.nil_append, resolveFrom_blocked hd] at h
      cases h
  | case2 links here before hd ih =>
    rw [List.cons_append, resolveFrom_stay hd] at h
    exact ih h
  | case3 links here before hd ih =>
    rw [List.cons_append, resolveFrom_up hd] at h
    exact ih h
  | case4 links here before hd name hfind =>
    rw [List.cons_append, resolveFrom_free hd _ _ hfind] at h
    simp at h
  | case5 links here before hd name hfind =>
    rw [List.cons_append, resolveFrom_free hd _ _ hfind] at h
    simp at h
  | case6 here before hd name target hfind =>
    rw [List.cons_append, resolveFrom, if_pos hd] at h
    simp [hfind] at h
  | case7 here before hd name target hfind links ih =>
    rw [List.cons_append, resolveFrom_link hd _ _ hfind, ← List.append_assoc] at h
    simpa using ih (by simpa using h)
  | case8 links here before hd name kind hnot hfind ih =>
    rw [List.cons_append, resolveFrom_entry hd _ _ hfind fun target hlink => hnot target hlink] at h
    exact ih h
  | case9 links here step before hd =>
    rw [List.cons_append, resolveFrom_blocked (by simpa using hd)] at h
    cases h

theorem resolveFrom_stays {links : Nat} {loc : Location} (hd : t.isDirectory loc = true) (n : Nat) :
    t.resolveFrom links loc (List.replicate n .stay) = .ok (.present loc) := by
  induction n with
  | zero => rw [List.replicate_zero, resolveFrom]
  | succ n ih => rw [List.replicate_succ, resolveFrom_stay hd, ih]

theorem steps_of_split? {path : Bytes} {before : List Path.Step} {last : Path.Step}
    (h : Path.split? path = some (before, last)) :
    ∃ n, Path.steps path = before ++ last :: List.replicate n .stay := by
  unfold Path.split? at h
  split at h
  · cases h
  · rename_i last' before' hdrop
    cases h
    have hstays : (Path.steps path).reverse.takeWhile (· == .stay) =
        List.replicate ((Path.steps path).reverse.takeWhile (· == .stay)).length .stay :=
      List.eq_replicate_of_mem fun step hstep => by simpa using List.all_eq_true.mp List.all_takeWhile step hstep
    refine ⟨((Path.steps path).reverse.takeWhile (· == .stay)).length, ?_⟩
    have hall := List.takeWhile_append_dropWhile (p := (· == Path.Step.stay)) (l := (Path.steps path).reverse)
    rw [hdrop, hstays] at hall
    have hreverse := congrArg List.reverse hall
    simpa using hreverse.symm

theorem locate_iff {steps : List Path.Step} {loc : Location} :
    t.locate steps = .ok loc ↔ t.resolve steps = .ok (.present loc) := by
  unfold locate
  cases t.resolve steps with
  | error e => simp
  | ok spot => cases spot <;> simp

theorem locatePath_iff {path : Bytes} {loc : Location} :
    t.locatePath path = .ok loc ↔ path ≠ [] ∧ t.resolve (Path.steps path) = .ok (.present loc) := by
  rw [locatePath, ← locate_iff]
  cases path <;> simp

theorem isDirectoryAt_iff {path : Bytes} : t.isDirectoryAt path = true ↔
    ∃ loc, t.locatePath path = .ok loc ∧ t.isDirectory loc = true := by
  unfold isDirectoryAt
  cases t.locatePath path <;> simp

/-- Nothing can be added where a directory is. -/
theorem add_there {path : Bytes} (hd : t.isDirectoryAt path = true) (kind : Kind) :
    t.add path kind = .error .alreadyThere := by
  obtain ⟨loc, hl, -⟩ := isDirectoryAt_iff.mp hd
  obtain ⟨-, hr⟩ := locatePath_iff.mp hl
  unfold add place
  cases hsplit : Path.split? path with
  | none => rfl
  | some parts =>
    obtain ⟨before, last⟩ := parts
    obtain ⟨n, hsteps⟩ := steps_of_split? hsplit
    rw [hsteps] at hr
    obtain ⟨left, dir, hbefore, hdir, hrest⟩ := resolveFrom_front hr
    have hlocate : t.locate before = .ok dir := locate_iff.mpr hbefore
    cases last with
    | stay => simp [hlocate, hdir, bind, Except.bind, pure, Except.pure, throw, throwThe, MonadExceptOf.throw]
    | up => simp [hlocate, hdir, bind, Except.bind, pure, Except.pure, throw, throwThe, MonadExceptOf.throw]
    | name name =>
      have hfind : (t.find? dir name).isSome = true := by
        cases hfind : t.find? dir name with
        | some kind => rfl
        | none =>
          rw [resolveFrom_free hdir _ _ hfind] at hrest
          split at hrest <;> cases hrest
      simp [hlocate, hdir, hfind, bind, Except.bind, pure, Except.pure, throw, throwThe, MonadExceptOf.throw]

theorem place_name {path : Bytes} {dir : Location} {name : Bytes}
    (h : t.place path = .ok (dir, some name)) :
    ∃ before, Path.split? path = some (before, .name name) ∧ t.locate before = .ok dir := by
  unfold place at h
  split at h
  · cases h
  · rename_i before last hsplit
    cases hl : t.locate before with
    | error e => simp [hl, bind, Except.bind] at h
    | ok dir' =>
      simp only [hl, bind, pure, Except.bind, Except.pure] at h
      split at h
      · split at h
        · cases h
          exact ⟨before, hsplit, hl⟩
        · cases h
      · cases h

theorem add_ok {path : Bytes} {kind : Kind} (ha : t.add path kind = .ok t') :
    ∃ dir name, t.place path = .ok (dir, some name) ∧ t.find? dir name = none ∧
      t' = t.insert dir name kind := by
  unfold add at ha
  cases hp : t.place path with
  | error e => simp [hp, bind, Except.bind] at ha
  | ok spot =>
    obtain ⟨dir, name?⟩ := spot
    cases name? with
    | none => simp [hp, bind, Except.bind, throw, throwThe, MonadExceptOf.throw] at ha
    | some name =>
      simp only [hp, bind, pure, Except.bind, Except.pure] at ha
      split at ha
      · cases ha
      · rename_i hfree
        cases ha
        exact ⟨dir, name, rfl, by simpa using hfree, rfl⟩

theorem isDirectoryAt_add {path : Bytes} (ha : t.add path .directory = .ok t') :
    t'.isDirectoryAt path = true := by
  obtain ⟨dir, name, hp, hfree, rfl⟩ := add_ok ha
  obtain ⟨before, hsplit, hl⟩ := place_name hp
  obtain ⟨n, hsteps⟩ := steps_of_split? hsplit
  have hgrown := grown_insert (t := t) dir name .directory
  have hdir := hgrown.isDirectory (isDirectory_of_place hp)
  have hfind := find?_insert hfree .directory
  have hnew : (t.insert dir name .directory).isDirectory (dir ++ [name]) = true := by
    rw [isDirectory, kindAt?_append_singleton, hfind]
    rfl
  have hbefore : (t.insert dir name .directory).resolveFrom linkLimit [] before = .ok (.present dir) :=
    hgrown.resolveFrom (locate_iff.mp hl) trivial
  obtain ⟨left, hmore⟩ := resolveFrom_append hbefore
  refine isDirectoryAt_iff.mpr ⟨dir ++ [name], locatePath_iff.mpr ⟨?_, ?_⟩, hnew⟩
  · rintro rfl
    cases hsplit
  · rw [hsteps, resolve, hmore, resolveFrom_entry hdir _ _ hfind (by simp), resolveFrom_stays hnew]

/-- A directory that is there is not made. -/
theorem makeDirectory_there {path : Bytes} (hd : t.isDirectoryAt path = true) :
    t.makeDirectory path = .ok t := by
  unfold makeDirectory
  cases (Path.steps path).length with
  | zero => rfl
  | succ n =>
    rw [makeDirectories, add_there hd]
    exact if_pos hd

/-- A directory that was made is there. -/
theorem isDirectoryAt_makeDirectories {n : Nat} {path : Bytes}
    (hm : t.makeDirectories (n + 1) path = .ok t') : t'.isDirectoryAt path = true := by
  have hkept {t₁ : Tree} {e : Error}
      (h : (if t₁.isDirectoryAt path then Except.ok t₁ else .error e) = .ok t') :
      t'.isDirectoryAt path = true := by
    split at h
    · rename_i hd
      cases h
      exact hd
    · cases h
  unfold makeDirectories at hm
  split at hm
  · rename_i ha
    cases hm
    exact isDirectoryAt_add ha
  · split at hm
    · cases hm
    · split at hm
      · rename_i ha
        cases hm
        exact isDirectoryAt_add ha
      · exact hkept hm
  · exact hkept hm

theorem isDirectoryAt_makeDirectory {path : Bytes} (hm : t.makeDirectory path = .ok t') :
    t'.isDirectoryAt path = true := by
  have hsteps : (Path.steps path).length ≠ 0 := by
    simp [Path.steps]
  obtain ⟨n, hn⟩ := Nat.exists_eq_succ_of_ne_zero hsteps
  rw [makeDirectory, hn] at hm
  exact isDirectoryAt_makeDirectories hm

end Directory

section File

def Fits (t : Tree) (path : Bytes) : Prop :=
  (∃ dir name, t.resolve (Path.steps path) = .ok (.absent dir name)) ∨
    ∃ loc content, t.resolve (Path.steps path) = .ok (.present loc) ∧ t.kindAt? loc = some (.file content)

/-- A file can be kept under the path: the directory above it is there or can be made, and then the
path leads to a regular file or to a free name. -/
def Writable (t : Tree) (path : Bytes) : Prop :=
  ∃ t', t.makeDirectory (Path.parent path) = .ok t' ∧ t'.Fits path

structure Stores (t : Tree) (path content : Bytes) : Prop where
  above : t.isDirectoryAt (Path.parent path) = true
  file : ∃ loc, t.locatePath path = .ok loc ∧ t.kindAt? loc = some (.file content)

variable {path content : Bytes}

theorem Stores.existsAt (h : t.Stores path content) : t.existsAt path = true := by
  obtain ⟨loc, hl, -⟩ := h.file
  rw [Tree.existsAt, hl]
  rfl

theorem Stores.read (h : t.Stores path content) : t.read path = .ok content := by
  obtain ⟨loc, hl, hk⟩ := h.file
  rw [Tree.read, hl]
  simp only [bind, Except.bind, hk]
  rfl

theorem Stores.writable (h : t.Stores path content) : t.Writable path := by
  obtain ⟨loc, hl, hk⟩ := h.file
  exact ⟨t, makeDirectory_there h.above, .inr ⟨loc, content, (locatePath_iff.mp hl).2, hk⟩⟩

/-- Only a path with something in it leads to a file. -/
theorem ne_nil_of_kindAt? {loc : Location} (hr : t.resolve (Path.steps path) = .ok (.present loc))
    (hk : t.kindAt? loc = some (.file content)) : path ≠ [] := by
  rintro rfl
  have htop : t.resolve (Path.steps []) = .ok (.present []) := resolveFrom_stays rfl 1
  rw [htop] at hr
  cases hr
  cases hk

/-- What is written to a path that fits is stored there. -/
theorem Fits.write (h : t.Fits path) (habove : t.isDirectoryAt (Path.parent path) = true)
    (content : Bytes) : ∃ t', t.write path content = .ok t' ∧ t'.Stores path content := by
  rcases h with ⟨dir, name, hr⟩ | ⟨loc, old, hr, hk⟩
  · obtain ⟨-, hfree⟩ := free_of_resolveFrom hr
    have hgrown := grown_insert (t := t) dir name (.file content)
    have hfind := find?_insert hfree (.file content)
    have hr' : (t.insert dir name (.file content)).resolve (Path.steps path) = .ok (.present (dir ++ [name])) :=
      hgrown.resolveFrom hr ⟨_, hfind, by simp⟩
    rw [← kindAt?_append_singleton] at hfind
    refine ⟨_, by rw [Tree.write, hr], hgrown.isDirectoryAt habove, dir ++ [name], ?_, hfind⟩
    exact locatePath_iff.mpr ⟨ne_nil_of_kindAt? hr' hfind, hr'⟩
  · have hgrown := grown_replace hk content
    have hr' : (t.replace loc (.file content)).resolve (Path.steps path) = .ok (.present loc) :=
      hgrown.resolveFrom hr trivial
    refine ⟨_, by rw [Tree.write, hr]; simp only [hk], hgrown.isDirectoryAt habove, loc, ?_,
      kindAt?_replace hk _⟩
    exact locatePath_iff.mpr ⟨ne_nil_of_kindAt? hr hk, hr'⟩

/-- Where nothing is yet, a file can be kept in a directory that is made for it. -/
theorem writable_empty : empty.Writable [Path.slash, 0x63, Path.slash, 0x66] := by
  refine ⟨⟨[⟨[], [0x63], .directory⟩]⟩, ?_, .inl ⟨[[0x63]], [0x66], ?_⟩⟩
  · have hadd : empty.add [Path.slash, 0x63] .directory = .ok ⟨[⟨[], [0x63], .directory⟩]⟩ := by
      have hsplit : Path.split? [Path.slash, 0x63] = some ([.stay], .name [0x63]) := rfl
      have hlocate : empty.locate [.stay] = .ok [] := locate_iff.mpr (resolveFrom_stays rfl 1)
      simp only [add, place, hsplit, hlocate]
      rfl
    have hparent : Path.parent [Path.slash, 0x63, Path.slash, 0x66] = [Path.slash, 0x63] := rfl
    have hlength : (Path.steps [Path.slash, 0x63]).length = 2 := rfl
    rw [makeDirectory, hparent, hlength, makeDirectories, hadd]
  · have hsteps : Path.steps [Path.slash, 0x63, Path.slash, 0x66] =
        [.stay, .name [0x63], .name [0x66]] := rfl
    have hfind : find? ⟨[⟨[], [0x63], .directory⟩]⟩ [] [0x63] = some .directory := rfl
    rw [hsteps, resolve, resolveFrom_stay rfl, resolveFrom_entry rfl _ _ hfind (by simp),
      resolveFrom_free rfl _ _ rfl]
    rfl

end File

end Fileset.Tree
