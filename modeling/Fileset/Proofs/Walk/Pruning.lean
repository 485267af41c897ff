import Fileset.Proofs.Tree.Unlinked
import Fileset.Proofs.Walk.Below
import Fileset.Proofs.Walk.Lockstep
import Fileset.Proofs.Walk.Unreadable

namespace Fileset.Walk

/-- As seen from the root `place`, the location is that of a directory that the rules reject, or lies
below one. -/
def Concealed (rules : Rules) (place loc : Location) : Prop :=
  ∃ names : List String, names ≠ [] ∧ rules.admits ⟨names, false⟩ = false ∧
    place ++ names.map Bytes.ofText <+: loc

/-- Two entries of the directory `dir` that differ at most in what is concealed: of a directory that is
concealed, whether it may be read. -/
structure SameEntry (rules : Rules) (place dir : Location) (e e' : Bytes × Tree.Kind) : Prop where
  name : e'.1 = e.1
  isDirectory : e'.2.isDirectory = e.2.isDirectory
  kind : ¬Concealed rules place (dir ++ [e.1]) → e'.2 = e.2

def SameOutside (rules : Rules) (place : Location) (t t' : Tree) : Prop :=
  ∀ dir, ¬Concealed rules place dir →
    List.Forall₂ (SameEntry rules place dir) (t.inside dir) (t'.inside dir)

section Outside

variable {rules : Rules} {place loc : Location}

theorem Concealed.below {loc' : Location} (h : Concealed rules place loc) (hloc : loc <+: loc') :
    Concealed rules place loc' := by
  obtain ⟨names, hne, hrejects, hp⟩ := h
  exact ⟨names, hne, hrejects, hp.trans hloc⟩

/-- A directory whose names are admitted, one after the other, lies open. -/
theorem not_concealed {names : List String}
    (hnames : ∀ front, front <+: names → front ≠ [] → rules.admits ⟨front, false⟩ = true) :
    ¬Concealed rules place (place ++ names.map Bytes.ofText) := by
  rintro ⟨front, hne, hrejects, hp⟩
  have hfront : front <+: names := by
    rw [List.prefix_append_right_inj] at hp
    exact (List.prefix_map_iff_of_injective fun _ _ => Bytes.ofText_injective).mp hp
  exact Bool.noConfusion (hrejects.symm.trans (hnames front hfront hne))

theorem SameEntry.refl (rules : Rules) (place dir : Location) (e : Bytes × Tree.Kind) :
    SameEntry rules place dir e e :=
  ⟨rfl, rfl, fun _ => rfl⟩

theorem find?_same {dir : Location} {es es' : List (Bytes × Tree.Kind)} {name : Bytes}
    (h : List.Forall₂ (SameEntry rules place dir) es es')
    (hloc : ¬Concealed rules place (dir ++ [name])) :
    (es'.find? (·.1 == name)).map Prod.snd = (es.find? (·.1 == name)).map Prod.snd := by
  induction h with
  | nil => rfl
  | @cons e e' es es' he _ ih =>
    by_cases hname : e.1 = name
    · have hkind : e'.2 = e.2 := he.kind (hname ▸ hloc)
      simp [he.name, hname, hkind]
    · simpa [List.find?_cons, he.name, hname] using ih

theorem SameOutside.kindAt? {t t' : Tree} (h : SameOutside rules place t t')
    (hloc : ¬Concealed rules place loc) : t'.kindAt? loc = t.kindAt? loc := by
  rcases List.eq_nil_or_concat loc with rfl | ⟨dir, name, rfl⟩
  · rfl
  · rw [List.concat_eq_append] at hloc ⊢
    have hdir : ¬Concealed rules place dir := fun hdir => hloc (hdir.below (List.prefix_append _ _))
    simp only [Tree.kindAt?_append_singleton, Tree.find?_eq_inside]
    exact find?_same (h dir hdir) hloc

def outline (e : Bytes × Tree.Kind) : Bytes × Bool := (e.1, e.2.isDirectory)

theorem outline_same {dir : Location} {es es' : List (Bytes × Tree.Kind)}
    (h : List.Forall₂ (SameEntry rules place dir) es es') : es'.map outline = es.map outline := by
  induction h with
  | nil => rfl
  | cons he _ ih => simp only [List.map_cons, outline, he.name, he.isDirectory, ih]

theorem ordered_outline (options : Options) {es es' : List (Bytes × Tree.Kind)}
    (h : es'.map outline = es.map outline) :
    (ordered options es').map outline = (ordered options es).map outline := by
  have hsort (es : List (Bytes × Tree.Kind)) : (byName es).map outline =
      (es.map outline).mergeSort fun a b => a.1.le b.1 :=
    List.map_mergeSort fun _ _ _ _ => rfl
  unfold ordered
  split
  · rw [hsort, hsort, h]
  · exact h

theorem ofEntry_outline {t t' : Tree} {dir : Location} {es es' : List (Bytes × Tree.Kind)}
    (h : es'.map outline = es.map outline) :
    es'.map (Child.ofEntry t' false dir) = es.map (Child.ofEntry t false dir) := by
  have hread (t : Tree) : Child.ofEntry t false dir = (fun e : Bytes × Bool =>
      e.1.text?.elim (.error (.notText (dir ++ [e.1]))) fun text => .ok ⟨text, e.2⟩) ∘ outline := by
    funext e
    obtain ⟨name, kind⟩ := e
    cases ht : name.text? <;> simp [Child.ofEntry, outline, ht]
  rw [hread, hread, ← List.map_map, ← List.map_map, h]

end Outside

structure Visitor.MakesNoLinks (v : Visitor ω ε) : Prop where
  wellFormed : ∀ n w, (v.tree w).WellFormed → (v.tree (v.visit n w).1).WellFormed
  links : ∀ n w, (v.tree w).WellFormed → ∀ loc target,
    (v.tree (v.visit n w).1).kindAt? loc = some (.link target) →
    (v.tree w).kindAt? loc = some (.link target)

/-- Two worlds that are `alike` may differ in what is concealed. The visitor does not see it: it answers
the same, and leaves worlds that are alike. -/
structure Visitor.Unaware (v : Visitor ω ε) (rules : Rules) (place : Location)
    (alike : ω → ω → Prop) : Prop where
  outside : ∀ {w w'}, alike w w' → SameOutside rules place (v.tree w) (v.tree w')
  answers : ∀ {w w'} n, alike w w' → (v.visit n w').2 = (v.visit n w).2
  visits : ∀ {w w'} n, alike w w' → alike (v.visit n w).1 (v.visit n w').1

structure Open (rules : Rules) (place : Location) (t : Tree) (d : Pending) : Prop where
  wellFormed : t.WellFormed
  named : ∃ names, d = ⟨place ++ names.map Bytes.ofText, ⟨names, false⟩⟩ ∧
    ∀ front, front <+: names → front ≠ [] → rules.admits ⟨front, false⟩ = true
  unlinked : t.Unlinked d.location

theorem open_root {rules : Rules} {place : Location} {t : Tree} (ht : t.WellFormed) {root : Bytes}
    (hr : t.locatePath root = .ok place) : Open rules place t ⟨place, .root false⟩ := by
  refine ⟨ht, ⟨[], by simp [RelPath.root], fun front hfront hne => ?_⟩, ht.unlinked_locatePath hr⟩
  exact absurd (List.prefix_nil.mp hfront) hne

namespace Open

variable {rules : Rules} {options : Options} {place : Location} {t t' : Tree} {d : Pending}
  (h : Open rules place t d)
include h

theorem not_concealed {loc : Location} (hloc : loc <+: d.location) : ¬Concealed rules place loc := by
  obtain ⟨names, rfl, hnames⟩ := h.named
  exact fun hconcealed => Walk.not_concealed hnames (hconcealed.below hloc)

/-- What an open directory opens lies open. -/
theorem opens (hf : options.followLinks = false) {e : Pending}
    (he : e ∈ Walk.opens t rules options d) : Open rules place t e := by
  cases hd : t.isDirectory d.location with
  | true =>
    obtain ⟨names, rfl, hnames⟩ := h.named
    obtain ⟨_, name, rfl, hdir, hadmits⟩ := (mem_opens h.wellFormed rules hf hd).mp he
    refine ⟨h.wellFormed, ⟨names ++ [name], by simp [RelPath.child], ?_⟩,
      h.wellFormed.unlinked_directory hdir⟩
    intro front hfront hne
    rcases List.prefix_concat_iff.mp hfront with rfl | hfront
    · exact hadmits
    · exact hnames front hfront hne
  | false =>
    -- It was replaced while it waited, or removed.
    have hnone : children t options d.location = [] := by
      cases hl : t.locateAt d.location with
      | error e => exact children_of_error (list_missing options hl)
      | ok loc =>
        obtain rfl := h.unlinked.locateAt hl
        exact children_of_ok (list_special options hl hd)
    simp [Walk.opens, hnone, admittedDirs] at he

/-- An open directory is listed alike in trees that differ only in what is concealed. -/
theorem list (hf : options.followLinks = false) (hsame : SameOutside rules place t t') :
    Walk.list t' options d.location = Walk.list t options d.location := by
  have hkind (front : Location) (hfront : front <+: d.location) :
      t'.kindAt? front = t.kindAt? front := hsame.kindAt? (h.not_concealed hfront)
  refine list_congr (h.unlinked.locateAt_congr hkind) fun loc hl => ?_
  obtain rfl := h.unlinked.locateAt hl
  have hinside := outline_same (hsame _ (h.not_concealed (List.prefix_refl _)))
  rw [hf]
  exact ⟨hkind _ (List.prefix_refl _), ofEntry_outline (ordered_outline options hinside)⟩

/-- A directory that lies open still does after a visit. -/
theorem visit {v : Visitor ω ε} (hv : v.MakesNoLinks) {w : ω} (hw : v.tree w = t) (n : Notice) :
    Open rules place (v.tree (v.visit n w).1) d := by
  subst hw
  refine ⟨hv.wellFormed n w h.wellFormed, h.named, fun front hfront target hlink => ?_⟩
  exact h.unlinked front hfront target (hv.links n w h.wellFormed front target hlink)

end Open

section Unaware

variable {v : Visitor ω ε} (hv : v.MakesNoLinks) {rules : Rules} {options : Options}
  (hf : options.followLinks = false) {place : Location} {alike : ω → ω → Prop}
  (h : v.Unaware rules place alike)
include hv hf h

theorem companions_of_unaware : Companions v v rules options alike
    (fun w d => Open rules place (v.tree w) d) (fun _ _ => False) := by
  constructor
  case answers =>
    intro w w' n hw
    have hanswer := h.answers n hw
    have hnext := h.visits n hw
    rw [← Prod.eta (v.visit n w), ← Prod.eta (v.visit n w'), hanswer]
    cases (v.visit n w).2 with
    | none => exact .taken hnext fun _ => id
    | some e => exact .refused e hnext
  case stays => exact fun n hd => hd.visit hv rfl n
  case opens => exact fun hd he => hd.opens hf he
  case list => exact fun hw hd => hd.list hf (h.outside hw)
  case place =>
    intro hfollow
    exact Bool.noConfusion (hfollow.symm.trans hf)

end Unaware

/-- A walk that follows no links leaves the same trace and comes to the same in two worlds that differ
only in what is below directories that the rules reject, if its visitor does not see the difference and
makes no links. A visitor that leaves the tree alone is such a visitor (`Visitor.blind_unaware`); with
one that does not, directories may be gone when their turn comes. -/
theorem walk_noninterfering {v : Visitor ω ε} (hv : v.MakesNoLinks) (rules : Rules) {options : Options}
    (hf : options.followLinks = false) (limit : Nat) {root : Bytes} {world world' : ω}
    (hroot : (v.tree world').locatePath root = (v.tree world).locatePath root)
    (ht : (v.tree world).WellFormed) {alike : ω → ω → Prop}
    (h : ∀ place, (v.tree world).locatePath root = .ok place → v.Unaware rules place alike)
    (hw : alike world world') :
    (walk v rules options limit root world').trace = (walk v rules options limit root world).trace ∧
      (walk v rules options limit root world').outcome =
        (walk v rules options limit root world).outcome := by
  cases hr : (v.tree world).locatePath root with
  | error e => simp only [walk, hroot, hr, Recorded.record, Recorded.ok, Recorded.outcome, and_self]
  | ok place =>
    have hunaware := h place hr
    have hopen : Open rules place (v.tree world) ⟨place, .root false⟩ := open_root ht hr
    have hplace (found : Location) (hfound : (v.tree world).locatePath root = .ok found) :
        (v.tree world').isFile found = (v.tree world).isFile found ∧
          Open rules place (v.tree world) ⟨found, .root false⟩ := by
      obtain rfl : place = found := Except.ok.inj (hr.symm.trans hfound)
      have hkind := (hunaware.outside hw).kindAt? (hopen.not_concealed (List.prefix_refl _))
      exact ⟨congrArg (Option.any Tree.Kind.isFile) hkind, hopen⟩
    have hwalk := walk_inStep (companions_of_unaware hv hf hunaware) limit hw hroot hplace
    exact Recorded.Alike.outcome (hwalk.mono fun a b hab => hab.2)

def Visitor.blind (answer : Notice → μ → μ × Option ε) : Visitor (Tree × μ) ε where
  tree := Prod.fst
  visit n w := ((w.1, (answer n w.2).1), (answer n w.2).2)

section Blind

variable (answer : Notice → μ → μ × Option ε)

theorem Visitor.blind_makesNoLinks : (blind answer).MakesNoLinks :=
  ⟨fun _ _ => id, fun _ _ _ _ _ => id⟩

theorem Visitor.blind_unaware {rules : Rules} {place : Location} {t t' : Tree}
    (h : SameOutside rules place t t') :
    (blind answer).Unaware rules place fun w w' => w.1 = t ∧ w'.1 = t' ∧ w'.2 = w.2 := by
  constructor
  case outside =>
    rintro w w' ⟨rfl, rfl, _⟩
    exact h
  case answers =>
    rintro w w' n ⟨_, _, hmemory⟩
    simp [blind, hmemory]
  case visits =>
    rintro w w' n ⟨ht, ht', hmemory⟩
    exact ⟨ht, ht', by simp [blind, hmemory]⟩

end Blind

theorem SameOutside.erase {rules : Rules} {place : Location} {t t' : Tree}
    (h : SameOutside rules place t t') (loc : Location) :
    SameOutside rules place (t.erase loc) (t'.erase loc) := by
  intro dir hdir
  rw [Tree.inside_erase, Tree.inside_erase]
  refine List.rel_filter (fun e e' he => ?_) (h dir hdir)
  simp only [he.name]

theorem reaper_makesNoLinks : reaper.MakesNoLinks := by
  constructor
  case wellFormed => exact fun n t ht => reaper_wellFormed ht n
  case links =>
    intro n t ht loc target hlink
    simp only [reaper, id] at hlink ⊢
    split at hlink
    · exact ht.kindAt?_erase hlink
    · exact hlink

theorem reaper_unaware (rules : Rules) (place : Location) :
    reaper.Unaware rules place (SameOutside rules place) := by
  constructor
  case outside => exact fun h => h
  case answers => exact fun _ _ => rfl
  case visits =>
    intro t t' n h
    simp only [reaper]
    split
    · exact h.erase _
    · exact h

/-- As `trio`, but `c` may not be read, and has in it a directory `d` that may not be read either. -/
def refilled : Tree :=
  ⟨[⟨[], [0x61], .directory⟩, ⟨[], [0x62], .directory⟩, ⟨[], [0x63], .directory false⟩,
    ⟨[[0x63]], [0x64], .directory false⟩, ⟨[[0x63], [0x64]], [0x78], .file []⟩]⟩

def barring (name : String) : Rules := ⟨[], [⟨name, .literal [name], false, true⟩]⟩

theorem trio_sameOutside : SameOutside (barring "c") [] trio refilled := by
  have hname : Bytes.ofText "c" = [0x63] := by decide
  have hrejected : Concealed (barring "c") [] [[0x63]] := ⟨["c"], by simp, by decide, by simp [hname]⟩
  intro dir hdir
  by_cases hroot : dir = []
  · subst hroot
    have hc : SameEntry (barring "c") [] [] ([0x63], .directory true) ([0x63], .directory false) :=
      ⟨rfl, rfl, fun hopen => absurd hrejected hopen⟩
    exact .cons (.refl _ _ _ _) (.cons (.refl _ _ _ _) (.cons hc .nil))
  · have hc (below : Location) : dir ≠ [0x63] :: below := by
      rintro rfl
      exact hdir (hrejected.below (by simp))
    simp [Tree.inside, trio, refilled, hroot, Ne.symm (hc _)]

def recorder : Visitor (Tree × List Notice) String := .blind fun n seen => (seen ++ [n], none)

/-- The directory `c` is rejected, and the trees differ in what is in it and in whether it may be read.
With `reaper` the directory `b` is gone when its turn comes. -/
theorem walk_noninterfering_trio :
    SameOutside (barring "c") [] trio refilled ∧ trio.WellFormed ∧
    refilled.locatePath [Path.slash] = trio.locatePath [Path.slash] ∧
    ({} : Options).aborting.followLinks = false ∧ recorder.MakesNoLinks ∧
    (∀ place, trio.locatePath [Path.slash] = .ok place →
      recorder.Unaware (barring "c") place fun w w' => w.1 = trio ∧ w'.1 = refilled ∧ w'.2 = w.2) ∧
    (walk recorder (barring "c") ({} : Options).aborting 9 [Path.slash] (refilled, [])).trace =
      (walk recorder (barring "c") ({} : Options).aborting 9 [Path.slash] (trio, [])).trace ∧
    (walk recorder (barring "c") ({} : Options).aborting 9 [Path.slash] (refilled, [])).outcome =
      .ok { rootFound := true, dirs := 2, pruned := 1 } ∧
    reaper.MakesNoLinks ∧
    (∀ place, trio.locatePath [Path.slash] = .ok place →
      reaper.Unaware (barring "c") place (SameOutside (barring "c") [])) ∧
    (walk reaper (barring "c") ({} : Options).aborting 9 [Path.slash] refilled).trace =
      (walk reaper (barring "c") ({} : Options).aborting 9 [Path.slash] trio).trace ∧
    (walk reaper (barring "c") ({} : Options).aborting 9 [Path.slash] refilled).outcome =
      .error (.unreadable [[0x62]] .notFound) := by
  have hplace : trio.locatePath [Path.slash] = .ok [] := by cbv
  have hroot : refilled.locatePath [Path.slash] = trio.locatePath [Path.slash] := by cbv
  have ht : trio.WellFormed := ⟨by decide, by decide⟩
  have hrecorder : ∀ place, trio.locatePath [Path.slash] = .ok place → recorder.Unaware (barring "c")
      place fun w w' => w.1 = trio ∧ w'.1 = refilled ∧ w'.2 = w.2 := by
    intro place hr
    obtain rfl : [] = place := Except.ok.inj (hplace.symm.trans hr)
    exact Visitor.blind_unaware _ trio_sameOutside
  have hreaper : ∀ place, trio.locatePath [Path.slash] = .ok place →
      reaper.Unaware (barring "c") place (SameOutside (barring "c") []) := by
    intro place hr
    obtain rfl : [] = place := Except.ok.inj (hplace.symm.trans hr)
    exact reaper_unaware _ _
  have hlinks : recorder.MakesNoLinks := Visitor.blind_makesNoLinks _
  have hsame :
      (walk recorder (barring "c") ({} : Options).aborting 9 [Path.slash] (refilled, [])).trace =
        (walk recorder (barring "c") ({} : Options).aborting 9 [Path.slash] (trio, [])).trace ∧
      (walk recorder (barring "c") ({} : Options).aborting 9 [Path.slash] (refilled, [])).outcome =
        (walk recorder (barring "c") ({} : Options).aborting 9 [Path.slash] (trio, [])).outcome :=
    walk_noninterfering hlinks (barring "c") rfl 9 hroot ht hrecorder ⟨rfl, rfl, rfl⟩
  obtain ⟨htrace, houtcome⟩ := walk_noninterfering reaper_makesNoLinks (barring "c")
    (rfl : ({} : Options).aborting.followLinks = false) 9 hroot ht hreaper trio_sameOutside
  have hends :
      (walk recorder (barring "c") ({} : Options).aborting 9 [Path.slash] (trio, [])).outcome =
        .ok { rootFound := true, dirs := 2, pruned := 1 } := by cbv
  have hstops : (walk reaper (barring "c") ({} : Options).aborting 9 [Path.slash] trio).outcome =
      .error (.unreadable [[0x62]] .notFound) := by cbv
  exact ⟨trio_sameOutside, ht, hroot, rfl, hlinks, hrecorder, hsame.1, hsame.2.trans hends,
    reaper_makesNoLinks, hreaper, htrace, houtcome.trans hstops⟩

end Fileset.Walk
