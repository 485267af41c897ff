import Fileset.Proofs.Walk.Selection
import Fileset.Proofs.Walk.Survey

namespace Fileset.Walk

/-- On the way that `names` lead from `place`, one of the directories `dirs` is taken under other names,
under which the rules reject the next name of the way. -/
def Barred (t : Tree) (rules : Rules) (place : Location) (dirs : List Pending) (names : List String)
    (isFile : Bool) : Prop :=
  ∃ front next rest dir, names = front ++ next :: rest ∧ t.Through place front dir ∧
    ∃ d ∈ dirs, t.locateAt d.location = .ok dir ∧ d.path.segments ≠ front ∧
      rules.admits ⟨d.path.segments ++ [next], isFile && rest.isEmpty⟩ = false

section Barred

variable {t : Tree} {rules : Rules} {options : Options} {place dir : Location} {dirs : List Pending}
  {names : List String} {name : String} {isFile : Bool}

theorem Barred.extend (h : Barred t rules place dirs names false) :
    Barred t rules place dirs (names ++ [name]) isFile := by
  obtain ⟨front, next, rest, dir, rfl, hthrough, d, hd, hl, hne, hrejects⟩ := h
  refine ⟨front, next, rest ++ [name], dir, by simp, hthrough, d, hd, hl, hne, ?_⟩
  have hmore : (rest ++ [name]).isEmpty = false := by cases rest <;> rfl
  simpa only [hmore, Bool.and_false, Bool.false_and] using hrejects

/-- The rules reject a name in a directory that they admit under the names of the way: the directory
was taken under others. -/
theorem barred_of_rejects (hthrough : t.Through place names dir)
    (hadmits : rules.admits ⟨names ++ [name], isFile⟩ = true) {d : Pending} (hd : d ∈ dirs)
    (hl : t.locateAt d.location = .ok dir)
    (hrejects : rules.admits (d.path.child isFile name) = false) :
    Barred t rules place dirs (names ++ [name]) isFile := by
  refine ⟨names, name, [], dir, rfl, hthrough, d, hd, hl, ?_, by simpa [RelPath.child] using hrejects⟩
  rintro rfl
  exact Bool.noConfusion (hadmits.symm.trans hrejects)

variable (h : Survey t rules options place dirs) (ht : t.WellFormed) (hlistable : t.Listable)
  (hf : options.followLinks = true) (hresolves : ∀ d ∈ dirs, t.Resolves d.location)
include h ht hlistable hf hresolves

/-- A directory is listed if admitted names lead to it and none of them is rejected under the names
under which the directories on the way are taken. -/
theorem Survey.reaches (hthrough : t.Through place names dir)
    (hnames : names = [] ∨ rules.admits ⟨names, false⟩ = true) (habove : AdmittedAbove rules names) :
    (∃ d ∈ dirs, t.locateAt d.location = .ok dir) ∨ Barred t rules place dirs names false := by
  induction hthrough with
  | root => exact .inl (h.exists_of_mem h.start)
  | @enter names name dir dir' hthrough hleads hdir' ih =>
    obtain ⟨hnames', habove'⟩ := admittedAbove_snoc.mp habove
    have hadmits := hnames.resolve_left (by simp)
    rcases ih hnames' habove' with ⟨d, hd, hl⟩ | hbarred
    -- The directory was taken as `d`, be it under these names or under others.
    · cases hchild : rules.admits (d.path.child false name) with
      | true => exact .inl (h.enters ht hlistable hf hd hl (hresolves d hd) hleads hdir' hchild)
      | false => exact .inr (barred_of_rejects hthrough hadmits hd hl hchild)
    · exact .inr hbarred.extend

theorem Survey.reports_or_barred {loc : Location} (hthrough : t.Through place names dir)
    (hleads : t.Leads dir (Bytes.ofText name) loc) (habove : AdmittedAbove rules (names ++ [name]))
    (hadmits : rules.admits ⟨names ++ [name], !t.isDirectory loc⟩ = true) :
    (∃ n ∈ dirs.flatMap (reports t rules options),
      entryOf t n = (.ok dir, some (Bytes.ofText name)) ∧ rules.admits n.path = true) ∨
    Barred t rules place dirs (names ++ [name]) (!t.isDirectory loc) := by
  obtain ⟨hnames, habove'⟩ := admittedAbove_snoc.mp habove
  rcases h.reaches ht hlistable hf hresolves hthrough hnames habove' with ⟨d, hd, hl⟩ | hbarred
  · cases hchild : rules.admits (d.path.child (!t.isDirectory loc) name) with
    | true =>
      have hloc := hresolves d hd dir (Bytes.ofText name) loc hl hleads
      have hn := (mem_reports_followed ht rules hf hl hleads.isDirectory).mpr
        ⟨hlistable.readable hleads.isDirectory, name, loc, rfl, hloc, hchild⟩
      exact .inl ⟨_, List.mem_flatMap.mpr ⟨d, hd, hn⟩, by simp [entryOf, hl], hchild⟩
    | false => exact .inr (barred_of_rejects hthrough hadmits hd hl hchild)
  · exact .inr hbarred.extend

end Barred

/-- Of the entries that admitted names lead to, a walk that follows links misses none but those behind
a directory that it takes under other names, where the rules reject the way on, if no directory may not
be read. -/
theorem walk_covers {v : Visitor ω ε} (hv : v.Quiet) {world : ω} {t : Tree} (hw : v.tree world = t)
    (ht : t.WellFormed) (hlistable : t.Listable) {rules : Rules} {options : Options}
    (hf : options.followLinks = true) {limit : Nat} (hl : limitFor t ≤ limit) {root : Bytes} {place : Location}
    (hr : t.locatePath root = .ok place)
    (hresolves : ∀ d ∈ listed v rules options limit root world, t.Resolves d.location)
    {names : List String} {name : String} {dir loc : Location}
    (hthrough : t.Through place names dir) (hleads : t.Leads dir (Bytes.ofText name) loc)
    (habove : AdmittedAbove rules (names ++ [name]))
    (hadmits : rules.admits ⟨names ++ [name], !t.isDirectory loc⟩ = true) :
    ∃ ns out, (walk v rules options limit root world).Yields ns out ∧
      ((∃ n ∈ ns, entryOf t n = (.ok dir, some (Bytes.ofText name)) ∧ rules.admits n.path = true) ∨
        Barred t rules place (listed v rules options limit root world) (names ++ [name])
          (!t.isDirectory loc)) := by
  obtain ⟨hsurveys, hcalls⟩ :=
    walk_survey rules hv hw ht hf hl hr (Tree.isFile_of_isDirectory hthrough.start)
  obtain ⟨out, hy⟩ := hsurveys.settles.yields (.inr hlistable)
  refine ⟨_, out, hy, ?_⟩
  rw [hcalls]
  exact (hsurveys.survey out hy.2).reports_or_barred ht hlistable hf hresolves hthrough hleads habove
    hadmits

/-- A directory `r` with a file `x` in it, and beside it a link `a` to `r`. -/
def aliased : Tree :=
  ⟨[⟨[], [0x72], .directory⟩, ⟨[[0x72]], [0x78], .file []⟩, ⟨[], [0x61], .link [0x72]⟩]⟩

def without (dir name : String) : Rules :=
  ⟨[], [⟨dir ++ "/" ++ name, .literal [dir, name], false, true⟩]⟩

theorem aliased_wellFormed : aliased.WellFormed := ⟨by decide, by decide⟩

theorem aliased_listable : aliased.Listable := by decide

theorem aliased_leads : aliased.Leads [[0x72]] (Bytes.ofText "x") [[0x72], [0x78]] :=
  Tree.leads_entry (by decide) (by decide : _ = some (.file [])) (by simp)

theorem aliased_through : aliased.Through [] ["r"] [[0x72]] :=
  .enter (.root rfl) (Tree.leads_entry rfl (by decide : _ = some (.directory true)) (by simp)) (by decide)

/-- The root and the link are listed, whatever the rules, and all their entries are located. -/
theorem aliased_resolves : ∀ d ∈ [⟨[], .root false⟩, (⟨[[0x61]], ⟨["a"], false⟩⟩ : Pending)],
    aliased.Resolves d.location := by
  have hroot : aliased.locateAt [] = .ok [] := by cbv
  have hlink : aliased.locateAt [[0x61]] = .ok [[0x72]] := by cbv
  intro d hd
  rcases List.mem_pair.mp hd with rfl | rfl
  · exact Tree.resolves_of_all hroot (by cbv)
  · exact Tree.resolves_of_all hlink (by cbv)

/-- Below the link `a`, under which `r` is taken, nothing is excluded. -/
theorem walk_covers_aliased :
    observer.Quiet ∧ aliased.WellFormed ∧ aliased.Listable ∧ following.followLinks = true ∧ limitFor aliased ≤ 2 ∧
    aliased.locatePath [Path.slash] = .ok [] ∧
    (∀ d ∈ listed observer (without "r" "x") following 2 [Path.slash] aliased,
      aliased.Resolves d.location) ∧
    aliased.Through [] ["a"] [[0x72]] ∧
    aliased.Leads [[0x72]] (Bytes.ofText "x") [[0x72], [0x78]] ∧
    AdmittedAbove (without "r" "x") (["a"] ++ ["x"]) ∧
    (without "r" "x").admits ⟨["a"] ++ ["x"], true⟩ = true ∧
    ∃ ns out, (walk observer (without "r" "x") following 2 [Path.slash] aliased).Yields ns out ∧
      ((∃ n ∈ ns, entryOf aliased n = (.ok [[0x72]], some (Bytes.ofText "x")) ∧
        (without "r" "x").admits n.path = true) ∨
        Barred aliased (without "r" "x") []
          (listed observer (without "r" "x") following 2 [Path.slash] aliased) (["a"] ++ ["x"])
          (!aliased.isDirectory [[0x72], [0x78]])) := by
  have hr : aliased.locatePath [Path.slash] = .ok [] := by cbv
  have hlisted : listed observer (without "r" "x") following 2 [Path.slash] aliased =
      [⟨[], .root false⟩, ⟨[[0x61]], ⟨["a"], false⟩⟩] := by cbv
  have hresolves := hlisted ▸ aliased_resolves
  have hthrough : aliased.Through [] ["a"] [[0x72]] :=
    .enter (.root rfl) (Tree.leads_of_locateAt (by cbv : aliased.locateAt [] = .ok []) (by cbv))
      (by decide)
  have habove : AdmittedAbove (without "r" "x") (["a"] ++ ["x"]) :=
    admittedAbove_snoc.mpr ⟨.inr (by decide), admittedAbove_singleton _ "a"⟩
  exact ⟨observer_quiet, aliased_wellFormed, aliased_listable, rfl, by decide, hr, hresolves, hthrough,
    aliased_leads, habove, by decide, walk_covers observer_quiet rfl aliased_wellFormed aliased_listable
      rfl (by decide) hr hresolves hthrough aliased_leads habove (by decide)⟩

/-- The file in `r` is admitted as `r/x`, but `r` is taken as `a`, where the rules exclude it. -/
theorem walk_misses_aliased :
    observer.Quiet ∧ aliased.WellFormed ∧ aliased.Listable ∧
    Matcher.compileAll false true ["a/x"] = .ok (without "a" "x").excludes ∧
    following.followLinks = true ∧ limitFor aliased ≤ 2 ∧
    aliased.locatePath [Path.slash] = .ok [] ∧
    (∀ d ∈ listed observer (without "a" "x") following 2 [Path.slash] aliased,
      aliased.Resolves d.location) ∧
    aliased.Through [] ["r"] [[0x72]] ∧
    aliased.Leads [[0x72]] (Bytes.ofText "x") [[0x72], [0x78]] ∧
    AdmittedAbove (without "a" "x") (["r"] ++ ["x"]) ∧
    (without "a" "x").admits ⟨["r"] ++ ["x"], true⟩ = true ∧
    ∃ ns out, (walk observer (without "a" "x") following 2 [Path.slash] aliased).Yields ns out ∧
      ∀ n ∈ ns, entryOf aliased n ≠ (.ok [[0x72]], some (Bytes.ofText "x")) := by
  have hr : aliased.locatePath [Path.slash] = .ok [] := by cbv
  have hlisted : listed observer (without "a" "x") following 2 [Path.slash] aliased =
      [⟨[], .root false⟩, ⟨[[0x61]], ⟨["a"], false⟩⟩] := by cbv
  have hyields : (walk observer (without "a" "x") following 2 [Path.slash] aliased).Yields
      [⟨[[0x61]], ⟨["a"], false⟩⟩, ⟨[[0x72]], ⟨["r"], false⟩⟩]
      (aliased, { rootFound := true, dirs := 2 }) := ⟨by cbv, by cbv⟩
  have hresolves := hlisted ▸ aliased_resolves
  have habove : AdmittedAbove (without "a" "x") (["r"] ++ ["x"]) :=
    admittedAbove_snoc.mpr ⟨.inr (by decide), admittedAbove_singleton _ "r"⟩
  refine ⟨observer_quiet, aliased_wellFormed, aliased_listable, rfl, rfl, by decide, hr, hresolves, aliased_through,
    aliased_leads, habove, by decide, _, _, hyields, fun n hn heq => ?_⟩
  have hnames : ∀ n ∈ [(⟨[[0x61]], ⟨["a"], false⟩⟩ : Notice), ⟨[[0x72]], ⟨["r"], false⟩⟩],
      n.location.getLast? ≠ some (Bytes.ofText "x") := by decide
  exact hnames n hn (congrArg Prod.snd heq)

end Fileset.Walk
