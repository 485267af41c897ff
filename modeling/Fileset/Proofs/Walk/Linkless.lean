import Fileset.Proofs.Walk.Account

namespace Fileset.Walk

def Options.following (o : Options) : Options := { o with followLinks := true }

def Options.staying (o : Options) : Options := { o with followLinks := false }

section Options

variable (o : Options)

@[simp] theorem Options.following_followLinks : o.following.followLinks = true := rfl
@[simp] theorem Options.following_onUnreadable : o.following.onUnreadable = o.onUnreadable := rfl
@[simp] theorem Options.staying_followLinks : o.staying.followLinks = false := rfl
@[simp] theorem Options.staying_onUnreadable : o.staying.onUnreadable = o.onUnreadable := rfl

end Options

def State.forget (s : State ω) : State ω := { s with walked := [] }

def State.queued (s : State ω) (d : Pending) : State ω :=
  { s with queue := s.queue ++ [d], walked := s.walked ++ [d.location] }

/-- No link lies at `place`, on the way to it, or below it. -/
structure Linkless (place : Location) (t : Tree) : Prop where
  wellFormed : t.WellFormed
  unlinked : ∀ {loc}, place <+: loc → t.Unlinked loc

/-- The place that a path leads to is reached without links. -/
theorem linkless_root {t : Tree} (ht : t.WellFormed) {root : Bytes} {place : Location}
    (hr : t.locatePath root = .ok place)
    (hbelow : ∀ names, names ≠ [] → ∀ target, t.kindAt? (place ++ names) ≠ some (.link target)) :
    Linkless place t := by
  refine ⟨ht, fun hloc front hfront => ?_⟩
  by_cases hup : front <+: place
  · exact ht.unlinked_locatePath hr front hup
  · obtain ⟨names, rfl⟩ := (List.prefix_or_prefix_of_prefix hfront hloc).resolve_left hup
    refine hbelow names ?_
    rintro rfl
    simp at hup

namespace Linkless

variable {place : Location} {t : Tree} {v : Visitor ω ε} {world now : ω}

theorem visit (hv : v.MakesNoLinks) (n : Notice) (h : Linkless place (v.tree now)) :
    Linkless place (v.tree (v.visit n now).1) := by
  refine ⟨hv.wellFormed n now h.wellFormed, fun hloc front hfront target hlink => ?_⟩
  exact h.unlinked hloc front hfront target (hv.links n now h.wellFormed front target hlink)

theorem reaches (hv : v.MakesNoLinks) (hnow : v.Reaches world now)
    (h : Linkless place (v.tree world)) : Linkless place (v.tree now) :=
  hnow.keeps (p := fun w => Linkless place (v.tree w)) (fun n _ => visit hv n) h

/-- What is no link is taken for what it is. -/
theorem ofEntry (dir : Location) {e : Bytes × Tree.Kind} (he : ∀ target, e.2 ≠ .link target) :
    Child.ofEntry t true dir e = Child.ofEntry t false dir e := by
  obtain ⟨name, kind⟩ := e
  unfold Child.ofEntry
  cases kind with
  | link target => exact absurd rfl (he target)
  | directory readable => rfl
  | file content => rfl
  | locked => rfl
  | pipe => rfl

theorem list (h : Linkless place t) (options : Options) {dir : Location} (hdir : place <+: dir) :
    Walk.list t options.following dir = Walk.list t options.staying dir := by
  refine list_congr rfl fun loc hl => ⟨rfl, ?_⟩
  obtain rfl := (h.unlinked hdir).locateAt hl
  refine List.map_congr_left fun e he => ofEntry loc fun target hlink => ?_
  have hin := (ordered_perm options _).mem_iff.mp he
  have hk := h.wellFormed.mem_inside_iff.mp hin
  have hbelow : place <+: loc ++ [e.1] := hdir.trans (List.prefix_append _ _)
  exact h.unlinked hbelow _ (List.prefix_refl _) target (hk.trans (congrArg some hlink))

end Linkless

/-- What was reported lies at different places. -/
theorem Waiting.location_nodup {rules : Rules} {place : Location} {ns : List Notice}
    {queue : List Pending} (h : Waiting rules place ns queue) :
    ((fromRoot place ns).map Notice.location).Nodup := by
  have hlocated : (fromRoot place ns).map Notice.location =
      ((fromRoot place ns).map fun n => n.path.segments).map
        fun names => place ++ names.map Bytes.ofText := by
    rw [List.map_map]
    refine List.map_congr_left fun n hn => ?_
    rcases List.mem_cons.mp hn with rfl | hn
    · simp [RelPath.root]
    · exact h.levelled.located n hn
  rw [hlocated]
  refine h.fromRoot_once.map fun a b hab => ?_
  exact List.map_injective_iff.mpr (fun _ _ => Bytes.ofText_injective) (List.append_cancel_left hab)

/-- Where a walk stands that has reported `ns` and met no link. Its tree has none, and it has walked
nothing but what it has reported. -/
structure Straight (v : Visitor ω ε) (rules : Rules) (place : Location) (ns : List Notice)
    (s : State ω) : Prop where
  linkless : Linkless place (v.tree s.world)
  waiting : Waiting rules place ns s.queue
  walked : s.walked.Sublist ((fromRoot place ns).map Notice.location)

section Steps

variable {v : Visitor ω ε} (rules : Rules)

theorem visit_forget (n : Notice) (s : State ω) :
    (visit v n s).map State.forget = visit v n s.forget := by
  simp only [visit, State.forget]
  cases v.visit n s.world with
  | mk world error => cases error <;> rfl

theorem takeChildren_forget (dir : Pending) (cs : List Child) (s : State ω) :
    (takeChildren v rules dir cs s).map (Prod.map State.forget id) =
      takeChildren v rules dir cs s.forget := by
  induction cs generalizing s with
  | nil => rfl
  | cons c cs ih =>
    simp only [takeChildren]
    cases rules.admits (c.path dir.path) with
    | true =>
      cases c.isDir with
      | true =>
        rw [Recorded.map_andThen, ← ih s, Recorded.andThen_map]
        rfl
      | false =>
        rw [Recorded.map_andThen, ← visit_forget, Recorded.andThen_map]
        exact congrArg _ (funext ih)
    | false =>
      cases c.isDir with
      | true => exact congrArg (Recorded.record _) (ih s.countPruned)
      | false => exact ih s

theorem takeRootFile_forget (file : Location) (s : State ω) :
    (takeRootFile v rules file s).map State.forget = takeRootFile v rules file s.forget := by
  unfold takeRootFile
  split
  · rfl
  · dsimp only
    split
    · exact visit_forget _ s
    · rfl

variable {place : Location}

/-- A directory that was not walked is queued, also if it is gone by then. -/
theorem enqueue_straight {s : State ω} (h : Linkless place (v.tree s.world)) {d : Pending}
    (hd : place <+: d.location) (hfresh : d.location ∉ s.walked) :
    enqueue v true d s = .ok (s.queued d) := by
  have hplace : ((v.tree s.world).locateAt d.location).toOption.getD d.location = d.location := by
    cases hl : (v.tree s.world).locateAt d.location with
    | error e => rfl
    | ok loc => exact (h.unlinked hd).locateAt hl
  simp [enqueue, hplace, hfresh, State.queued]

variable (hv : v.MakesNoLinks)
include hv

theorem takeDirs_straight (ds : List Pending) {s : State ω} (h : Linkless place (v.tree s.world))
    (hds : ∀ d ∈ ds, place <+: d.location)
    (hnodup : (s.walked ++ ds.map Pending.location).Nodup) :
    (takeDirs v true ds s).map State.forget = takeDirs v false ds s.forget ∧
      (takeDirs v true ds s).Ensures fun _ s' => s'.walked = s.walked ++ ds.map Pending.location := by
  induction ds generalizing s with
  | nil => exact ⟨rfl, .ok (by simp)⟩
  | cons d ds ih =>
    obtain ⟨hd, hds⟩ := List.forall_mem_cons.mp hds
    rw [List.map_cons, List.append_cons] at hnodup ⊢
    have hfresh : d.location ∉ s.walked := by
      intro hmem
      have hfront := List.nodup_append.mp (List.nodup_append.mp hnodup).1
      exact hfront.2.2 _ hmem _ (List.mem_singleton_self _) rfl
    -- what the step leaves, and that the rest goes on from there
    have hstep : (visit v ⟨d.location, d.path⟩ s).Ensures fun _ s₁ =>
        enqueue v true d s₁ = .ok (s₁.queued d) ∧ s₁.walked = s.walked ∧
          Linkless place (v.tree s₁.world) := by
      refine (visit_ensures v _ s).mono ?_
      rintro _ _ ⟨-, rfl⟩
      have hnext := h.visit hv ⟨d.location, d.path⟩
      exact ⟨enqueue_straight hnext hd hfresh, rfl, hnext⟩
    constructor
    · simp only [takeDirs]
      rw [Recorded.map_andThen, ← visit_forget, Recorded.andThen_map]
      refine Recorded.andThen_congr (hstep.mono ?_)
      rintro _ s₁ ⟨henqueue, hwalked, hnext⟩
      rw [← hwalked] at hnodup
      rw [henqueue]
      exact (ih (s := s₁.queued d) hnext hds hnodup).1
    · refine hstep.andThen ?_
      rintro _ s₁ ⟨henqueue, hwalked, hnext⟩
      rw [← hwalked] at hnodup
      rw [henqueue, ← hwalked]
      exact (ih (s := s₁.queued d) hnext hds hnodup).2

/-- What was walked makes no difference to a directory that opens only places that were not. -/
theorem takeDirectory_forget (options : Options) {dir : Pending} {s : State ω}
    (h : Linkless place (v.tree s.world)) (hdir : place <+: dir.location)
    (hnodup : (s.walked ++
      (opens (v.tree s.world) rules options.following dir).map Pending.location).Nodup) :
    (takeDirectory v rules options.following dir s).map State.forget =
        takeDirectory v rules options.staying dir s.forget ∧
      (takeDirectory v rules options.following dir s).Ensures fun _ s' => s'.walked =
        s.walked ++ (opens (v.tree s.world) rules options.following dir).map Pending.location := by
  have hsame : list (v.tree s.forget.world) options.staying dir.location =
      list (v.tree s.world) options.following dir.location := (h.list options hdir).symm
  cases hl : list (v.tree s.world) options.following dir.location with
  | error cause =>
    have hnone : opens (v.tree s.world) rules options.following dir = [] := by
      simp [opens, children, hl, admittedDirs]
    simp only [takeDirectory, hsame, hl, hnone, Options.following_onUnreadable,
      Options.staying_onUnreadable]
    cases options.onUnreadable with
    | abort => exact ⟨rfl, .stop⟩
    | skip => exact ⟨rfl, .record (.ok (by simp))⟩
  | ok listing =>
    have hopens : opens (v.tree s.world) rules options.following dir =
        admittedDirs rules dir listing.children := by simp [opens, children, hl]
    have hbelow : ∀ d ∈ admittedDirs rules dir listing.children, place <+: d.location := by
      intro d hd
      obtain ⟨c, _, rfl⟩ := List.mem_map.mp hd
      exact hdir.trans (List.prefix_append _ _)
    rw [hopens] at hnodup ⊢
    have hchildren : (takeChildren v rules dir listing.children s).Ensures fun _ left =>
        (takeDirs v true left.2 left.1).map State.forget = takeDirs v false left.2 left.1.forget ∧
          (takeDirs v true left.2 left.1).Ensures fun _ s' => s'.walked =
            s.walked ++ (admittedDirs rules dir listing.children).map Pending.location := by
      intro left hleft
      have htook := ((takeChildren_calls v rules dir listing.children s).through left hleft).2
      rw [htook.dirs, ← htook.walked]
      rw [← htook.walked] at hnodup
      exact takeDirs_straight hv _ (h.reaches hv htook.world) hbelow hnodup
    simp only [takeDirectory, hsame, hl, Options.following_followLinks, Options.staying_followLinks]
    constructor
    · rw [Recorded.map_record]
      refine congrArg (Recorded.record _) ?_
      rw [← takeChildren_forget, Recorded.map_andThen, Recorded.andThen_map]
      exact Recorded.andThen_congr (hchildren.mono fun _ left hleft => hleft.1)
    · exact .record (hchildren.andThen fun _ left hleft => hleft.2)

/-- A walk that has met no link goes on without one. -/
theorem Straight.take (options : Options) {ns : List Notice} {dir : Pending} {queue : List Pending}
    {s : State ω} (h : Straight v rules place ns s) (hq : s.queue = dir :: queue) :
    (takeDirectory v rules options.following dir { s with queue }).map State.forget =
        takeDirectory v rules options.staying dir { s.forget with queue } ∧
      (takeDirectory v rules options.following dir { s with queue }).Ensures fun _ s' =>
        ∃ more, Straight v rules place (ns ++ more) s' := by
  have hlists := h.linkless.wellFormed.listsOnce
  have hwaiting := h.waiting
  rw [hq] at hwaiting
  have hdir : place <+: dir.location := ⟨_, (hwaiting.located List.mem_cons_self).symm⟩
  have hwalked : (s.walked ++
      (opens (v.tree s.world) rules options.following dir).map Pending.location).Sublist
        ((fromRoot place (ns ++ reports (v.tree s.world) rules options.following dir)).map
          Notice.location) := by
    have hall : fromRoot place (ns ++ reports (v.tree s.world) rules options.following dir) =
        fromRoot place ns ++ reports (v.tree s.world) rules options.following dir := rfl
    have hopens : (opens (v.tree s.world) rules options.following dir).map Pending.location =
        ((opens (v.tree s.world) rules options.following dir).map Pending.notice).map
          Notice.location := by
      rw [List.map_map]
      rfl
    rw [hall, List.map_append, hopens]
    exact h.walked.append ((List.sublist_append_right _ _).map _)
  have hnodup := ((hwaiting.take hlists (List.Sublist.refl _)).location_nodup).sublist hwalked
  obtain ⟨hsame, hleft⟩ := takeDirectory_forget rules hv options (s := { s with queue }) h.linkless
    hdir hnodup
  refine ⟨hsame, fun s' hs' => ⟨reports (v.tree s.world) rules options.following dir, ?_⟩⟩
  have htook := ((takeDirectory_calls v rules options.following dir { s with queue }).through s' hs').2
  obtain ⟨more, hmore, hsub, -⟩ := htook.queue
  constructor
  case linkless => exact h.linkless.reaches hv htook.world
  case waiting =>
    rw [hmore]
    exact hwaiting.take hlists hsub
  case walked =>
    rw [hleft s' hs']
    exact hwalked

end Steps

section Runs

variable {v : Visitor ω ε} (hv : v.MakesNoLinks) (rules : Rules) (options : Options) (limit : Nat)
  {place : Location}
include hv

theorem drain_straight {ns : List Notice} {s : State ω} (h : Straight v rules place ns s) :
    (drain v rules options.following limit s).map State.forget =
      drain v rules options.staying limit s.forget := by
  have hqueue : s.forget.queue = s.queue := rfl
  induction limit generalizing ns s with
  | zero =>
    simp only [drain, hqueue]
    cases s.queue <;> rfl
  | succ limit ih =>
    simp only [drain, hqueue]
    cases hq : s.queue with
    | nil => rfl
    | cons dir queue =>
      obtain ⟨hsame, hnext⟩ := h.take rules hv options hq
      rw [Recorded.map_andThen]
      refine Eq.trans ?_ (congrArg (Recorded.andThen · (drain v rules options.staying limit)) hsame)
      rw [Recorded.andThen_map]
      refine Recorded.andThen_congr (hnext.mono ?_)
      rintro _ s' ⟨_, hs'⟩
      exact ih hs' rfl

/-- Where there is no link below the root, and the visitor makes none, it makes no difference whether a
walk follows links: no directory is passed by because it was walked before. -/
theorem walk_linkless {root : Bytes} {world : ω} (ht : (v.tree world).WellFormed)
    (hbelow : ∀ place, (v.tree world).locatePath root = .ok place →
      ∀ names, names ≠ [] → ∀ target,
        (v.tree world).kindAt? (place ++ names) ≠ some (.link target)) :
    walk v rules options.following limit root world = walk v rules options.staying limit root world ∧
      (walk v rules options.following limit root world).trace.countP Event.passesBy = 0 := by
  have hsame : walk v rules options.following limit root world =
      walk v rules options.staying limit root world := by
    unfold walk
    cases hr : (v.tree world).locatePath root with
    | error e => rfl
    | ok place =>
      have hfrom : (walkFrom v rules options.following limit place world).map State.forget =
          walkFrom v rules options.staying limit place world := by
        unfold walkFrom
        dsimp only
        split
        · exact takeRootFile_forget rules place _
        · have hstart : Straight v rules place [] (initial world options.following place) :=
            ⟨linkless_root ht hr (hbelow place hr), .initial, List.Sublist.refl _⟩
          exact drain_straight hv rules options limit hstart
      dsimp only
      rw [← hfrom, Recorded.andThen_map]
      rfl
  refine ⟨hsame, ?_⟩
  rw [hsame]
  refine List.countP_eq_zero.mpr fun e he => ?_
  simp [walk_lacks v rules (Options.staying_followLinks options) limit root world e he]

end Runs

theorem trio_linkless (loc : Location) (target : Bytes) : trio.kindAt? loc ≠ some (.link target) := by
  intro hlink
  rcases List.eq_nil_or_concat loc with rfl | ⟨dir, name, rfl⟩
  · cases hlink
  · rw [List.concat_eq_append, Tree.kindAt?_append_singleton] at hlink
    simpa [trio] using Tree.mem_of_find? hlink

/-- The directory `b` is gone already when it is to be queued. -/
theorem walk_linkless_trio :
    reaper.MakesNoLinks ∧ trio.WellFormed ∧ trio.locatePath [Path.slash] = .ok [] ∧
    (∀ names, names ≠ [] → ∀ target, trio.kindAt? ([] ++ names) ≠ some (.link target)) ∧
    walk reaper {} ({} : Options).following 9 [Path.slash] trio =
      walk reaper {} ({} : Options).staying 9 [Path.slash] trio ∧
    (walk reaper {} ({} : Options).following 9 [Path.slash] trio).outcome =
      .ok { rootFound := true, files := 2, dirs := 3, unreadable := [[[0x62]]] } := by
  have ht : trio.WellFormed := ⟨by decide, by decide⟩
  have hbelow : ∀ place, trio.locatePath [Path.slash] = .ok place →
      ∀ names, names ≠ [] → ∀ target, trio.kindAt? (place ++ names) ≠ some (.link target) :=
    fun place _ names _ => trio_linkless (place ++ names)
  obtain ⟨hsame, -⟩ := walk_linkless reaper_makesNoLinks {} {} 9 ht hbelow
  exact ⟨reaper_makesNoLinks, ht, by cbv, fun names _ => trio_linkless names, hsame, by cbv⟩

end Fileset.Walk
