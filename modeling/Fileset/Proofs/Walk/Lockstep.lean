import Fileset.Proofs.Tree.Reordered
import Fileset.Proofs.Walk.Quiet

namespace Fileset.Walk

namespace Recorded

/-- Two computations in step: they leave one trace, and values, or reasons to end, that belong together.
The second may be cut off at the first entry at which `cuts` allows it. -/
inductive InStep (cuts : Notice → ε' → Prop) (ends : ε → ε' → Prop) (rel : α → β → Prop) :
    Recorded ε α → Recorded ε' β → Prop
  | through (t : Trace) (ht : ∀ n ∈ t.notices, ∀ e, ¬cuts n e) {a : α} {b : β} (h : rel a b) :
      InStep cuts ends rel ⟨t, .ok a⟩ ⟨t, .ok b⟩
  | ended (t : Trace) (ht : ∀ n ∈ t.notices, ∀ e, ¬cuts n e) {e : ε} {e' : ε'} (h : ends e e') :
      InStep cuts ends rel ⟨t, .error e⟩ ⟨t, .error e'⟩
  | cut (t : Trace) (ht : ∀ n ∈ t.notices, ∀ e, ¬cuts n e) {n : Notice} (more : Trace)
      (result : Except ε α) {e' : ε'} (h : cuts n e') :
      InStep cuts ends rel ⟨t ++ .notice n :: more, result⟩ ⟨t, .error e'⟩

namespace InStep

variable {cuts : Notice → ε' → Prop} {ends : ε → ε' → Prop} {rel : α → β → Prop}
  {r : Recorded ε α} {r' : Recorded ε' β}

theorem ok {a : α} {b : β} (h : rel a b) :
    InStep cuts ends rel (Recorded.ok a : Recorded ε α) (.ok b) :=
  .through [] (by simp [Trace.notices]) h

theorem stop {e : ε} {e' : ε'} (h : ends e e') :
    InStep cuts ends rel (Recorded.stop e : Recorded ε α) (.stop e' : Recorded ε' β) :=
  .ended [] (by simp [Trace.notices]) h

/-- Both have left the same events before, none of which may cut the second off. -/
theorem record (h : InStep cuts ends rel r r') {t : Trace}
    (ht : ∀ n ∈ t.notices, ∀ e, ¬cuts n e) : InStep cuts ends rel (record t r) (record t r') := by
  have hboth {u : Trace} (hu : ∀ n ∈ u.notices, ∀ e, ¬cuts n e) :
      ∀ n ∈ (t ++ u).notices, ∀ e, ¬cuts n e := by
    intro n hn
    rw [Trace.notices_append] at hn
    exact (List.mem_append.mp hn).elim (ht n) (hu n)
  cases h with
  | through u hu h => exact .through (t ++ u) (hboth hu) h
  | ended u hu h => exact .ended (t ++ u) (hboth hu) h
  | @cut u hu n more result e' h =>
    have hcut : InStep cuts ends rel ⟨t ++ u ++ .notice n :: more, result⟩ ⟨t ++ u, .error e'⟩ :=
      .cut (t ++ u) (hboth hu) more result h
    rwa [List.append_assoc] at hcut

theorem log (h : InStep cuts ends rel r r') (lines : List LogLine) :
    InStep cuts ends rel (Recorded.record (lines.map .log) r) (Recorded.record (lines.map .log) r') :=
  h.record (by simp [Trace.notices_log])

theorem andThen {rel' : γ → δ → Prop} {f : α → Recorded ε γ} {g : β → Recorded ε' δ}
    (h : InStep cuts ends rel r r') (hf : ∀ a b, rel a b → InStep cuts ends rel' (f a) (g b)) :
    InStep cuts ends rel' (r.andThen f) (r'.andThen g) := by
  cases h with
  | @through t ht a b h => exact (hf a b h).record ht
  | ended t ht h => exact .ended t ht h
  | @cut t ht n more result e' h =>
    cases result with
    | ok a =>
      have hcut : InStep cuts ends rel' ⟨t ++ .notice n :: (more ++ (f a).trace), (f a).result⟩
          ⟨t, .error e'⟩ := .cut t ht (more ++ (f a).trace) (f a).result h
      rwa [← List.cons_append, ← List.append_assoc] at hcut
    | error e => exact .cut t ht more (.error e) h

theorem mono {rel' : α → β → Prop} (h : InStep cuts ends rel r r') (hrel : ∀ a b, rel a b → rel' a b) :
    InStep cuts ends rel' r r' := by
  cases h with
  | through t ht h => exact .through t ht (hrel _ _ h)
  | ended t ht h => exact .ended t ht h
  | cut t ht more result h => exact .cut t ht more result h

end InStep

def Alike (ends : ε → ε' → Prop) (rel : α → β → Prop) : Recorded ε α → Recorded ε' β → Prop :=
  InStep (fun _ _ => False) ends rel

end Recorded

section Companions

/-- How two visitors answer to one entry: both take it, both refuse it for the same reason, or the second
alone refuses it, where `cuts` allows it. -/
inductive Answers (alike : ω → ω → Prop) (cuts : Notice → Halt ω ε → Prop) (n : Notice) :
    ω × Option ε → ω × Option ε → Prop
  | taken {w w' : ω} (h : alike w w') (hn : ∀ e, ¬cuts n e) :
      Answers alike cuts n (w, none) (w', none)
  | refused {w w' : ω} (e : ε) (h : alike w w') : Answers alike cuts n (w, some e) (w', some e)
  | cut {w w' : ω} {e : ε} (h : cuts n ⟨.refused n e, w'⟩) :
      Answers alike cuts n (w, none) (w', some e)

/-- What keeps the walks of two visitors in step. The directories that wait are those that the first
visitor `sees`. -/
structure Companions (v v' : Visitor ω ε) (rules : Rules) (options : Options)
    (alike : ω → ω → Prop) (sees : ω → Pending → Prop) (cuts : Notice → Halt ω ε → Prop) : Prop where
  answers : ∀ {w w'} n, alike w w' → Answers alike cuts n (v.visit n w) (v'.visit n w')
  stays : ∀ {w d} n, sees w d → sees (v.visit n w).1 d
  opens : ∀ {w d e}, sees w d → e ∈ opens (v.tree w) rules options d → sees w e
  list : ∀ {w w' d}, alike w w' → sees w d →
    list (v'.tree w') options d.location = list (v.tree w) options d.location
  place : options.followLinks = true → ∀ {w w' d}, alike w w' → sees w d →
    (v'.tree w').locateAt d.location = (v.tree w).locateAt d.location

structure Halt.InStep (v : Visitor ω ε) (alike : ω → ω → Prop) (h h' : Halt ω ε) : Prop where
  stop : h'.stop = h.stop
  worlds : alike h.world h'.world
  refusal : h.refused ≠ [] → v.Refuses

def Recorded.outcome (r : Step ω ε (ω × Summary)) : Except (Stop ε) Summary :=
  match r.result with
  | .ok out => .ok out.2
  | .error h => .error h.stop

/-- Walks in step to the end do and come to the same. -/
theorem Recorded.Alike.outcome {v : Visitor ω ε} {alike : ω → ω → Prop}
    {r r' : Step ω ε (ω × Summary)} (h : r.Alike (Halt.InStep v alike) (fun a b => b.2 = a.2) r') :
    r'.trace = r.trace ∧ r'.outcome = r.outcome := by
  cases h with
  | through t ht h => exact ⟨rfl, congrArg Except.ok h⟩
  | ended t ht h => exact ⟨rfl, congrArg Except.error h.stop⟩
  | cut t ht more result h => exact h.elim

/-- What a walk did and came to tells what its visitor was called with. -/
theorem Recorded.calls_of_outcome {r r' : Step ω ε (ω × Summary)} (htrace : r'.trace = r.trace)
    (houtcome : r'.outcome = r.outcome) : r'.calls = r.calls := by
  unfold Recorded.outcome at houtcome
  unfold Recorded.calls Halt.refused
  rw [htrace]
  cases hr : r.result with
  | ok out => cases hr' : r'.result <;> simp_all
  | error h => cases hr' : r'.result <;> simp_all

structure State.InStep (alike : ω → ω → Prop) (sees : ω → Pending → Prop) (ds : List Pending)
    (s s' : State ω) : Prop where
  worlds : alike s.world s'.world
  queue : s'.queue = s.queue
  walked : s'.walked = s.walked
  summary : s'.summary = s.summary
  seen : ∀ d ∈ ds ++ s.queue, sees s.world d

variable {v v' : Visitor ω ε} {rules : Rules} {options : Options} {alike : ω → ω → Prop}
  {sees : ω → Pending → Prop} {cuts : Notice → Halt ω ε → Prop}
  (h : Companions v v' rules options alike sees cuts) {ds : List Pending} {s s' : State ω}
include h

theorem visit_inStep (n : Notice) (hs : s.InStep alike sees ds s') :
    (visit v n s).InStep cuts (Halt.InStep v alike) (State.InStep alike sees ds) (visit v' n s') := by
  have hseen : ∀ d ∈ ds ++ s.queue, sees (v.visit n s.world).1 d :=
    fun d hd => h.stays n (hs.seen d hd)
  have hanswers := h.answers n hs.worlds
  unfold visit
  generalize hout : v.visit n s.world = out at hanswers hseen
  generalize v'.visit n s'.world = out' at hanswers
  cases hanswers with
  | taken hw hn =>
    refine .record (.ok ?_) (by simpa [Trace.notices] using hn)
    exact ⟨hw, hs.queue, hs.walked, congrArg (countVisit · n.path.isFile) hs.summary, hseen⟩
  | refused e hw => exact .stop ⟨rfl, hw, fun _ => ⟨n, s.world, by simp [hout]⟩⟩
  | cut hcut => exact .cut [] (by simp [Trace.notices]) [] _ hcut

theorem takeChildren_inStep (dir : Pending) (cs : List Child) (hs : s.InStep alike sees ds s') :
    (takeChildren v rules dir cs s).InStep cuts (Halt.InStep v alike)
      (fun a b => a.1.InStep alike sees ds b.1 ∧ a.2 = admittedDirs rules dir cs ∧ b.2 = a.2)
      (takeChildren v' rules dir cs s') := by
  induction cs generalizing s s' with
  | nil => exact .ok ⟨hs, rfl, rfl⟩
  | cons c cs ih =>
    simp only [takeChildren]
    cases hadmits : rules.admits (c.path dir.path) with
    | true =>
      cases hdir : c.isDir with
      | true =>
        have hdirs : admittedDirs rules dir (c :: cs) =
            ⟨c.location dir.location, c.path dir.path⟩ :: admittedDirs rules dir cs := by
          simp [admittedDirs, hadmits, hdir]
        refine (ih hs).andThen ?_
        rintro ⟨s₁, dirs⟩ ⟨s₂, dirs'⟩ ⟨hs, hmine, hyours⟩
        exact .ok ⟨hs, by rw [hdirs, ← hmine], by rw [← hyours]⟩
      | false =>
        have hdirs : admittedDirs rules dir (c :: cs) = admittedDirs rules dir cs := by
          simp [admittedDirs, hadmits, hdir]
        rw [hdirs]
        exact (visit_inStep h _ hs).andThen fun a b hab => ih hab
    | false =>
      have hdirs : admittedDirs rules dir (c :: cs) = admittedDirs rules dir cs := by
        simp [admittedDirs, hadmits]
      rw [hdirs]
      cases c.isDir with
      | true =>
        refine (ih ?_).log [.pruned _]
        exact ⟨hs.worlds, hs.queue, hs.walked, by simp [State.countPruned, hs.summary], hs.seen⟩
      | false => exact ih hs

theorem enqueue_inStep {d : Pending} (hd : d ∈ ds) (hs : s.InStep alike sees ds s') :
    (enqueue v options.followLinks d s).InStep cuts (Halt.InStep v alike)
      (State.InStep alike sees ds) (enqueue v' options.followLinks d s') := by
  have hsees : sees s.world d := hs.seen d (List.mem_append_left _ hd)
  have hqueue : s'.queue ++ [d] = s.queue ++ [d] := by rw [hs.queue]
  have hseen : ∀ e ∈ ds ++ (s.queue ++ [d]), sees s.world e := by
    intro e he
    rw [← List.append_assoc] at he
    rcases List.mem_append.mp he with he | he
    · exact hs.seen e he
    · rwa [List.mem_singleton.mp he]
  unfold enqueue
  cases hf : options.followLinks with
  | false => exact .ok ⟨hs.worlds, hqueue, hs.walked, hs.summary, hseen⟩
  | true =>
    rw [if_pos rfl, if_pos rfl, h.place hf hs.worlds hsees, hs.walked]
    dsimp only
    split
    · exact (Recorded.InStep.ok hs).log [.alreadyWalked _]
    · exact .ok ⟨hs.worlds, hqueue, rfl, hs.summary, hseen⟩

theorem takeDirs_inStep {more : List Pending} (hmore : more ⊆ ds)
    (hs : s.InStep alike sees ds s') :
    (takeDirs v options.followLinks more s).InStep cuts (Halt.InStep v alike)
      (State.InStep alike sees ds) (takeDirs v' options.followLinks more s') := by
  induction more generalizing s s' with
  | nil => exact .ok hs
  | cons d more ih =>
    obtain ⟨hd, hmore⟩ := List.cons_subset.mp hmore
    refine (visit_inStep h d.notice hs).andThen fun a b hab => ?_
    exact (enqueue_inStep h hd hab).andThen fun a b hab => ih hmore hab

theorem takeDirectory_inStep {dir : Pending} (hdir : sees s.world dir)
    (hs : s.InStep alike sees [] s') :
    (takeDirectory v rules options dir s).InStep cuts (Halt.InStep v alike)
      (State.InStep alike sees []) (takeDirectory v' rules options dir s') := by
  unfold takeDirectory
  rw [h.list hs.worlds hdir]
  cases hlist : list (v.tree s.world) options dir.location with
  | error cause =>
    cases options.onUnreadable with
    | abort => exact .stop ⟨rfl, hs.worlds, by simp [Halt.refused]⟩
    | skip =>
      refine (Recorded.InStep.ok ?_).log [.unreadable _ _]
      exact ⟨hs.worlds, hs.queue, hs.walked, by simp [hs.summary], hs.seen⟩
  | ok listing =>
    have hopens : opens (v.tree s.world) rules options dir =
        admittedDirs rules dir listing.children := by rw [Walk.opens, children_of_ok hlist]
    have hds : s.InStep alike sees (admittedDirs rules dir listing.children) s' := by
      refine ⟨hs.worlds, hs.queue, hs.walked, hs.summary, fun d hd => ?_⟩
      rcases List.mem_append.mp hd with hd | hd
      · exact h.opens hdir (hopens ▸ hd)
      · exact hs.seen d hd
    refine Recorded.InStep.log ?_ listing.skipped
    refine (takeChildren_inStep h dir listing.children hds).andThen ?_
    rintro ⟨s₁, dirs⟩ ⟨s₂, dirs'⟩ ⟨hs, rfl, rfl⟩
    refine (takeDirs_inStep h (List.Subset.refl _) hs).mono fun a b hab => ?_
    exact ⟨hab.worlds, hab.queue, hab.walked, hab.summary,
      fun d hd => hab.seen d (List.mem_append_right _ hd)⟩

theorem drain_inStep (limit : Nat) (hs : s.InStep alike sees [] s') :
    (drain v rules options limit s).InStep cuts (Halt.InStep v alike) (State.InStep alike sees [])
      (drain v' rules options limit s') := by
  induction limit generalizing s s' with
  | zero =>
    unfold drain
    rw [hs.queue]
    cases s.queue with
    | nil => exact .ok hs
    | cons dir queue => exact .stop ⟨rfl, hs.worlds, by simp [Halt.refused]⟩
  | succ limit ih =>
    unfold drain
    rw [hs.queue]
    cases hq : s.queue with
    | nil => exact .ok hs
    | cons dir queue =>
      have hseen : ∀ d ∈ dir :: queue, sees s.world d := by simpa [hq] using hs.seen
      have hnext : State.InStep alike sees [] { s with queue } { s' with queue } :=
        ⟨hs.worlds, rfl, hs.walked, hs.summary, fun d hd => hseen d (List.mem_cons_of_mem _ hd)⟩
      refine (takeDirectory_inStep h (s := { s with queue }) ?_ hnext).andThen fun a b hab => ih hab
      exact hseen dir List.mem_cons_self

theorem takeRootFile_inStep (file : Location) (hs : s.InStep alike sees [] s') :
    (takeRootFile v rules file s).InStep cuts (Halt.InStep v alike) (State.InStep alike sees [])
      (takeRootFile v' rules file s') := by
  unfold takeRootFile
  split
  · exact (Recorded.InStep.ok hs).log [.rootNotText file]
  · dsimp only
    split
    · exact visit_inStep h _ hs
    · exact (Recorded.InStep.ok hs).log [.rootRejected _]

theorem walk_inStep (limit : Nat) {root : Bytes} {world world' : ω} (hw : alike world world')
    (hroot : (v'.tree world').locatePath root = (v.tree world).locatePath root)
    (hplace : ∀ place, (v.tree world).locatePath root = .ok place →
      (v'.tree world').isFile place = (v.tree world).isFile place ∧
      sees world ⟨place, .root false⟩) :
    (walk v rules options limit root world).InStep cuts (Halt.InStep v alike)
      (fun a b => alike a.1 b.1 ∧ b.2 = a.2) (walk v' rules options limit root world') := by
  unfold walk
  rw [hroot]
  cases hr : (v.tree world).locatePath root with
  | error e => exact (Recorded.InStep.ok ⟨hw, rfl⟩).log [.rootMissing _, .rootUnresolved e]
  | ok place =>
    obtain ⟨hfile, hsees⟩ := hplace place hr
    have hstart : State.InStep alike sees [] (initial world options place)
        (initial world' options place) := ⟨hw, rfl, rfl, rfl, by simpa [initial] using hsees⟩
    have hfrom : (walkFrom v rules options limit place world).InStep cuts (Halt.InStep v alike)
        (State.InStep alike sees []) (walkFrom v' rules options limit place world') := by
      unfold walkFrom
      dsimp only
      rw [hfile]
      split
      · exact takeRootFile_inStep h place ⟨hw, rfl, rfl, rfl, by simp⟩
      · exact drain_inStep h limit hstart
    refine hfrom.andThen fun a b hab => ?_
    rw [hab.summary]
    exact (Recorded.InStep.ok ⟨hab.worlds, rfl⟩).log [a.summary.closing]

end Companions

structure SameView (options : Options) (t t' : Tree) : Prop where
  isFile : ∀ loc, t'.isFile loc = t.isFile loc
  locateAt : ∀ loc, t'.locateAt loc = t.locateAt loc
  locatePath : ∀ path, t'.locatePath path = t.locatePath path
  list : ∀ dir, list t' options dir = list t options dir

theorem byName_perm {entries entries' : List (Bytes × Tree.Kind)} (h : entries'.Perm entries)
    (hnodup : (entries.map Prod.fst).Nodup) : byName entries' = byName entries := by
  have hsorted : (byName entries').Perm (byName entries) :=
    (List.mergeSort_perm _ _).trans (h.trans (List.mergeSort_perm _ _).symm)
  refine hsorted.eq_of_pairwise ?_ (byName_pairwise entries') (byName_pairwise entries)
  intro a b ha hb hab hba
  have ha' := h.mem_iff.mp ((List.mergeSort_perm entries' _).mem_iff.mp ha)
  have hb' := (List.mergeSort_perm entries _).mem_iff.mp hb
  exact List.inj_on_of_nodup_map hnodup ha' hb' (Bytes.le_antisymm hab hba)

/-- A sorted walk does not see in which order a directory hands out its entries. -/
theorem sameView_of_perm {t t' : Tree} (hperm : t'.entries.Perm t.entries) (ht : t.WellFormed)
    {options : Options} (hs : options.sorted = true) : SameView options t t' := by
  have hfind := Tree.find?_perm hperm ht
  constructor
  case isFile => exact Tree.isFile_congr hfind
  case locateAt => exact Tree.locateAt_congr hfind
  case locatePath => exact Tree.locatePath_congr hfind
  case list =>
    intro dir
    have hentry : Child.ofEntry t' options.followLinks dir =
        Child.ofEntry t options.followLinks dir := by
      funext e
      simp only [Child.ofEntry, Tree.locateAt_congr hfind, Tree.isDirectory_congr hfind]
    refine list_congr (Tree.locateAt_congr hfind dir) fun place _ =>
      ⟨Tree.kindAt?_congr hfind place, ?_⟩
    have hsorted : byName (t'.inside place) = byName (t.inside place) :=
      byName_perm (Tree.inside_perm hperm place) (ht.inside_nodup place)
    simp only [ordered, hs, if_true, hentry, hsorted]

section SameView

variable {v : Visitor ω ε} (hv : v.Quiet) (rules : Rules) {options : Options} {t t' : Tree}
  (hsame : SameView options t t')
include hv hsame

theorem companions_of_sameView : Companions v v rules options
    (fun w w' => v.tree w = t ∧ v.tree w' = t') (fun _ _ => True) (fun _ _ => False) := by
  have htaken (n : Notice) (w : ω) : v.visit n w = ((v.visit n w).1, none) :=
    Prod.ext rfl (hv.takes n w)
  constructor
  case answers =>
    rintro w w' n ⟨hw, hw'⟩
    rw [htaken n w, htaken n w']
    exact .taken ⟨(hv.keeps n w).trans hw, (hv.keeps n w').trans hw'⟩ fun _ => id
  case stays => exact fun _ _ => trivial
  case opens => exact fun _ _ => trivial
  case list =>
    rintro w w' d ⟨rfl, rfl⟩ _
    exact hsame.list d.location
  case place =>
    rintro _ w w' d ⟨rfl, rfl⟩ _
    exact hsame.locateAt d.location

/-- Two walks keep in step if their trees look the same to them. -/
theorem walk_alike (limit : Nat) (root : Bytes) {world world' : ω} (hw : v.tree world = t)
    (hw' : v.tree world' = t') :
    (walk v rules options limit root world).Alike
      (Halt.InStep v fun w w' => v.tree w = t ∧ v.tree w' = t') (fun a b => b.2 = a.2)
      (walk v rules options limit root world') := by
  have hroot : (v.tree world').locatePath root = (v.tree world).locatePath root := by
    rw [hw, hw', hsame.locatePath]
  have hplace (place : Location) : (v.tree world').isFile place = (v.tree world).isFile place := by
    rw [hw, hw', hsame.isFile]
  have hwalk := walk_inStep (companions_of_sameView hv rules hsame) limit ⟨hw, hw'⟩ hroot
    fun place _ => ⟨hplace place, trivial⟩
  exact hwalk.mono fun a b hab => hab.2

end SameView
end Fileset.Walk
