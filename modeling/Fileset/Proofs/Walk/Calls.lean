import Fileset.Proofs.Walk.Report

namespace Fileset

namespace Walk

namespace Trace

theorem notices_append (t u : Trace) : notices (t ++ u) = notices t ++ notices u :=
  List.filterMap_append

theorem notices_log (lines : List LogLine) : notices (lines.map .log) = [] := by
  simp [notices, List.filterMap_map]

end Trace

variable {ω : Type u} {ε : Type v} {α : Type w} {β : Type x}

inductive Visitor.Reaches (v : Visitor ω ε) (world : ω) : ω → Prop
  | start : Reaches v world world
  | visit {now : ω} (n : Notice) (h : Reaches v world now) : Reaches v world (v.visit n now).1

namespace Visitor.Reaches

variable {v : Visitor ω ε} {world now later : ω}

theorem trans (h : v.Reaches world now) (h' : v.Reaches now later) : v.Reaches world later := by
  induction h' with
  | start => exact h
  | visit n _ ih => exact ih.visit n

/-- What every call keeps holds in all the worlds. -/
theorem keeps {p : ω → Prop} (hstep : ∀ n w, p w → p (v.visit n w).1) (h : v.Reaches world now)
    (hstart : p world) : p now := by
  induction h with
  | start => exact hstart
  | visit n _ ih => exact hstep n _ ih

end Visitor.Reaches

def Visitor.Refuses (v : Visitor ω ε) : Prop := ∃ n world, (v.visit n world).2 ≠ none

def Halt.refused (h : Halt ω ε) : List Notice :=
  match h.stop with
  | .refused n _ => [n]
  | _ => []

namespace Recorded

/-- The entries that the visitor is called with: those that it takes, and the one that it refuses. -/
def calls (r : Step ω ε α) : List Notice :=
  r.trace.notices ++ match r.result with
    | .ok _ => []
    | .error h => h.refused

/-- A piece that goes through has called the visitor with `ns` and leaves what `post` says; one that
ends the walk, which it does only if `may` holds, has called it with a beginning of `ns`. -/
structure Calls (r : Step ω ε α) (may : Prop) (ns : List Notice) (post : α → Prop) : Prop where
  through : ∀ a, r.result = .ok a → r.calls = ns ∧ post a
  ended : ∀ h, r.result = .error h → may ∧ r.calls <+: ns

theorem calls_ok (a : α) : (ok a : Step ω ε α).calls = [] := rfl

theorem calls_stop (h : Halt ω ε) : (stop h : Step ω ε α).calls = h.refused := rfl

theorem calls_record (t : Trace) (r : Step ω ε α) : (record t r).calls = t.notices ++ r.calls := by
  simp only [calls, record, Trace.notices_append, List.append_assoc]

theorem calls_andThen_ok {r : Step ω ε α} {a : α} (h : r.result = .ok a) (f : α → Step ω ε β) :
    (r.andThen f).calls = r.calls ++ (f a).calls := by
  have hr : r.calls = r.trace.notices := by simp [calls, h]
  simp only [andThen, h, calls_record, hr]

theorem andThen_result_ok {r : Recorded ε α} {f : α → Recorded ε β} {b : β}
    (h : (r.andThen f).result = .ok b) : ∃ a, r.result = .ok a ∧ (f a).result = .ok b := by
  unfold andThen at h
  split at h
  · exact ⟨_, ‹_›, h⟩
  · cases h

theorem calls_andThen_error {r : Step ω ε α} {h : Halt ω ε} (hr : r.result = .error h)
    (f : α → Step ω ε β) : (r.andThen f).calls = r.calls := by
  simp only [andThen, hr, calls]

variable {r : Step ω ε α} {may : Prop} {ns ms : List Notice} {post : α → Prop}

theorem Calls.ok {a : α} (h : post a) : (ok a : Step ω ε α).Calls may [] post := by
  constructor
  · intro b hb
    cases hb
    exact ⟨rfl, h⟩
  · intro e he
    cases he

theorem Calls.weaken {post' : α → Prop} (h : r.Calls may ns post) (hp : ∀ a, post a → post' a) :
    r.Calls may ns post' :=
  ⟨fun a ha => ⟨(h.through a ha).1, hp a (h.through a ha).2⟩, h.ended⟩

theorem Calls.allow {may' : Prop} (h : r.Calls may ns post) (hmay : may → may') :
    r.Calls may' ns post :=
  ⟨h.through, fun e he => ⟨hmay (h.ended e he).1, (h.ended e he).2⟩⟩

theorem Calls.log (h : r.Calls may ns post) (lines : List LogLine) :
    (record (lines.map .log) r).Calls may ns post := by
  have hcalls : (record (lines.map .log) r).calls = r.calls := by
    rw [calls_record, Trace.notices_log, List.nil_append]
  constructor
  · intro a ha
    rw [hcalls]
    exact h.through a ha
  · intro e he
    rw [hcalls]
    exact h.ended e he

theorem Calls.andThen {f : α → Step ω ε β} {post' : β → Prop} (h : r.Calls may ns post)
    (hf : ∀ a, post a → (f a).Calls may ms post') :
    (r.andThen f).Calls may (ns ++ ms) post' := by
  cases hr : r.result with
  | ok a =>
    obtain ⟨hcalls, hpost⟩ := h.through a hr
    have hresult : (r.andThen f).result = (f a).result := by simp [Recorded.andThen, hr, record]
    constructor
    · intro b hb
      rw [calls_andThen_ok hr, hcalls]
      obtain ⟨hrest, hb⟩ := (hf a hpost).through b (hresult ▸ hb)
      exact ⟨by rw [hrest], hb⟩
    · intro e he
      rw [calls_andThen_ok hr, hcalls]
      obtain ⟨hmay, hrest⟩ := (hf a hpost).ended e (hresult ▸ he)
      exact ⟨hmay, (List.prefix_append_right_inj ns).mpr hrest⟩
  | error e =>
    have hresult : (r.andThen f).result = .error e := by simp [Recorded.andThen, hr]
    constructor
    · intro b hb
      rw [hresult] at hb
      cases hb
    · intro _ _
      rw [calls_andThen_error hr]
      obtain ⟨hmay, hcalls⟩ := h.ended e hr
      exact ⟨hmay, hcalls.trans (List.prefix_append ns ms)⟩

end Recorded

def Summary.plus (s : Summary) (files dirs pruned : Nat) : Summary :=
  { s with files := s.files + files, dirs := s.dirs + dirs, pruned := s.pruned + pruned }

@[simp] theorem Summary.plus_zero (s : Summary) : s.plus 0 0 0 = s := rfl

@[simp] theorem Summary.plus_plus (s : Summary) (f d p f' d' p' : Nat) :
    (s.plus f d p).plus f' d' p' = s.plus (f + f') (d + d') (p + p') := by
  simp [plus, Nat.add_assoc]

theorem countVisit_file (s : Summary) : countVisit s true = s.plus 1 0 0 := rfl
theorem countVisit_dir (s : Summary) : countVisit s false = s.plus 0 1 0 := rfl

theorem State.countPruned_summary (s : State ω) : s.countPruned.summary = s.summary.plus 0 0 1 := rfl

def Summary.take (t : Tree) (rules : Rules) (options : Options) (dir : Pending) (s : Summary) :
    Summary :=
  match list t options dir.location with
  | .error _ => { s with unreadable := s.unreadable ++ [dir.location] }
  | .ok listing => s.plus (admittedFiles rules dir listing.children).length
      (admittedDirs rules dir listing.children).length
      (rejectedDirs rules dir listing.children).length

section Steps

variable (v : Visitor ω ε) (rules : Rules)

theorem visit_calls (n : Notice) (s : State ω) :
    (visit v n s).Calls v.Refuses [n] fun s' => s' = { s with
      world := (v.visit n s.world).1, summary := countVisit s.summary n.path.isFile } := by
  unfold visit
  cases hvisit : v.visit n s.world with
  | mk world error =>
    cases error with
    | none =>
      constructor
      · intro s' hs
        cases hs
        exact ⟨rfl, rfl⟩
      · intro h hh
        cases hh
    | some e =>
      constructor
      · intro s' hs
        cases hs
      · intro h hh
        cases hh
        exact ⟨⟨n, s.world, by simp [hvisit]⟩, List.prefix_refl [n]⟩

/-- What going through the children `cs` of `dir` leaves: their admitted directories, and a state in
which only the world and the account have changed. -/
structure TookChildren (dir : Pending) (cs : List Child) (s : State ω)
    (left : State ω × List Pending) : Prop where
  world : v.Reaches s.world left.1.world
  queue : left.1.queue = s.queue
  walked : left.1.walked = s.walked
  summary : left.1.summary = s.summary.plus (admittedFiles rules dir cs).length 0
    (rejectedDirs rules dir cs).length
  dirs : left.2 = admittedDirs rules dir cs

theorem takeChildren_calls (dir : Pending) (cs : List Child) (s : State ω) :
    (takeChildren v rules dir cs s).Calls v.Refuses (admittedFiles rules dir cs)
      (TookChildren v rules dir cs s) := by
  induction cs generalizing s with
  | nil => exact .ok ⟨.start, rfl, rfl, rfl, rfl⟩
  | cons c cs ih =>
    simp only [takeChildren]
    cases hadmits : rules.admits (c.path dir.path) with
    | true =>
      cases hdir : c.isDir with
      | true =>
        have hfiles : admittedFiles rules dir (c :: cs) = admittedFiles rules dir cs ++ [] := by
          simp [admittedFiles, hadmits, hdir]
        rw [hfiles]
        refine (ih s).andThen fun left h => .ok ⟨h.world, h.queue, h.walked, ?_, ?_⟩
        · simpa [admittedFiles, rejectedDirs, hadmits, hdir] using h.summary
        · simp [admittedDirs, hadmits, hdir, h.dirs]
      | false =>
        have hfiles : admittedFiles rules dir (c :: cs) =
            [⟨c.location dir.location, c.path dir.path⟩] ++ admittedFiles rules dir cs := by
          simp [admittedFiles, hadmits, hdir]
        rw [hfiles]
        refine (visit_calls v _ s).andThen fun s₁ hs₁ => ?_
        subst hs₁
        refine (ih _).weaken fun left h => ⟨(Visitor.Reaches.start.visit _).trans h.world, h.queue,
          h.walked, ?_, ?_⟩
        · have hfile : (c.path dir.path).isFile = true := by simp [Child.path, RelPath.child, hdir]
          simp [h.summary, hfile, countVisit_file, hfiles, rejectedDirs, hadmits, Nat.add_comm]
        · simp [admittedDirs, hadmits, hdir, h.dirs]
    | false =>
      have hfiles : admittedFiles rules dir (c :: cs) = admittedFiles rules dir cs := by
        simp [admittedFiles, hadmits]
      rw [hfiles]
      cases hdir : c.isDir with
      | true =>
        refine ((ih s.countPruned).log [.pruned _]).weaken fun left h =>
          ⟨h.world, h.queue, h.walked, ?_, ?_⟩
        · simp [h.summary, State.countPruned_summary, hfiles, rejectedDirs, hadmits, hdir,
            Nat.add_comm]
        · simp [admittedDirs, hadmits, h.dirs]
      | false =>
        refine (ih s).weaken fun left h => ⟨h.world, h.queue, h.walked, ?_, ?_⟩
        · simpa [admittedFiles, rejectedDirs, hadmits, hdir] using h.summary
        · simp [admittedDirs, hadmits, h.dirs]

theorem enqueue_calls (follow : Bool) (d : Pending) (s : State ω) :
    (enqueue v follow d s).Calls v.Refuses [] fun s' => s'.world = s.world ∧ s'.summary = s.summary ∧
      (s'.queue = s.queue ++ [d] ∨ s'.queue = s.queue ∧ follow = true) := by
  unfold enqueue
  cases follow with
  | false => exact .ok ⟨rfl, rfl, .inl rfl⟩
  | true =>
    rw [if_pos rfl]
    dsimp only
    split
    · refine .log (.ok ?_) [.alreadyWalked d.location]
      exact ⟨rfl, rfl, .inr ⟨rfl, rfl⟩⟩
    · exact .ok ⟨rfl, rfl, .inl rfl⟩

structure TookDirs (follow : Bool) (ds : List Pending) (s s' : State ω) : Prop where
  world : v.Reaches s.world s'.world
  summary : s'.summary = s.summary.plus 0 ds.length 0
  queue : ∃ more, s'.queue = s.queue ++ more ∧ more.Sublist ds ∧ (follow = false → more = ds)

theorem takeDirs_calls (follow : Bool) (ds : List Pending) (s : State ω)
    (hds : ∀ d ∈ ds, d.path.isFile = false) :
    (takeDirs v follow ds s).Calls v.Refuses (ds.map Pending.notice) (TookDirs v follow ds s) := by
  induction ds generalizing s with
  | nil => exact .ok ⟨.start, rfl, [], by simp⟩
  | cons d ds ih =>
    have hd : d.notice.path.isFile = false := hds d List.mem_cons_self
    have hall : (d :: ds).map Pending.notice = [d.notice] ++ ([] ++ ds.map Pending.notice) := rfl
    rw [hall]
    refine (visit_calls v d.notice s).andThen fun s₁ hs₁ => ?_
    refine (enqueue_calls v follow d s₁).andThen fun s₂ hs₂ => ?_
    obtain ⟨hworld, hsummary, hqueue⟩ := hs₂
    subst hs₁
    refine (ih s₂ fun d hd => hds d (List.mem_cons_of_mem _ hd)).weaken fun s' h => ⟨?_, ?_, ?_⟩
    · have hworld' := h.world
      rw [hworld] at hworld'
      exact (Visitor.Reaches.start.visit d.notice).trans hworld'
    · simp [h.summary, hsummary, hd, countVisit_dir, Nat.add_comm]
    · obtain ⟨more, hmore, hsub, hall⟩ := h.queue
      rcases hqueue with hnew | ⟨hold, hfollow⟩
      · exact ⟨d :: more, by simp [hmore, hnew], hsub.cons_cons d, fun hf => by rw [hall hf]⟩
      · exact ⟨more, by simp [hmore, hold], hsub.cons d, fun hf => by simp [hf] at hfollow⟩

end Steps

structure TookDirectory (v : Visitor ω ε) (rules : Rules) (options : Options) (dir : Pending)
    (s s' : State ω) : Prop where
  world : v.Reaches s.world s'.world
  summary : s'.summary = s.summary.take (v.tree s.world) rules options dir
  queue : ∃ more, s'.queue = s.queue ++ more ∧
    more.Sublist (opens (v.tree s.world) rules options dir) ∧
    (options.followLinks = false → more = opens (v.tree s.world) rules options dir)

theorem takeDirectory_calls (v : Visitor ω ε) (rules : Rules) (options : Options) (dir : Pending)
    (s : State ω) :
    (takeDirectory v rules options dir s).Calls
      (v.Refuses ∨ ∃ cause, list (v.tree s.world) options dir.location = .error cause)
      (reports (v.tree s.world) rules options dir) (TookDirectory v rules options dir s) := by
  unfold takeDirectory
  cases hl : list (v.tree s.world) options dir.location with
  | error cause =>
    rw [reports_of_error hl]
    cases options.onUnreadable with
    | abort =>
      constructor
      · intro s' hs
        cases hs
      · intro h hh
        cases hh
        exact ⟨.inr ⟨cause, rfl⟩, List.nil_prefix⟩
    | skip =>
      refine .log (.ok ?_) [.unreadable dir.location cause]
      exact ⟨.start, by simp [Summary.take, hl], [], by simp [opens_of_error hl]⟩
  | ok listing =>
    have hopens : opens (v.tree s.world) rules options dir =
        admittedDirs rules dir listing.children := by rw [opens, children_of_ok hl]
    have hreports : reports (v.tree s.world) rules options dir =
        admittedFiles rules dir listing.children ++
          (admittedDirs rules dir listing.children).map Pending.notice := by
      rw [reports, hopens, children_of_ok hl]
    rw [hreports]
    refine Recorded.Calls.allow ?_ .inl
    refine .log ?_ listing.skipped
    refine (takeChildren_calls v rules dir listing.children s).andThen ?_
    rintro ⟨s₁, dirs⟩ h
    obtain rfl : dirs = admittedDirs rules dir listing.children := h.dirs
    refine (takeDirs_calls v options.followLinks _ s₁ admittedDirs_isFile).weaken fun s' h' => ?_
    obtain ⟨more, hmore, hsub, hall⟩ := h'.queue
    refine ⟨h.world.trans h'.world, ?_, more, ?_, hopens ▸ hsub, hopens ▸ hall⟩
    · have hsummary : s₁.summary = _ := h.summary
      rw [h'.summary, hsummary]
      simp [Summary.take, hl]
    · have hqueue : s₁.queue = s.queue := h.queue
      rw [hmore, hqueue]

/-- What holds of the calls so far and of the queue, and is kept whenever a directory is taken in a tree
of a known kind, holds up to the end of the walk. The last directory may be taken only in part. -/
theorem drain_keeps {v : Visitor ω ε} {rules : Rules} {options : Options} {known : Tree → Prop}
    (inv : List Notice → List Pending → Prop)
    (hstep : ∀ t ns dir queue more, known t → inv ns (dir :: queue) →
      more.Sublist (opens t rules options dir) →
      inv (ns ++ reports t rules options dir) (queue ++ more))
    (limit : Nat) {s : State ω} (hknown : ∀ w, v.Reaches s.world w → known (v.tree w))
    {ns : List Notice} (h : inv ns s.queue) :
    ∃ all rest, inv all rest ∧ ns ++ (drain v rules options limit s).calls <+: all := by
  induction limit generalizing s ns with
  | zero =>
    refine ⟨ns, s.queue, h, ?_⟩
    cases hq : s.queue with
    | nil => simp [drain, hq, Recorded.calls_ok]
    | cons dir queue => simp [drain, hq, Recorded.calls_stop, Halt.refused]
  | succ limit ih =>
    cases hq : s.queue with
    | nil => exact ⟨ns, s.queue, h, by simp [drain, hq, Recorded.calls_ok]⟩
    | cons dir queue =>
      have htook := takeDirectory_calls v rules options dir { s with queue }
      have hnow := hknown s.world .start
      rw [hq] at h
      simp only [drain, hq]
      cases hr : (takeDirectory v rules options dir { s with queue }).result with
      | error e =>
        rw [Recorded.calls_andThen_error hr]
        refine ⟨_, _, hstep (v.tree s.world) ns dir queue [] hnow h (List.nil_sublist _), ?_⟩
        exact (List.prefix_append_right_inj ns).mpr (htook.ended e hr).2
      | ok s' =>
        obtain ⟨hcalls, hleft⟩ := htook.through s' hr
        obtain ⟨more, hmore, hsub, _⟩ := hleft.queue
        have hnext := hstep (v.tree s.world) ns dir queue more hnow h hsub
        rw [Recorded.calls_andThen_ok hr, hcalls, ← List.append_assoc]
        exact ih (fun w hw => hknown w (hleft.world.trans hw)) (hmore ▸ hnext)

/-- The line that ends a walk is no call. -/
theorem walk_calls_from {v : Visitor ω ε} {rules : Rules} {options : Options} {limit : Nat}
    {root : Bytes} {world : ω} {place : Location} (hr : (v.tree world).locatePath root = .ok place) :
    (walk v rules options limit root world).calls =
      (walkFrom v rules options limit place world).calls := by
  simp only [walk, hr]
  cases hres : (walkFrom v rules options limit place world).result with
  | error e => rw [Recorded.calls_andThen_error hres]
  | ok s =>
    rw [Recorded.calls_andThen_ok hres, Recorded.calls_record, Recorded.calls_ok]
    simp [Trace.notices]

theorem walkFrom_drain {v : Visitor ω ε} {rules : Rules} {options : Options} {limit : Nat}
    {place : Location} {world : ω} (hroot : (v.tree world).isFile place = false) :
    walkFrom v rules options limit place world =
      drain v rules options limit (initial world options place) := by
  simp only [walkFrom, hroot, Bool.false_eq_true, if_false]

theorem walk_result_from {v : Visitor ω ε} {rules : Rules} {options : Options} {limit : Nat}
    {root : Bytes} {world : ω} {place : Location} (hr : (v.tree world).locatePath root = .ok place)
    {out : ω × Summary} (hout : (walk v rules options limit root world).result = .ok out) :
    ∃ s, (walkFrom v rules options limit place world).result = .ok s ∧
      out = (s.world, s.summary) := by
  simp only [walk, hr] at hout
  obtain ⟨s, hs, hend⟩ := Recorded.andThen_result_ok hout
  exact ⟨s, hs, (Except.ok.inj hend).symm⟩

/-- A walk from a directory calls the visitor with what the queue brings up. -/
theorem walk_calls {v : Visitor ω ε} {rules : Rules} {options : Options} {limit : Nat}
    {root : Bytes} {world : ω} {place : Location}
    (hr : (v.tree world).locatePath root = .ok place)
    (hd : (v.tree world).isDirectory place = true) :
    (walk v rules options limit root world).calls =
      (drain v rules options limit (initial world options place)).calls := by
  rw [walk_calls_from hr, walkFrom_drain (Tree.isFile_of_isDirectory hd)]

end Walk
end Fileset
