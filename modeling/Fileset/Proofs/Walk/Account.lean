import Fileset.Proofs.Walk.Pruning
import Fileset.Proofs.Walk.Recorded

namespace Fileset.Walk

namespace Event

def reportsFile : Event → Bool
  | .notice n => n.path.isFile
  | .log _ => false

def reportsDirectory : Event → Bool
  | .notice n => !n.path.isFile
  | .log _ => false

def prunes : Event → Bool
  | .log (.pruned _) => true
  | _ => false

def passesBy : Event → Bool
  | .log (.alreadyWalked _) => true
  | _ => false

end Event

namespace Trace

theorem countP_reportsFile (t : Trace) :
    t.countP Event.reportsFile = t.notices.countP fun n => n.path.isFile := by
  rw [notices, List.countP_filterMap]
  refine List.countP_congr fun e _ => ?_
  cases e <;> simp [Event.reportsFile]

theorem countP_reportsDirectory (t : Trace) :
    t.countP Event.reportsDirectory = t.notices.countP fun n => !n.path.isFile := by
  rw [notices, List.countP_filterMap]
  refine List.countP_congr fun e _ => ?_
  cases e <;> simp [Event.reportsDirectory]

end Trace

/-- The trace accounts for what lies between two states, if so many directories were taken off the
queue in between. -/
structure Balanced (taken : Nat) (s : State ω) (t : Trace) (s' : State ω) : Prop where
  files : s'.summary.files = s.summary.files + t.countP Event.reportsFile
  dirs : s'.summary.dirs = s.summary.dirs + t.countP Event.reportsDirectory
  pruned : s'.summary.pruned = s.summary.pruned + t.countP Event.prunes
  /-- Whatever is reported waits in the queue then, unless it is passed by. -/
  queue : s'.queue.length + t.countP Event.passesBy + taken =
    s.queue.length + t.countP Event.reportsDirectory

namespace Balanced

variable {taken more : Nat} {s s₁ s' : State ω} {t u : Trace}

theorem refl (s : State ω) : Balanced 0 s [] s := ⟨rfl, rfl, rfl, rfl⟩

theorem trans (h : Balanced taken s t s₁) (h' : Balanced more s₁ u s') :
    Balanced (taken + more) s (t ++ u) s' := by
  constructor
  case files => rw [h'.files, h.files, List.countP_append, Nat.add_assoc]
  case dirs => rw [h'.dirs, h.dirs, List.countP_append, Nat.add_assoc]
  case pruned => rw [h'.pruned, h.pruned, List.countP_append, Nat.add_assoc]
  case queue =>
    have hfirst := h.queue
    have hsecond := h'.queue
    rw [List.countP_append, List.countP_append]
    omega

theorem pop {dir : Pending} {queue : List Pending} (hq : s.queue = dir :: queue)
    (h : Balanced taken { s with queue } t s') : Balanced (taken + 1) s t s' := by
  refine ⟨h.files, h.dirs, h.pruned, ?_⟩
  have hrest : s'.queue.length + t.countP Event.passesBy + taken =
      queue.length + t.countP Event.reportsDirectory := h.queue
  rw [hq, List.length_cons]
  omega

/-- Lines of the log about anything else change nothing. -/
theorem lines {ls : List LogLine}
    (h : ∀ l ∈ ls, Event.prunes (.log l) = false ∧ Event.passesBy (.log l) = false)
    (hs : Balanced taken s t s') : Balanced taken s (ls.map .log ++ t) s' := by
  have hnone {p : Event → Bool} (hp : ∀ l ∈ ls, p (.log l) = false) : (ls.map .log).countP p = 0 := by
    rw [List.countP_map]
    exact List.countP_eq_zero.mpr fun l hl => by simp [hp l hl]
  have hlines : Balanced 0 s (ls.map .log) s := by
    constructor
    case files => rw [hnone fun _ _ => rfl]; rfl
    case dirs => rw [hnone fun _ _ => rfl]; rfl
    case pruned => rw [hnone fun l hl => (h l hl).1]; rfl
    case queue => rw [hnone fun l hl => (h l hl).2, hnone fun _ _ => rfl]
  simpa using hlines.trans hs

end Balanced

theorem ofEntry_line {t : Tree} {follow : Bool} {dir : Location} {e : Bytes × Tree.Kind} {l : LogLine}
    (h : Child.ofEntry t follow dir e = .error l) :
    Event.prunes (.log l) = false ∧ Event.passesBy (.log l) = false := by
  obtain ⟨name, kind⟩ := e
  unfold Child.ofEntry at h
  cases ht : name.text? with
  | none =>
    simp only [ht] at h
    cases h
    exact ⟨rfl, rfl⟩
  | some text =>
    simp only [ht] at h
    split at h
    · split at h
      · cases h
      · cases h
        exact ⟨rfl, rfl⟩
    · cases h

/-- What a listing leaves out was neither rejected nor walked before. -/
theorem list_skipped {t : Tree} {options : Options} {dir : Location} {listing : Listing}
    (h : list t options dir = .ok listing) :
    ∀ l ∈ listing.skipped, Event.prunes (.log l) = false ∧ Event.passesBy (.log l) = false := by
  unfold list at h
  cases hentries : t.locateAt dir >>= t.contents with
  | error e => simp [hentries, Except.map] at h
  | ok entries =>
    rw [hentries] at h
    cases h
    intro l hl
    obtain ⟨r, hr, hline⟩ := List.mem_filterMap.mp hl
    obtain ⟨e, _, rfl⟩ := List.mem_map.mp hr
    split at hline
    · rename_i line hentry
      cases hline
      exact ofEntry_line hentry
    · cases hline

section Steps

variable (v : Visitor ω ε) (rules : Rules)

theorem visit_ensures (n : Notice) (s : State ω) :
    (visit v n s).Ensures fun t s' => t = [.notice n] ∧ s' = { s with
      world := (v.visit n s.world).1, summary := countVisit s.summary n.path.isFile } := by
  unfold visit
  cases hvisit : v.visit n s.world with
  | mk world error =>
    cases error with
    | none => exact .record (.ok ⟨rfl, rfl⟩)
    | some e => exact .stop

theorem visit_file_balanced {n : Notice} (hn : n.path.isFile = true) (s : State ω) :
    (visit v n s).Ensures (Balanced 0 s) := by
  refine (visit_ensures v n s).mono ?_
  rintro _ _ ⟨rfl, rfl⟩
  constructor <;> simp [Event.reportsFile, Event.reportsDirectory, Event.prunes, Event.passesBy, hn,
    countVisit]

theorem takeChildren_balanced (dir : Pending) (cs : List Child) (s : State ω) :
    (takeChildren v rules dir cs s).Ensures fun t left =>
      Balanced 0 s t left.1 ∧ ∀ d ∈ left.2, d.path.isFile = false := by
  induction cs generalizing s with
  | nil => exact .ok ⟨.refl s, by simp⟩
  | cons c cs ih =>
    have hfile : (c.path dir.path).isFile = !c.isDir := rfl
    simp only [takeChildren]
    cases hadmits : rules.admits (c.path dir.path) with
    | true =>
      cases hdir : c.isDir with
      | true =>
        rw [hdir] at hfile
        refine (ih s).andThen fun t left h => .ok ⟨by simpa using h.1, ?_⟩
        exact List.forall_mem_cons.mpr ⟨hfile, h.2⟩
      | false =>
        rw [hdir] at hfile
        refine (visit_file_balanced v hfile s).andThen fun t s₁ h => ?_
        exact (ih s₁).mono fun u left h' => ⟨h.trans h'.1, h'.2⟩
    | false =>
      cases hdir : c.isDir with
      | true =>
        have hpruned : Balanced 0 s [.log (.pruned (c.path dir.path))] s.countPruned :=
          ⟨rfl, rfl, rfl, rfl⟩
        exact .record ((ih s.countPruned).mono fun u left h => ⟨hpruned.trans h.1, h.2⟩)
      | false => exact ih s

/-- A directory that is visited waits then, or is passed by. -/
theorem visit_enqueue_balanced (follow : Bool) {d : Pending} (hd : d.path.isFile = false) (s : State ω) :
    ((visit v ⟨d.location, d.path⟩ s).andThen (enqueue v follow d)).Ensures (Balanced 0 s) := by
  refine (visit_ensures v ⟨d.location, d.path⟩ s).andThen ?_
  rintro _ _ ⟨rfl, rfl⟩
  have hreports : Event.reportsFile (.notice ⟨d.location, d.path⟩) = false ∧
      Event.reportsDirectory (.notice ⟨d.location, d.path⟩) = true := by
    simp [Event.reportsFile, Event.reportsDirectory, hd]
  unfold enqueue
  cases follow with
  | false =>
    refine .ok ?_
    constructor <;> simp [hreports, hd, countVisit, Event.prunes, Event.passesBy]
  | true =>
    rw [if_pos rfl]
    dsimp only
    split
    · refine .record (.ok ?_)
      constructor <;> simp [hreports, hd, countVisit, Event.prunes, Event.passesBy]
      all_goals rfl
    · refine .ok ?_
      constructor <;> simp [hreports, hd, countVisit, Event.prunes, Event.passesBy]

theorem takeDirs_balanced (follow : Bool) (ds : List Pending) (s : State ω)
    (hds : ∀ d ∈ ds, d.path.isFile = false) :
    (takeDirs v follow ds s).Ensures (Balanced 0 s) := by
  induction ds generalizing s with
  | nil => exact .ok (.refl s)
  | cons d ds ih =>
    obtain ⟨hd, hds⟩ := List.forall_mem_cons.mp hds
    rw [takeDirs, ← Recorded.andThen_assoc]
    refine (visit_enqueue_balanced v follow hd s).andThen fun t s₁ h => ?_
    exact (ih s₁ hds).mono fun u s' h' => h.trans h'

theorem takeDirectory_balanced (options : Options) (dir : Pending) (s : State ω) :
    (takeDirectory v rules options dir s).Ensures (Balanced 0 s) := by
  unfold takeDirectory
  cases hl : list (v.tree s.world) options dir.location with
  | error cause =>
    cases options.onUnreadable with
    | abort => exact .stop
    | skip => exact .record (.ok ⟨rfl, rfl, rfl, rfl⟩)
  | ok listing =>
    refine .record ?_
    refine (takeChildren_balanced v rules dir listing.children s).andThen ?_
    rintro t ⟨s₁, dirs⟩ ⟨h, hdirs⟩
    refine (takeDirs_balanced v options.followLinks dirs s₁ hdirs).mono fun u s' h' => ?_
    exact (h.trans h').lines (list_skipped hl)

end Steps

/-- When no directory waits any more, as many were taken as had a turn. -/
theorem drain_balanced (v : Visitor ω ε) (rules : Rules) (options : Options) (limit : Nat)
    (before : Trace) (s : State ω) :
    (drain v rules options limit s).Ensures fun t s' =>
      Balanced (turnsFrom v rules options limit before s).length s t s' ∧ s'.queue = [] := by
  induction limit generalizing before s with
  | zero =>
    cases hq : s.queue with
    | nil =>
      rw [drain_nil 0 hq, turnsFrom_nil hq]
      exact .ok ⟨.refl s, hq⟩
    | cons dir queue =>
      simp only [drain, hq]
      exact .stop
  | succ limit ih =>
    cases hq : s.queue with
    | nil =>
      rw [drain_nil _ hq, turnsFrom_nil hq]
      exact .ok ⟨.refl s, hq⟩
    | cons dir queue =>
      have htake := takeDirectory_balanced v rules options dir { s with queue }
      cases hs : (takeDirectory v rules options dir { s with queue }).result with
      | error h =>
        rw [drain_error hq hs]
        intro s' hs'
        cases hs'
      | ok s₁ =>
        have hrest := ih (before ++ (takeDirectory v rules options dir { s with queue }).trace) s₁
        rw [drain_ok hq hs, turnsFrom_ok hq hs, List.length_cons]
        refine .record (hrest.mono fun u s' h => ⟨?_, h.2⟩)
        have hall := (htake s₁ hs).trans h.1
        rw [Nat.zero_add] at hall
        exact hall.pop hq

-- Without links to follow, no directory is passed by.
section Unfollowed

variable (v : Visitor ω ε) (rules : Rules) {options : Options} (hf : options.followLinks = false)

theorem visit_lacks (n : Notice) (s : State ω) : (visit v n s).Lacks Event.passesBy := by
  unfold visit
  cases v.visit n s.world with
  | mk world error =>
    cases error with
    | none => exact .event rfl (.ok _)
    | some e => exact .stop _

theorem takeChildren_lacks (dir : Pending) (cs : List Child) (s : State ω) :
    (takeChildren v rules dir cs s).Lacks Event.passesBy := by
  induction cs generalizing s with
  | nil => exact .ok _
  | cons c cs ih =>
    simp only [takeChildren]
    cases rules.admits (c.path dir.path) with
    | true =>
      cases c.isDir with
      | true => exact (ih s).andThen fun _ => .ok _
      | false => exact (visit_lacks v _ s).andThen ih
    | false =>
      cases c.isDir with
      | true => exact .event rfl (ih _)
      | false => exact ih s

theorem takeDirs_lacks (ds : List Pending) (s : State ω) :
    (takeDirs v false ds s).Lacks Event.passesBy := by
  induction ds generalizing s with
  | nil => exact .ok _
  | cons d ds ih => exact (visit_lacks v _ s).andThen fun s => .andThen (.ok _) ih

include hf

theorem takeDirectory_lacks (dir : Pending) (s : State ω) :
    (takeDirectory v rules options dir s).Lacks Event.passesBy := by
  unfold takeDirectory
  cases hl : list (v.tree s.world) options dir.location with
  | error cause =>
    cases options.onUnreadable with
    | abort => exact .stop _
    | skip => exact .event rfl (.ok _)
  | ok listing =>
    have hskipped : ∀ e ∈ listing.skipped.map Event.log, e.passesBy = false := by
      simpa using fun l hl' => (list_skipped hl l hl').2
    rw [hf]
    exact .record hskipped ((takeChildren_lacks v rules dir _ s).andThen fun _ => takeDirs_lacks v _ _)

theorem drain_lacks (limit : Nat) (s : State ω) :
    (drain v rules options limit s).Lacks Event.passesBy := by
  induction limit generalizing s with
  | zero =>
    unfold drain
    cases s.queue with
    | nil => exact .ok s
    | cons dir queue => exact .stop _
  | succ limit ih =>
    unfold drain
    cases s.queue with
    | nil => exact .ok s
    | cons dir queue => exact (takeDirectory_lacks v rules hf dir _).andThen ih

theorem walk_lacks (limit : Nat) (root : Bytes) (world : ω) :
    (walk v rules options limit root world).Lacks Event.passesBy := by
  unfold walk
  split
  · exact .event rfl (.event rfl (.ok _))
  · refine .andThen ?_ fun s => .event rfl (.ok _)
    unfold walkFrom
    split
    · unfold takeRootFile
      split
      · exact .event rfl (.ok _)
      · dsimp only
        split
        · exact visit_lacks v _ _
        · exact .event rfl (.ok _)
    · exact drain_lacks v rules hf limit _

end Unfollowed

def Turn.rejected (v : Visitor ω ε) (rules : Rules) (options : Options) (turn : Turn ω) : List Child :=
  rejectedDirs rules turn.dir (children (v.tree turn.world) options turn.dir.location)

/-- The account counts the directories that were rejected, turn by turn. -/
theorem foldl_take_pruned (v : Visitor ω ε) (rules : Rules) (options : Options)
    (turns : List (Turn ω)) (sum : Summary) :
    (turns.foldl (fun sum turn => sum.take (v.tree turn.world) rules options turn.dir) sum).pruned =
      sum.pruned + (turns.map fun turn => (turn.rejected v rules options).length).sum := by
  induction turns generalizing sum with
  | nil => simp
  | cons turn turns ih =>
    rw [List.foldl_cons, ih, List.map_cons, List.sum_cons, ← Nat.add_assoc]
    cases hl : list (v.tree turn.world) options turn.dir.location with
    | error cause => simp [Summary.take, Turn.rejected, children, hl, rejectedDirs]
    | ok listing => simp [Summary.take, Turn.rejected, children, hl, Summary.plus]

structure Accounts (v : Visitor ω ε) (rules : Rules) (options : Options) (turns : List (Turn ω))
    (r : Step ω ε (ω × Summary)) (summary : Summary) : Prop where
  files : summary.files = r.calls.countP fun n => n.path.isFile
  dirs : summary.dirs = r.calls.countP fun n => !n.path.isFile
  /-- The directories are counted that the rules reject among the children of those that are listed. -/
  rejected : summary.pruned = (turns.map fun turn => (turn.rejected v rules options).length).sum
  logged : summary.pruned = r.trace.countP Event.prunes
  /-- The root and each directory that was reported is listed, cannot be, or was walked before. -/
  conserved : 1 + summary.dirs = turns.countP (fun turn => !turn.fails v options) +
    summary.unreadable.length + r.trace.countP Event.passesBy
  unfollowed : options.followLinks = false → r.trace.countP Event.passesBy = 0

/-- Whatever the visitor makes of the tree, a walk that ends by itself has counted the entries that were
reported and the directories that were rejected, and has left no directory out. -/
theorem walk_accounts {v : Visitor ω ε} {rules : Rules} {options : Options} {limit : Nat} {root : Bytes}
    {world : ω} {place : Location} (hr : (v.tree world).locatePath root = .ok place)
    (hd : (v.tree world).isDirectory place = true) {out : ω × Summary}
    (hout : (walk v rules options limit root world).result = .ok out) :
    Accounts v rules options (turns v rules options limit root world)
      (walk v rules options limit root world) out.2 := by
  have hroot := Tree.isFile_of_isDirectory hd
  obtain ⟨s, hs, hsum, hcalls⟩ := walk_ok_drain hr hroot hout
  obtain ⟨hbalanced, hqueue⟩ := drain_balanced v rules options limit [] _ s hs
  have htake := (turnsFrom_calls limit [] hs).2
  -- the line that ends the log is about none of the directories
  have htrace {p : Event → Bool} (hp : p (.log s.summary.closing) = false) :
      (walk v rules options limit root world).trace.countP p =
        (drain v rules options limit (initial world options place)).trace.countP p := by
    rw [walk_drain hr hroot]
    simp [Recorded.andThen, hs, Recorded.record, Recorded.ok, hp]
  rw [Recorded.calls_eq_notices hs] at hcalls
  rw [hsum]
  constructor
  case files => rw [hbalanced.files, Trace.countP_reportsFile, hcalls, initial, Nat.zero_add]
  case dirs => rw [hbalanced.dirs, Trace.countP_reportsDirectory, hcalls, initial, Nat.zero_add]
  case rejected => rw [turns_drain hr hroot, htake, foldl_take_pruned, initial, Nat.zero_add]
  case logged => rw [htrace rfl, hbalanced.pruned, initial, Nat.zero_add]
  case conserved =>
    have hunreadable : s.summary.unreadable.length =
        (turns v rules options limit root world).countP (Turn.fails v options) := by
      rw [htake, foldl_take_unreadable, turns_drain hr hroot, List.countP_eq_length_filter]
      simp [initial]
    have hsplit : (turns v rules options limit root world).length =
        (turns v rules options limit root world).countP (Turn.fails v options) +
          (turns v rules options limit root world).countP (fun turn => !turn.fails v options) := by
      rw [List.length_eq_countP_add_countP (Turn.fails v options)]
      simp
    have hwait : (initial world options place).queue.length = 1 := rfl
    have hzero : (initial world options place).summary.dirs = 0 := rfl
    have htaken := hbalanced.queue
    have hdirs := hbalanced.dirs
    rw [← turns_drain hr hroot, hqueue, hwait, List.length_nil] at htaken
    rw [hzero] at hdirs
    rw [htrace rfl, hunreadable]
    omega
  case unfollowed =>
    exact fun hf => List.countP_eq_zero.mpr fun e he => by
      simp [walk_lacks v rules hf limit root world e he]

def looped : Tree :=
  ⟨[⟨[], [0x61], .directory⟩, ⟨[], [0x62], .directory⟩, ⟨[], [0x63], .directory⟩,
    ⟨[[0x61]], [0x6c], .link [0x2f, 0x61]⟩, ⟨[[0x61]], [0x79], .file []⟩]⟩

/-- `reaper` removes `b` before its turn, `c` is rejected, and the link in `a` is followed. -/
theorem walk_accounts_looped :
    looped.locatePath [Path.slash] = .ok [] ∧ looped.isDirectory [] = true ∧
    ∃ out, (walk reaper (barring "c") { followLinks := true } 9 [Path.slash] looped).result = .ok out ∧
      out.2 = { rootFound := true, files := 1, dirs := 3, pruned := 1, unreadable := [[[0x62]]] } ∧
      Accounts reaper (barring "c") { followLinks := true }
        (turns reaper (barring "c") { followLinks := true } 9 [Path.slash] looped)
        (walk reaper (barring "c") { followLinks := true } 9 [Path.slash] looped) out.2 := by
  have hr : (reaper.tree looped).locatePath [Path.slash] = .ok [] := by cbv
  have hd : (reaper.tree looped).isDirectory [] = true := by decide
  have hout : (walk reaper (barring "c") { followLinks := true } 9 [Path.slash] looped).result =
      .ok (looped.erase [[0x62]],
        { rootFound := true, files := 1, dirs := 3, pruned := 1, unreadable := [[[0x62]]] }) := by cbv
  exact ⟨hr, hd, _, hout, rfl, walk_accounts hr hd hout⟩

end Fileset.Walk
