import Fileset.Proofs.Walk.Calls

namespace Fileset.Walk

namespace Recorded

/-- The computation goes through: it reports these entries, in order, and leaves this value. -/
def Yields (r : Recorded ε α) (ns : List Notice) (a : α) : Prop :=
  Trace.notices r.trace = ns ∧ r.result = .ok a

theorem yields_ok (a : α) : (ok a : Recorded ε α).Yields [] a := ⟨rfl, rfl⟩

theorem Yields.record {r : Recorded ε α} {ns : List Notice} {a : α} (h : r.Yields ns a)
    (t : Trace) : (record t r).Yields (Trace.notices t ++ ns) a :=
  ⟨by rw [← h.1]; exact Trace.notices_append t r.trace, h.2⟩

theorem Yields.log {r : Recorded ε α} {ns : List Notice} {a : α} (h : r.Yields ns a)
    (lines : List LogLine) : (Recorded.record (lines.map .log) r).Yields ns a := by
  have hr := h.record (lines.map .log)
  rwa [Trace.notices_log, List.nil_append] at hr

theorem Yields.andThen {r : Recorded ε α} {f : α → Recorded ε β} {ns ms : List Notice} {a : α}
    {b : β} (h : r.Yields ns a) (hf : (f a).Yields ms b) : (r.andThen f).Yields (ns ++ ms) b := by
  unfold Recorded.andThen
  rw [h.2]
  exact h.1 ▸ hf.record r.trace

theorem Yields.calls {r : Step ω ε α} {ns : List Notice} {a : α} (h : r.Yields ns a) :
    r.calls = ns := by
  simp [Recorded.calls, h.1, h.2]

theorem yields_of_ok {r : Step ω ε α} {a : α} (h : r.result = .ok a) : r.Yields r.calls a :=
  ⟨by simp [Recorded.calls, h], h⟩

/-- A piece goes through if nothing can end it. -/
theorem Calls.yields {r : Step ω ε α} {may : Prop} {ns : List Notice} {post : α → Prop}
    (h : r.Calls may ns post) (hgoes : ¬may) : ∃ a, r.Yields ns a ∧ post a := by
  cases hr : r.result with
  | ok a =>
    obtain ⟨hcalls, hpost⟩ := h.through a hr
    exact ⟨a, ⟨by simpa [Recorded.calls, hr] using hcalls, hr⟩, hpost⟩
  | error e => exact absurd (h.ended e hr).1 hgoes

end Recorded

structure Visitor.Quiet (v : Visitor ω ε) : Prop where
  takes : ∀ n world, (v.visit n world).2 = none
  keeps : ∀ n world, v.tree (v.visit n world).1 = v.tree world

theorem observer_quiet : observer.Quiet := ⟨fun _ _ => rfl, fun _ _ => rfl⟩

/-- The computation goes through, or a directory ends it that is there but may not be read. -/
inductive Recorded.Settles (t : Tree) (options : Options) (r : Step ω ε α) : Prop
  | through {a : α} (h : r.result = .ok a)
  | denied {dir place : Location} {world : ω} (habort : options.onUnreadable = .abort)
      (hl : t.locateAt dir = .ok place) (hk : t.kindAt? place = some (.directory false))
      (h : r.result = .error ⟨.unreadable dir .denied, world⟩)

namespace Recorded.Settles

variable {t : Tree} {options : Options} {r : Step ω ε α}

theorem andThen {f : α → Step ω ε β} (h : r.Settles t options)
    (hf : ∀ a, r.result = .ok a → (f a).Settles t options) : (r.andThen f).Settles t options := by
  cases h with
  | @through a h =>
    have hresult : (r.andThen f).result = (f a).result := by simp [Recorded.andThen, h, record]
    cases hf a h with
    | through h' => exact .through (hresult.trans h')
    | denied habort hl hk h' => exact .denied habort hl hk (hresult.trans h')
  | @denied dir place world habort hl hk h =>
    have hresult : (r.andThen f).result = .error ⟨.unreadable dir .denied, world⟩ := by
      simp only [Recorded.andThen, h]
    exact .denied habort hl hk hresult

/-- It goes through if directories that may not be read are passed by, or if there are none. -/
theorem yields (h : r.Settles t options) (hgo : options.onUnreadable = .skip ∨ t.Listable) :
    ∃ a, r.Yields r.calls a := by
  cases h with
  | through h => exact ⟨_, yields_of_ok h⟩
  | denied habort hl hk h =>
    rcases hgo with hskip | hlistable
    · exact nomatch habort.symm.trans hskip
    · exact nomatch (hlistable.readable (Tree.isDirectory_of_readable hk)).symm.trans hk

end Recorded.Settles

def rootEntry (file : Location) : List Notice :=
  match file.getLast?.bind Bytes.text? with
  | none => []
  | some name => [⟨file, ⟨[name], true⟩⟩]

theorem rootEntry_length (file : Location) : (rootEntry file).length ≤ 1 := by
  unfold rootEntry
  split <;> simp

theorem takeRootFile_calls (v : Visitor ω ε) (rules : Rules) (file : Location) (s : State ω) :
    (takeRootFile v rules file s).Calls v.Refuses ((rootEntry file).filter fun n => rules.admits n.path)
      fun _ => True := by
  have hpath (name : String) : (RelPath.root true).child true name = ⟨[name], true⟩ := rfl
  unfold takeRootFile rootEntry
  cases file.getLast?.bind Bytes.text? with
  | none => exact .log (.ok trivial) [.rootNotText file]
  | some name =>
    simp only [hpath]
    cases hadmits : rules.admits ⟨[name], true⟩ with
    | true => simpa [hadmits] using (visit_calls v ⟨file, ⟨[name], true⟩⟩ s).weaken fun _ _ => trivial
    | false => simpa [hadmits] using Recorded.Calls.log (.ok trivial) [.rootRejected ⟨[name], true⟩]

section Steps

variable {v : Visitor ω ε} (hv : v.Quiet)
include hv

theorem Visitor.Quiet.never : ¬v.Refuses := fun ⟨n, world, h⟩ => h (hv.takes n world)

theorem Visitor.Quiet.tree_eq {world now : ω} (h : v.Reaches world now) :
    v.tree now = v.tree world :=
  h.keeps (p := fun w => v.tree w = v.tree world) (fun n w hw => (hv.keeps n w).trans hw) rfl

theorem visit_eq (n : Notice) (s : State ω) :
    visit v n s = .record [.notice n] (.ok { s with
      world := (v.visit n s.world).1, summary := countVisit s.summary n.path.isFile }) := by
  have htakes := hv.takes n s.world
  unfold visit
  cases hvisit : v.visit n s.world with
  | mk world error =>
    rw [hvisit] at htakes
    dsimp only at htakes
    subst htakes
    rfl

theorem visit_quiet (n : Notice) (s : State ω) : (visit v n s).Yields [n] { s with
    world := (v.visit n s.world).1, summary := countVisit s.summary n.path.isFile } := by
  rw [visit_eq hv]
  exact (Recorded.yields_ok _).record [.notice n]

theorem takeChildren_quiet (rules : Rules) (dir : Pending) (cs : List Child) (s : State ω) :
    ∃ left, (takeChildren v rules dir cs s).Yields (admittedFiles rules dir cs) left ∧
      TookChildren v rules dir cs s left :=
  (takeChildren_calls v rules dir cs s).yields hv.never

/-- A directory that is there is taken to the end, or ends the walk because it may not be read. -/
theorem takeDirectory_settles {t : Tree} {options : Options} (rules : Rules) {dir : Pending}
    {place : Location} (hl : t.locateAt dir.location = .ok place) {s : State ω}
    (hw : v.tree s.world = t) : (takeDirectory v rules options dir s).Settles t options := by
  subst hw
  cases hlist : list (v.tree s.world) options dir.location with
  | ok listing =>
    have hgoes : ¬(v.Refuses ∨
        ∃ cause, list (v.tree s.world) options dir.location = .error cause) := by
      simp [hv.never, hlist]
    obtain ⟨s', hy, -⟩ := (takeDirectory_calls v rules options dir s).yields hgoes
    exact .through hy.2
  | error cause =>
    obtain ⟨hk, rfl⟩ := list_error hl hlist
    unfold takeDirectory
    rw [hlist]
    cases habort : options.onUnreadable with
    | skip => exact .through rfl
    | abort => exact .denied habort hl hk rfl

theorem takeDirectory_quiet {t : Tree} {rules : Rules} {options : Options}
    (hf : options.followLinks = false) {dir : Pending} {s s' : State ω} (hw : v.tree s.world = t)
    (hs : (takeDirectory v rules options dir s).result = .ok s') :
    (takeDirectory v rules options dir s).calls = reports t rules options dir ∧
      v.tree s'.world = t ∧ s'.queue = s.queue ++ opens t rules options dir ∧
      s'.summary = s.summary.take t rules options dir := by
  subst hw
  obtain ⟨hcalls, htook⟩ := (takeDirectory_calls v rules options dir s).through s' hs
  obtain ⟨more, hqueue, -, hmore⟩ := htook.queue
  exact ⟨hcalls, hv.tree_eq htook.world, hmore hf ▸ hqueue, htook.summary⟩

theorem takeRootFile_quiet (rules : Rules) (file : Location) (s : State ω) :
    ∃ s', (takeRootFile v rules file s).Yields
      ((rootEntry file).filter fun n => rules.admits n.path) s' := by
  obtain ⟨s', hy, -⟩ := (takeRootFile_calls v rules file s).yields hv.never
  exact ⟨s', hy⟩

end Steps

theorem drain_nil {v : Visitor ω ε} {rules : Rules} {options : Options} (limit : Nat) {s : State ω}
    (hq : s.queue = []) : drain v rules options limit s = .ok s := by
  unfold drain
  simp only [hq]

theorem pairwise_of_length_le_one {α : Type u} {l : List α} (h : l.length ≤ 1) (r : α → α → Prop) :
    l.Pairwise r :=
  match l, h with
  | [], _ => List.Pairwise.nil
  | [a], _ => List.pairwise_singleton r a

section Root

variable {v : Visitor ω ε} {rules : Rules} {options : Options} {limit : Nat} {root : Bytes}
  {world : ω} {place : Location} {ns : List Notice} {s : State ω}

theorem walk_yields_missing {e : Tree.Error} (hr : (v.tree world).locatePath root = .error e) :
    (walk v rules options limit root world).Yields [] (world, {}) := by
  unfold walk
  rw [hr]
  exact (Recorded.yields_ok _).log [.rootMissing root.display, .rootUnresolved e]

theorem walk_yields_from (hr : (v.tree world).locatePath root = .ok place)
    (hy : (walkFrom v rules options limit place world).Yields ns s) :
    (walk v rules options limit root world).Yields ns (s.world, s.summary) := by
  have hend : (Recorded.record [.log s.summary.closing] (.ok (s.world, s.summary)) :
      Step ω ε (ω × Summary)).Yields [] (s.world, s.summary) :=
    (Recorded.yields_ok _).log [s.summary.closing]
  have hall := hy.andThen (f := fun s => .record [.log s.summary.closing] (.ok (s.world, s.summary))) hend
  simpa only [walk, hr, List.append_nil] using hall

theorem walk_settles_from {t : Tree} (hr : (v.tree world).locatePath root = .ok place)
    (h : (walkFrom v rules options limit place world).Settles t options) :
    (walk v rules options limit root world).Settles t options := by
  simp only [walk, hr]
  exact h.andThen fun _ _ => .through rfl

theorem walk_yields_rootFile (hr : (v.tree world).locatePath root = .ok place)
    (hfile : (v.tree world).isFile place = true)
    (hy : (takeRootFile v rules place { initial world options place with queue := [] }).Yields ns s) :
    (walk v rules options limit root world).Yields ns (s.world, s.summary) :=
  walk_yields_from hr (by simpa only [walkFrom, hfile, if_true] using hy)

/-- A walk from a file reports at most the file. -/
theorem walk_yields_file (hv : v.Quiet) (rules : Rules) (options : Options) (limit : Nat)
    (hr : (v.tree world).locatePath root = .ok place)
    (hfile : (v.tree world).isFile place = true) :
    ∃ ns out, (walk v rules options limit root world).Yields ns out ∧ ns.length ≤ 1 := by
  obtain ⟨s, hy⟩ :=
    takeRootFile_quiet hv rules place { initial world options place with queue := [] }
  exact ⟨_, _, walk_yields_rootFile hr hfile hy,
    Nat.le_trans (List.length_filter_le _ _) (rootEntry_length place)⟩

theorem limitFor_pos (t : Tree) : 0 < limitFor t := by
  simp [limitFor, Tree.directories]

/-- What is neither a directory nor a file has nothing in it. -/
theorem takeDirectory_special (hl : (v.tree world).locateAt place = .ok place)
    (hd : (v.tree world).isDirectory place = false) :
    takeDirectory v rules options ⟨place, .root false⟩
      { initial world options place with queue := [] } =
      .ok { initial world options place with queue := [] } := by
  have hlist : list (v.tree world) options place = .ok ⟨[], []⟩ := list_special options hl hd
  simp [takeDirectory, initial, hlist, takeChildren, takeDirs, Recorded.andThen, Recorded.record,
    Recorded.ok]

theorem drain_special (hl : (v.tree world).locateAt place = .ok place)
    (hd : (v.tree world).isDirectory place = false) (hlimit : limitFor (v.tree world) ≤ limit) :
    drain v rules options limit (initial world options place) =
      .ok { initial world options place with queue := [] } := by
  obtain ⟨limit, rfl⟩ :=
    Nat.exists_eq_add_one.mpr (Nat.lt_of_lt_of_le (limitFor_pos _) hlimit)
  have htake : takeDirectory v rules options ⟨place, .root false⟩ _ = _ :=
    takeDirectory_special hl hd
  unfold drain
  simp only [initial] at htake ⊢
  simp [htake, Recorded.andThen, Recorded.ok, Recorded.record, drain_nil]

/-- A walk goes through if the directories below its root do. -/
theorem walk_yields (hr : (v.tree world).locatePath root = .ok place)
    (hroot : (v.tree world).isFile place = false)
    (hy : (drain v rules options limit (initial world options place)).Yields ns s) :
    (walk v rules options limit root world).Yields ns (s.world, s.summary) := by
  exact walk_yields_from hr (walkFrom_drain hroot ▸ hy)

theorem walk_yields_special (hr : (v.tree world).locatePath root = .ok place)
    (hl : (v.tree world).locateAt place = .ok place) (hd : (v.tree world).isDirectory place = false)
    (hroot : (v.tree world).isFile place = false)
    (hlimit : limitFor (v.tree world) ≤ limit) :
    (walk v rules options limit root world).Yields [] (world, { rootFound := true }) := by
  have hdrain : (drain v rules options limit (initial world options place)).Yields []
      { initial world options place with queue := [] } :=
    drain_special hl hd hlimit ▸ Recorded.yields_ok _
  exact walk_yields hr hroot hdrain

end Root
end Fileset.Walk
