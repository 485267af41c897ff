import Fileset.Proofs.Walk.Quiet
import Mathlib.Logic.Relation

namespace Fileset.Walk

section Directory

variable {t : Tree} (ht : t.WellFormed) (rules : Rules) {options : Options}
  (hf : options.followLinks = false) {dir : Pending} (hd : t.isDirectory dir.location = true)
include ht hf hd

theorem mem_opens {e : Pending} :
    e ∈ opens t rules options dir ↔ t.kindAt? dir.location = some (.directory true) ∧ ∃ name,
      e = ⟨dir.location ++ [Bytes.ofText name], dir.path.child false name⟩ ∧
      t.isDirectory e.location = true ∧ rules.admits e.path = true := by
  rw [mem_opens_iff]
  constructor
  · intro h
    obtain ⟨c, hc, hadmits, hcdir, rfl⟩ := h
    obtain ⟨hread, kind, hk, hdir⟩ := (mem_children ht hf hd).mp hc
    have hpath : c.path dir.path = dir.path.child false c.name := by simp [Child.path, hcdir]
    refine ⟨hread, c.name, by rw [hpath]; rfl, ?_, hadmits⟩
    simp only [Tree.isDirectory, hk, Option.any_some, ← hdir, hcdir]
  · intro h
    obtain ⟨hread, name, rfl, hdir, hadmits⟩ := h
    obtain ⟨readable, hk⟩ := Tree.isDirectory_iff.mp hdir
    refine ⟨⟨name, true⟩, ?_, hadmits, rfl, rfl⟩
    exact (mem_children ht hf hd).mpr ⟨hread, .directory readable, hk, rfl⟩

theorem mem_reports {n : Notice} :
    n ∈ reports t rules options dir ↔ t.kindAt? dir.location = some (.directory true) ∧
      ∃ name kind,
        n = ⟨dir.location ++ [Bytes.ofText name], dir.path.child (!kind.isDirectory) name⟩ ∧
        t.kindAt? n.location = some kind ∧ rules.admits n.path = true := by
  rw [mem_reports_iff]
  constructor
  · intro h
    obtain ⟨c, hc, hadmits, rfl⟩ := h
    obtain ⟨hread, kind, hk, hdir⟩ := (mem_children ht hf hd).mp hc
    exact ⟨hread, c.name, kind, by simp [Child.location, Child.path, hdir], hk, hadmits⟩
  · intro h
    obtain ⟨hread, name, kind, rfl, hk, hadmits⟩ := h
    exact ⟨⟨name, kind.isDirectory⟩, (mem_children ht hf hd).mpr ⟨hread, kind, hk, rfl⟩, hadmits, rfl⟩

end Directory

def Opens (t : Tree) (rules : Rules) (options : Options) (d e : Pending) : Prop :=
  e ∈ opens t rules options d

/-- What a quiet walk reports once it has taken everything that waits in `queue`. -/
def Reported (t : Tree) (rules : Rules) (options : Options) (queue : List Pending) (n : Notice) :
    Prop :=
  ∃ d ∈ queue, ∃ e, Relation.ReflTransGen (Opens t rules options) d e ∧
    n ∈ reports t rules options e

theorem reported_cons {t : Tree} {rules : Rules} {options : Options} {dir : Pending}
    {queue : List Pending} {n : Notice} :
    Reported t rules options (dir :: queue) n ↔ n ∈ reports t rules options dir ∨
      Reported t rules options (queue ++ opens t rules options dir) n := by
  constructor
  · intro h
    obtain ⟨d, hd, e, hde, hn⟩ := h
    rcases List.mem_cons.mp hd with rfl | hd
    · rcases Relation.ReflTransGen.cases_head hde with rfl | ⟨c, hc, hce⟩
      · exact Or.inl hn
      · exact Or.inr ⟨c, List.mem_append_right _ hc, e, hce, hn⟩
    · exact Or.inr ⟨d, List.mem_append_left _ hd, e, hde, hn⟩
  · intro h
    obtain hn | ⟨d, hd, e, hde, hn⟩ := h
    · exact ⟨dir, List.mem_cons_self, dir, .refl, hn⟩
    · rcases List.mem_append.mp hd with hd | hd
      · exact ⟨d, List.mem_cons_of_mem _ hd, e, hde, hn⟩
      · exact ⟨dir, List.mem_cons_self, e, .head hd hde, hn⟩

def Apart (a b : Location) : Prop := ¬a <+: b ∧ ¬b <+: a

theorem Apart.symm {a b : Location} (h : Apart a b) : Apart b a := ⟨h.2, h.1⟩

theorem Apart.inside {a b : Location} (h : Apart a b) (name : Bytes) :
    Apart a (b ++ [name]) := by
  constructor
  · intro hp
    rcases List.prefix_concat_iff.mp hp with rfl | hp
    · exact h.2 (List.prefix_append b [name])
    · exact h.1 hp
  · intro hp
    exact h.2 ((List.prefix_append b [name]).trans hp)

/-- The directories at or below those that wait. Taking one directory removes it from them. -/
def within (t : Tree) (queue : List Pending) : List Location :=
  t.directories.filter fun loc => queue.any fun d => d.location.isPrefixOf loc

theorem within_le (t : Tree) (queue : List Pending) :
    (within t queue).length ≤ t.directories.length := List.length_filter_le _ _

section Queue

variable {t : Tree} (ht : t.WellFormed) (rules : Rules) {options : Options}
  (hf : options.followLinks = false)
include ht hf

theorem below_location {d e : Pending} (hd : t.isDirectory d.location = true)
    (h : Relation.ReflTransGen (Opens t rules options) d e) :
    t.isDirectory e.location = true ∧ d.location <+: e.location := by
  induction h with
  | refl => exact ⟨hd, List.prefix_refl _⟩
  | tail _ hstep ih =>
    obtain ⟨_, name, rfl, hdir, _⟩ := (mem_opens ht rules hf ih.1).mp hstep
    exact ⟨hdir, ih.2.trans (List.prefix_append _ _)⟩

/-- Everything reported lies below a directory that waits. -/
theorem reported_below {queue : List Pending} (hq : ∀ d ∈ queue, t.isDirectory d.location = true)
    {n : Notice} (h : Reported t rules options queue n) :
    ∃ d ∈ queue, ∃ names, names ≠ [] ∧ n.location = d.location ++ names := by
  obtain ⟨d, hd, e, hde, hn⟩ := h
  obtain ⟨he, more, hmore⟩ := below_location ht rules hf (hq d hd) hde
  obtain ⟨_, name, kind, rfl, _⟩ := (mem_reports ht rules hf he).mp hn
  refine ⟨d, hd, more ++ [Bytes.ofText name], by simp, ?_⟩
  rw [← List.append_assoc, hmore]

theorem opens_directories {dir : Pending} {queue : List Pending}
    (hdirs : ∀ d ∈ dir :: queue, t.isDirectory d.location = true) :
    ∀ d ∈ queue ++ opens t rules options dir, t.isDirectory d.location = true := by
  intro d hwaits
  rcases List.mem_append.mp hwaits with hold | hnew
  · exact hdirs d (List.mem_cons_of_mem _ hold)
  · obtain ⟨_, _, _, hdir, _⟩ := (mem_opens ht rules hf (hdirs dir List.mem_cons_self)).mp hnew
    exact hdir

theorem opens_apart {dir : Pending} {queue : List Pending}
    (hd : t.isDirectory dir.location = true)
    (h : ((dir :: queue).map Pending.location).Pairwise Apart) :
    ((queue ++ opens t rules options dir).map Pending.location).Pairwise Apart := by
  obtain ⟨hdir, hqueue⟩ := List.pairwise_cons.mp h
  rw [List.map_append, List.pairwise_append]
  refine ⟨hqueue, ?_, ?_⟩
  · have hnodup : ((opens t rules options dir).map Pending.location).Nodup := by
      have hall : ((reports t rules options dir).map Notice.location).Nodup :=
        reports_location_nodup ht.listsOnce
      simp only [reports, List.map_append, List.map_map] at hall
      exact (List.nodup_append.mp hall).2.1
    refine hnodup.imp_of_mem ?_
    intro a b ha hb hne
    obtain ⟨e, he, rfl⟩ := List.mem_map.mp ha
    obtain ⟨e', he', rfl⟩ := List.mem_map.mp hb
    obtain ⟨_, name, rfl, _⟩ := (mem_opens ht rules hf hd).mp he
    obtain ⟨_, name', rfl, _⟩ := (mem_opens ht rules hf hd).mp he'
    exact ⟨fun hp => hne (hp.eq_of_length (by simp)),
      fun hp => hne (hp.eq_of_length (by simp)).symm⟩
  · intro a ha b hb
    obtain ⟨e, he, rfl⟩ := List.mem_map.mp hb
    obtain ⟨_, name, rfl, _⟩ := (mem_opens ht rules hf hd).mp he
    exact (hdir a ha).symm.inside _

theorem within_lt {dir : Pending} {queue : List Pending} (hd : t.isDirectory dir.location = true)
    (h : ((dir :: queue).map Pending.location).Pairwise Apart) :
    (within t (queue ++ opens t rules options dir)).length < (within t (dir :: queue)).length := by
  have hopens : ∀ e ∈ opens t rules options dir, ∃ name, e.location = dir.location ++ [name] := by
    intro e he
    obtain ⟨_, name, rfl, _⟩ := (mem_opens ht rules hf hd).mp he
    exact ⟨_, rfl⟩
  have hsub : within t (queue ++ opens t rules options dir) = (within t (dir :: queue)).filter
      fun loc => (queue ++ opens t rules options dir).any fun d => d.location.isPrefixOf loc := by
    rw [within, within, List.filter_filter]
    apply List.filter_congr
    intro loc _
    rw [Bool.eq_iff_iff, Bool.and_eq_true, Iff.comm, and_iff_left_iff_imp]
    simp only [List.any_eq_true, List.mem_append, List.isPrefixOf_iff_prefix]
    intro hm
    obtain ⟨d, hq | ho, hp⟩ := hm
    · exact ⟨d, List.mem_cons_of_mem _ hq, hp⟩
    · obtain ⟨name, hname⟩ := hopens d ho
      exact ⟨dir, List.mem_cons_self, (hname ▸ List.prefix_append _ [name]).trans hp⟩
  rw [hsub, List.length_filter_lt_length_iff_exists]
  refine ⟨dir.location, List.mem_filter.mpr ⟨Tree.mem_directories hd, ?_⟩, ?_⟩
  · simp
  · simp only [List.any_eq_true, List.mem_append, List.isPrefixOf_iff_prefix]
    intro hm
    obtain ⟨d, hq | ho, hp⟩ := hm
    · have hapart := (List.pairwise_cons.mp h).1 _ (List.mem_map.mpr ⟨d, hq, rfl⟩)
      exact hapart.2 hp
    · obtain ⟨name, hname⟩ := hopens d ho
      have hlen := hp.length_le
      rw [hname, List.length_append, List.length_singleton] at hlen
      omega

/-- What comes after a directory was taken lies in another waiting directory, or deeper than the
children of this one. -/
theorem reports_fresh {dir : Pending} {queue : List Pending}
    (hdirs : ∀ d ∈ queue ++ opens t rules options dir, t.isDirectory d.location = true)
    (hd : t.isDirectory dir.location = true)
    (h : ((dir :: queue).map Pending.location).Pairwise Apart) {n m : Notice}
    (hn : n ∈ reports t rules options dir)
    (hm : Reported t rules options (queue ++ opens t rules options dir) m) :
    n.location ≠ m.location := by
  obtain ⟨_, name, kind, rfl, _⟩ := (mem_reports ht rules hf hd).mp hn
  obtain ⟨d, hwaits, names, hne, hloc⟩ := reported_below ht rules hf hdirs hm
  intro heq
  have hshared : d.location ++ names = dir.location ++ [Bytes.ofText name] := hloc ▸ heq.symm
  have hlen := congrArg List.length hshared
  have hpos := List.length_pos_iff.mpr hne
  simp only [List.length_append, List.length_singleton] at hlen
  have hp : d.location <+: dir.location := by
    rcases List.prefix_concat_iff.mp ⟨names, hshared⟩ with hsame | hp
    · have := congrArg List.length hsame
      simp only [List.length_append, List.length_singleton] at this
      omega
    · exact hp
  rcases List.mem_append.mp hwaits with hqueue | hopens
  · exact ((List.pairwise_cons.mp h).1 _ (List.mem_map.mpr ⟨d, hqueue, rfl⟩)).2 hp
  · obtain ⟨_, other, rfl, _⟩ := (mem_opens ht rules hf hd).mp hopens
    have := hp.length_le
    simp only [List.length_append, List.length_singleton] at this
    omega

/-- A quiet walk settles if it may take as many directories as there are below its queue. -/
theorem drain_settles {v : Visitor ω ε} (hv : v.Quiet) (limit : Nat) {s : State ω}
    (hw : v.tree s.world = t) (hdirs : ∀ d ∈ s.queue, t.isDirectory d.location = true)
    (hapart : (s.queue.map Pending.location).Pairwise Apart)
    (hlimit : (within t s.queue).length ≤ limit) :
    (drain v rules options limit s).Settles t options := by
  induction limit generalizing s with
  | zero =>
    cases hq : s.queue with
    | nil => exact .through (congrArg Recorded.result (drain_nil 0 hq))
    | cons dir queue =>
      rw [hq] at hdirs hapart hlimit
      have hlt := within_lt ht rules hf (hdirs dir List.mem_cons_self) hapart
      omega
  | succ limit ih =>
    cases hq : s.queue with
    | nil => exact .through (congrArg Recorded.result (drain_nil (limit + 1) hq))
    | cons dir queue =>
      rw [hq] at hdirs hapart hlimit
      have hd := hdirs dir List.mem_cons_self
      have hlt := within_lt ht rules hf hd hapart
      simp only [drain, hq]
      have htake : (takeDirectory v rules options dir { s with queue }).Settles t options :=
        takeDirectory_settles hv rules (ht.locateAt_directory hd) hw
      refine htake.andThen fun s₁ hs₁ => ?_
      obtain ⟨-, hw₁, hq₁, -⟩ := takeDirectory_quiet hv (s := { s with queue }) hf hw hs₁
      have hq₁ : s₁.queue = queue ++ opens t rules options dir := hq₁
      exact ih hw₁ (hq₁ ▸ opens_directories ht rules hf hdirs)
        (hq₁ ▸ opens_apart ht rules hf hd hapart) (by rw [hq₁]; omega)

/-- A quiet walk that goes through reports what is below its queue, each entry once. -/
theorem drain_reports {v : Visitor ω ε} (hv : v.Quiet) (limit : Nat) {s s' : State ω}
    (hw : v.tree s.world = t) (hdirs : ∀ d ∈ s.queue, t.isDirectory d.location = true)
    (hapart : (s.queue.map Pending.location).Pairwise Apart)
    (hs : (drain v rules options limit s).result = .ok s') :
    ((drain v rules options limit s).calls.map Notice.location).Nodup ∧
      ∀ n, n ∈ (drain v rules options limit s).calls ↔ Reported t rules options s.queue n := by
  induction limit generalizing s with
  | zero =>
    cases hq : s.queue with
    | nil => simp [drain_nil 0 hq, Recorded.calls_ok, Reported]
    | cons dir queue =>
      simp only [drain, hq] at hs
      cases hs
  | succ limit ih =>
    cases hq : s.queue with
    | nil => simp [drain_nil (limit + 1) hq, Recorded.calls_ok, Reported]
    | cons dir queue =>
      rw [hq] at hdirs hapart
      have hd := hdirs dir List.mem_cons_self
      simp only [drain, hq] at hs ⊢
      obtain ⟨s₁, hs₁, hrest⟩ := Recorded.andThen_result_ok hs
      obtain ⟨hcalls, hw₁, hq₁, -⟩ := takeDirectory_quiet hv (s := { s with queue }) hf hw hs₁
      have hq₁ : s₁.queue = queue ++ opens t rules options dir := hq₁
      have hdirs₁ := opens_directories ht rules hf hdirs
      obtain ⟨hnodup, hmem⟩ :=
        ih hw₁ (hq₁ ▸ hdirs₁) (hq₁ ▸ opens_apart ht rules hf hd hapart) hrest
      rw [hq₁] at hmem
      rw [Recorded.calls_andThen_ok hs₁, hcalls]
      constructor
      · rw [List.map_append, List.nodup_append]
        refine ⟨reports_location_nodup ht.listsOnce, hnodup, ?_⟩
        intro loc hloc loc' hloc'
        obtain ⟨n, hn, rfl⟩ := List.mem_map.mp hloc
        obtain ⟨m, hm, rfl⟩ := List.mem_map.mp hloc'
        exact reports_fresh ht rules hf hdirs₁ hd hapart hn ((hmem m).mp hm)
      · intro n
        rw [List.mem_append, hmem]
        exact reported_cons.symm

end Queue

/-- From a directory, a quiet walk settles, and if it goes through it reports what lies below. -/
theorem drain_below {v : Visitor ω ε} (hv : v.Quiet) {world : ω} (ht : (v.tree world).WellFormed)
    (rules : Rules) {options : Options} (hf : options.followLinks = false) {limit : Nat}
    (hl : limitFor (v.tree world) ≤ limit) {place : Location}
    (hd : (v.tree world).isDirectory place = true) :
    (drain v rules options limit (initial world options place)).Settles (v.tree world) options ∧
    ∀ s, (drain v rules options limit (initial world options place)).result = .ok s →
      ((drain v rules options limit (initial world options place)).calls.map Notice.location).Nodup ∧
      ∀ n, n ∈ (drain v rules options limit (initial world options place)).calls ↔
        Reported (v.tree world) rules options [⟨place, .root false⟩] n := by
  have hdirs : ∀ d ∈ (initial world options place).queue,
      (v.tree world).isDirectory d.location = true := by simpa [initial] using hd
  have hapart : ((initial world options place).queue.map Pending.location).Pairwise Apart := by
    simp [initial]
  constructor
  · exact drain_settles ht rules hf hv limit rfl hdirs hapart (Nat.le_trans (within_le _ _) hl)
  · exact fun s hs => drain_reports ht rules hf hv limit rfl hdirs hapart hs

end Fileset.Walk
