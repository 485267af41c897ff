import Fileset.Proofs.Walk.Levels
import Mathlib.Data.Prod.Lex

namespace Fileset

/-- Of two different names the one that is not greater is less. -/
theorem Bytes.lt_of_le {a b : Bytes} (h : a.le b = true) (hne : a ≠ b) : a < b := by
  induction a generalizing b with
  | nil =>
    cases b with
    | nil => exact absurd rfl hne
    | cons y b => exact List.nil_lt_cons y b
  | cons x a ih =>
    cases b with
    | nil => cases h
    | cons y b =>
      simp only [le, Bool.or_eq_true, Bool.and_eq_true, decide_eq_true_eq, beq_iff_eq] at h
      rw [List.cons_lt_cons_iff]
      rcases h with hlt | ⟨rfl, hle⟩
      · exact .inl hlt
      · exact .inr ⟨rfl, ih hle fun heq => hne (by rw [heq])⟩

/-- Of two rows of one length, the order of their fronts decides, and then the order of their ends. -/
theorem concat_lt {α : Type u} [LT α] {a b : List α} (hlen : a.length = b.length) {x y : α}
    (h : a < b ∨ a = b ∧ x < y) : a ++ [x] < b ++ [y] := by
  induction a generalizing b with
  | nil =>
    obtain rfl : b = [] := List.length_eq_zero_iff.mp hlen.symm
    have hxy : x < y := (h.resolve_left (List.not_lt_nil [])).2
    exact List.cons_lt_cons_iff.mpr (.inl hxy)
  | cons c a ih =>
    cases b with
    | nil => cases hlen
    | cons d b =>
      have hlen' : a.length = b.length := Nat.succ.inj hlen
      rw [List.cons_append, List.cons_append, List.cons_lt_cons_iff]
      rcases h with hlt | ⟨heq, hxy⟩
      · rcases List.cons_lt_cons_iff.mp hlt with hcd | ⟨rfl, hab⟩
        · exact .inl hcd
        · exact .inr ⟨rfl, ih hlen' (.inl hab)⟩
      · obtain ⟨rfl, rfl⟩ := List.cons.inj heq
        exact .inr ⟨rfl, ih hlen' (.inr ⟨rfl, hxy⟩)⟩

namespace Walk

theorem byName_sorted {entries : List (Bytes × Tree.Kind)} (h : (entries.map Prod.fst).Nodup) :
    ((byName entries).map Prod.fst).Pairwise (· < ·) := by
  have hne : ((byName entries).map Prod.fst).Nodup :=
    ((List.mergeSort_perm entries _).map Prod.fst).nodup_iff.mpr h
  exact ((List.pairwise_map.mpr (byName_pairwise entries)).and hne).imp fun h => Bytes.lt_of_le h.1 h.2

/-- The children of a sorted listing stand in the order of their names. -/
theorem children_sorted {t : Tree} (h : t.ListsOnce) {options : Options} (hs : options.sorted = true)
    (dir : Location) : (children t options dir).Pairwise fun c d =>
      Bytes.ofText c.name < Bytes.ofText d.name := by
  obtain ⟨place, hsub⟩ := children_names t options dir
  have hentries : ((entriesOf t options place).map Prod.fst).Pairwise (· < ·) := by
    rw [entriesOf, ordered, if_pos hs]
    exact byName_sorted (contents_nodup h place)
  exact List.pairwise_map.mp (hentries.sublist hsub)

/-- What a sorted walk goes by: the number of names, the names of the directory, whether it is a
directory itself, and the last name. -/
def Notice.key (n : Notice) : Nat ×ₗ List Bytes ×ₗ Bool ×ₗ Bytes :=
  toLex (n.path.length, toLex (n.path.segments.dropLast.map Bytes.ofText,
    toLex (!n.path.isFile, Bytes.ofText (n.path.segments.getLastD ""))))

theorem Notice.key_lt {m n : Notice} : m.key < n.key ↔
    m.path.length < n.path.length ∨ m.path.length = n.path.length ∧
      (m.path.segments.dropLast.map Bytes.ofText < n.path.segments.dropLast.map Bytes.ofText ∨
        m.path.segments.dropLast.map Bytes.ofText = n.path.segments.dropLast.map Bytes.ofText ∧
          ((!m.path.isFile) < (!n.path.isFile) ∨ (!m.path.isFile) = (!n.path.isFile) ∧
            Bytes.ofText (m.path.segments.getLastD "") <
              Bytes.ofText (n.path.segments.getLastD ""))) := by
  simp only [key, Prod.Lex.toLex_lt_toLex]

/-- For paths of one length, to compare the directories and then the last names is to compare all
names. -/
theorem segments_lt {p q : List String} (hlen : p.length = q.length)
    (h : p.dropLast.map Bytes.ofText < q.dropLast.map Bytes.ofText ∨
      p.dropLast.map Bytes.ofText = q.dropLast.map Bytes.ofText ∧
        Bytes.ofText (p.getLastD "") < Bytes.ofText (q.getLastD "")) :
    p.map Bytes.ofText < q.map Bytes.ofText := by
  rcases List.eq_nil_or_concat p with rfl | ⟨p, a, rfl⟩
  · have hq : q = [] := List.length_eq_zero_iff.mp hlen.symm
    subst hq
    rcases h with h | ⟨_, h⟩
    · exact absurd h (List.not_lt_nil _)
    · exact absurd h (List.lt_irrefl _)
  · rcases List.eq_nil_or_concat q with rfl | ⟨q, b, rfl⟩
    · simp at hlen
    · simp only [List.concat_eq_append, List.length_append, List.dropLast_concat] at hlen h ⊢
      rw [List.map_append, List.map_append]
      exact concat_lt (by simpa using hlen) (by simpa using h)

/-- The children of two directories stand in the order of the directories. -/
theorem Notice.ChildOf.key_lt {m n p q : Notice} (hm : m.ChildOf p) (hn : n.ChildOf q)
    (h : p.key < q.key) : m.key < n.key := by
  have hmlen := hm.length
  have hnlen := hn.length
  obtain ⟨hp, a, ha⟩ := childOf_iff.mp hm
  obtain ⟨hq, b, hb⟩ := childOf_iff.mp hn
  rw [Notice.key_lt] at h ⊢
  rcases h with hlen | ⟨hlen, hnames⟩
  · left
    omega
  · right
    refine ⟨by omega, .inl ?_⟩
    rw [ha, hb, List.dropLast_concat, List.dropLast_concat]
    refine segments_lt hlen (hnames.imp id fun hlast => ⟨hlast.1, ?_⟩)
    simpa [hp, hq] using hlast.2

/-- Two children of one directory stand in the order of their names, files first. -/
theorem key_lt_of_names {m n : Notice} {dir : List String} {a b : String}
    (hm : m.path.segments = dir ++ [a]) (hn : n.path.segments = dir ++ [b])
    (h : (!m.path.isFile) < (!n.path.isFile) ∨ (!m.path.isFile) = (!n.path.isFile) ∧
      Bytes.ofText a < Bytes.ofText b) : m.key < n.key := by
  rw [Notice.key_lt]
  right
  refine ⟨by simp [RelPath.length, hm, hn], .inr ⟨by simp [hm, hn], ?_⟩⟩
  simpa [hm, hn] using h

section Reports

variable {rules : Rules} {place : Location} {ns : List Notice} {dir : Pending}
  {queue : List Pending} {t : Tree} (ht : t.ListsOnce) {options : Options}
  (hs : options.sorted = true)
include ht hs

/-- Children of one kind are reported in the order of their names. -/
theorem ranked_of_kind (dir : Pending) (p : Child → Bool) {kind : Bool}
    (hp : ∀ c, p c = true → c.isDir = kind) :
    (((children t options dir.location).filter p).map fun c =>
      (⟨c.location dir.location, c.path dir.path⟩ : Notice)).Pairwise fun m n => m.key < n.key := by
  refine List.pairwise_map.mpr (((children_sorted ht hs dir.location).filter p).imp_of_mem ?_)
  intro c d hc hd hlt
  have hkind : c.isDir = d.isDir :=
    (hp c (List.mem_filter.mp hc).2).trans (hp d (List.mem_filter.mp hd).2).symm
  exact key_lt_of_names rfl rfl (.inr ⟨by simp [Child.path, RelPath.child, hkind], hlt⟩)

theorem reports_ranked : (reports t rules options dir).Pairwise fun m n => m.key < n.key := by
  refine List.pairwise_append.mpr ⟨?_, ?_, ?_⟩
  · exact ranked_of_kind ht hs dir _ fun c hc => by simpa using (Bool.and_eq_true_iff.mp hc).2
  · have hopens := ranked_of_kind ht hs dir (fun c => rules.admits (c.path dir.path) && c.isDir)
      fun c hc => (Bool.and_eq_true_iff.mp hc).2
    rw [opens, admittedDirs, List.map_map]
    exact hopens
  · intro m hm n hn
    obtain ⟨a, _, ha, _⟩ := reports_child (List.mem_append_left _ hm)
    obtain ⟨b, _, hb, _⟩ := reports_child (List.mem_append_right _ hn)
    refine key_lt_of_names ha hb (.inl ?_)
    simp [admittedFiles_isFile m hm, opens_isFile n hn]

/-- What lies in the directory that is taken stands behind all that was reported before. -/
theorem Waiting.ranked_take (h : Waiting rules place ns (dir :: queue))
    (hns : ns.Pairwise fun m n => m.key < n.key) :
    (ns ++ reports t rules options dir).Pairwise fun m n => m.key < n.key := by
  refine List.pairwise_append.mpr ⟨hns, reports_ranked ht hs, ?_⟩
  intro m hm n hn
  -- The directory of `m` was reported before `dir`, so it is enough to compare these two.
  have hroot : (fromRoot place ns).Pairwise fun m n => m.key < n.key := by
    refine List.pairwise_cons.mpr ⟨fun k hk => Notice.key_lt.mpr (.inl ?_), hns⟩
    exact List.length_pos_iff.mpr (h.levelled.below k hk)
  obtain ⟨p, hp, hchild⟩ := h.behind m hm dir List.mem_cons_self
  exact hchild.key_lt (h.report_childOf hn) (hp.pairwise hroot)

end Reports

/-- A sorted walk reports in strictly increasing order, whatever the visitor makes of the tree. -/
theorem drain_ranked {v : Visitor ω ε} {rules : Rules} {options : Options}
    (hs : options.sorted = true) (limit : Nat) {world : ω} {place : Location}
    (hlists : ∀ w, v.Reaches world w → (v.tree w).ListsOnce) :
    (drain v rules options limit (initial world options place)).calls.Pairwise
      fun m n => m.key < n.key := by
  have hrun : ∃ all rest, (Waiting rules place all rest ∧ all.Pairwise fun m n => m.key < n.key) ∧
      [] ++ (drain v rules options limit (initial world options place)).calls <+: all :=
    drain_keeps (fun ns queue => Waiting rules place ns queue ∧ ns.Pairwise fun m n => m.key < n.key)
      (fun _ _ _ _ _ ht h hmore => ⟨h.1.take ht hmore, h.1.ranked_take ht hs h.2⟩) limit hlists
      ⟨Waiting.initial, List.Pairwise.nil⟩
  obtain ⟨all, rest, ⟨_, hall⟩, hcalls⟩ := hrun
  exact hall.sublist hcalls.sublist

end Walk
end Fileset
