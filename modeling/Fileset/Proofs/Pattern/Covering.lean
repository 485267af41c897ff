import Fileset.Pattern.Gapped

namespace Fileset.Gapped

variable {α : Type v} {β : Type u} {fits : β → α → Bool} {early : Bool}

/-- What a pass decides: the pattern covers the list, or, with `early`, a beginning of it does. -/
def Meets (fits : β → α → Bool) (early : Bool) (p : List (Item β)) (s : List α) : Prop :=
  ∃ front, front <+: p ∧ (early = false → front = p) ∧ Covers fits front s

theorem meets_false {p : List (Item β)} {s : List α} :
    Meets fits false p s ↔ Covers fits p s := by
  constructor
  · intro h
    obtain ⟨front, _, hall, hc⟩ := h
    exact hall rfl ▸ hc
  · intro hc
    exact ⟨p, List.prefix_refl p, fun _ => rfl, hc⟩

theorem meets_true {p : List (Item β)} {s : List α} :
    Meets fits true p s ↔ ∃ k, k ≤ p.length ∧ Covers fits (p.take k) s := by
  constructor
  · intro h
    obtain ⟨front, hp, _, hc⟩ := h
    refine ⟨front.length, hp.length_le, ?_⟩
    rw [← List.prefix_iff_eq_take.mp hp]
    exact hc
  · intro h
    obtain ⟨k, _, hc⟩ := h
    exact ⟨p.take k, List.take_prefix k p, by simp, hc⟩

/-- Only gaps can stand for no elements at all. -/
theorem covers_nil_right {p : List (Item β)} :
    Covers fits p ([] : List α) ↔ p.all Item.isGap = true := by
  induction p with
  | nil => exact ⟨fun _ => rfl, fun _ => .nil⟩
  | cons i p ih =>
    cases i with
    | gap =>
      constructor
      · intro hc
        generalize hs : ([] : List α) = s at hc
        cases hc with
        | gap r hc =>
          have hnil := (List.append_eq_nil_iff.mp hs.symm).2
          subst hnil
          simpa [Item.isGap] using ih.mp hc
      · intro hall
        have hc : Covers fits p ([] : List α) := ih.mpr (by simpa [Item.isGap] using hall)
        exact .gap [] hc
    | one b =>
      constructor
      · intro hc
        cases hc
      · intro hall
        simp [Item.isGap] at hall

theorem meets_nil_right {p : List (Item β)} :
    Meets fits early p ([] : List α) ↔ (early || p.all Item.isGap) = true := by
  cases early with
  | false => simpa [meets_false] using covers_nil_right
  | true => exact ⟨fun _ => rfl, fun _ => ⟨[], List.nil_prefix, by simp, .nil⟩⟩

theorem not_meets_nil_cons {a : α} {s : List α} :
    ¬Meets fits early ([] : List (Item β)) (a :: s) := by
  intro h
  obtain ⟨front, hp, _, hc⟩ := h
  rw [List.prefix_nil.mp hp] at hc
  cases hc

theorem meets_one_cons {b : β} {p : List (Item β)} {a : α} {s : List α} :
    Meets fits early (.one b :: p) (a :: s) ↔ fits b a = true ∧ Meets fits early p s := by
  constructor
  · intro hm
    obtain ⟨front, hp, hall, hc⟩ := hm
    cases front with
    | nil => cases hc
    | cons i front =>
      obtain ⟨rfl, hfront⟩ := List.cons_prefix_cons.mp hp
      cases hc with
      | one hf hc => exact ⟨hf, front, hfront, fun h => (List.cons.inj (hall h)).2, hc⟩
  · intro hm
    obtain ⟨hf, front, hp, hall, hc⟩ := hm
    refine ⟨.one b :: front, List.cons_prefix_cons.mpr ⟨rfl, hp⟩, fun h => ?_, .one hf hc⟩
    rw [hall h]

theorem meets_gap_cons {p : List (Item β)} {s : List α} :
    Meets fits early (.gap :: p) s ↔ ∃ s', s' <:+ s ∧ Meets fits early p s' := by
  constructor
  · intro hm
    obtain ⟨front, hp, hall, hc⟩ := hm
    cases front with
    | nil =>
      cases early with
      | false => exact absurd (hall rfl) (by simp)
      | true =>
        cases hc
        exact ⟨[], List.suffix_refl [], meets_nil_right.mpr rfl⟩
    | cons i front =>
      obtain ⟨rfl, hfront⟩ := List.cons_prefix_cons.mp hp
      cases hc with
      | gap r hc =>
        exact ⟨_, List.suffix_append r _, front, hfront, fun h => (List.cons.inj (hall h)).2, hc⟩
  · intro hm
    obtain ⟨s', ⟨r, rfl⟩, front, hp, hall, hc⟩ := hm
    refine ⟨.gap :: front, List.cons_prefix_cons.mpr ⟨rfl, hp⟩, fun h => ?_, .gap r hc⟩
    rw [hall h]

/-- What a pass knows of the pattern `q` behind the last gap, tried on `t`, once `p` and `s` are left
of them. The second field is why older gaps may be forgotten: a later try of `q` that succeeds gives
`p` a place in `s`. -/
structure Follows (fits : β → α → Bool) (early : Bool) (q : List (Item β)) (t : List α)
    (p : List (Item β)) (s : List α) : Prop where
  same : Meets fits early q t ↔ Meets fits early p s
  later : ∀ t', t' <:+ t → Meets fits early q t' → ∃ s', s' <:+ s ∧ Meets fits early p s'

theorem Follows.refl (q : List (Item β)) (t : List α) : Follows fits early q t q t :=
  ⟨Iff.rfl, fun t' ht h => ⟨t', ht, h⟩⟩

theorem Follows.one {b : β} {a : α} {p q : List (Item β)} {s t : List α}
    (h : Follows fits early q t (.one b :: p) (a :: s)) (hf : fits b a = true) :
    Follows fits early q t p s := by
  refine ⟨h.same.trans (by simp [meets_one_cons, hf]), ?_⟩
  intro t' ht hq
  obtain ⟨s', hs, hp⟩ := h.later t' ht hq
  cases s' with
  | nil =>
    have hnil := meets_nil_right.mp hp
    refine ⟨[], List.nil_suffix, meets_nil_right.mpr ?_⟩
    simpa [Item.isGap] using Or.inl hnil
  | cons a' s' =>
    obtain ⟨_, hp⟩ := meets_one_cons.mp hp
    rcases List.suffix_cons_iff.mp hs with he | hs
    · exact ⟨s', (List.cons.inj he).2 ▸ List.suffix_refl s', hp⟩
    · exact ⟨s', (List.suffix_cons a' s').trans hs, hp⟩

/-- After a mismatch the gap takes one more element. -/
theorem next_try {q : List (Item β)} {a : α} {t : List α} (h : ¬Meets fits early q (a :: t)) :
    (∃ t', t' <:+ t ∧ Meets fits early q t') ↔ ∃ t', t' <:+ a :: t ∧ Meets fits early q t' := by
  constructor
  · intro hm
    obtain ⟨t', ht, hq⟩ := hm
    exact ⟨t', ht.trans (List.suffix_cons a t), hq⟩
  · intro hm
    obtain ⟨t', ht, hq⟩ := hm
    rcases List.suffix_cons_iff.mp ht with rfl | ht
    · exact absurd hq h
    · exact ⟨t', ht, hq⟩

theorem no_try {q : List (Item β)} (h : ¬Meets fits early q ([] : List α)) :
    ¬∃ t', t' <:+ [] ∧ Meets fits early q t' := by
  intro hm
  obtain ⟨t', ht, hq⟩ := hm
  exact h (List.suffix_nil.mp ht ▸ hq)

/-- At the next gap the older one is given up: whatever it could still take, the new one can. -/
theorem Follows.gap {q p : List (Item β)} {t s : List α}
    (h : Follows fits early q t (.gap :: p) s) :
    (∃ t', t' <:+ t ∧ Meets fits early q t') ↔ ∃ s', s' <:+ s ∧ Meets fits early p s' := by
  constructor
  · intro hm
    obtain ⟨t', ht, hq⟩ := hm
    obtain ⟨s', hs, hp⟩ := h.later t' ht hq
    obtain ⟨s'', hs', hp⟩ := meets_gap_cons.mp hp
    exact ⟨s'', hs'.trans hs, hp⟩
  · intro hs
    exact ⟨t, List.suffix_refl t, h.same.mpr (meets_gap_cons.mpr hs)⟩

theorem resume_iff {q p : List (Item β)} {t s : List α} (hg : gaps p ≤ gaps q)
    (h : Follows fits early q t p s) :
    resume fits early q t p s hg = true ↔ ∃ t', t' <:+ t ∧ Meets fits early q t' := by
  fun_induction resume fits early q t p s hg with
  | case1 q t p =>
    constructor
    · intro hp
      exact ⟨t, List.suffix_refl t, h.same.mpr (meets_nil_right.mpr hp)⟩
    · intro hex
      obtain ⟨t', ht, hq⟩ := hex
      obtain ⟨s', hs, hp⟩ := h.later t' ht hq
      rw [List.suffix_nil.mp hs] at hp
      exact meets_nil_right.mp hp
  | case2 q t p a s _ _ ih => rw [ih (.refl _ _), h.gap]
  | case3 q t b p a s _ hf _ ih => exact ih (h.one hf)
  | case4 q b p a s _ hf =>
    have hq := mt h.same.mp fun hm => hf (meets_one_cons.mp hm).1
    simpa using no_try hq
  | case5 q b p a s _ hf c t _ ih =>
    have hq := mt h.same.mp fun hm => hf (meets_one_cons.mp hm).1
    exact (ih (.refl _ _)).trans (next_try hq)
  | case6 q a s =>
    have hq := mt h.same.mp not_meets_nil_cons
    simpa using no_try hq
  | case7 q a s _ c t _ ih =>
    have hq := mt h.same.mp not_meets_nil_cons
    exact (ih (.refl _ _)).trans (next_try hq)

theorem run_iff {p : List (Item β)} {s : List α} :
    run fits early p s = true ↔ Meets fits early p s := by
  fun_induction run fits early p s with
  | case1 p => exact meets_nil_right.symm
  | case2 p a s => rw [resume_iff _ (.refl _ _), meets_gap_cons]
  | case3 b p a s ih => simp [meets_one_cons, ih]
  | case4 a s => simpa using not_meets_nil_cons

end Fileset.Gapped
