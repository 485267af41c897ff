import Fileset.Pattern.Gapped

namespace Fileset.Gapped

variable {α : Type v} {β : Type u}

structure Cursor where
  /-- The next item of the pattern. -/
  item : Nat
  /-- The next element of the list. -/
  elem : Nat
  /-- The position of the last gap, and where in the list that gap ends for now. -/
  back : Option (Nat × Nat)
  deriving DecidableEq, Repr

inductive Outcome
  | going (c : Cursor)
  | verdict (b : Bool)
  /-- The rest of the pattern was taken from a position behind its end. -/
  | outside
  deriving DecidableEq, Repr

namespace Cursor

def start : Cursor := ⟨0, 0, none⟩

def retry (c : Cursor) : Outcome :=
  match c.back with
  | some (g, e) => .going ⟨g + 1, e + 1, some (g, e + 1)⟩
  | none => .verdict false

def step (fits : β → α → Bool) (early : Bool) (p : List (Item β)) (s : List α) (c : Cursor) :
    Outcome :=
  match s[c.elem]? with
  | none =>
    if c.item ≤ p.length then .verdict (early || (p.drop c.item).all Item.isGap) else .outside
  | some a =>
    match p[c.item]? with
    | some .gap => .going ⟨c.item + 1, c.elem, some (c.item, c.elem)⟩
    | some (.one b) => if fits b a then .going ⟨c.item + 1, c.elem + 1, c.back⟩ else c.retry
    | none => c.retry

/-- From `c` the loop comes to the verdict `b` after finitely many rounds. -/
inductive Ends (fits : β → α → Bool) (early : Bool) (p : List (Item β)) (s : List α) :
    Cursor → Bool → Prop
  | halt : step fits early p s c = .verdict b → Ends fits early p s c b
  | next : step fits early p s c = .going d → Ends fits early p s d b → Ends fits early p s c b

variable {fits : β → α → Bool} {early : Bool} {p : List (Item β)} {s : List α}

theorem Ends.unique {c : Cursor} {a b : Bool} (ha : Ends fits early p s c a)
    (hb : Ends fits early p s c b) : a = b := by
  induction ha with
  | halt hs =>
    cases hb with
    | halt ht => simpa [hs] using ht
    | next ht _ => simp [hs] at ht
  | next hs _ ih =>
    cases hb with
    | halt ht => simp [hs] at ht
    | next ht hb =>
      rw [hs] at ht
      cases ht
      exact ih hb

def At {γ : Type w} (l : List γ) (i : Nat) (r : List γ) : Prop := i ≤ l.length ∧ l.drop i = r

theorem At.zero {γ : Type w} (l : List γ) : At l 0 l := ⟨Nat.zero_le _, rfl⟩

theorem At.get {γ : Type w} {l r : List γ} {i : Nat} (h : At l i r) : l[i]? = r.head? := by
  rw [← h.2, List.head?_drop]

theorem At.next {γ : Type w} {l r : List γ} {x : γ} {i : Nat} (h : At l i (x :: r)) :
    At l (i + 1) r := by
  have hlen : i < l.length := by
    have := congrArg List.length h.2
    simp only [List.length_drop, List.length_cons] at this
    omega
  have hdrop : (l.drop i).tail = r := by rw [h.2, List.tail_cons]
  exact ⟨hlen, by rwa [List.tail_drop] at hdrop⟩

theorem At.lt {γ : Type w} {l r : List γ} {x : γ} {i : Nat} (h : At l i (x :: r)) :
    i < l.length := h.next.1

theorem At.eq_length {γ : Type w} {l : List γ} {i : Nat} (h : At l i []) : i = l.length :=
  Nat.le_antisymm h.1 (List.drop_eq_nil_iff.mp h.2)

theorem step_done {i j : Nat} {back : Option (Nat × Nat)} {p' : List (Item β)} (hp : At p i p')
    (hs : At s j []) :
    step fits early p s ⟨i, j, back⟩ = .verdict (early || p'.all Item.isGap) := by
  simp [step, hs.get, hp.1, hp.2]

theorem step_gap {i j : Nat} {back : Option (Nat × Nat)} {p' : List (Item β)} {a : α} {s' : List α}
    (hp : At p i (.gap :: p')) (hs : At s j (a :: s')) :
    step fits early p s ⟨i, j, back⟩ = .going ⟨i + 1, j, some (i, j)⟩ := by
  simp [step, hs.get, hp.get]

theorem step_fits {i j : Nat} {back : Option (Nat × Nat)} {b : β} {p' : List (Item β)} {a : α}
    {s' : List α} (hp : At p i (.one b :: p')) (hs : At s j (a :: s')) (hf : fits b a = true) :
    step fits early p s ⟨i, j, back⟩ = .going ⟨i + 1, j + 1, back⟩ := by
  simp [step, hs.get, hp.get, hf]

theorem step_mismatch {i j : Nat} {back : Option (Nat × Nat)} {b : β} {p' : List (Item β)} {a : α}
    {s' : List α} (hp : At p i (.one b :: p')) (hs : At s j (a :: s')) (hf : ¬fits b a = true) :
    step fits early p s ⟨i, j, back⟩ = retry ⟨i, j, back⟩ := by
  simp [step, hs.get, hp.get, hf]

theorem step_spent {i j : Nat} {back : Option (Nat × Nat)} {a : α} {s' : List α}
    (hp : At p i []) (hs : At s j (a :: s')) :
    step fits early p s ⟨i, j, back⟩ = retry ⟨i, j, back⟩ := by
  simp [step, hs.get, hp.get]

/-- Behind a gap at `g` that ends at `e`. That the gap never ends behind the current element keeps
both positions inside when they are set back. -/
theorem resume_ends {g e i j : Nat} {q p' : List (Item β)} {t s' : List α}
    (hg : gaps p' ≤ gaps q) (hq : At p (g + 1) q) (ht : At s e t) (hp : At p i p')
    (hs : At s j s') (hej : e ≤ j) :
    Ends fits early p s ⟨i, j, some (g, e)⟩ (resume fits early q t p' s' hg) := by
  fun_induction resume fits early q t p' s' hg generalizing g e i j with
  | case1 q t p' => exact .halt (step_done hp hs)
  | case2 q t p' a s' _ _ ih =>
    exact .next (step_gap hp hs) (ih hp.next hs hp.next hs (Nat.le_refl j))
  | case3 q t b p' a s' _ hf _ ih =>
    exact .next (step_fits hp hs hf) (ih hq ht hp.next hs.next (Nat.le_succ_of_le hej))
  | case4 q b p' a s' =>
    have := ht.eq_length
    have := hs.lt
    omega
  | case5 q b p' a s' _ hf c t _ ih =>
    exact .next (step_mismatch hp hs hf) (ih hq ht.next hq ht.next (Nat.le_refl _))
  | case6 q a s' =>
    have := ht.eq_length
    have := hs.lt
    omega
  | case7 q a s' _ c t _ ih =>
    exact .next (step_spent hp hs) (ih hq ht.next hq ht.next (Nat.le_refl _))

theorem run_ends {i j : Nat} {p' : List (Item β)} {s' : List α} (hp : At p i p') (hs : At s j s') :
    Ends fits early p s ⟨i, j, none⟩ (run fits early p' s') := by
  fun_induction run fits early p' s' generalizing i j with
  | case1 p' => exact .halt (step_done hp hs)
  | case2 p' a s' =>
    exact .next (step_gap hp hs) (resume_ends _ hp.next hs hp.next hs (Nat.le_refl j))
  | case3 b p' a s' ih =>
    cases hf : fits b a with
    | true => exact .next (step_fits hp hs hf) (ih hp.next hs.next)
    | false => exact .halt (step_mismatch hp hs (by simp [hf]))
  | case4 a s' => exact .halt (step_spent hp hs)

/-- The loop ends, inside of both lists, and has the verdict of the pass. -/
theorem ends_start_iff {b : Bool} :
    Ends fits early p s start b ↔ b = run fits early p s := by
  have hrun : Ends fits early p s start (run fits early p s) := run_ends (.zero p) (.zero s)
  constructor
  · intro hb
    exact hb.unique hrun
  · rintro rfl
    exact hrun

end Cursor
end Fileset.Gapped
