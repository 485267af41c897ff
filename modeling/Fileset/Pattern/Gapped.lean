namespace Fileset.Gapped

inductive Item (β : Type u)
  | gap
  | one (item : β)
  deriving DecidableEq, Repr

variable {α : Type v} {β : Type u}

/-- The list can be cut into pieces, one per item: any piece for a gap, one fitting element for a
single item. -/
inductive Covers (fits : β → α → Bool) : List (Item β) → List α → Prop
  | nil : Covers fits [] []
  | one : fits b a → Covers fits p s → Covers fits (.one b :: p) (a :: s)
  | gap (r : List α) : Covers fits p s → Covers fits (.gap :: p) (r ++ s)

def Item.isGap : Item β → Bool
  | .gap => true
  | .one _ => false

def gaps (p : List (Item β)) : Nat := p.countP Item.isGap

/-- Match `s` against `p` after a gap. `q` is the pattern behind the gap and `t` the list at the place
where the gap ends for now: on a mismatch the gap takes one more element of `t` and `q` starts over.
When the list is used up, only gaps may be left of the pattern, unless `early` allows anything. -/
def resume (fits : β → α → Bool) (early : Bool) (q : List (Item β)) (t : List α)
    (p : List (Item β)) (s : List α) (h : gaps p ≤ gaps q) : Bool :=
  match p, s with
  | p, [] => early || p.all Item.isGap
  | .gap :: p, a :: s => resume fits early p (a :: s) p (a :: s) (Nat.le_refl _)
  | .one b :: p, a :: s =>
    if fits b a then resume fits early q t p s (by simpa [gaps, Item.isGap] using h)
    else match t with
      | [] => false
      | _ :: t => resume fits early q t q t (Nat.le_refl _)
  | [], _ :: _ =>
    match t with
    | [] => false
    | _ :: t => resume fits early q t q t (Nat.le_refl _)
termination_by (gaps q, t.length, s.length)
decreasing_by
  · have : gaps (.gap :: p) = gaps p + 1 := List.countP_cons_of_pos rfl
    exact Prod.Lex.left _ _ (by omega)
  · exact Prod.Lex.right _ (Prod.Lex.right _ (by simp))
  · exact Prod.Lex.right _ (Prod.Lex.left _ _ (by simp))
  · exact Prod.Lex.right _ (Prod.Lex.left _ _ (by simp))

def run (fits : β → α → Bool) (early : Bool) : List (Item β) → List α → Bool
  | p, [] => early || p.all Item.isGap
  | .gap :: p, a :: s => resume fits early p (a :: s) p (a :: s) (Nat.le_refl _)
  | .one b :: p, a :: s => fits b a && run fits early p s
  | [], _ :: _ => false

end Fileset.Gapped
