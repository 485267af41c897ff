namespace Fileset

namespace Assoc

variable {α : Type u}

def Sorted (es : List (String × α)) : Prop := es.Pairwise (·.1 < ·.1)

def get? (k : String) : List (String × α) → Option α
  | [] => none
  | (j, a) :: es => if j = k then some a else get? k es

/-- Give `k` the value `a`, in its place in the order. -/
def put (k : String) (a : α) : List (String × α) → List (String × α)
  | [] => [(k, a)]
  | (j, b) :: es =>
    if k < j then (k, a) :: (j, b) :: es
    else if k = j then (k, a) :: es
    else (j, b) :: put k a es

def erase (k : String) (es : List (String × α)) : List (String × α) := es.filter (·.1 != k)

theorem lt_of_not_lt {j k : String} (h : ¬k < j) (hne : k ≠ j) : j < k := by
  by_cases hjk : j < k
  · exact hjk
  · exact absurd (String.le_antisymm (String.not_lt.1 hjk) (String.not_lt.1 h)) hne

theorem mem_put {k : String} {a : α} {es : List (String × α)} {e : String × α}
    (h : e ∈ put k a es) : e = (k, a) ∨ e ∈ es := by
  induction es with
  | nil => simpa [put] using h
  | cons e' es ih =>
    obtain ⟨j, b⟩ := e'
    simp only [put] at h
    split at h
    · simpa using h
    · split at h
      · rcases List.mem_cons.1 h with h | h
        · exact .inl h
        · exact .inr (List.mem_cons_of_mem _ h)
      · rcases List.mem_cons.1 h with h | h
        · exact .inr (h ▸ List.mem_cons_self)
        · exact (ih h).imp id (List.mem_cons_of_mem _)

theorem Sorted.put {es : List (String × α)} (h : Sorted es) (k : String) (a : α) :
    Sorted (put k a es) := by
  induction es with
  | nil => simp [Assoc.put, Sorted]
  | cons e es ih =>
    obtain ⟨j, b⟩ := e
    have hj := (List.pairwise_cons.1 h).1
    have hes := (List.pairwise_cons.1 h).2
    simp only [Assoc.put]
    split
    · rename_i hk
      refine List.pairwise_cons.2 ⟨fun e he => ?_, h⟩
      rcases List.mem_cons.1 he with rfl | he
      · exact hk
      · exact String.lt_trans hk (hj e he)
    · rename_i hk
      split
      · rename_i hkj
        subst hkj
        exact List.pairwise_cons.2 ⟨hj, hes⟩
      · rename_i hne
        refine List.pairwise_cons.2 ⟨fun e he => ?_, ih hes⟩
        rcases mem_put he with rfl | he
        · exact lt_of_not_lt hk hne
        · exact hj e he

theorem Sorted.erase {es : List (String × α)} (h : Sorted es) (k : String) : Sorted (erase k es) :=
  List.Pairwise.filter _ h

end Assoc

structure NameMap (α : Type u) where
  entries : List (String × α)
  sorted : Assoc.Sorted entries
  deriving DecidableEq

namespace NameMap

variable {α : Type u}

def empty : NameMap α := ⟨[], List.Pairwise.nil⟩
def get? (m : NameMap α) (k : String) : Option α := Assoc.get? k m.entries
def put (m : NameMap α) (k : String) (a : α) : NameMap α := ⟨Assoc.put k a m.entries, m.sorted.put k a⟩
def erase (m : NameMap α) (k : String) : NameMap α := ⟨Assoc.erase k m.entries, m.sorted.erase k⟩

/-- The pairs in turn; a later one with the same name wins. -/
def ofList (es : List (String × α)) : NameMap α := es.foldl (fun m e => m.put e.1 e.2) empty

end NameMap
end Fileset
