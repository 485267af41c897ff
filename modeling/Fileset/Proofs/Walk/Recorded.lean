import Fileset.Walk.Recorded

namespace Fileset.Walk.Recorded

def map (f : α → β) (r : Recorded ε α) : Recorded ε β := ⟨r.trace, r.result.map f⟩

def Ensures (r : Recorded ε α) (post : Trace → α → Prop) : Prop :=
  ∀ a, r.result = .ok a → post r.trace a

def Lacks (r : Recorded ε α) (p : Event → Bool) : Prop := ∀ e ∈ r.trace, p e = false

section Sequence

variable (r : Recorded ε α)

theorem andThen_assoc (f : α → Recorded ε β) (g : β → Recorded ε γ) :
    (r.andThen f).andThen g = r.andThen fun a => (f a).andThen g := by
  unfold andThen
  cases r.result with
  | error e => rfl
  | ok a =>
    simp only [record]
    cases (f a).result with
    | error e => rfl
    | ok b => simp only [List.append_assoc]

theorem map_record (t : Trace) (f : α → β) : (record t r).map f = record t (r.map f) := rfl

theorem map_andThen (f : α → Recorded ε β) (g : β → γ) :
    (r.andThen f).map g = r.andThen fun a => (f a).map g := by
  unfold andThen
  cases r.result <;> rfl

theorem andThen_map (f : α → β) (g : β → Recorded ε γ) :
    (r.map f).andThen g = r.andThen fun a => g (f a) := by
  unfold andThen map
  cases r.result <;> rfl

/-- What goes on alike from every value that can be left does the same. -/
theorem andThen_congr {r : Recorded ε α} {f g : α → Recorded ε β}
    (h : r.Ensures fun _ a => f a = g a) : r.andThen f = r.andThen g := by
  unfold andThen
  cases hr : r.result with
  | ok a => exact congrArg (record r.trace) (h a hr)
  | error e => rfl

end Sequence

namespace Ensures

variable {r : Recorded ε α} {post mid : Trace → α → Prop}

theorem ok {a : α} (h : post [] a) : (Recorded.ok a : Recorded ε α).Ensures post := by
  intro b hb
  cases hb
  exact h

theorem stop {e : ε} : (Recorded.stop e : Recorded ε α).Ensures post := by
  intro a ha
  cases ha

theorem record {t : Trace} (h : r.Ensures fun u a => post (t ++ u) a) :
    (Recorded.record t r).Ensures post := h

theorem mono (h : r.Ensures mid) (hpost : ∀ t a, mid t a → post t a) : r.Ensures post :=
  fun a ha => hpost _ a (h a ha)

theorem andThen {f : α → Recorded ε β} {last : Trace → β → Prop} (h : r.Ensures mid)
    (hf : ∀ t a, mid t a → (f a).Ensures fun u b => last (t ++ u) b) :
    (r.andThen f).Ensures last := by
  intro b hb
  unfold Recorded.andThen at hb ⊢
  cases hr : r.result with
  | ok a =>
    simp only [hr] at hb ⊢
    exact hf _ a (h a hr) b hb
  | error e =>
    simp only [hr] at hb
    cases hb

end Ensures

namespace Lacks

variable {p : Event → Bool} {r : Recorded ε α}

theorem ok (a : α) : (Recorded.ok a : Recorded ε α).Lacks p := by simp [Lacks, Recorded.ok]

theorem stop (e : ε) : (Recorded.stop e : Recorded ε α).Lacks p := by simp [Lacks, Recorded.stop]

theorem record {t : Trace} (ht : ∀ e ∈ t, p e = false) (h : r.Lacks p) :
    (Recorded.record t r).Lacks p := by
  intro e he
  exact (List.mem_append.mp he).elim (ht e) (h e)

theorem event {e : Event} (he : p e = false) (h : r.Lacks p) : (Recorded.record [e] r).Lacks p :=
  .record (by simpa using he) h

theorem andThen {f : α → Recorded ε β} (h : r.Lacks p) (hf : ∀ a, (f a).Lacks p) :
    (r.andThen f).Lacks p := by
  unfold Recorded.andThen
  cases r.result with
  | ok a => exact .record h (hf a)
  | error e => exact h

end Lacks

end Fileset.Walk.Recorded
