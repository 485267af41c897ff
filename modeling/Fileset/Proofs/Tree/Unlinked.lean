import Fileset.Proofs.Tree.Leads

namespace Fileset.Tree

/-- Neither at the location nor at one above it lies a link. -/
def Unlinked (t : Tree) (loc : Location) : Prop :=
  ∀ front, front <+: loc → ∀ target, t.kindAt? front ≠ some (.link target)

variable {t t' : Tree}

theorem Unlinked.extend {dir : Location} {name : Bytes} (h : t.Unlinked dir)
    (hname : ∀ target, t.kindAt? (dir ++ [name]) ≠ some (.link target)) :
    t.Unlinked (dir ++ [name]) := by
  intro front hfront
  rcases List.prefix_concat_iff.mp hfront with rfl | hfront
  · exact hname
  · exact h front hfront

section WellFormed

variable (h : t.WellFormed) {loc : Location}
include h

theorem WellFormed.unlinked_directory (hd : t.isDirectory loc = true) : t.Unlinked loc := by
  rintro front ⟨rest, rfl⟩ target hlink
  have hfront := isDirectory_iff.mp (h.isDirectory_front hd)
  simp [hlink] at hfront

theorem WellFormed.unlinked_present {kind : Kind} (hk : t.kindAt? loc = some kind)
    (hkind : ∀ target, kind ≠ .link target) : t.Unlinked loc := by
  rcases List.eq_nil_or_concat loc with rfl | ⟨dir, name, rfl⟩
  · exact h.unlinked_directory rfl
  · rw [List.concat_eq_append] at hk ⊢
    refine (h.unlinked_directory (h.isDirectory_above hk)).extend fun target hlink => ?_
    exact hkind target (Option.some.inj (hk.symm.trans hlink))

theorem WellFormed.unlinked_locatePath {path : Bytes} (hr : t.locatePath path = .ok loc) :
    t.Unlinked loc := by
  obtain ⟨kind, hk, hkind⟩ := h.kindAt?_locatePath hr
  exact h.unlinked_present hk hkind

end WellFormed

namespace Unlinked

section Resolve

variable {here names : Location}

theorem find? {name : Bytes} (h : t.Unlinked (here ++ name :: names)) {kind : Kind}
    (hfind : t.find? here name = some kind) : ∀ target, kind ≠ .link target := by
  rintro target rfl
  rw [← kindAt?_append_singleton] at hfind
  exact h _ (by simp) target hfind

theorem resolveFrom {links : Nat} {place : Location} (here : Location)
    (h : t.Unlinked (here ++ names))
    (hr : t.resolveFrom links here (names.map .name) = .ok (.present place)) :
    place = here ++ names := by
  induction names generalizing here with
  | nil => simpa [Tree.resolveFrom] using hr.symm
  | cons name names ih =>
    rw [List.map_cons] at hr
    cases hd : t.isDirectory here with
    | false =>
      rw [resolveFrom_blocked hd] at hr
      cases hr
    | true =>
      cases hfind : t.find? here name with
      | none =>
        rw [resolveFrom_free hd _ _ hfind] at hr
        split at hr <;> cases hr
      | some kind =>
        rw [resolveFrom_entry hd _ _ hfind (h.find? hfind)] at hr
        rw [List.append_cons] at h ⊢
        exact ih _ h hr

/-- Where a path without links leads depends on what lies on its way. -/
theorem resolveFrom_congr (links : Nat) (here : Location) (h : t.Unlinked (here ++ names))
    (hsame : ∀ front, front <+: here ++ names → t'.kindAt? front = t.kindAt? front) :
    t'.resolveFrom links here (names.map .name) = t.resolveFrom links here (names.map .name) := by
  induction names generalizing here with
  | nil => simp [Tree.resolveFrom]
  | cons name names ih =>
    have hdir : t'.isDirectory here = t.isDirectory here := by
      rw [isDirectory, isDirectory, hsame here (List.prefix_append _ _)]
    have hlookup : t'.find? here name = t.find? here name := by
      rw [← kindAt?_append_singleton, ← kindAt?_append_singleton]
      exact hsame _ (by simp)
    rw [List.map_cons]
    cases hd : t.isDirectory here with
    | false => rw [resolveFrom_blocked hd, resolveFrom_blocked (hdir.trans hd)]
    | true =>
      cases hfind : t.find? here name with
      | none =>
        rw [resolveFrom_free hd _ _ hfind, resolveFrom_free (hdir.trans hd) _ _ (hlookup.trans hfind)]
      | some kind =>
        rw [resolveFrom_entry hd _ _ hfind (h.find? hfind),
          resolveFrom_entry (hdir.trans hd) _ _ (hlookup.trans hfind) (h.find? hfind)]
        rw [List.append_cons] at h hsame
        exact ih _ h hsame

end Resolve

variable {loc : Location} (h : t.Unlinked loc)
include h

theorem locateAt {place : Location} (hl : t.locateAt loc = .ok place) : place = loc :=
  resolveFrom [] h (locateAt_iff.mp hl)

theorem locateAt_congr (hsame : ∀ front, front <+: loc → t'.kindAt? front = t.kindAt? front) :
    t'.locateAt loc = t.locateAt loc := by
  have hres := resolveFrom_congr linkLimit [] h hsame
  rw [Tree.locateAt, Tree.locateAt, locate, locate, resolve, resolve, hres]

end Unlinked
end Fileset.Tree
