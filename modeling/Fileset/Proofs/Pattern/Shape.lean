import Fileset.Pattern.Matcher
import Fileset.Proofs.Pattern.Row

namespace Fileset.Matcher
open Segment

theorem everything_accepts (early : Bool) (path : List String) :
    Shape.everything.accepts early path = rowAccepts early [.stretch] path := by
  have hmeets : Gapped.Meets Segment.accepts early [.gap] path :=
    Gapped.meets_gap_cons.mpr
      ⟨[], List.nil_suffix, Gapped.meets_nil_right.mpr (by simp)⟩
  exact (Gapped.run_iff.mpr hmeets).symm

theorem literal_accepts (early : Bool) (names path : List String) :
    (Shape.literal names).accepts early path = rowAccepts early (names.map .exact) path := by
  induction names generalizing path with
  | nil => cases path <;> simp [Shape.accepts, rowAccepts, Gapped.run]
  | cons name names ih =>
    cases path with
    | nil => cases early <;> simp [Shape.accepts, rowAccepts, Gapped.run, item, Gapped.Item.isGap]
    | cons other path =>
      have hrow : rowAccepts early ((name :: names).map .exact) (other :: path) =
          (name == other && rowAccepts early (names.map .exact) path) := rfl
      rw [hrow, ← ih path]
      simp only [Shape.accepts, List.length_cons, Nat.succ_lt_succ_iff, List.zip_cons_cons,
        List.all_cons]
      rw [Bool.beq_comm]
      split
      · simp
      · split <;> simp

theorem single_accepts (early : Bool) (segment : Segment) (path : List String)
    (h : segment.item = .one segment) :
    (Shape.single segment).accepts early path = rowAccepts early [segment] path := by
  match path with
  | [] => simp [Shape.accepts, rowAccepts, Gapped.run, h, Gapped.Item.isGap]
  | [name] => simp [Shape.accepts, rowAccepts, Gapped.run, h]
  | name :: other :: path => simp [Shape.accepts, rowAccepts, Gapped.run, h]

theorem ofText_exact {text : String} (h : text.toList.any Glob.isWild = false) :
    ofText text = .exact text := by
  unfold ofText
  split
  · rename_i hs
    rw [hs] at h
    cases h
  · rw [if_neg (by simp [h])]

theorem ofSegments_accepts (early : Bool) (texts path : List String) :
    (Shape.ofSegments texts).accepts early path = rowAccepts early (texts.map ofText) path := by
  unfold Shape.ofSegments
  split
  · rename_i hs
    subst hs
    exact everything_accepts early path
  · rename_i hs
    split
    · rename_i hw
      have hexact : texts.map ofText = texts.map .exact := by
        apply List.map_congr_left
        intro text ht
        apply ofText_exact
        simp only [Bool.not_eq_true', List.any_eq_false] at hw
        simpa using hw text ht
      rw [hexact]
      exact literal_accepts early texts path
    · split
      · rename_i text _
        exact single_accepts early _ path (item_ofText fun ht => hs (by rw [ht]))
      · rfl

/-- The parts of a compiled matcher. -/
theorem compile_ok {forInclude caseSensitive : Bool} {raw : String} {m : Matcher}
    (h : compile forInclude caseSensitive raw = .ok m) :
    ∃ segments, Pattern.normalize raw = .ok segments ∧ m = {
      pattern := "/".intercalate segments
      shape := .ofSegments (fold caseSensitive segments)
      forInclude, caseSensitive } := by
  unfold compile at h
  cases hn : Pattern.normalize raw with
  | error e => simp [hn, bind, Except.bind] at h
  | ok segments =>
    simp only [hn, bind, pure, Except.bind, Except.pure, Except.ok.injEq] at h
    exact ⟨segments, rfl, h.symm⟩

/-- A compiled matcher decides a path by the row of its pattern's segments, both in the case they are
compared in. Beginnings of the row count for an include that is asked about a directory. -/
theorem compiled_accepts_row {forInclude caseSensitive : Bool} {raw : String} {m : Matcher}
    (h : compile forInclude caseSensitive raw = .ok m) :
    ∃ segments, Pattern.normalize raw = .ok segments ∧ ∀ path, m.accepts path =
      rowAccepts (forInclude && !path.isFile) ((fold caseSensitive segments).map ofText)
        (fold caseSensitive path.segments) := by
  obtain ⟨segments, hn, rfl⟩ := compile_ok h
  exact ⟨segments, hn, fun path => ofSegments_accepts _ _ _⟩

theorem compiled_accepts_row_folded :
    compile true false "SRC/**/*.java" =
      .ok ⟨"SRC/**/*.java", .row [.exact "src", .stretch, .glob "*.java"], true, false⟩ ∧
    ∃ segments, Pattern.normalize "SRC/**/*.java" = .ok segments ∧ ∀ path,
      accepts ⟨"SRC/**/*.java", .row [.exact "src", .stretch, .glob "*.java"], true, false⟩ path =
        rowAccepts (true && !path.isFile) ((fold false segments).map ofText)
          (fold false path.segments) :=
  ⟨rfl, compiled_accepts_row rfl⟩

end Fileset.Matcher
