import Fileset.Proofs.Pattern.Shape

namespace Fileset.Matcher
open Segment

theorem fold_eq_map (caseSensitive : Bool) (names : List String) :
    fold caseSensitive names = names.map (if caseSensitive then id else Text.lowercase) := by
  cases caseSensitive <;> simp [fold]

theorem fold_append (caseSensitive : Bool) (names more : List String) :
    fold caseSensitive (names ++ more) = fold caseSensitive names ++ fold caseSensitive more := by
  simp only [fold_eq_map, List.map_append]

/-- The segments themselves, as names in the case they were given in, are accepted by their row; the
stretches stand for no name. -/
theorem row_covers_fold (caseSensitive : Bool) (segments : List String) :
    ∃ names, RowCovers ((fold caseSensitive segments).map ofText) (fold caseSensitive names) := by
  simp only [fold_eq_map]
  generalize (if caseSensitive then id else Text.lowercase) = f
  refine ⟨segments.filter fun segment => f segment ≠ "**", ?_⟩
  have hself := rowCovers_self (segments.map f)
  rw [List.filter_map] at hself
  exact hself

/-- What is left of a row after its first `k` segments can always be reached by some more names. -/
theorem row_accepts_some {caseSensitive : Bool} {segments names : List String}
    (h : rowAccepts true ((fold caseSensitive segments).map ofText)
      (fold caseSensitive names) = true) :
    ∃ more, rowAccepts false ((fold caseSensitive segments).map ofText)
      (fold caseSensitive (names ++ more)) = true := by
  obtain ⟨k, _, hfront⟩ := rowAccepts_true_iff.mp h
  obtain ⟨more, hrest⟩ := row_covers_fold caseSensitive (segments.drop k)
  have hdrop : (fold caseSensitive (segments.drop k)).map ofText =
      ((fold caseSensitive segments).map ofText).drop k := by
    simp only [fold_eq_map, List.map_drop]
  rw [hdrop] at hrest
  refine ⟨more, rowAccepts_false_iff.mpr ?_⟩
  have hall := hfront.append hrest
  rwa [List.take_append_drop, ← fold_append] at hall

/-- An include accepts the directories above whatever it accepts. -/
theorem include_accepts_above {caseSensitive : Bool} {raw : String} {m : Matcher}
    (hm : compile true caseSensitive raw = .ok m) {dir names : List String} {isFile : Bool}
    (h : m.accepts ⟨dir ++ names, isFile⟩ = true) : m.accepts ⟨dir, false⟩ = true := by
  obtain ⟨segments, _, rfl⟩ := compile_ok hm
  simp only [accepts, ofSegments_accepts, fold_append] at h ⊢
  exact rowAccepts_front h

/-- An include accepts a directory exactly when there are names, perhaps none, that lead from it to a
file that the include accepts. So what it accepts lies in directories that it accepts. -/
theorem include_accepts_directory_iff {caseSensitive : Bool} {raw : String} {m : Matcher}
    (hm : compile true caseSensitive raw = .ok m) (dir : List String) :
    (m.accepts ⟨dir, false⟩ = true ↔ ∃ names, m.accepts ⟨dir ++ names, true⟩ = true) ∧
    ∀ names isFile, m.accepts ⟨dir ++ names, isFile⟩ = true → m.accepts ⟨dir, false⟩ = true := by
  refine ⟨⟨fun h => ?_, fun ⟨names, h⟩ => include_accepts_above hm h⟩,
    fun names isFile h => include_accepts_above hm h⟩
  obtain ⟨segments, _, rfl⟩ := compile_ok hm
  simp only [accepts, ofSegments_accepts] at h ⊢
  exact row_accepts_some h

theorem include_accepts_directory_src :
    compile true false "Src/*/Gen.java" =
      .ok ⟨"Src/*/Gen.java", .row [.exact "src", .glob "*", .exact "gen.java"], true, false⟩ ∧
    ∃ names, accepts ⟨"Src/*/Gen.java", .row [.exact "src", .glob "*", .exact "gen.java"], true,
      false⟩ ⟨["SRC", "main"] ++ names, true⟩ = true := by
  have hm : compile true false "Src/*/Gen.java" =
      .ok ⟨"Src/*/Gen.java", .row [.exact "src", .glob "*", .exact "gen.java"], true, false⟩ := rfl
  have hsrc : accepts ⟨"Src/*/Gen.java", .row [.exact "src", .glob "*", .exact "gen.java"], true,
      false⟩ ⟨["SRC", "main"], false⟩ = true := by
    have hnames : fold false ["SRC", "main"] = ["src", "main"] := rfl
    have hstar : Glob.item '*' = .gap := rfl
    simp only [accepts, hnames]
    simp [Shape.accepts, rowAccepts, Segment.accepts, item, Glob.accepts, hstar, Gapped.run,
      Gapped.resume, Gapped.Item.isGap]
  exact ⟨hm, (include_accepts_directory_iff hm ["SRC", "main"]).1.mp hsrc⟩

end Fileset.Matcher
