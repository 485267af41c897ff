import Fileset.Proofs.Pattern.Glob
import Fileset.Proofs.Pattern.Reread

namespace Fileset

namespace Gapped

variable {α : Type v} {β : Type u} {fits : β → α → Bool}

/-- Without gaps a pattern is laid over a list item by item. -/
theorem covers_map_one_iff {bs : List β} {s : List α} :
    Covers fits (bs.map .one) s ↔ List.Forall₂ (fun b a => fits b a = true) bs s := by
  constructor
  · intro h
    generalize hp : bs.map Item.one = p at h
    induction h generalizing bs with
    | nil =>
      rw [List.map_eq_nil_iff.mp hp]
      exact .nil
    | one hf _ ih =>
      obtain ⟨b, bs, rfl, hb, hbs⟩ := List.map_eq_cons_iff.mp hp
      obtain rfl := Item.one.inj hb
      exact .cons hf (ih hbs)
    | gap r _ _ =>
      obtain ⟨b, bs, rfl, hb, -⟩ := List.map_eq_cons_iff.mp hp
      cases hb
  · intro h
    induction h with
    | nil => exact .nil
    | cons hf _ ih => exact .one hf ih

end Gapped

namespace Glob

def marks (n : Nat) : List Char := List.replicate n '?'

theorem eq_of_mem_marks {n : Nat} {c : Char} (h : c ∈ marks n) : c = '?' := List.eq_of_mem_replicate h

theorem accepts_marks {n : Nat} {text : List Char} :
    accepts (marks n) text = true ↔ text.length = n := by
  have hmarks : (marks n).map item = (List.replicate n Letter.any).map .one := by
    rw [marks, List.map_replicate, List.map_replicate]
    rfl
  have hfits : ∀ {a : Letter} {d : Char}, (a, d) ∈ (List.replicate n Letter.any).zip text →
      a.fits d = true := by
    intro a d h
    rw [List.eq_of_mem_replicate (List.of_mem_zip h).1]
    rfl
  rw [accepts_iff_covers, hmarks, Gapped.covers_map_one_iff, List.forall₂_iff_zip, List.length_replicate]
  exact ⟨fun h => h.1.symm, fun h => ⟨h.symm, hfits⟩⟩

end Glob

namespace Segment
open Glob (marks)

theorem marks_ne_stretch (n : Nat) : String.ofList (marks n) ≠ "**" := by
  intro h
  have hstar : '*' ∈ marks n := by
    rw [← String.toList_ofList (l := marks n), h]
    decide
  exact absurd (Glob.eq_of_mem_marks hstar) (by decide)

theorem accepts_ofText_marks {n : Nat} {name : String} :
    (ofText (String.ofList (marks n))).accepts name = true ↔ name.length = n := by
  cases n with
  | zero =>
    have htext : ofText (String.ofList (marks 0)) = .exact "" := rfl
    rw [htext, accepts, beq_iff_eq, String.length_eq_zero_iff, eq_comm]
  | succ n =>
    have hwild : (String.ofList (marks (n + 1))).toList.any Glob.isWild = true := by
      rw [String.toList_ofList]
      rfl
    rw [ofText, if_neg (marks_ne_stretch _), if_pos hwild]
    simp only [accepts, String.toList_ofList, Glob.accepts_marks, String.length_toList]

theorem rowAccepts_marks {lengths : List Nat} {names : List String} :
    rowAccepts false (((lengths.map marks).map String.ofList).map ofText) names = true ↔
      names.map String.length = lengths := by
  have hitems : (((lengths.map marks).map String.ofList).map ofText).map item =
      (lengths.map fun n => ofText (String.ofList (marks n))).map .one := by
    simp only [List.map_map]
    exact List.map_congr_left fun n _ => item_ofText (marks_ne_stretch n)
  rw [rowAccepts_false_iff, RowCovers, hitems, Gapped.covers_map_one_iff, List.forall₂_map_left_iff]
  have hlengths : List.Forall₂ (fun n name => (ofText (String.ofList (marks n))).accepts name = true)
      lengths names ↔ List.Forall₂ Eq lengths (names.map String.length) := by
    simp only [List.forall₂_map_right_iff, accepts_ofText_marks]
    simp only [eq_comm]
  rw [hlengths, List.forall₂_eq_eq_eq, eq_comm]

end Segment

namespace Pattern
open Glob (marks)

section Settled

variable {lengths : List Nat} (h : ∀ n ∈ lengths, 0 < n)

theorem mem_map_marks {s : String} (hs : s ∈ (lengths.map marks).map String.ofList) :
    ∃ n ∈ lengths, s = String.ofList (marks n) := by
  obtain ⟨part, hpart, rfl⟩ := List.mem_map.mp hs
  obtain ⟨n, hn, rfl⟩ := List.mem_map.mp hpart
  exact ⟨n, hn, rfl⟩

include h

theorem orderly_marks (hne : lengths ≠ []) : Orderly ((lengths.map marks).map String.ofList) := by
  constructor
  case nonempty => simpa using hne
  case full =>
    intro s hs hempty
    obtain ⟨n, hn, rfl⟩ := mem_map_marks hs
    have hlength : (String.ofList (marks n)).length = 0 := by rw [hempty, String.length_empty]
    have hpos := h n hn
    simp [marks] at hlength
    omega
  case plain =>
    intro s hs c hc
    obtain ⟨n, -, rfl⟩ := mem_map_marks hs
    rw [String.toList_ofList] at hc
    rw [Glob.eq_of_mem_marks hc]
    decide
  case alone =>
    intro s hs hstretch
    obtain ⟨n, -, rfl⟩ := mem_map_marks hs
    rw [String.toList_ofList] at hstretch
    exact absurd (Glob.eq_of_mem_marks (hstretch.subset List.mem_cons_self)) (by decide)
  case apart =>
    refine List.Pairwise.isChain (List.pairwise_of_forall_mem_list fun a ha b _ hab => ?_)
    obtain ⟨n, -, rfl⟩ := mem_map_marks ha
    exact Segment.marks_ne_stretch n hab.1

theorem settled_marks (hne : lengths ≠ []) : Settled (lengths.map marks) := by
  refine ⟨orderly_marks h hne, ?_, ?_⟩
  · intro part hpart
    obtain ⟨n, hn, rfl⟩ := List.mem_map.mp (List.mem_of_head? hpart)
    obtain ⟨n, rfl⟩ := Nat.exists_eq_add_one.mpr (h n hn)
    rfl
  · have hlast := h _ (List.getLast_mem hne)
    obtain ⟨n, hn⟩ := Nat.exists_eq_add_one.mpr hlast
    refine ⟨lengths.dropLast.map marks, marks (n + 1), ?_, marks n, '?', List.replicate_succ', rfl⟩
    rw [← hn, ← List.map_singleton, ← List.map_append, List.dropLast_append_getLast]

/-- A row of question marks is a normal form, and its own. -/
theorem normalize_marks (hne : lengths ≠ []) :
    normalize (String.ofList (joined (lengths.map marks))) =
      .ok ((lengths.map marks).map String.ofList) := by
  have hsettled := settled_marks h hne
  obtain ⟨n, lengths, rfl⟩ := List.exists_cons_of_ne_nil hne
  refine hsettled.normalize_joined_iff.mpr (Text.dropWhile_isBlank_iff.mpr fun c hc => ?_)
  rw [Glob.eq_of_mem_marks (List.mem_of_head? hc)]
  rfl

end Settled
end Pattern

namespace Matcher
open Glob (marks)

/-- Whatever the lengths of the names in the path of a file, there is a pattern that accepts it, and no
other file but those with names of the same lengths. -/
theorem exists_accepts_lengths (forInclude : Bool) {lengths : List Nat} (hne : lengths ≠ [])
    (h : ∀ n ∈ lengths, 0 < n) : ∃ raw m, compile forInclude true raw = .ok m ∧
      ∀ path : RelPath, path.isFile = true →
        (m.accepts path = true ↔ path.segments.map String.length = lengths) := by
  obtain ⟨m, hm⟩ : ∃ m, compile forInclude true
      (String.ofList (Pattern.joined (lengths.map marks))) = .ok m := by
    rw [compile, Pattern.normalize_marks h hne]
    exact ⟨_, rfl⟩
  obtain ⟨segments, hn, hm'⟩ := compile_ok hm
  obtain rfl := Except.ok.inj ((Pattern.normalize_marks h hne).symm.trans hn)
  refine ⟨_, m, hm, fun path hfile => ?_⟩
  rw [hm', accepts, ofSegments_accepts, hfile, Bool.not_true, Bool.and_false]
  exact Segment.rowAccepts_marks

end Matcher
end Fileset
