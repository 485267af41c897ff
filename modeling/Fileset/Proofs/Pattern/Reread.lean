import Fileset.Proofs.Pattern.Normal
import Fileset.Proofs.Pattern.Shape
import Fileset.Proofs.Text.Blank

namespace Fileset.Pattern
open Text (Closed)

def joined (ps : List (List Char)) : List Char := ['/'].intercalate ps

/-- A row of parts that can be a normal form. -/
structure Settled (ps : List (List Char)) : Prop where
  orderly : Orderly (ps.map String.ofList)
  busy : ∀ part ∈ ps.head?, isIdle part = false
  closed : ∃ front part, ps = front ++ [part] ∧ Closed part

section Row

variable {raw : String}

theorem core_eq_named (h : (named raw).getLast? ≠ some []) : core raw = named raw := by
  refine List.rdropWhile_eq_self_iff.mpr fun hne hempty => h ?_
  rw [List.getLast?_eq_some_getLast hne, eq_of_beq hempty]

theorem core_last (hnamed : named raw ≠ []) (h : core raw = named raw) :
    (named raw).getLast? ≠ some [] := by
  intro hlast
  refine List.rdropWhile_eq_self_iff.mp h hnamed ?_
  rw [List.getLast?_eq_some_getLast hnamed] at hlast
  rw [Option.some.inj hlast]
  rfl

/-- The parts that count end where all the parts do. -/
theorem named_last (hnamed : named raw ≠ []) : (named raw).getLast? = (parts raw).getLast? := by
  obtain ⟨idle, hidle⟩ : named raw <:+ parts raw := List.dropWhile_suffix _
  rw [← hidle, List.getLast?_append_of_ne_nil _ hnamed]

/-- The last part is empty, or the pattern ends with it. -/
theorem parts_last (hparts : (parts raw).getLast? ≠ some []) :
    ∃ part, (parts raw).getLast? = some part ∧ Closed part := by
  unfold parts at hparts ⊢
  have htrim : Text.trim raw.toList ≠ [] := by
    intro hnil
    simp [hnil] at hparts
  obtain ⟨front, c, hs, hc⟩ := Text.closed_trim htrim
  rw [hs, List.map_append, List.map_singleton] at hparts ⊢
  by_cases hslash : unifySlash c = '/'
  · rw [hslash, List.splitOn_append_cons_self] at hparts
    simp at hparts
  · obtain ⟨parts, part, hsplit⟩ := Text.splitOn_snoc_of_ne hslash (front.map unifySlash)
    refine ⟨_, by rw [hsplit, List.getLast?_concat], part, c, ?_, hc⟩
    have hplain : c ≠ '\\' := fun hback => hslash (by rw [hback]; rfl)
    rw [unifySlash, if_neg hplain]

theorem row_head (hnamed : named raw ≠ []) : (row raw).head? = (named raw).head? := by
  obtain ⟨part, parts, hcore⟩ := List.exists_cons_of_ne_nil (core_ne_nil hnamed)
  obtain ⟨back, hback⟩ : core raw <+: named raw := List.rdropWhile_prefix _ _
  have hfirst : ((core raw).destutter Apart).head? = some part := by
    rw [hcore, List.destutter_cons']
    generalize parts = parts
    induction parts with
    | nil => rfl
    | cons next parts ih =>
      rw [List.destutter'_cons]
      split
      · rfl
      · exact ih
  rw [← hback, row, List.head?_append, hfirst, hcore]
  rfl

/-- The row ends in a stretch, or with the pattern. -/
theorem row_closed (hnamed : named raw ≠ []) : ∃ front part, row raw = front ++ [part] ∧ Closed part := by
  have hstretch : Closed ['*', '*'] := ⟨['*'], '*', rfl, rfl⟩
  have hlast : ((core raw).destutter Apart).getLast? = (core raw).getLast? := by
    rw [← collapse_eq_destutter, getLast?_collapse]
  by_cases hsame : core raw = named raw
  · have hparts := core_last hnamed hsame
    rw [named_last hnamed] at hparts
    obtain ⟨part, hpart, hclosed⟩ := parts_last hparts
    rw [← named_last hnamed, ← hsame, ← hlast] at hpart
    obtain ⟨front, hrow⟩ := List.getLast?_eq_some_iff.mp hpart
    exact ⟨front, part, by simp [row, hsame, ← hrow], hclosed⟩
  · by_cases hdone : (core raw).getLast? = some ['*', '*']
    · obtain ⟨front, hrow⟩ := List.getLast?_eq_some_iff.mp (hlast.trans hdone)
      exact ⟨front, _, by simp [row, hdone, ← hrow], hstretch⟩
    · exact ⟨_, _, by rw [row, if_pos ⟨hsame, hdone⟩], hstretch⟩

theorem settled_row (hnul : '\x00' ∉ raw.toList) (hnamed : named raw ≠ [])
    (hcore : ∀ part ∈ core raw, ¬Faulty part) : Settled (row raw) := by
  refine ⟨orderly_row hnul hnamed hcore, ?_, row_closed hnamed⟩
  rw [row_head hnamed]
  intro part hpart
  have hfirst := List.head?_dropWhile_not isIdle (parts raw)
  rw [named] at hpart
  rw [Option.mem_def.mp hpart] at hfirst
  simpa using hfirst

theorem row_of_normalize {segments : List String} (h : normalize raw = .ok segments) :
    segments = (row raw).map String.ofList ∧ named raw ≠ [] ∧ Settled (row raw) := by
  cases normalize_eq_iff.mp h with
  | ok hnul hnamed hcore => exact ⟨rfl, hnamed, settled_row hnul hnamed hcore⟩

end Row

namespace Settled

variable {ps : List (List Char)} (h : Settled ps)
include h

theorem plain {part : List Char} (hpart : part ∈ ps) {c : Char} (hc : c ∈ part) :
    c ≠ '/' ∧ c ≠ '\\' ∧ c ≠ '\x00' :=
  h.orderly.plain _ (List.mem_map_of_mem hpart) c (by simpa using hc)

theorem sound {part : List Char} (hpart : part ∈ ps) : ¬Faulty part := by
  rintro (rfl | ⟨hstretch, hne⟩)
  · exact h.orderly.full _ (List.mem_map_of_mem hpart) rfl
  · have halone := h.orderly.alone _ (List.mem_map_of_mem hpart) (by simpa using hstretch)
    exact hne (by simpa using congrArg String.toList halone)

theorem apart : ps.IsChain Apart := by
  refine ((List.isChain_map String.ofList).mp h.orderly.apart).imp ?_
  rintro _ _ hab ⟨rfl, rfl⟩
  exact hab ⟨rfl, rfl⟩

theorem joined_closed : Closed (joined ps) := by
  obtain ⟨front, last, rfl, hlast⟩ := h.closed
  clear h
  induction front with
  | nil => rwa [joined, List.nil_append, List.intercalate_singleton]
  | cons part front ih =>
    rw [joined, List.cons_append, List.intercalate_cons_of_ne_nil (by simp)]
    exact ih.prepend _

end Settled

section Join

theorem dropWhile_joined (part : List Char) (rest : List (List Char)) :
    (joined (part :: rest)).dropWhile Text.isBlank = joined (part.dropWhile Text.isBlank :: rest) := by
  cases rest with
  | nil => simp only [joined, List.intercalate_singleton]
  | cons next rest =>
    simp only [joined, List.intercalate_cons_cons, List.append_assoc, List.dropWhile_append]
    split
    · rename_i hall
      rw [List.isEmpty_iff.mp hall]
      rfl
    · rfl

theorem mem_joined {ps : List (List Char)} {c : Char} (h : c ∈ joined ps) :
    c = '/' ∨ ∃ part ∈ ps, c ∈ part := by
  induction ps with
  | nil => cases h
  | cons part rest ih =>
    cases rest with
    | nil => exact .inr ⟨part, by simp, by simpa [joined] using h⟩
    | cons next rest =>
      rw [joined, List.intercalate_cons_cons, List.append_assoc] at h
      rcases List.mem_append.mp h with h | h
      · exact .inr ⟨part, by simp, h⟩
      · rcases List.mem_cons.mp h with h | h
        · exact .inl h
        · exact (ih h).imp_right fun ⟨p, hp, hc⟩ => ⟨p, List.mem_cons_of_mem _ hp, hc⟩

end Join

namespace Settled

variable {part : List Char} {rest : List (List Char)} (h : Settled (part :: rest))
include h

/-- The text reads as the same parts, but for white space in front. -/
theorem parts_joined :
    parts (String.ofList (joined (part :: rest))) = part.dropWhile Text.isBlank :: rest := by
  have hplain : ∀ p ∈ part.dropWhile Text.isBlank :: rest, ∀ c ∈ p, c ≠ '/' ∧ c ≠ '\\' := by
    intro p hp c hc
    rcases List.mem_cons.mp hp with rfl | hp
    · have := h.plain List.mem_cons_self ((List.dropWhile_sublist _).mem hc)
      exact ⟨this.1, this.2.1⟩
    · have := h.plain (List.mem_cons_of_mem _ hp) hc
      exact ⟨this.1, this.2.1⟩
  have hunified : (joined (part.dropWhile Text.isBlank :: rest)).map unifySlash =
      joined (part.dropWhile Text.isBlank :: rest) := by
    refine (List.map_congr_left fun c hc => ?_).trans (List.map_id _)
    rcases mem_joined hc with rfl | ⟨p, hp, hc⟩
    · rfl
    · rw [unifySlash, if_neg (hplain p hp c hc).2, id_eq]
  rw [parts, String.toList_ofList, h.joined_closed.trim, dropWhile_joined, hunified, joined,
    List.splitOn_intercalate '/' (fun p hp hslash => (hplain p hp _ hslash).1 rfl) (by simp)]

theorem last_parts_joined : (parts (String.ofList (joined (part :: rest)))).getLast? ≠ some [] := by
  rw [h.parts_joined]
  obtain ⟨front, last, hps, hlast⟩ := h.closed
  cases front with
  | nil =>
    obtain ⟨rfl, rfl⟩ := List.cons.inj hps
    simpa using hlast.dropWhile.ne_nil
  | cons first front =>
    obtain ⟨rfl, rfl⟩ := List.cons.inj hps
    simpa [List.getLast?_cons] using hlast.ne_nil

theorem core_joined (hnamed : named (String.ofList (joined (part :: rest))) ≠ []) :
    core (String.ofList (joined (part :: rest))) = named (String.ofList (joined (part :: rest))) := by
  apply core_eq_named
  rw [named_last hnamed]
  exact h.last_parts_joined

theorem row_joined (hnamed : named (String.ofList (joined (part :: rest))) ≠ []) :
    row (String.ofList (joined (part :: rest))) =
      (named (String.ofList (joined (part :: rest)))).destutter Apart := by
  rw [row, h.core_joined hnamed, if_neg fun hclose => hclose.1 rfl, List.append_nil]

/-- The text of a row has the row as its normal form, unless there is white space in front of it. -/
theorem normalize_joined_iff :
    normalize (String.ofList (joined (part :: rest))) = .ok ((part :: rest).map String.ofList) ↔
      part.dropWhile Text.isBlank = part := by
  constructor
  · intro hn
    obtain ⟨hrow, hnamed, -⟩ := row_of_normalize hn
    have hparts := List.map_injective_iff.mpr (fun _ _ => String.ofList_injective) hrow
    rw [h.row_joined hnamed] at hparts
    have hsub : ((named (String.ofList (joined (part :: rest)))).destutter Apart).Sublist
        (parts (String.ofList (joined (part :: rest)))) :=
      (List.destutter_sublist _ _).trans (List.dropWhile_sublist _)
    rw [← hparts, h.parts_joined] at hsub
    have hsame : part :: rest = part.dropWhile Text.isBlank :: rest :=
      hsub.eq_of_length (by rw [List.length_cons, List.length_cons])
    exact (List.cons.inj hsame).1.symm
  · intro hfirst
    have hparts := h.parts_joined
    rw [hfirst] at hparts
    have hnamed : named (String.ofList (joined (part :: rest))) = part :: rest := by
      rw [named, hparts, List.dropWhile_cons_of_neg (by simpa using h.busy part rfl)]
    have hne : named (String.ofList (joined (part :: rest))) ≠ [] := by simp [hnamed]
    have hnul : '\x00' ∉ (String.ofList (joined (part :: rest))).toList := by
      rw [String.toList_ofList]
      intro hmem
      rcases mem_joined hmem with hslash | ⟨p, hp, hc⟩
      · cases hslash
      · exact (h.plain hp hc).2.2 rfl
    have hsound : ∀ p ∈ core (String.ofList (joined (part :: rest))), ¬Faulty p := by
      rw [h.core_joined hne, hnamed]
      exact fun p hp => h.sound hp
    have hread := (Reads.ok hnul hne hsound).normalize_eq
    rwa [h.row_joined hne, hnamed, List.destutter_of_isChain _ _ h.apart] at hread

end Settled

theorem Settled.head?_joined {part : List Char} {rest : List (List Char)} (h : Settled (part :: rest)) :
    (joined (part :: rest)).head? = part.head? := by
  have hfull : part ≠ [] := fun hnil => h.sound List.mem_cons_self (.inl hnil)
  obtain ⟨c, s, rfl⟩ := List.exists_cons_of_ne_nil hfull
  cases rest with
  | nil => rw [joined, List.intercalate_singleton]
  | cons next rest => rw [joined, List.intercalate_cons_cons]; rfl

theorem intercalate_ofList (ps : List (List Char)) :
    "/".intercalate (ps.map String.ofList) = String.ofList (joined ps) := by
  rw [← String.toList_inj, String.toList_intercalate, String.toList_ofList, List.map_map]
  simp [joined, Function.comp_def]

/-- A row can be told from its text. -/
theorem Settled.joined_injective {ps qs : List (List Char)} (hp : Settled ps) (hq : Settled qs)
    (hsame : joined ps = joined qs) : ps = qs := by
  have hsplit {rs : List (List Char)} (hr : Settled rs) : (joined rs).splitOn '/' = rs :=
    List.splitOn_intercalate '/' (fun _ hpart hslash => (hr.plain hpart hslash).1 rfl)
      (by simpa using hr.orderly.nonempty)
  rw [← hsplit hp, hsame, hsplit hq]

end Fileset.Pattern

namespace Fileset.Matcher
open Pattern

variable {forInclude caseSensitive : Bool} {raw : String} {m : Matcher}

/-- The text of a matcher is that of a row. -/
theorem compile_joined (h : compile forInclude caseSensitive raw = .ok m) : ∃ ps, Settled ps ∧
    normalize raw = .ok (ps.map String.ofList) ∧ m.pattern = String.ofList (joined ps) := by
  obtain ⟨segments, hn, hm⟩ := compile_ok h
  obtain ⟨hsegments, -, hsettled⟩ := row_of_normalize hn
  refine ⟨row raw, hsettled, by rw [hn, hsegments], ?_⟩
  rw [hm, hsegments, intercalate_ofList]

theorem compile_eq_iff (h : compile forInclude caseSensitive raw = .ok m) {other : String} :
    compile forInclude caseSensitive other = .ok m ↔ normalize other = normalize raw := by
  constructor
  · intro hother
    obtain ⟨ps, hps, hn, htext⟩ := compile_joined h
    obtain ⟨qs, hqs, hn', htext'⟩ := compile_joined hother
    have hjoined := String.ofList_injective (htext'.symm.trans htext)
    rw [hn, hn', hqs.joined_injective hps hjoined]
  · intro hsame
    rw [compile, hsame, ← compile, h]

/-- The normal form of a pattern compiles to the matcher that the pattern does, unless the normal form
begins with white space; then it never does. -/
theorem compile_pattern_iff (h : compile forInclude caseSensitive raw = .ok m) :
    compile forInclude caseSensitive m.pattern = .ok m ↔
      ∀ c ∈ m.pattern.toList.head?, Text.isBlank c = false := by
  obtain ⟨ps, hps, hn, htext⟩ := compile_joined h
  rw [compile_eq_iff h, hn, htext, String.toList_ofList]
  obtain ⟨part, rest, rfl⟩ := List.exists_cons_of_ne_nil (by simpa using hps.orderly.nonempty)
  rw [hps.normalize_joined_iff, Text.dropWhile_isBlank_iff, hps.head?_joined]

theorem compile_pattern_closed :
    compile false false "./Src\\**/**/*.rs// " =
      .ok ⟨"Src/**/*.rs/**", .row [.exact "src", .stretch, .glob "*.rs", .stretch], false, false⟩ ∧
    compile false false "Src/**/*.rs/**" =
      .ok ⟨"Src/**/*.rs/**", .row [.exact "src", .stretch, .glob "*.rs", .stretch], false, false⟩ := by
  have h : compile false false "./Src\\**/**/*.rs// " =
      .ok ⟨"Src/**/*.rs/**", .row [.exact "src", .stretch, .glob "*.rs", .stretch], false, false⟩ := rfl
  refine ⟨h, (compile_pattern_iff h).mpr fun c hc => ?_⟩
  obtain rfl : 'S' = c := Option.some.inj hc
  rfl

/-- White space behind the way to the start of a pattern is read differently once it stands in front. -/
theorem compile_pattern_drifts : ¬∀ forInclude caseSensitive raw m,
    compile forInclude caseSensitive raw = .ok m → compile forInclude caseSensitive m.pattern = .ok m := by
  intro hall
  have hdrift := hall true true "./ a" ⟨" a", .literal [" a"], true, true⟩ rfl
  have hother : compile true true " a" = .ok ⟨"a", .literal ["a"], true, true⟩ := rfl
  rw [hother] at hdrift
  exact absurd (congrArg Matcher.pattern (Except.ok.inj hdrift)) (by decide)

end Fileset.Matcher
