import Fileset.Pattern.Normal
import Fileset.Proofs.Text.Blank
import Fileset.Proofs.Text.Split
import Mathlib.Data.List.Destutter

namespace Fileset.Pattern

def parts (raw : String) : List (List Char) := ((Text.trim raw.toList).map unifySlash).splitOn '/'

/-- A part that leads to where a pattern starts anyway. -/
def isIdle (part : List Char) : Bool := part == [] || part == ['.']

def named (raw : String) : List (List Char) := (parts raw).dropWhile isIdle

def core (raw : String) : List (List Char) := (named raw).rdropWhile (· == [])

def Faulty (part : List Char) : Prop := part = [] ∨ ['*', '*'] <:+: part ∧ part ≠ ['*', '*']

def Apart (a b : List Char) : Prop := ¬(a = ['*', '*'] ∧ b = ['*', '*'])

instance : DecidableRel Apart := fun a b => inferInstanceAs (Decidable ¬(a = ['*', '*'] ∧ b = ['*', '*']))

def row (raw : String) : List (List Char) :=
  (core raw).destutter Apart ++
    if core raw ≠ named raw ∧ (core raw).getLast? ≠ some ['*', '*'] then [['*', '*']] else []

/-- What a pattern reads as. Of several faulty parts the first counts. -/
inductive Reads (raw : String) : Except Error (List String) → Prop
  | nul (hnul : '\x00' ∈ raw.toList) : Reads raw (.error .nul)
  | empty (hnul : '\x00' ∉ raw.toList) (hnamed : named raw = []) : Reads raw (.error .empty)
  | emptySegment {front back : List (List Char)} (hnul : '\x00' ∉ raw.toList)
    (hcore : core raw = front ++ [] :: back) (hfront : ∀ part ∈ front, ¬Faulty part) :
    Reads raw (.error (.emptySegment raw))
  | mixedStretch {front back : List (List Char)} {part : List Char} (hnul : '\x00' ∉ raw.toList)
    (hcore : core raw = front ++ part :: back) (hfront : ∀ part ∈ front, ¬Faulty part)
    (hmixed : ['*', '*'] <:+: part) (hne : part ≠ ['*', '*']) :
    Reads raw (.error (.mixedStretch raw (String.ofList part)))
  | ok (hnul : '\x00' ∉ raw.toList) (hnamed : named raw ≠ []) (hcore : ∀ part ∈ core raw, ¬Faulty part) :
    Reads raw (.ok ((row raw).map String.ofList))

section Start

theorem dropStart_ne (s t : List Char) :
    dropStart s ≠ '/' :: t ∧ dropStart s ≠ '.' :: '/' :: t := by
  fun_induction dropStart s with
  | case1 s ih => exact ih
  | case2 s ih => exact ih
  | case3 s hdot hslash =>
    constructor
    · rintro rfl
      exact hslash t rfl
    · rintro rfl
      exact hdot t rfl

/-- What is dropped at the start are idle parts. -/
theorem dropWhile_splitOn_dropStart (s : List Char) :
    ((dropStart s).splitOn '/').dropWhile isIdle = (s.splitOn '/').dropWhile isIdle := by
  fun_induction dropStart s with
  | case1 s ih => rw [ih]; simp [List.splitOn_cons_eq_if_modifyHead, isIdle]
  | case2 s ih => rw [ih]; simp [List.splitOn_cons_eq_if_modifyHead, isIdle]
  | case3 => rfl

/-- A text from which nothing can be dropped at the start has a first part that is not idle. -/
theorem dropWhile_splitOn_of_started {s : List Char} (hs : ¬(s = [] ∨ s = ['.']))
    (hstart : ∀ t, s ≠ '/' :: t ∧ s ≠ '.' :: '/' :: t) :
    (s.splitOn '/').dropWhile isIdle = s.splitOn '/' := by
  cases s with
  | nil => exact absurd (.inl rfl) hs
  | cons c s =>
    have hc : c ≠ '/' := by
      rintro rfl
      exact (hstart s).1 rfl
    obtain ⟨part, rest, hpart, hsplit⟩ := Text.splitOn_cons_of_ne hc s
    rw [hsplit]
    refine List.dropWhile_cons_of_neg fun hidle => ?_
    obtain ⟨rfl, rfl⟩ : c = '.' ∧ part = [] := by simpa [isIdle] using hidle
    rcases Text.splitOn_head_nil hpart with rfl | ⟨t, rfl⟩
    · exact hs (.inr rfl)
    · exact (hstart t).2 rfl

variable {raw : String}

theorem named_eq_nil (h : body raw = [] ∨ body raw = ['.']) : named raw = [] := by
  rw [named, parts, ← dropWhile_splitOn_dropStart]
  rcases h with h | h
  · rw [body] at h
    rw [h]
    rfl
  · rw [body] at h
    rw [h]
    rfl

theorem named_eq (h : ¬(body raw = [] ∨ body raw = ['.'])) : named raw = (body raw).splitOn '/' := by
  rw [named, parts, ← dropWhile_splitOn_dropStart]
  exact dropWhile_splitOn_of_started h (dropStart_ne _)

theorem named_eq_nil_iff : named raw = [] ↔ body raw = [] ∨ body raw = ['.'] := by
  refine ⟨fun h => ?_, named_eq_nil⟩
  by_contra hne
  exact List.splitOn_ne_nil _ _ ((named_eq hne).symm.trans h)

end Start

section End

/-- The separators at the end of a text are its empty parts there. -/
theorem rdropWhile_splitOn {s : List Char} (h : Text.dropEnd (· == '/') s ≠ []) :
    (s.splitOn '/').rdropWhile (· == []) = (Text.dropEnd (· == '/') s).splitOn '/' := by
  change s.rdropWhile (· == '/') ≠ [] at h
  change _ = (s.rdropWhile (· == '/')).splitOn '/'
  induction s using List.reverseRecOn with
  | nil => exact absurd rfl h
  | append_singleton s c ih =>
    by_cases hc : c = '/'
    · subst hc
      rw [List.rdropWhile_concat_pos _ _ _ (by rfl)] at h ⊢
      rw [List.splitOn_append_cons_self, List.splitOn_nil, List.rdropWhile_concat_pos _ _ _ (by rfl)]
      exact ih h
    · rw [List.rdropWhile_concat_neg (· == '/') _ _ (by simpa using hc)]
      obtain ⟨front, part, hs⟩ := Text.splitOn_snoc_of_ne hc s
      rw [hs, List.rdropWhile_concat_neg _ _ _ (by simp)]

variable {raw : String}

theorem dropEnd_body_ne_nil (h : body raw ≠ []) : Text.dropEnd (· == '/') (body raw) ≠ [] := by
  intro hnil
  have hall : ∀ c ∈ body raw, (c == '/') = true := List.rdropWhile_eq_nil_iff.mp hnil
  obtain ⟨c, s, hs⟩ := List.exists_cons_of_ne_nil h
  obtain rfl : c = '/' := by simpa [hs] using hall c (by simp [hs])
  exact (dropStart_ne _ s).1 hs

theorem core_eq (h : ¬(body raw = [] ∨ body raw = ['.'])) :
    core raw = (Text.dropEnd (· == '/') (body raw)).splitOn '/' := by
  rw [core, named_eq h]
  exact rdropWhile_splitOn (dropEnd_body_ne_nil fun hnil => h (.inl hnil))

theorem core_eq_named_iff (h : ¬(body raw = [] ∨ body raw = ['.'])) :
    core raw = named raw ↔ (body raw).getLast? ≠ some '/' := by
  rw [core_eq h, named_eq h]
  have hsplit : ∀ s t : List Char, s.splitOn '/' = t.splitOn '/' ↔ s = t := by
    refine fun s t => ⟨fun hst => ?_, fun hst => by rw [hst]⟩
    simpa only [List.intercalate_splitOn] using congrArg (List.intercalate ['/']) hst
  rw [hsplit]
  have hne : body raw ≠ [] := fun hnil => h (.inl hnil)
  refine (List.rdropWhile_eq_self_iff (p := (· == '/'))).trans ?_
  simp [List.getLast?_eq_some_getLast hne, hne]

end End

section Faults

theorem hasStretch_iff {part : List Char} : hasStretch part = true ↔ ['*', '*'] <:+: part := by
  fun_induction hasStretch part with
  | case1 s => exact ⟨fun _ => ⟨[], s, rfl⟩, fun _ => rfl⟩
  | case2 c s hne ih =>
    rw [ih, List.infix_cons_iff]
    refine ⟨.inr, fun h => h.resolve_left ?_⟩
    rintro ⟨t, ht⟩
    obtain ⟨rfl, rfl⟩ := List.cons.inj ht
    exact hne t rfl rfl
  | case3 => simp

theorem faulty_iff {part : List Char} :
    Faulty part ↔ part = [] ∨ part ≠ ['*', '*'] ∧ hasStretch part = true := by
  rw [Faulty, hasStretch_iff, and_comm]

variable {raw : String} {ps : List (List Char)}

theorem fault?_eq_none (h : ∀ part ∈ ps, ¬Faulty part) : fault? raw ps = none := by
  induction ps with
  | nil => rfl
  | cons part ps ih =>
    obtain ⟨hpart, hps⟩ := List.forall_mem_cons.mp h
    obtain ⟨hne, hwhole⟩ := not_or.mp (mt faulty_iff.mpr hpart)
    rw [fault?, if_neg (by simpa using hne), if_neg hwhole]
    exact ih hps

/-- The first part that is faulty decides what is wrong. -/
theorem fault?_append {front back : List (List Char)} {part : List Char}
    (hfront : ∀ part ∈ front, ¬Faulty part) :
    fault? raw (front ++ part :: back) = fault? raw (part :: back) := by
  induction front with
  | nil => rfl
  | cons first front ih =>
    obtain ⟨hfirst, hfront⟩ := List.forall_mem_cons.mp hfront
    obtain ⟨hne, hwhole⟩ := not_or.mp (mt faulty_iff.mpr hfirst)
    rw [List.cons_append, fault?, if_neg (by simpa using hne), if_neg hwhole]
    exact ih hfront

theorem exists_first_fault (h : ¬∀ part ∈ ps, ¬Faulty part) : ∃ front part back,
    ps = front ++ part :: back ∧ (∀ part ∈ front, ¬Faulty part) ∧ Faulty part := by
  classical
  cases hfind : ps.find? fun part => decide (Faulty part) with
  | none => exact absurd (by simpa using hfind) h
  | some part =>
    obtain ⟨hpart, front, back, rfl, hfront⟩ := List.find?_eq_some_iff_append.mp hfind
    exact ⟨front, part, back, rfl, by simpa using hfront, by simpa using hpart⟩

end Faults

section Runs

theorem collapse_eq_destutter (ps : List (List Char)) : collapse ps = ps.destutter Apart := by
  fun_induction collapse ps with
  | case1 ps ih =>
    rw [ih, List.destutter_cons_cons, if_neg (by simp [Apart]), List.destutter_cons']
  | case2 part ps hne ih =>
    cases ps with
    | nil => rfl
    | cons next ps =>
      rw [ih, List.destutter_cons_cons, if_pos, List.destutter_cons']
      rintro ⟨rfl, rfl⟩
      exact hne ps rfl rfl
  | case3 => rfl

theorem getLast?_collapse (ps : List (List Char)) : (collapse ps).getLast? = ps.getLast? := by
  fun_induction collapse ps with
  | case1 ps ih => rw [ih, List.getLast?_cons_cons]
  | case2 part ps _ ih => rw [List.getLast?_cons, List.getLast?_cons, ih]
  | case3 => rfl

end Runs

section Result

variable {raw : String} {r : Except Error (List String)}

theorem normalize_of_named (hnul : '\x00' ∉ raw.toList) (hnamed : named raw ≠ []) : normalize raw =
    match fault? raw (core raw) with
    | some e => .error e
    | none => .ok ((row raw).map String.ofList) := by
  have hbody : ¬(body raw = [] ∨ body raw = ['.']) := mt named_eq_nil_iff.mpr hnamed
  unfold normalize row
  rw [if_neg (by simpa using hnul)]
  simp only [if_neg hbody, ← core_eq hbody, collapse_eq_destutter]
  cases fault? raw (core raw) with
  | some e => rfl
  | none =>
    by_cases hslash : (body raw).getLast? = some '/'
    · have hdropped : core raw ≠ named raw := fun hsame => (core_eq_named_iff hbody).mp hsame hslash
      simp only [hslash, closeWithStretch, ← collapse_eq_destutter, getLast?_collapse]
      by_cases hlast : (core raw).getLast? = some ['*', '*']
      · simp [hlast]
      · simp [hlast, hdropped]
    · simp [hslash, (core_eq_named_iff hbody).mpr hslash]

theorem named_ne_nil {front back : List (List Char)} {part : List Char}
    (h : core raw = front ++ part :: back) : named raw ≠ [] := by
  intro hnil
  simp [core, hnil] at h

theorem Reads.normalize_eq (h : Reads raw r) : normalize raw = r := by
  cases h with
  | nul hnul => rw [normalize, if_pos (by simpa using hnul)]
  | empty hnul hnamed =>
    rw [normalize, if_neg (by simpa using hnul)]
    simp only [if_pos (named_eq_nil_iff.mp hnamed)]
  | emptySegment hnul hcore hfront =>
    rw [normalize_of_named hnul (named_ne_nil hcore), hcore, fault?_append hfront]
    rfl
  | @mixedStretch front back part hnul hcore hfront hmixed hne =>
    have hpart : part ≠ [] := by
      rintro rfl
      simp at hmixed
    rw [normalize_of_named hnul (named_ne_nil hcore), hcore, fault?_append hfront, fault?,
      if_neg (by simpa using hpart), if_pos ⟨hne, hasStretch_iff.mpr hmixed⟩]
  | ok hnul hnamed hcore => rw [normalize_of_named hnul hnamed, fault?_eq_none hcore]

/-- The grammar leaves no pattern out. -/
theorem exists_reads (raw : String) : ∃ r, Reads raw r := by
  by_cases hnul : '\x00' ∈ raw.toList
  · exact ⟨_, .nul hnul⟩
  by_cases hnamed : named raw = []
  · exact ⟨_, .empty hnul hnamed⟩
  by_cases hcore : ∀ part ∈ core raw, ¬Faulty part
  · exact ⟨_, .ok hnul hnamed hcore⟩
  obtain ⟨front, part, back, hsplit, hfront, rfl | ⟨hmixed, hne⟩⟩ := exists_first_fault hcore
  · exact ⟨_, .emptySegment hnul hsplit hfront⟩
  · exact ⟨_, .mixedStretch hnul hsplit hfront hmixed hne⟩

theorem normalize_eq_iff : normalize raw = r ↔ Reads raw r := by
  refine ⟨?_, Reads.normalize_eq⟩
  rintro rfl
  obtain ⟨r, hr⟩ := exists_reads raw
  exact hr.normalize_eq ▸ hr

end Result

section Order

/-- A row of segments as a path has them: there is one, none is empty or holds a separator or a NUL, two
stars stand alone, and not twice in a row. -/
structure Orderly (segments : List String) : Prop where
  nonempty : segments ≠ []
  full : ∀ s ∈ segments, s ≠ ""
  plain : ∀ s ∈ segments, ∀ c ∈ s.toList, c ≠ '/' ∧ c ≠ '\\' ∧ c ≠ '\x00'
  alone : ∀ s ∈ segments, ['*', '*'] <:+: s.toList → s = "**"
  apart : segments.IsChain fun a b => ¬(a = "**" ∧ b = "**")

variable {raw : String}

theorem plain_of_mem_parts (hnul : '\x00' ∉ raw.toList) {part : List Char} (h : part ∈ parts raw)
    {c : Char} (hc : c ∈ part) : c ≠ '/' ∧ c ≠ '\\' ∧ c ≠ '\x00' := by
  obtain ⟨hslash, hmem⟩ := Text.mem_of_mem_splitOn h hc
  obtain ⟨d, hd, rfl⟩ := List.mem_map.mp hmem
  refine ⟨hslash, ?_, ?_⟩
  · unfold unifySlash
    split
    · decide
    · assumption
  · unfold unifySlash
    split
    · decide
    · rintro rfl
      exact hnul (Text.mem_of_mem_trim hd)

theorem mem_parts_of_mem_core {part : List Char} (h : part ∈ core raw) : part ∈ parts raw :=
  (List.dropWhile_sublist _).mem ((List.rdropWhile_prefix _ _).mem h)

theorem core_ne_nil (h : named raw ≠ []) : core raw ≠ [] := by
  rw [core_eq (mt named_eq_nil_iff.mpr h)]
  exact List.splitOn_ne_nil _ _

theorem mem_row {part : List Char} (h : part ∈ row raw) : part ∈ core raw ∨ part = ['*', '*'] := by
  rcases List.mem_append.mp h with h | h
  · exact .inl ((List.destutter_sublist _ _).mem h)
  · split at h
    · exact .inr (List.mem_singleton.mp h)
    · cases h

theorem row_apart (raw : String) : (row raw).IsChain Apart := by
  unfold row
  split
  · rename_i hclose
    refine List.isChain_append.mpr ⟨List.isChain_destutter _ _, .singleton _, ?_⟩
    rintro last hlast next hnext ⟨rfl, -⟩
    rw [← collapse_eq_destutter, getLast?_collapse] at hlast
    exact hclose.2 hlast
  · rw [List.append_nil]
    exact List.isChain_destutter _ _

theorem orderly_row (hnul : '\x00' ∉ raw.toList) (hnamed : named raw ≠ [])
    (hcore : ∀ part ∈ core raw, ¬Faulty part) : Orderly ((row raw).map String.ofList) := by
  have hsound : ∀ part ∈ row raw, ¬Faulty part := by
    intro part hpart
    rcases mem_row hpart with h | rfl
    · exact hcore part h
    · simp [Faulty]
  refine ⟨?_, ?_, ?_, ?_, ?_⟩
  · simp [row, List.destutter_eq_nil, core_ne_nil hnamed]
  · rintro _ hs rfl
    obtain ⟨part, hpart, hempty⟩ := List.mem_map.mp hs
    exact hsound part hpart (.inl (by simpa using hempty))
  · intro s hs c hc
    obtain ⟨part, hpart, rfl⟩ := List.mem_map.mp hs
    rw [String.toList_ofList] at hc
    rcases mem_row hpart with h | rfl
    · exact plain_of_mem_parts hnul (mem_parts_of_mem_core h) hc
    · obtain rfl : c = '*' := by simpa using hc
      decide
  · intro s hs hstretch
    obtain ⟨part, hpart, rfl⟩ := List.mem_map.mp hs
    rw [String.toList_ofList] at hstretch
    by_contra hne
    exact hsound part hpart (.inr ⟨hstretch, fun h => hne (by rw [h])⟩)
  · refine List.isChain_map_of_isChain _ ?_ (row_apart raw)
    rintro a b hapart ⟨ha, hb⟩
    exact hapart ⟨by simpa using congrArg String.toList ha, by simpa using congrArg String.toList hb⟩

end Order

/-- A pattern has the normal form, or the error, that the grammar gives it, and all segments of a normal
form are in order. -/
theorem normalize_reads (raw : String) : (∀ r, normalize raw = r ↔ Reads raw r) ∧
    ∀ segments, normalize raw = .ok segments → Orderly segments := by
  refine ⟨fun r => normalize_eq_iff, fun segments h => ?_⟩
  cases normalize_eq_iff.mp h with
  | ok hnul hnamed hcore => exact orderly_row hnul hnamed hcore

/-- Runs of stretches become one, and the separators at the end become another. -/
theorem normalize_reads_closed :
    normalize " ./src\\**/**/*.rs// " = .ok ["src", "**", "*.rs", "**"] ∧
    Reads " ./src\\**/**/*.rs// " (.ok ["src", "**", "*.rs", "**"]) ∧
    Orderly ["src", "**", "*.rs", "**"] := by
  have h : normalize " ./src\\**/**/*.rs// " = .ok ["src", "**", "*.rs", "**"] := rfl
  exact ⟨h, ((normalize_reads _).1 _).mp h, (normalize_reads _).2 _ h⟩

end Fileset.Pattern
