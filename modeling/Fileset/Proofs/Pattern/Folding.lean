import Fileset.Proofs.Pattern.Glob
import Fileset.Proofs.Pattern.Prefix

namespace Fileset

namespace Text.Lowercase

theorem lower_singleton {c : Char} (h : c ≠ 'İ') : ∃ d, lower c = [d] := by
  have hne : ¬c.toNat = 0x130 := fun hc => h (Char.toNat_inj.mp hc)
  unfold lower
  rw [if_neg hne]
  split
  · exact ⟨_, rfl⟩
  · exact ⟨_, rfl⟩

theorem lowerFrom_append (before piece s : List Char) :
    ∃ x, lowerFrom before (piece ++ s) = x ++ lowerFrom (piece.reverse ++ before) s := by
  induction piece generalizing before with
  | nil => exact ⟨[], rfl⟩
  | cons c piece ih =>
    obtain ⟨x, hx⟩ := ih (c :: before)
    refine ⟨(if c = 'Σ' then [lowerSigma before (piece ++ s)] else lower c) ++ x, ?_⟩
    rw [List.cons_append, lowerFrom, hx, List.append_assoc, List.reverse_cons, List.append_assoc,
      List.singleton_append]

theorem lowerFrom_wild {c : Char} (h : Glob.isWild c = true) (before s : List Char) :
    lowerFrom before (c :: s) = c :: lowerFrom (c :: before) s := by
  have hc : c = '*' ∨ c = '?' := by simpa [Glob.isWild] using h
  rcases hc with rfl | rfl
  · rfl
  · rfl

/-- Wildcards stay what they are in lower case. -/
theorem any_isWild_lowerAll {s : List Char} (h : s.any Glob.isWild = true) :
    (lowerAll s).any Glob.isWild = true := by
  obtain ⟨c, hc, hw⟩ := List.any_eq_true.mp h
  obtain ⟨front, back, rfl⟩ := List.append_of_mem hc
  obtain ⟨x, hx⟩ := lowerFrom_append [] front (c :: back)
  rw [lowerAll, hx, lowerFrom_wild hw]
  simp [hw]

end Text.Lowercase

namespace Glob
open Text.Lowercase

theorem accepts_append {p q s t : List Char} (hp : accepts p s = true) (hq : accepts q t = true) :
    accepts (p ++ q) (s ++ t) = true := by
  rw [accepts_iff_covers] at hp hq ⊢
  rw [List.map_append]
  exact hp.append hq

theorem accepts_star (s : List Char) : accepts ['*'] s = true :=
  accepts_iff_cuts.mpr ⟨[s], List.flatten_singleton, .cons (.star s) .nil⟩

theorem accepts_question (d : Char) : accepts ['?'] [d] = true :=
  accepts_iff_cuts.mpr ⟨[[d]], rfl, .cons (.question d) .nil⟩

/-- Something in this cut is other in lower case: a question mark takes the one character that becomes
two, or a sigma of the pattern takes one that gets another form where it stands in the text. -/
inductive Spoiled : List Char → List (List Char) → Prop
  | dotted {front back : List Char} {fronts backs : List (List Char)}
    (hlen : front.length = fronts.length) : Spoiled (front ++ '?' :: back) (fronts ++ ['İ'] :: backs)
  | sigma {front back : List Char} {fronts backs : List (List Char)}
    (hlen : front.length = fronts.length)
    (hform : lowerSigma front.reverse back ≠ lowerSigma fronts.flatten.reverse backs.flatten) :
    Spoiled (front ++ 'Σ' :: back) (fronts ++ ['Σ'] :: backs)

def Keeps (pattern text : List Char) : Prop := ∃ pieces, Cuts pattern text pieces ∧ ¬Spoiled pattern pieces

/-- Each letter goes on to take its piece, `front` and `fronts` being what stands before them. -/
theorem accepts_lowerFrom (front : List Char) (fronts : List (List Char)) {back : List Char}
    {backs : List (List Char)} (htakes : List.Forall₂ Takes back backs) (hlen : front.length = fronts.length)
    (hkeeps : ¬Spoiled (front ++ back) (fronts ++ backs)) :
    accepts (lowerFrom front.reverse back) (lowerFrom fronts.flatten.reverse backs.flatten) = true := by
  -- what stands before a sigma decides its form, so the fronts grow along the induction
  induction htakes generalizing front fronts with
  | nil => rfl
  | @cons c piece back backs hc _ ih =>
    have hrest : accepts (lowerFrom (c :: front.reverse) back)
        (lowerFrom (piece.reverse ++ fronts.flatten.reverse) backs.flatten) = true := by
      have := ih (front ++ [c]) (fronts ++ [piece]) (by simp [hlen]) (by simpa using hkeeps)
      simpa using this
    rw [List.flatten_cons]
    cases hc with
    | star =>
      obtain ⟨x, hx⟩ := lowerFrom_append fronts.flatten.reverse piece backs.flatten
      rw [lowerFrom_wild rfl, hx]
      exact accepts_append (accepts_star x) hrest
    | question d =>
      rw [lowerFrom_wild rfl, List.singleton_append, lowerFrom]
      split
      · exact accepts_append (accepts_question _) hrest
      · have hd : d ≠ 'İ' := by
          rintro rfl
          exact hkeeps (.dotted hlen)
        obtain ⟨e, he⟩ := lower_singleton hd
        rw [he]
        exact accepts_append (accepts_question e) hrest
    | itself =>
      rw [List.singleton_append, lowerFrom, lowerFrom]
      split
      · rename_i hsigma
        subst hsigma
        have hform : lowerSigma front.reverse back =
            lowerSigma fronts.flatten.reverse backs.flatten := by
          by_contra hne
          exact hkeeps (.sigma hlen hne)
        rw [hform]
        exact accepts_append (accepts_self _) hrest
      · exact accepts_append (accepts_self _) hrest

theorem Keeps.accepts_lowerAll {pattern text : List Char} (h : Keeps pattern text) :
    accepts (lowerAll pattern) (lowerAll text) = true := by
  obtain ⟨pieces, ⟨rfl, htakes⟩, hkeeps⟩ := h
  exact accepts_lowerFrom [] [] htakes rfl hkeeps

end Glob

namespace Segment

def Takes (s : Segment) (names : List String) : Prop := s.item.Takes accepts names

theorem takes_of_accepts {s : Segment} {name : String} (h : s.accepts name = true) :
    s.Takes [name] := by
  cases s with
  | stretch => trivial
  | exact text => exact ⟨name, rfl, h⟩
  | glob text => exact ⟨name, rfl, h⟩

/-- A way to lay a pattern along a path: the segments in `front` each take one of the pieces, which make
up the names. They are all segments of the pattern, unless with `early` a beginning is enough. -/
structure Laid (early : Bool) (segments names front : List String) (pieces : List (List String)) :
    Prop where
  begins : front <+: segments
  all : early = false → front = segments
  whole : pieces.flatten = names
  takes : List.Forall₂ (fun text piece => (ofText text).Takes piece) front pieces

theorem rowAccepts_iff_laid {early : Bool} {segments names : List String} :
    rowAccepts early (segments.map ofText) names = true ↔
      ∃ front pieces, Laid early segments names front pieces := by
  rw [rowAccepts, Gapped.run_iff, List.map_map]
  constructor
  · rintro ⟨items, hprefix, hall, hcovers⟩
    obtain ⟨front, hfront, rfl⟩ := List.prefix_map_iff.mp hprefix
    obtain ⟨pieces, hwhole, htakes⟩ := Gapped.covers_iff_pieces.mp hcovers
    refine ⟨front, pieces, hfront, fun he => ?_, hwhole, ?_⟩
    · exact hfront.eq_of_length (by simpa using congrArg List.length (hall he))
    · exact (List.forall₂_map_left_iff (f := item ∘ ofText)).mp htakes
  · rintro ⟨front, pieces, hfront, hall, hwhole, htakes⟩
    refine ⟨front.map (item ∘ ofText), hfront.map _, fun he => by rw [hall he], ?_⟩
    exact Gapped.covers_iff_pieces.mpr ⟨pieces, hwhole, List.forall₂_map_left_iff.mpr htakes⟩

theorem accepts_lowercase {text name : String} (h : (ofText text).accepts name = true)
    (hkeeps : ofText text = .glob text → Glob.Keeps text.toList name.toList) :
    (ofText (Text.lowercase text)).accepts (Text.lowercase name) = true := by
  unfold ofText at h hkeeps
  split at h
  · rename_i hs
    subst hs
    rfl
  · rename_i hs
    split at h
    · rename_i hw
      rw [if_neg hs, if_pos hw] at hkeeps
      unfold ofText
      split
      · rfl
      · rw [if_pos (by simpa [Text.lowercase] using Text.Lowercase.any_isWild_lowerAll hw)]
        simpa [accepts, Text.lowercase] using (hkeeps rfl).accepts_lowerAll
    · obtain rfl : text = name := by simpa [accepts] using h
      exact accepts_ofText

theorem takes_lowercase {text : String} {piece : List String} (h : (ofText text).Takes piece)
    (hkeeps : ∀ name, piece = [name] → ofText text = .glob text →
      Glob.Keeps text.toList name.toList) :
    (ofText (Text.lowercase text)).Takes (piece.map Text.lowercase) := by
  by_cases hs : text = "**"
  · subst hs
    trivial
  · unfold Takes at h
    rw [item_ofText hs] at h
    obtain ⟨name, rfl, haccepts⟩ := h
    exact takes_of_accepts (accepts_lowercase haccepts (hkeeps name rfl))

/-- A pattern that is laid along a path, with no wildcard segment spoiled, lies along it in lower case. -/
theorem Laid.lowercase {early : Bool} {segments names front : List String}
    {pieces : List (List String)} (h : Laid early segments names front pieces)
    (hkeeps : ∀ text name, (text, [name]) ∈ front.zip pieces → ofText text = .glob text →
      Glob.Keeps text.toList name.toList) :
    Laid early (segments.map Text.lowercase) (names.map Text.lowercase)
      (front.map Text.lowercase) (pieces.map (·.map Text.lowercase)) := by
  refine ⟨h.begins.map _, fun he => by rw [h.all he], by rw [← h.whole, List.map_flatten], ?_⟩
  rw [List.forall₂_map_left_iff, List.forall₂_map_right_iff]
  obtain ⟨hlen, htakes⟩ := List.forall₂_iff_zip.mp h.takes
  refine List.forall₂_iff_zip.mpr ⟨hlen, fun {text piece} hmem => takes_lowercase (htakes hmem) ?_⟩
  rintro name rfl
  exact hkeeps text name hmem

end Segment

namespace Matcher
open Segment

/-- A path that a matcher accepts is accepted without regard to case too, unless each way to lay the
pattern along the path has a name that can only be cut along its wildcard segment so that a question
mark takes a capital I with a dot, or a capital sigma takes one of another form in lower case. -/
theorem folded_accepts {forInclude : Bool} {raw : String} {m : Matcher}
    (hm : compile forInclude true raw = .ok m) :
    ∃ m' segments, compile forInclude false raw = .ok m' ∧ Pattern.normalize raw = .ok segments ∧
      ∀ path, (m.accepts path = true ↔ ∃ front pieces,
          Laid (forInclude && !path.isFile) segments path.segments front pieces) ∧
        (m.accepts path = true → m'.accepts path = true ∨ ∀ front pieces,
          Laid (forInclude && !path.isFile) segments path.segments front pieces →
            ∃ text name, (text, [name]) ∈ front.zip pieces ∧ ofText text = .glob text ∧
              ¬Glob.Keeps text.toList name.toList) := by
  obtain ⟨segments, hn, rfl⟩ := compile_ok hm
  refine ⟨_, segments, by rw [compile, hn]; rfl, hn, fun path => ?_⟩
  simp only [accepts, ofSegments_accepts]
  refine ⟨rowAccepts_iff_laid, fun _ => ?_⟩
  by_cases hkept : ∃ front pieces, Laid (forInclude && !path.isFile) segments path.segments front pieces ∧
      ∀ text name, (text, [name]) ∈ front.zip pieces → ofText text = .glob text →
        Glob.Keeps text.toList name.toList
  · obtain ⟨front, pieces, hlaid, hkeeps⟩ := hkept
    exact .inl (rowAccepts_iff_laid.mpr ⟨_, _, hlaid.lowercase hkeeps⟩)
  · push Not at hkept
    exact .inr hkept

/-- A star takes a capital I with a dot, and both sigmas end their words. -/
theorem folded_accepts_sigma :
    compile false true "*/?ΟΣ" = .ok ⟨"*/?ΟΣ", .row [.glob "*", .glob "?ΟΣ"], false, true⟩ ∧
    ∃ m' segments, compile false false "*/?ΟΣ" = .ok m' ∧
      Pattern.normalize "*/?ΟΣ" = .ok segments ∧
      ∀ path, (accepts ⟨"*/?ΟΣ", .row [.glob "*", .glob "?ΟΣ"], false, true⟩ path = true ↔
          ∃ front pieces, Laid (false && !path.isFile) segments path.segments front pieces) ∧
        (accepts ⟨"*/?ΟΣ", .row [.glob "*", .glob "?ΟΣ"], false, true⟩ path = true →
          m'.accepts path = true ∨ ∀ front pieces,
            Laid (false && !path.isFile) segments path.segments front pieces →
              ∃ text name, (text, [name]) ∈ front.zip pieces ∧ ofText text = .glob text ∧
                ¬Glob.Keeps text.toList name.toList) :=
  ⟨rfl, folded_accepts rfl⟩

/-- Ignoring case loses a name that becomes longer under a question mark, and one whose sigma gets
another form than the sigma behind a star. -/
theorem folding_loses :
    (compile false true "?" = .ok ⟨"?", .single (.glob "?"), false, true⟩ ∧
      compile false false "?" = .ok ⟨"?", .single (.glob "?"), false, false⟩ ∧
      accepts ⟨"?", .single (.glob "?"), false, true⟩ ⟨["İ"], true⟩ = true ∧
      accepts ⟨"?", .single (.glob "?"), false, false⟩ ⟨["İ"], true⟩ = false) ∧
    compile false true "*Σ" = .ok ⟨"*Σ", .single (.glob "*Σ"), false, true⟩ ∧
      compile false false "*Σ" = .ok ⟨"*Σ", .single (.glob "*σ"), false, false⟩ ∧
      accepts ⟨"*Σ", .single (.glob "*Σ"), false, true⟩ ⟨["ΑΣ"], true⟩ = true ∧
      accepts ⟨"*Σ", .single (.glob "*σ"), false, false⟩ ⟨["ΑΣ"], true⟩ = false := by
  have hname : fold false ["ΑΣ"] = ["ας"] := by decide +kernel
  refine ⟨⟨rfl, rfl, rfl, rfl⟩, rfl, by decide +kernel, ?_, ?_⟩
  · have hsame : fold true ["ΑΣ"] = ["ΑΣ"] := rfl
    simp only [accepts, hsame]
    simp [Shape.accepts, Segment.accepts, Glob.accepts, Glob.item, Glob.Letter.fits, Gapped.run,
      Gapped.resume]
  · simp only [accepts, hname]
    simp [Shape.accepts, Segment.accepts, Glob.accepts, Glob.item, Glob.Letter.fits, Gapped.run,
      Gapped.resume, Gapped.Item.isGap]

end Matcher
end Fileset
