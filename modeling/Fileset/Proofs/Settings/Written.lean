import Fileset.Proofs.Settings.Valid
import Fileset.Proofs.Toml.Table
import Fileset.Settings.Written

namespace Fileset.Settings

open Toml (Denotes Slot Slots Turns Value denotes_boolean denotes_natural denotes_text denotes_texts
  turns_header)

section Slots

def walkSlots (s : Settings) : Slots :=
  Assoc.put "default_excludes" (.closed (.scalar (.boolean s.defaultExcludes)))
    (Assoc.put "on_unreadable" (.closed (.scalar (.string s.walk.onUnreadable.name)))
      (Assoc.put "sort_entries" (.closed (.scalar (.boolean s.walk.sorted)))
        (Assoc.put "follow_symlinks" (.closed (.scalar (.boolean s.walk.followLinks)))
          (Assoc.put "case_sensitive" (.closed (.scalar (.boolean s.caseSensitive))) []))))

def performanceSlots (s : Settings) : Slots :=
  Assoc.put "parallel_threads" (.closed (.scalar (.integer s.threads))) []

def listValue (raws : List String) : Value := .array (raws.map fun raw => .scalar (.string raw))

def setSlots (set : PatternSet) : Slots :=
  Assoc.put "excludes" (.closed (listValue set.excludes))
    (Assoc.put "includes" (.closed (listValue set.includes)) [])

def namedSlot (e : String × PatternSet) : String × Slot := (e.1, .table .header (setSlots e.2))

variable {path : Toml.Key} {es : Slots}

theorem turns_walk (s : Settings) (path : Toml.Key) (hfree : Assoc.get? "walk" es = none) :
    Turns (writeWalk s) path es ["walk"] (Assoc.put "walk" (.table .header (walkSlots s)) es) := by
  have hwrap := Slots.wraps_nil.cons "walk" .header es
  have hopen := turns_header [] "walk" (by decide) (Slots.wraps_nil.openTable hfree) path
  have hcase := hwrap.field hopen "case_sensitive" (denotes_boolean s.caseSensitive) rfl
  have hlinks := hwrap.field hcase "follow_symlinks" (denotes_boolean s.walk.followLinks) rfl
  have hsort := hwrap.field hlinks "sort_entries" (denotes_boolean s.walk.sorted) rfl
  have hpolicy := hwrap.field hsort "on_unreadable" (denotes_text s.walk.onUnreadable.name) rfl
  exact hwrap.field hpolicy "default_excludes" (denotes_boolean s.defaultExcludes) rfl

theorem turns_performance (s : Settings) (path : Toml.Key) (hfree : Assoc.get? "performance" es = none) :
    Turns (writePerformance s) path es ["performance"]
      (Assoc.put "performance" (.table .header (performanceSlots s)) es) := by
  have hwrap := Slots.wraps_nil.cons "performance" .header es
  have hopen := turns_header [] "performance" (by decide) (Slots.wraps_nil.openTable hfree) path
  exact hwrap.field hopen "parallel_threads" (denotes_natural s.threads) rfl

/-- Under the header of a set, `start` is what `es` is with these sets. -/
def HasSets (start es : Slots) (inner : Slots) : Prop :=
  ∀ f, Slots.alongHeader f ["sets"] start =
    Slots.alongHeader f ["sets"] (Assoc.put "sets" (.table .implied inner) es)

/-- A set goes into the table of the sets. -/
theorem turns_set {start inner : Slots} {name : String} (set : PatternSet) (path : Toml.Key)
    (hstart : HasSets start es inner) (hfree : Assoc.get? name inner = none) :
    Turns (writeSet name set) path start ["sets", name]
      (Assoc.put "sets" (.table .implied (Assoc.put name (.table .header (setSlots set)) inner)) es) := by
  have habove := Slots.wraps_nil.cons "sets" .implied es
  have hwrap := (Slots.wraps_nil.cons name .header inner).cons "sets" .implied es
  have hopen := turns_header ["sets"] name (Nat.le_add_left 2 78)
    ((hstart _).trans (habove.openTable hfree)) path
  have hincludes := hwrap.field hopen "includes" (denotes_texts set.includes) rfl
  exact hwrap.field hincludes "excludes" (denotes_texts set.excludes) rfl

/-- Sets in the order of their names, behind those that are there, become the rest of the table. -/
theorem turns_sets {start : Slots} {sets done : List (String × PatternSet)} (hne : sets ≠ [])
    (hsorted : Assoc.Sorted (done ++ sets)) (path : Toml.Key)
    (hstart : HasSets start es (done.map namedSlot)) :
    ∃ path', Turns (['\n'].intercalate (sets.map fun e => writeSet e.1 e.2)) path start path'
      (Assoc.put "sets" (.table .implied ((done ++ sets).map namedSlot)) es) := by
  induction sets generalizing start done path with
  | nil => exact absurd rfl hne
  | cons e sets ih =>
    have hbehind : ∀ e' ∈ done.map namedSlot, e'.1 < e.1 := by
      intro e' he'
      obtain ⟨d, hd, rfl⟩ := List.mem_map.mp he'
      exact (List.pairwise_append.mp hsorted).2.2 d hd e List.mem_cons_self
    have hfree : Assoc.get? e.1 (done.map namedSlot) = none :=
      Assoc.get?_eq_none fun e' he' heq => String.lt_irrefl _ (heq ▸ hbehind e' he')
    have hdone : (done ++ [e]).map namedSlot =
        done.map namedSlot ++ [(e.1, .table .header (setSlots e.2))] := by
      rw [List.map_append]
      rfl
    have hset := turns_set e.2 path hstart hfree
    rw [Assoc.put_append hbehind, ← hdone] at hset
    cases sets with
    | nil =>
      refine ⟨["sets", e.1], ?_⟩
      simpa [List.intercalate] using hset
    | cons next sets =>
      have hsorted' : Assoc.Sorted ((done ++ [e]) ++ next :: sets) := by simpa using hsorted
      obtain ⟨path', hrest⟩ := ih (by simp) hsorted' ["sets", e.1] fun f => rfl
      refine ⟨path', ?_⟩
      rw [List.append_assoc, List.singleton_append] at hrest
      rw [List.map_cons, List.map_cons, List.intercalate_cons_cons, List.append_assoc]
      exact hset.append hrest.blank

/-- All sets become one table, which a bare header opens if there are none. -/
theorem turns_allSets (sets : NameMap PatternSet) (path : Toml.Key) (hfree : Assoc.get? "sets" es = none) :
    ∃ path' origin, Turns (writeSets sets.entries) path es path'
      (Assoc.put "sets" (.table origin (sets.entries.map namedSlot)) es) := by
  obtain ⟨entries, hsorted⟩ := sets
  cases entries with
  | nil =>
    exact ⟨["sets"], .header, turns_header [] "sets" (by decide) (Slots.wraps_nil.openTable hfree) path⟩
  | cons e entries =>
    have hall : Assoc.Sorted ([] ++ e :: entries) := hsorted
    have hstart : HasSets es es (List.map namedSlot []) := fun f => Slots.alongHeader_new hfree f []
    obtain ⟨path', hsets⟩ := turns_sets (by simp) hall path hstart
    exact ⟨path', .implied, hsets⟩

def document (s : Settings) : List (String × Value) :=
  Assoc.put "sets" (.table (Slot.values (s.sets.entries.map namedSlot)))
    (Assoc.put "performance" (.table (Slot.values (performanceSlots s)))
      (Assoc.put "walk" (.table (Slot.values (walkSlots s))) []))

theorem parse?_write (s : Settings) : Toml.parse? s.write = some s.document := by
  have hwalk : Turns (writeWalk s) [] [] ["walk"] (Assoc.put "walk" (.table .header (walkSlots s)) []) :=
    turns_walk s [] rfl
  have hperformance := hwalk.append (turns_performance s ["walk"] rfl).blank
  generalize hes : Assoc.put "performance" _ _ = es at hperformance
  have hfree : Assoc.get? "sets" es = none := by
    rw [← hes]
    rfl
  obtain ⟨path', origin, hsets⟩ := turns_allSets s.sets ["performance"] hfree
  have hall := (hperformance.append hsets.blank).parse? (by simp [writeWalk, Toml.writeHeader])
  rw [write, hall, ← hes]
  simp only [Slot.values_put, Slot.value, document]
  rfl

end Slots

section Readers

theorem contains_put {α : Type} {names : List String} {k : String} {a : α} {es : List (String × α)}
    (hk : names.contains k = true) (h : ∀ e ∈ es, names.contains e.1 = true) :
    ∀ e ∈ Assoc.put k a es, names.contains e.1 = true := by
  intro e he
  rcases Assoc.mem_put he with rfl | he
  · exact hk
  · exact h e he

theorem fields?_table {names : List String} {es : List (String × Value)}
    (h : ∀ e ∈ es, names.contains e.1 = true) :
    fields? names (.table es) = some fun name => Assoc.get? name es := by
  rw [fields?, if_pos]
  rw [List.all_eq_true]
  intro e he
  rw [h e he, Bool.true_or]

theorem policyNamed?_name (p : Walk.OnUnreadable) : policyNamed? p.name = some p := by
  cases p <;> rfl

theorem readWalk_written (s s₀ : Settings) : readWalk (.table (Slot.values (walkSlots s))) s₀ =
    some { s₀ with caseSensitive := s.caseSensitive, walk := s.walk, defaultExcludes := s.defaultExcludes } := by
  have hkeys : ∀ e ∈ Slot.values (walkSlots s), walkFields.contains e.1 = true := by
    simp only [walkSlots, Slot.values_put]
    exact contains_put rfl (contains_put rfl (contains_put rfl (contains_put rfl (contains_put rfl nofun))))
  simp only [readWalk, fields?_table hkeys, bind, Option.bind_some]
  simp [walkSlots, Slot.values_put, Slot.value, Assoc.get?_put, orDefault, bool?, policy?, policyNamed?_name]

theorem threads?_natural {n : Nat} (h : n < threadLimit) : threads? (.scalar (.integer n)) = some n := by
  have hlimit : (n : Int) < (threadLimit : Int) := Int.ofNat_lt.mpr h
  rw [threads?, if_pos ⟨Int.natCast_nonneg n, hlimit⟩, Int.toNat_natCast]

theorem readPerformance_table {es : List (String × Value)}
    (hkeys : ∀ e ∈ es, ["parallel_threads"].contains e.1 = true) (s₀ : Settings) :
    readPerformance (.table es) s₀ = (orDefault s₀.threads threads? (Assoc.get? "parallel_threads" es)).map
      fun n => { s₀ with threads := n } := by
  simp only [readPerformance, fields?_table hkeys, bind, Option.bind_some, pure, Option.map_eq_bind,
    Function.comp_def]

theorem readPerformance_written (s s₀ : Settings) (h : s.threads < threadLimit) :
    readPerformance (.table (Slot.values (performanceSlots s))) s₀ = some { s₀ with threads := s.threads } := by
  have hfield : Assoc.get? "parallel_threads" (Slot.values (performanceSlots s)) =
      some (.scalar (.integer s.threads)) := rfl
  have hkeys : ∀ e ∈ Slot.values (performanceSlots s), ["parallel_threads"].contains e.1 = true := by
    simp only [performanceSlots, Slot.values_put]
    exact contains_put rfl nofun
  rw [readPerformance_table hkeys, hfield, orDefault, threads?_natural h, Option.map_some]

theorem texts?_listValue (raws : List String) : texts? (listValue raws) = some raws := by
  simp only [texts?, listValue]
  induction raws with
  | nil => rfl
  | cons raw raws ih => simp [text?, ih]

theorem set?_written (set : PatternSet) : set? (.table (Slot.values (setSlots set))) = some set := by
  have hread : set? (.table (Slot.values (setSlots set))) = (do
      let includes ← texts? (listValue set.includes)
      let excludes ← texts? (listValue set.excludes)
      return { includes, excludes }) := rfl
  rw [hread, texts?_listValue, texts?_listValue]
  rfl

theorem readSets_written (s s₀ : Settings) :
    readSets (.table (Slot.values (s.sets.entries.map namedSlot))) s₀ = some { s₀ with sets := s.sets } := by
  have hsets : ∀ sets : List (String × PatternSet),
      (Slot.values (sets.map namedSlot)).mapM (fun e => (set? e.2).map (e.1, ·)) = some sets := by
    intro sets
    induction sets with
    | nil => rfl
    | cons e sets ih =>
      have he : set? (namedSlot e).2.value = some e.2 := set?_written e.2
      rw [List.map_cons, Slot.values, List.mapM_cons, he, ih]
      rfl
  simp only [readSets, hsets, bind, Option.bind_some, NameMap.ofList_entries]
  rfl

theorem ofTable?_document (machine : Machine) (s : Settings) (h : s.threads < threadLimit) :
    ofTable? s.document machine = some s := by
  have hkeys : ∀ e ∈ s.document, ["walk", "performance", "sets"].contains e.1 = true :=
    contains_put rfl (contains_put rfl (contains_put rfl nofun))
  have hwalk : Assoc.get? "walk" s.document = some (.table (Slot.values (walkSlots s))) := rfl
  have hperformance : Assoc.get? "performance" s.document =
      some (.table (Slot.values (performanceSlots s))) := rfl
  have hsets : Assoc.get? "sets" s.document =
      some (.table (Slot.values (s.sets.entries.map namedSlot))) := rfl
  simp only [ofTable?, fields?_table hkeys, bind, Option.bind_some, hwalk, hperformance, hsets, ifGiven,
    readWalk_written, readPerformance_written _ _ h, readSets_written]

end Readers

theorem parse_write (machine : Machine) (s : Settings) (h : s.threads < threadLimit) :
    parse s.write machine = s.check.map fun _ => s := by
  rw [parse, parse?_write, Option.bind_some, ofTable?_document machine s h]

/-- Settings that are valid are read back as they were written, on whatever machine. -/
theorem Valid.parse_write {s : Settings} (h : s.Valid) (machine : Machine) :
    parse s.write machine = .ok s := by
  rw [Settings.parse_write machine s h.threads_lt, h.check]
  rfl

end Fileset.Settings
