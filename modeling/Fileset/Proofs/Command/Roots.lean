import Fileset.Command.Parse
import Mathlib.Data.List.TakeDrop

namespace Fileset.Command

section Items

variable {known : List OptionKind} {roots : List String}

theorem readArgument_undashed {a : String} (h : isDashed a = false) :
    readArgument known a = some { items := [.word a] } := by
  unfold isDashed at h
  unfold readArgument
  split
  · rename_i heq
    simp [heq] at h
  · rfl
  · rename_i s _ hne heq
    obtain ⟨c, t, rfl⟩ := List.exists_cons_of_ne_nil hne
    simp [heq] at h
  · rfl

theorem readAll_undashed (h : ∀ root ∈ roots, isDashed root = false) :
    readAll known none roots = some (roots.map .word) := by
  induction roots with
  | nil => rfl
  | cons root roots ih =>
    obtain ⟨hroot, hroots⟩ := List.forall_mem_cons.mp h
    have hne : root ≠ "--" := by
      rintro rfl
      exact absurd hroot (by decide)
    rw [readAll, if_neg hne, readArgument_undashed hroot]
    simp [Item.isFinal, ih hroots]

/-- The roots can stand behind these options: two dashes come before them, or none looks like an option. -/
def Follow (flags roots : List String) : Prop :=
  flags.getLast? = some "--" ∨ ∀ root ∈ roots, isDashed root = false

theorem Follow.tail {a : String} {flags : List String} (h : Follow (a :: flags) roots) (ha : a ≠ "--") :
    Follow flags roots := by
  rcases h with h | h
  · cases flags with
    | nil => exact absurd (by simpa using h) ha
    | cons b flags => exact .inl (by simpa using h)
  · exact .inr h

theorem words_append (items more : List Item) : words (items ++ more) = words items ++ words more :=
  List.filterMap_append

theorem words_roots (roots : List String) : words (roots.map .word) = roots := by
  induction roots with
  | nil => rfl
  | cons root roots ih => exact congrArg (root :: ·) ih

theorem textsOf_roots (kind : OptionKind) (items : List Item) (roots : List String) :
    textsOf kind (items ++ roots.map .word) = textsOf kind items := by
  have hnone : textsOf kind (roots.map .word) = [] := by simp [textsOf]
  rw [textsOf, List.filterMap_append, ← textsOf, ← textsOf, hnone, List.append_nil]

theorem inForce_roots (seen : List OptionKind) (items : List Item) (roots : List String) :
    inForce seen (items ++ roots.map .word) = inForce seen items := by
  fun_induction inForce seen items with
  | case1 seen =>
    induction roots with
    | nil => rfl
    | cons root roots ih => exact ih
  | case2 seen w items ih => exact ih
  | case3 seen kind items hseen => rw [List.cons_append, inForce, if_pos hseen]
  | case4 seen kind items hseen ih => rw [List.cons_append, inForce, if_neg hseen, ih]
  | case5 seen kind text items hseen => rw [List.cons_append, inForce, if_pos hseen]
  | case6 seen kind text items hseen ih => rw [List.cons_append, inForce, if_neg hseen, ih]

/-- Options without words are read the same in front of any roots, unless one of them ends the line. -/
theorem readAll_roots {waiting : Option OptionKind} {flags : List String} {items : List Item}
    (h : readAll known waiting flags = some items) (hwords : words items = []) :
    (∀ rest, readAll known waiting (flags ++ rest) = some items) ∨
    ∀ roots, Follow flags roots →
      readAll known waiting (flags ++ roots) = some (items ++ roots.map .word) := by
  -- along the reader; an option that is final makes the left side, and any other keeps what the rest gives
  fun_induction readAll known waiting flags generalizing items with
  | case1 =>
    cases h
    exact .inr fun roots hroots => readAll_undashed (hroots.resolve_left (by simp))
  | case2 => cases h
  | case3 => cases h
  | case4 kind a flags ha ih =>
    obtain ⟨rest, hrest, rfl⟩ := Option.map_eq_some_iff.mp h
    have hne : a ≠ "--" := by
      rintro rfl
      exact ha (by decide)
    refine (ih hrest hwords).imp (fun hall more => ?_) fun hall roots hroots => ?_
    · rw [List.cons_append, readAll, if_neg ha, hall, Option.map_some]
    · rw [List.cons_append, readAll, if_neg ha, hall roots (hroots.tail hne), Option.map_some,
        List.cons_append]
  | case5 flags =>
    cases h
    obtain rfl : flags = [] := by rwa [words_roots] at hwords
    exact .inr fun roots _ => by rw [List.cons_append, readAll, if_pos rfl]; rfl
  | case6 => cases h
  | case7 a flags hne r hread hfinal =>
    cases h
    refine .inl fun rest => ?_
    rw [List.cons_append, readAll, if_neg hne, hread]
    simp only [hfinal, if_true]
  | case8 a flags hne r hread hfinal ih =>
    obtain ⟨rest, hrest, rfl⟩ := Option.map_eq_some_iff.mp h
    rw [words_append, List.append_eq_nil_iff] at hwords
    refine (ih hrest hwords.2).imp (fun hall more => ?_) fun hall roots hroots => ?_
    · rw [List.cons_append, readAll, if_neg hne, hread]
      simp only [hfinal, hall, Bool.false_eq_true, if_false, Option.map_some]
    · rw [List.cons_append, readAll, if_neg hne, hread]
      simp only [hfinal, hall roots (hroots.tail hne), Bool.false_eq_true, if_false, Option.map_some,
        List.append_assoc]

end Items

namespace Parts

variable {known : List OptionKind} {arguments : List String} {p : Parts}

theorem read?_eq_some : read? known arguments = some p ↔
    readAll known none arguments = some p.items ∧ inForce [] p.items = some p.active := by
  unfold read?
  cases readAll known none arguments with
  | none => simp [bind]
  | some items =>
    simp only [bind, Option.bind_some, Option.some.injEq]
    constructor
    · intro h
      obtain ⟨active, hactive, heq⟩ := Option.bind_eq_some_iff.mp h
      cases heq
      exact ⟨rfl, hactive⟩
    · rintro ⟨rfl, hactive⟩
      rw [hactive]
      rfl

def withRoots (p : Parts) (roots : List String) : Parts := ⟨p.items ++ roots.map .word, p.active⟩

theorem withRoots_words (h : p.words = []) (roots : List String) : (p.withRoots roots).words = roots := by
  rw [words] at h
  rw [words, withRoots, words_append, words_roots, h, List.nil_append]

theorem withRoots_request (roots : List String) : requestOf (p.withRoots roots) = requestOf p := by
  simp only [requestOf, texts, withRoots, textsOf_roots, has]

theorem read?_withRoots (h : read? known arguments = some p) (hwords : p.words = []) :
    (∀ rest, read? known (arguments ++ rest) = some p) ∨
    ∀ roots, Follow arguments roots → read? known (arguments ++ roots) = some (p.withRoots roots) := by
  obtain ⟨hitems, hactive⟩ := read?_eq_some.mp h
  refine (readAll_roots hitems hwords).imp (fun hall rest => ?_) fun hall roots hroots => ?_
  · exact read?_eq_some.mpr ⟨hall rest, hactive⟩
  · exact read?_eq_some.mpr ⟨hall roots hroots, (inForce_roots [] p.items roots).trans hactive⟩

end Parts

section Line

def selectLine (front flags roots : List String) : List String := front ++ "select" :: (flags ++ roots)

/-- These options ask for the selection `r` under whatever roots stand behind them: they do so for a
single dot, and there is no word among them. -/
structure Selects (front flags : List String) (verbosity : Verbosity) (r : Request) : Prop where
  dashed : ∀ a ∈ front, isDashed a = true
  wordless : ∃ p, Parts.read? (Topic.select.options ++ Known.everywhere) flags = some p ∧ p.words = []
  asks : parse? (selectLine front flags ["."]) = some (.run verbosity (.act (.select ["."] r)))

theorem isDashed_of_ofName? {name : String} {topic : Topic} (h : Topic.ofName? name = some topic) :
    isDashed name = false ∧ name ≠ "help" := by
  unfold Topic.ofName? at h
  split at h
  · subst name
    decide
  split at h
  · subst name
    decide
  split at h
  · subst name
    decide
  · cases h

/-- What a line asks for behind the name of its topic. -/
theorem parse?_topic {front rest : List String} {name : String} {topic : Topic}
    (hfront : ∀ a ∈ front, isDashed a = true) (hname : Topic.ofName? name = some topic) :
    parse? (front ++ name :: rest) = (Parts.read? (Known.version :: Known.everywhere) front).bind fun p =>
      if p.has Known.help then some .help
      else if p.has Known.version then some .version
      else if front.contains "--" then none
      else parseTopic p topic rest := by
  obtain ⟨hdashed, hhelp⟩ := isDashed_of_ofName? hname
  have hword : ¬isDashed name = true := by simp [hdashed]
  have hspan : (front ++ name :: rest).span isDashed = (front, name :: rest) := by
    rw [List.span_eq_takeWhile_dropWhile, List.takeWhile_append_of_pos hfront,
      List.dropWhile_append_of_pos hfront, List.takeWhile_cons_of_neg hword,
      List.dropWhile_cons_of_neg hword, List.append_nil]
  unfold parse?
  simp only [hspan, bind]
  refine congrArg _ (funext fun p => ?_)
  refine if_congr Iff.rfl rfl (if_congr Iff.rfl rfl (if_congr Iff.rfl rfl ?_))
  split
  · rename_i heq
    cases heq
  · rename_i heq
    exact absurd (List.cons.inj heq).1 hhelp
  · rename_i heq
    exact absurd (List.cons.inj heq).1 hhelp
  · rename_i heq
    obtain ⟨rfl, rfl⟩ := List.cons.inj heq
    rw [hname, Option.bind_some]

theorem parse?_select {front rest : List String} (hfront : ∀ a ∈ front, isDashed a = true)
    {verbosity : Verbosity} {command : Command} :
    parse? (front ++ "select" :: rest) = some (.run verbosity command) ↔
      ∃ p, Parts.read? (Known.version :: Known.everywhere) front = some p ∧ p.has Known.help = false ∧
        p.has Known.version = false ∧ front.contains "--" = false ∧
        parseTopic p .select rest = some (.run verbosity command) := by
  rw [parse?_topic hfront rfl, Option.bind_eq_some_iff]
  refine exists_congr fun p => and_congr_right fun _ => ?_
  cases p.has Known.help <;> cases p.has Known.version <;> cases front.contains "--" <;> simp

theorem parseTopic_select {front p : Parts} {arguments : List String}
    (hread : Parts.read? (Topic.select.options ++ Known.everywhere) arguments = some p)
    {verbosity : Verbosity} {command : Command} :
    parseTopic front .select arguments = some (.run verbosity command) ↔
      (∀ w ∈ p.words, w ≠ "") ∧ p.has Known.help = false ∧
      (front.clash Known.verbose Known.quiet || p.clash Known.verbose Known.quiet) = false ∧
      p.words ≠ [] ∧ p.clash Known.filesOnly Known.dirsOnly = false ∧
      verbosityOf front p = verbosity ∧ .act (.select p.words (requestOf p)) = command := by
  have hfit : (!Topic.select.wordsFit p.words) = true ↔ ¬∀ w ∈ p.words, w ≠ "" := by
    simp [Topic.wordsFit]
  unfold parseTopic
  simp only [hread, bind, Option.bind_some, hfit]
  split
  · rename_i hword
    simp [hword]
  · rename_i hword
    split
    · rename_i hhelp
      simp [hhelp]
    · rename_i hhelp
      split
      · rename_i hclash
        simp [hclash]
      · rename_i hclash
        simp only [Topic.command?]
        split
        · rename_i hbad
          have hbad : p.words = [] ∨ p.clash Known.filesOnly Known.dirsOnly = true := by simpa using hbad
          refine ⟨nofun, ?_⟩
          rintro ⟨-, -, -, hne, hok, -⟩
          rcases hbad with hnil | hbad
          · exact absurd hnil hne
          · simp [hbad] at hok
        · rename_i hgood
          have hgood : p.words ≠ [] ∧ p.clash Known.filesOnly Known.dirsOnly = false := by simpa using hgood
          rw [Option.map_some, Option.some.injEq, Invocation.run.injEq]
          refine ⟨fun h => ?_, fun h => h.2.2.2.2.2⟩
          exact ⟨not_not.mp hword, by simpa using hhelp, by simpa using hclash, hgood.1, hgood.2, h⟩

variable {front flags roots : List String} {verbosity : Verbosity} {r : Request}

/-- The selection is the same under any roots. -/
theorem Selects.parse?_roots (h : Selects front flags verbosity r) (hne : roots ≠ [])
    (hfull : ∀ root ∈ roots, root ≠ "") (hfollow : Follow flags roots) :
    parse? (selectLine front flags roots) = some (.run verbosity (.act (.select roots r))) := by
  obtain ⟨p, hp, hwords⟩ := h.wordless
  obtain ⟨fp, hfp, hhelp, hversion, hdashes, htopic⟩ := (parse?_select h.dashed).mp h.asks
  refine (parse?_select h.dashed).mpr ⟨fp, hfp, hhelp, hversion, hdashes, ?_⟩
  rcases Parts.read?_withRoots hp hwords with hends | hread
  · obtain ⟨-, -, -, hsome, -⟩ := (parseTopic_select (hends ["."])).mp htopic
    exact absurd hwords hsome
  · have hdot : Follow flags ["."] := .inr (by decide)
    obtain ⟨-, hhelp, hclash, -, hkinds, hverbosity, hcommand⟩ :=
      (parseTopic_select (hread _ hdot)).mp htopic
    obtain ⟨-, hrequest⟩ : _ ∧ requestOf (p.withRoots ["."]) = r := by simpa using hcommand
    rw [Parts.withRoots_request] at hrequest
    refine (parseTopic_select (hread _ hfollow)).mpr ⟨?_, hhelp, hclash, ?_, hkinds, hverbosity, ?_⟩
    · rwa [Parts.withRoots_words hwords]
    · rwa [Parts.withRoots_words hwords]
    · rw [Parts.withRoots_words hwords, Parts.withRoots_request, hrequest]

end Line

end Fileset.Command
