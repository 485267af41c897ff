import Fileset.Proofs.Toml.Layout
import Fileset.Toml.Table

namespace Fileset.Toml

section Line

structure Says (text : List Char) (statement : Statement) : Prop where
  solid : Solid text
  read : ∀ rest, Statement.read (text ++ '\n' :: rest) = some (statement, '\n' :: rest)

/-- The parts of a key are read as they were written between dots. -/
theorem key_write (parts : Key) (rest : List Char) (hne : parts ≠ []) (hlength : parts.length ≤ keyLimit)
    (hbare : rest.head?.all (fun c => !isBare c) = true) (hdot : (skipSpace rest).head? ≠ some '.') :
    key (['.'].intercalate (parts.map fun part => writeKey part.toList) ++ rest) =
      some (parts, skipSpace rest) :=
  keyUpTo_write hne hlength hbare hdot

theorem writeKey_append_head (s rest : List Char) : (writeKey s ++ rest).head? ≠ some '[' := by
  obtain ⟨c, t, ht, hbare | rfl | rfl⟩ := writeKey_head s
  · rw [ht]
    intro h
    rw [Option.some.inj h] at hbare
    exact absurd hbare (by decide)
  · simp [ht]
  · simp [ht]

/-- A key with a value is read as the assignment. -/
theorem says_assign (key : String) {value : List Char} {t : Term} (h : Reads value t) :
    Says (writeKey key.toList ++ [' ', '=', ' '] ++ value) (.assign [key] t) := by
  refine ⟨((writeKey_solid _).append _).append _, fun rest => ?_⟩
  simp only [List.append_assoc, List.cons_append, List.nil_append]
  have hskip : skipSpace (' ' :: '=' :: ' ' :: (value ++ '\n' :: rest)) =
      '=' :: ' ' :: (value ++ '\n' :: rest) := rfl
  have hspace : skipSpace (' ' :: (value ++ '\n' :: rest)) = value ++ '\n' :: rest :=
    (h.solid.append _).skipSpace
  have hkey : Toml.key (writeKey key.toList ++ ' ' :: '=' :: ' ' :: (value ++ '\n' :: rest)) =
      some ([key], '=' :: ' ' :: (value ++ '\n' :: rest)) := by
    have hone := key_write [key] (' ' :: '=' :: ' ' :: (value ++ '\n' :: rest))
      (List.cons_ne_nil key []) (Nat.le_add_left 1 79) rfl (by rw [hskip]; simp)
    simpa [List.intercalate, hskip] using hone
  have hhead := writeKey_append_head key.toList (' ' :: '=' :: ' ' :: (value ++ '\n' :: rest))
  unfold Statement.read
  split
  · rename_i heq
    rw [heq] at hhead
    exact absurd rfl hhead
  · simp only [pair, hkey, bind, Option.bind_some, hspace, h.read, pure, Option.map_some]

/-- The header of a table is read as such. -/
theorem says_header {parts : Key} (hne : parts ≠ []) (hlength : parts.length ≤ keyLimit) :
    Says ('[' :: ['.'].intercalate (parts.map fun part => writeKey part.toList) ++ [']'])
      (.header parts) := by
  refine ⟨⟨'[', _, rfl, by decide⟩, fun rest => ?_⟩
  have hkey := key_write parts (']' :: '\n' :: rest) hne hlength rfl (by simp [skipSpace, isSpace])
  have hhead : (['.'].intercalate (parts.map fun part => writeKey part.toList)
      ++ ']' :: '\n' :: rest).head? ≠ some '[' := by
    cases parts with
    | nil => exact absurd rfl hne
    | cons part parts =>
      cases parts with
      | nil => simpa [List.intercalate] using writeKey_append_head part.toList (']' :: '\n' :: rest)
      | cons next parts =>
        rw [List.map_cons, List.map_cons, List.intercalate_cons_cons, List.append_assoc, List.append_assoc]
        exact writeKey_append_head part.toList _
  simp only [List.cons_append, List.append_assoc, List.nil_append]
  rw [Statement.read]
  unfold Statement.readHeader
  split
  · rename_i heq
    rw [heq] at hhead
    exact absurd rfl hhead
  · rw [hkey]
    rfl

end Line

inductive Lines : List Char → List Statement → Prop
  | nil : Lines [] []
  | blank {text : List Char} {statements : List Statement} (h : Lines text statements) :
    Lines ('\n' :: text) statements
  | cons {line text : List Char} {statement : Statement} {statements : List Statement}
    (hline : Says line statement) (h : Lines text statements) :
    Lines (line ++ '\n' :: text) (statement :: statements)

namespace Lines

variable {text text' : List Char} {statements statements' : List Statement}

theorem append (h : Lines text statements) (h' : Lines text' statements') :
    Lines (text ++ text') (statements ++ statements') := by
  induction h with
  | nil => exact h'
  | blank _ ih => exact ih.blank
  | cons hline _ ih =>
    rw [List.append_assoc, List.cons_append]
    exact ih.cons hline

theorem length_le (h : Lines text statements) : statements.length ≤ text.length := by
  induction h with
  | nil => exact Nat.le_refl _
  | blank _ ih => exact Nat.le_succ_of_le ih
  | cons _ _ ih =>
    simp only [List.length_append, List.length_cons]
    omega

theorem readAll {n : Nat} (h : Lines text statements) (hn : statements.length < n) :
    Statement.readAll n text = some statements := by
  obtain ⟨n, rfl⟩ := Nat.exists_eq_add_one_of_ne_zero (Nat.ne_zero_of_lt hn)
  induction h generalizing n with
  | nil => rfl
  | blank _ ih =>
    rw [← ih n hn, Statement.readAll, Statement.readAll, skipLines_line]
  | @cons line text statement statements hline _ ih =>
    obtain ⟨n, rfl⟩ := Nat.exists_eq_add_one_of_ne_zero (Nat.ne_zero_of_lt (Nat.lt_of_succ_lt_succ hn))
    have hrest := ih n (Nat.lt_of_succ_lt_succ hn)
    have hend : endLine false ('\n' :: text) = some text := by rw [endLine]
    rw [Statement.readAll, (hline.solid.append _).skipLines]
    simp [hline.read, hend, hrest]

end Lines

/-- A document of statements, one on a line, is what the statements build. -/
theorem parse?_lines {text : List Char} {statements : List Statement} (h : Lines text statements)
    (hmark : text.head? ≠ some '\ufeff') :
    parse? (String.ofList text) = (build [] statements []).map Slot.values := by
  have hread := h.readAll (Nat.lt_succ_of_le h.length_le)
  simp only [parse?, String.toList_ofList]
  split
  · exact absurd rfl hmark
  · simp only [hread, bind, Option.bind_some, pure, Option.map_eq_bind, Function.comp_def]

end Fileset.Toml
