namespace Fileset.Command

structure OptionKind where
  name : String
  letter : Option Char := none
  takesText : Bool := false
  /-- It may stand on a line more than once. -/
  repeats : Bool := false
  /-- The option of the opposite meaning; the later of the two counts. -/
  opposite : Option String := none
  /-- Nothing behind it is read. -/
  final : Bool := false
  deriving DecidableEq, Repr

inductive Item
  | flag (kind : OptionKind)
  | text (kind : OptionKind) (value : String)
  | word (word : String)
  deriving DecidableEq, Repr

/-- What one argument gives, and the option that takes its text from the next argument. -/
structure Reading where
  items : List Item := []
  waiting : Option OptionKind := none
  deriving DecidableEq, Repr

def isDashed (argument : String) : Bool :=
  match argument.toList with
  | '-' :: _ :: _ => true
  | _ => false

def attached : List Char → String
  | '=' :: s => String.ofList s
  | s => String.ofList s

def readLetters (known : List OptionKind) : List Char → Option Reading
  | [] => some {}
  | c :: s =>
    match known.find? (·.letter == some c) with
    | none => none
    | some kind =>
      if kind.takesText then
        if s.isEmpty then some { waiting := some kind } else some { items := [.text kind (attached s)] }
      else if kind.final then some { items := [.flag kind] }
      else (readLetters known s).map fun r => { r with items := .flag kind :: r.items }

def readName (known : List OptionKind) (s : List Char) : Option Reading :=
  match known.find? (·.name.toList == s.takeWhile (· != '=')) with
  | none => none
  | some kind =>
    match s.dropWhile (· != '='), kind.takesText with
    | [], true => some { waiting := some kind }
    | [], false => some { items := [.flag kind] }
    | _ :: value, true => some { items := [.text kind (String.ofList value)] }
    | _ :: _, false => none

def readArgument (known : List OptionKind) (argument : String) : Option Reading :=
  match argument.toList with
  | '-' :: '-' :: s => readName known s
  | ['-'] => some { items := [.word argument] }
  | '-' :: s => readLetters known s
  | _ => some { items := [.word argument] }

def Item.isFinal : Item → Bool
  | .flag kind => kind.final
  | _ => false

/-- The items of a command line. An option that waits for its text takes the next argument, which
must not look like an option. -/
def readAll (known : List OptionKind) : Option OptionKind → List String → Option (List Item)
  | none, [] => some []
  | some _, [] => none
  | some kind, a :: rest =>
    if isDashed a then none else (readAll known none rest).map (.text kind a :: ·)
  | none, a :: rest =>
    if a = "--" then some (rest.map .word)
    else match readArgument known a with
      | none => none
      | some r =>
        if r.items.any Item.isFinal then some r.items
        else (readAll known r.waiting rest).map (r.items ++ ·)

/-- The options that are in force after the items, if none stands there too often. -/
def inForce (seen : List OptionKind) : List Item → Option (List OptionKind)
  | [] => some seen
  | .word _ :: items => inForce seen items
  | .flag kind :: items | .text kind _ :: items =>
    if seen.contains kind && !kind.repeats then none
    else inForce (kind :: seen.filter fun k => kind.opposite != some k.name) items

def words (items : List Item) : List String :=
  items.filterMap fun | .word w => some w | _ => none

def textsOf (kind : OptionKind) (items : List Item) : List String :=
  items.filterMap fun | .text k value => if k = kind then some value else none | _ => none

end Fileset.Command
