import Fileset.NameMap
import Fileset.Toml.Statement

namespace Fileset.Toml

/-- How a table came to be. -/
inductive Origin
  /-- It was on the way of a header. -/
  | implied
  /-- It was on the way of a dotted key. -/
  | dotted
  | header
  deriving DecidableEq, Repr

inductive Slot
  /-- Nothing more can go into it. -/
  | closed (v : Value)
  | table (origin : Origin) (entries : List (String × Slot))
  /-- An array of tables; the last one is open. -/
  | tables (done : List (List (String × Slot))) (last : List (String × Slot))

namespace Slot

mutual

def value : Slot → Value
  | .closed v => v
  | .table _ entries => .table (values entries)
  | .tables done last => .array (rows done ++ [.table (values last)])

def values : List (String × Slot) → List (String × Value)
  | [] => []
  | (k, slot) :: es => (k, slot.value) :: values es

def rows : List (List (String × Slot)) → List Value
  | [] => []
  | es :: ess => .table (values es) :: rows ess

end

end Slot

abbrev Slots := List (String × Slot)

namespace Slots

/-- Change the table that lies along the path of a header. -/
def alongHeader (f : Slots → Option Slots) : Key → Slots → Option Slots
  | [], es => f es
  | k :: ks, es =>
    match Assoc.get? k es with
    | none => (alongHeader f ks []).map fun new => Assoc.put k (.table .implied new) es
    | some (.table origin old) =>
      (alongHeader f ks old).map fun new => Assoc.put k (.table origin new) es
    | some (.tables done last) =>
      (alongHeader f ks last).map fun new => Assoc.put k (.tables done new) es
    | some (.closed _) => none

/-- Whether a dotted key may go through a table, or, at the last of its tables, into it. -/
def admitsDotted (isLast : Bool) : Origin → Bool
  | .dotted => true
  | .implied => !isLast
  | .header => false

def assign (v : Value) : Key → Slots → Option Slots
  | [], _ => none
  | [k], es => if (Assoc.get? k es).isSome then none else some (Assoc.put k (.closed v) es)
  | k :: ks, es =>
    match Assoc.get? k es with
    | none => (assign v ks []).map fun new => Assoc.put k (.table .dotted new) es
    | some (.table origin old) =>
      if admitsDotted (ks.length == 1) origin then
        (assign v ks old).map fun new => Assoc.put k (.table origin new) es
      else none
    | some _ => none

def openTable (k : String) (es : Slots) : Option Slots :=
  match Assoc.get? k es with
  | none => some (Assoc.put k (.table .header []) es)
  | some (.table .implied old) => some (Assoc.put k (.table .header old) es)
  | some _ => none

def openItem (k : String) (es : Slots) : Option Slots :=
  match Assoc.get? k es with
  | none => some (Assoc.put k (.tables [] []) es)
  | some (.tables done last) => some (Assoc.put k (.tables (done ++ [last]) []) es)
  | some _ => none

end Slots

mutual

def Term.value? : Term → Option Value
  | .scalar s => some (.scalar s)
  | .array items => (Term.values? items).map .array
  | .inline pairs => (Term.inline? pairs []).map fun es => .table (Slot.values es)

def Term.values? : List Term → Option (List Value)
  | [] => some []
  | t :: ts => do
    let v ← t.value?
    return v :: (← Term.values? ts)

def Term.inline? : List (Key × Term) → Slots → Option Slots
  | [], es => some es
  | (k, t) :: pairs, es => do
    let v ← t.value?
    Term.inline? pairs (← Slots.assign v k es)

end

/-- Carry out the statements in turn. `path` is the header in force. -/
def build (path : Key) : List Statement → Slots → Option Slots
  | [], es => some es
  | .assign k t :: rest, es => do
    let v ← t.value?
    build path rest (← Slots.alongHeader (Slots.assign v k) path es)
  | .header k :: rest, es => do
    let last ← k.getLast?
    build k rest (← Slots.alongHeader (Slots.openTable last) k.dropLast es)
  | .item k :: rest, es => do
    let last ← k.getLast?
    build k rest (← Slots.alongHeader (Slots.openItem last) k.dropLast es)

/-- The table of a document. A byte order mark at the start does not count. -/
def parse? (text : String) : Option (List (String × Value)) := do
  let s := match text.toList with
    | '\ufeff' :: s => s
    | s => s
  let statements ← Statement.readAll (s.length + 1) s
  return Slot.values (← build [] statements [])

end Fileset.Toml
