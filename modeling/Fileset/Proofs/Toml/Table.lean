import Fileset.Proofs.NameMap
import Fileset.Proofs.Toml.Lines

namespace Fileset.Toml

section Denotes

variable {text : List Char}

def Denotes (text : List Char) (v : Value) : Prop := ∃ t, Reads text t ∧ t.value? = some v

theorem denotes_text (s : String) : Denotes (writeText s.toList) (.scalar (.string s)) :=
  ⟨_, reads_text s, rfl⟩

theorem denotes_boolean (b : Bool) : Denotes (writeBoolean b) (.scalar (.boolean b)) :=
  ⟨_, reads_boolean b, rfl⟩

theorem denotes_natural (n : Nat) : Denotes (writeNatural n) (.scalar (.integer n)) :=
  ⟨_, reads_natural n, rfl⟩

theorem values?_strings (ss : List String) :
    Term.values? (ss.map fun s => .scalar (.string s)) = some (ss.map fun s => .scalar (.string s)) := by
  induction ss with
  | nil => rfl
  | cons s ss ih => simp [Term.values?, Term.value?, ih]

theorem denotes_texts (ss : List String) :
    Denotes (writeTexts ss) (.array (ss.map fun s => .scalar (.string s))) :=
  ⟨_, reads_texts ss, by simp [Term.value?, values?_strings]⟩

end Denotes

namespace Slots

variable {k : String} {es inner : Slots}

theorem openTable_new (h : Assoc.get? k es = none) :
    openTable k es = some (Assoc.put k (.table .header []) es) := by
  rw [openTable, h]

theorem assign_new (h : Assoc.get? k es = none) (v : Value) :
    assign v [k] es = some (Assoc.put k (.closed v) es) := by
  rw [assign, h]
  rfl

/-- `wrap` puts a table in the place to which the header leads. -/
def Wraps (path : Key) (wrap : Slots → Slots) : Prop :=
  ∀ f inner, alongHeader f path (wrap inner) = (f inner).map wrap

theorem wraps_nil : Wraps [] id := by
  intro f inner
  simp [alongHeader]

theorem Wraps.cons {path : Key} {wrap : Slots → Slots} (h : Wraps path wrap) (k : String)
    (origin : Origin) (es : Slots) :
    Wraps (k :: path) fun inner => Assoc.put k (.table origin (wrap inner)) es := by
  intro f inner
  simp only [alongHeader, Assoc.get?_put_self, h f inner, Option.map_map, Function.comp_def,
    Assoc.put_put]

theorem Wraps.openTable {path : Key} {wrap : Slots → Slots} (h : Wraps path wrap)
    (hfree : Assoc.get? k inner = none) :
    alongHeader (Slots.openTable k) path (wrap inner) =
      some (wrap (Assoc.put k (.table .header []) inner)) := by
  rw [h, openTable_new hfree]
  rfl

/-- A table that is not there is begun on the way. -/
theorem alongHeader_new (h : Assoc.get? k es = none) (f : Slots → Option Slots) (path : Key) :
    alongHeader f (k :: path) es = alongHeader f (k :: path) (Assoc.put k (.table .implied []) es) := by
  simp only [alongHeader, h, Assoc.get?_put_self, Assoc.put_put]

end Slots

section Turns

variable {text text' : List Char} {path path' path'' : Key} {es es' es'' : Slots}

/-- Under the header `path` the text turns the table `es` into `es'`, and leaves the header `path'` in
force. -/
def Turns (text : List Char) (path : Key) (es : Slots) (path' : Key) (es' : Slots) : Prop :=
  ∃ statements, Lines text statements ∧
    ∀ rest, build path (statements ++ rest) es = build path' rest es'

namespace Turns

theorem append (h : Turns text path es path' es') (h' : Turns text' path' es' path'' es'') :
    Turns (text ++ text') path es path'' es'' := by
  obtain ⟨statements, hlines, hbuild⟩ := h
  obtain ⟨statements', hlines', hbuild'⟩ := h'
  exact ⟨statements ++ statements', hlines.append hlines',
    fun rest => by rw [List.append_assoc, hbuild, hbuild']⟩

theorem blank (h : Turns text path es path' es') : Turns ('\n' :: text) path es path' es' := by
  obtain ⟨statements, hlines, hbuild⟩ := h
  exact ⟨statements, hlines.blank, hbuild⟩

theorem parse? (h : Turns text [] [] path es) (hmark : text.head? ≠ some '\ufeff') :
    Toml.parse? (String.ofList text) = some (Slot.values es) := by
  obtain ⟨statements, hlines, hbuild⟩ := h
  have hall := hbuild []
  rw [List.append_nil, build] at hall
  rw [parse?_lines hlines hmark, hall]
  rfl

end Turns

variable {wrap : Slots → Slots} {inner : Slots}

/-- A header opens a table. -/
theorem turns_header (above : Key) (last : String) (hlength : (above ++ [last]).length ≤ keyLimit)
    (h : Slots.alongHeader (Slots.openTable last) above es = some es') (path : Key) :
    Turns (writeHeader (above ++ [last])) path es (above ++ [last]) es' := by
  refine ⟨[.header (above ++ [last])], ?_, fun rest => ?_⟩
  · have hlines := Lines.nil.cons (says_header (by simp) hlength)
    simpa [writeHeader] using hlines
  · simp [build, h]

/-- A line gives the table under the header one more key. -/
theorem Slots.Wraps.field (hwrap : Slots.Wraps path' wrap) (h : Turns text path es path' (wrap inner))
    (key : String) {value : List Char} {v : Value} (hv : Denotes value v)
    (hfree : Assoc.get? key inner = none) :
    Turns (text ++ line key value) path es path' (wrap (Assoc.put key (.closed v) inner)) := by
  obtain ⟨t, hread, hvalue⟩ := hv
  refine h.append ⟨[.assign [key] t], ?_, fun rest => ?_⟩
  · have hlines := Lines.nil.cons (says_assign key hread)
    simpa [line] using hlines
  · simp [build, hvalue, hwrap (Slots.assign v [key]) inner, Slots.assign_new hfree]

end Turns

namespace Slot

theorem values_put (k : String) (slot : Slot) (es : Slots) :
    values (Assoc.put k slot es) = Assoc.put k slot.value (values es) := by
  induction es with
  | nil => rfl
  | cons e es ih =>
    obtain ⟨j, old⟩ := e
    simp only [Assoc.put, values]
    split
    · rfl
    · split
      · rfl
      · rw [values, ih]

end Slot
end Fileset.Toml
