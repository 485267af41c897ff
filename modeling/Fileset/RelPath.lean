import Fileset.Text.Bytes

namespace Fileset

structure RelPath where
  segments : List String
  isFile : Bool
  deriving DecidableEq, Repr

namespace RelPath

def root (isFile : Bool) : RelPath := ⟨[], isFile⟩

/-- Both slashes separate, and empty parts do not count. -/
def isSeparator (c : Char) : Bool := c == '/' || c == '\\'

def parse (isFile : Bool) (text : String) : RelPath :=
  ⟨((text.toList.splitOnP isSeparator).filter (!·.isEmpty)).map String.ofList, isFile⟩

def child (p : RelPath) (isFile : Bool) (name : String) : RelPath := ⟨p.segments ++ [name], isFile⟩

def parent? (p : RelPath) : Option RelPath :=
  if p.segments.isEmpty then none else some ⟨p.segments.dropLast, false⟩

def lastName? (p : RelPath) : Option String := p.segments.getLast?
def length (p : RelPath) : Nat := p.segments.length
def isRoot (p : RelPath) : Bool := p.segments.isEmpty

def render (p : RelPath) : String := "/".intercalate p.segments

/-- Go from `base` to `step` as a file system does: an absolute step starts anew. -/
def enter (base step : String) : String :=
  if step.toList.head? = some '/' then step
  else if base.isEmpty || base.toList.getLast? = some '/' then base ++ step
  else base ++ "/" ++ step

def onDisk (p : RelPath) : String := p.segments.foldl enter ""

def segmentsLE : List String → List String → Bool
  | [], _ => true
  | _ :: _, [] => false
  | a :: s, b :: t => if a = b then segmentsLE s t else (Bytes.ofText a).le (Bytes.ofText b)

/-- Segment by segment in the order of their bytes; of two paths with the same segments, the
directory comes first. -/
def le (p q : RelPath) : Bool :=
  if p.segments = q.segments then !p.isFile || q.isFile else segmentsLE p.segments q.segments

def sort (ps : List RelPath) : List RelPath := ps.mergeSort le

end RelPath
end Fileset
