import Fileset.Text.Lowercase.Table

namespace Fileset.Text.Lowercase

def inRanges (ranges : List (Nat × Nat)) (c : Char) : Bool :=
  ranges.any fun r => r.1 ≤ c.toNat && c.toNat ≤ r.2

def isCased (c : Char) : Bool := inRanges casedRanges c
def isIgnorable (c : Char) : Bool := inRanges ignorableRanges c

def Span.holds (r : Span) (c : Char) : Bool :=
  r.first ≤ c.toNat && c.toNat ≤ r.last && (c.toNat - r.first) % r.step == 0

/-- The lower-case form of a character, wherever it stands. -/
def lower (c : Char) : List Char :=
  if c.toNat = 0x130 then ['i', '\u0307']
  else match spans.find? (·.holds c) with
    | some r => [Char.ofNat (c.toNat + r.shift).toNat]
    | none => [c]

def meetsCased (s : List Char) : Bool := (s.dropWhile isIgnorable).head?.any isCased

/-- `before` is the text in front, its last character first. A sigma ends a word when a cased
character stands before it and none behind it, ignorable characters apart. -/
def lowerSigma (before after : List Char) : Char :=
  if meetsCased before && !meetsCased after then 'ς' else 'σ'

def lowerFrom (before : List Char) : List Char → List Char
  | [] => []
  | c :: s => (if c = 'Σ' then [lowerSigma before s] else lower c) ++ lowerFrom (c :: before) s

def lowerAll (s : List Char) : List Char := lowerFrom [] s

end Fileset.Text.Lowercase

namespace Fileset.Text

def lowercase (s : String) : String := String.ofList (Lowercase.lowerAll s.toList)

end Fileset.Text
