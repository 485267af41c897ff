import Fileset.Pattern.Glob

namespace Fileset

inductive Segment
  /-- The segment of two stars: any number of names, none included. -/
  | stretch
  | exact (text : String)
  | glob (text : String)
  deriving DecidableEq, Repr

namespace Segment

def ofText (text : String) : Segment :=
  if text = "**" then .stretch
  else if text.toList.any Glob.isWild then .glob text
  else .exact text

def isStretch : Segment → Bool
  | .stretch => true
  | _ => false

def accepts : Segment → String → Bool
  | .stretch, _ => true
  | .exact text, name => text == name
  | .glob text, name => Glob.accepts text.toList name.toList

def item : Segment → Gapped.Item Segment
  | .stretch => .gap
  | s => .one s

/-- Whether a row of segments stands for `names`. With `early`, names that end before the pattern
does are enough. -/
def rowAccepts (early : Bool) (row : List Segment) (names : List String) : Bool :=
  Gapped.run accepts early (row.map item) names

end Segment
end Fileset
