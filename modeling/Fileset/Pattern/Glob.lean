import Fileset.Pattern.Gapped

namespace Fileset.Glob

inductive Letter
  | any
  | exactly (c : Char)
  deriving DecidableEq, Repr

def Letter.fits : Letter → Char → Bool
  | .any, _ => true
  | .exactly c, d => c == d

def item (c : Char) : Gapped.Item Letter :=
  if c = '*' then .gap else if c = '?' then .one .any else .one (.exactly c)

def isWild (c : Char) : Bool := c == '*' || c == '?'

def accepts (pattern text : List Char) : Bool :=
  Gapped.run Letter.fits false (pattern.map item) text

end Fileset.Glob
