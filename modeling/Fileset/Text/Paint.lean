namespace Fileset.Text

inductive Paint
  | bold
  | dim
  | green
  | yellow
  | boldYellow
  | boldRed
  deriving DecidableEq, Repr

namespace Paint

def code : Paint → String
  | .bold => "1"
  | .dim => "2"
  | .green => "32"
  | .yellow => "33"
  | .boldYellow => "1;33"
  | .boldRed => "1;31"

def start (p : Paint) : String := "\x1b[" ++ p.code ++ "m"

def reset : String := "\x1b[0m"

/-- The text in this colour, if there are colours at all. Where colour ends inside the text, this
one starts again. -/
def apply (p : Paint) (colours : Bool) (text : String) : String :=
  if colours then p.start ++ text.replace reset (reset ++ p.start) ++ reset else text

end Paint
end Fileset.Text
