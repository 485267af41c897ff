import Fileset.Toml.Lexis

namespace Fileset.Toml

inductive Style
  /-- One line with escapes. -/
  | basic
  /-- One line without escapes. -/
  | literal
  | longBasic
  | longLiteral
  deriving DecidableEq, Repr

def isControl (c : Char) : Bool := !isPrinting c && c != '\n'

/-- More than `n` quotes stand in a row; `before` counts those right before the text. -/
def hasRun (quote : Char) (n : Nat) (before : Nat) : List Char → Bool
  | [] => false
  | c :: s =>
    if c = quote then before == n || hasRun quote n (before + 1) s else hasRun quote n 0 s

/-- The first style in this order that holds the text without escapes; escapes if there is none. -/
def Style.forText (s : List Char) : Style :=
  let lines := s.contains '\n'
  let escape := s.contains '\\'
  if s.any isControl then if lines then .longBasic else .basic
  else if !escape && !lines && !s.contains '"' then .basic
  else if !lines && !s.contains '\'' then .literal
  else if !escape && !hasRun '"' 2 0 s then .longBasic
  else if !hasRun '\'' 2 0 s then .longLiteral
  else if lines then .longBasic
  else .basic

def hexDigit (n : Nat) : Char :=
  Char.ofNat (if n < 10 then '0'.toNat + n else 'A'.toNat + n - 10)

def escapeCode (c : Char) : List Char :=
  if c = '\\' then ['\\', '\\']
  else if c = '\x08' then ['\\', 'b']
  else if c = '\t' then ['\\', 't']
  else if c = '\n' then ['\\', 'n']
  else if c = '\x0c' then ['\\', 'f']
  else if c = '\r' then ['\\', 'r']
  else if isControl c then ['\\', 'u', '0', '0', hexDigit (c.toNat / 16), hexDigit (c.toNat % 16)]
  else [c]

def escaped (s : List Char) : List Char :=
  s.flatMap fun c => if c = '"' then ['\\', '"'] else escapeCode c

/-- Text on several lines. At most two quotes in a row are left as they are; `before` counts those
right before the text. -/
def longEscaped (before : Nat) : List Char → List Char
  | [] => []
  | c :: s =>
    if c = '"' then
      if before < 2 then '"' :: longEscaped (before + 1) s else '\\' :: '"' :: longEscaped 0 s
    else if c = '\n' then '\n' :: longEscaped 0 s
    else escapeCode c ++ longEscaped 0 s

/-- A text that has line ends starts on a line of its own. -/
def openLine (s : List Char) : List Char := if s.contains '\n' then ['\n'] else []

def Style.write (s : List Char) : Style → List Char
  | .basic => '"' :: escaped s ++ ['"']
  | .literal => '\'' :: s ++ ['\'']
  | .longBasic => ['"', '"', '"'] ++ openLine s ++ longEscaped 0 s ++ ['"', '"', '"']
  | .longLiteral => ['\'', '\'', '\''] ++ openLine s ++ s ++ ['\'', '\'', '\'']

def writeText (s : List Char) : List Char := (Style.forText s).write s

def writeKey (s : List Char) : List Char :=
  let hidden := s.any isControl || s.contains '\n'
  if !s.isEmpty && s.all isBare then s
  else if s.contains '"' || s.contains '\\' then
    if hidden || s.contains '\'' then Style.basic.write s else Style.literal.write s
  else Style.basic.write s

end Fileset.Toml
