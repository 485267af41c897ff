namespace Fileset.Toml

abbrev Reader (α : Type u) := List Char → Option (α × List Char)

def isSpace (c : Char) : Bool := c == ' ' || c == '\t'

/-- Controls, the tabulator apart, are never written as they are. -/
def isPrinting (c : Char) : Bool := c == '\t' || (0x20 ≤ c.toNat && c.toNat != 0x7f)

def isDigit (c : Char) : Bool := '0' ≤ c && c ≤ '9'
def isLetter (c : Char) : Bool := ('a' ≤ c && c ≤ 'z') || ('A' ≤ c && c ≤ 'Z')
def isHexDigit (c : Char) : Bool := isDigit c || ('a' ≤ c && c ≤ 'f') || ('A' ≤ c && c ≤ 'F')

def isBare (c : Char) : Bool := isDigit c || isLetter c || c == '-' || c == '_'

def digitValue (c : Char) : Nat :=
  if isDigit c then c.toNat - '0'.toNat
  else if 'a' ≤ c then c.toNat - 'a'.toNat + 10
  else c.toNat - 'A'.toNat + 10

def numeral (base : Nat) (digits : List Char) : Nat :=
  digits.foldl (fun n c => n * base + digitValue c) 0

def skipSpace (s : List Char) : List Char := s.dropWhile isSpace

/-- Skip spaces, line ends and comments; `comment` says whether a comment is being read. -/
def skipLines (comment : Bool) : List Char → Option (List Char)
  | [] => some []
  | '\n' :: s => skipLines false s
  | '\r' :: '\n' :: s => skipLines false s
  | c :: s =>
    if comment then if isPrinting c then skipLines true s else none
    else if isSpace c then skipLines false s
    else if c = '#' then skipLines true s
    else some (c :: s)

def endLine (comment : Bool) : List Char → Option (List Char)
  | [] => some []
  | '\n' :: s => some s
  | '\r' :: '\n' :: s => some s
  | c :: s =>
    if comment then if isPrinting c then endLine true s else none
    else if isSpace c then endLine false s
    else if c = '#' then endLine true s
    else none

end Fileset.Toml
