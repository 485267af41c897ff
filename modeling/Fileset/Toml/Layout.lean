import Fileset.Toml.Quote

namespace Fileset.Toml

def indent : List Char := [' ', ' ', ' ', ' ']

/-- A list of texts; more than one text takes one line each. -/
def writeTexts : List String → List Char
  | [] => ['[', ']']
  | [s] => '[' :: writeText s.toList ++ [']']
  | ss => '[' :: '\n' :: ss.flatMap (fun s => indent ++ writeText s.toList ++ [',', '\n']) ++ [']']

def writeBoolean (b : Bool) : List Char := (if b then "true" else "false").toList

def writeNatural (n : Nat) : List Char := Nat.toDigits 10 n

def line (key : String) (value : List Char) : List Char :=
  writeKey key.toList ++ [' ', '=', ' '] ++ value ++ ['\n']

def writeHeader (key : List String) : List Char :=
  '[' :: ['.'].intercalate (key.map fun part => writeKey part.toList) ++ [']', '\n']

end Fileset.Toml
