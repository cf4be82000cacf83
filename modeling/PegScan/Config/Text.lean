import PegScan.Config.Fields
import PegScan.Json.Printer
import PegScan.Json.Reader
import PegScan.Toml.Reader

/-!
# Configurations as text
A configuration is read from either format and written in either of them.
-/

namespace PegScan

namespace Toml

/-- The upper-case digit of base 16 for a number below 16. -/
def hexDigit (n : Nat) : Char := (Nat.digitChar n).toUpper

/-- A character between double quotes. Control characters are escaped. -/
def encodeChar (c : Char) : List Char :=
  if c = '\x08' then ['\\', 'b']
  else if c = '\x0c' then ['\\', 'f']
  else if c = '\r' then ['\\', 'r']
  else if c = '\t' then ['\\', 't']
  else if c < ' ' || c = '\x7f' then
    ['\\', 'u', '0', '0', hexDigit (c.toNat / 16), hexDigit (c.toNat % 16)]
  else [c]

/-- A text of one character. A double quote and a backslash stand between single quotes, and a
line feed between triple double quotes, after one that does not count. -/
def printChar (c : Char) : List Char :=
  if c = '\x22' || c = '\\' then ['\x27', c, '\x27']
  else if c = '\n' then
    ['\x22', '\x22', '\x22', '\n', '\n', '\x22', '\x22', '\x22']
  else '\x22' :: (encodeChar c ++ ['\x22'])

/-- One line of a section. -/
def printEntry (key : String) (value : List Char) : List Char :=
  key.toList ++ [' ', '=', ' '] ++ value ++ ['\n']

def printHeader (name : String) : List Char := '[' :: (name.toList ++ [']', '\n'])

end Toml

namespace Config

open Toml in
/-- Both sections with all of their entries. -/
def toToml (c : Config) : List Char :=
  printHeader "matching" ++
    printEntry "maxDepth" (Nat.toDigits 10 c.matching.maxDepth.toNat) ++
    printEntry "eol" ('\x22' :: (c.matching.lineBreak.name.toList ++ ['\x22'])) ++
    printEntry "trace"
      (if c.matching.trace then ['t', 'r', 'u', 'e'] else ['f', 'a', 'l', 's', 'e']) ++
    ['\n'] ++ printHeader "rawString" ++
    printEntry "open" (printChar c.delimiters.opener) ++
    printEntry "marker" (printChar c.delimiters.marker) ++
    printEntry "close" (printChar c.delimiters.closer)

def toJson (c : Config) : List Char := Json.print 0 c.toData

def render (format : ConfigFormat) (c : Config) : String :=
  match format with
  | .toml => String.ofList c.toToml
  | .json => String.ofList c.toJson

/-- Reads a configuration, which may still be one that cannot be worked with. -/
def parse (format : ConfigFormat) (text : String) : Except Error Config :=
  let data :=
    match format with
    | .toml => Toml.read? text.toList
    | .json => Json.read? text.toList
  match data.bind (ofData? format) with
  | some c => .ok c
  | none => .error (.config (.malformed format))

end Config
end PegScan
