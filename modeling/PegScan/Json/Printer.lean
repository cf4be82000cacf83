import PegScan.Data

/-!
# Printing JSON
Lists and tables are spread over lines, two blanks deeper at each level; empty ones are not.
-/

namespace PegScan.Json

/-- The lower-case digit of base 16 for a number below 16. -/
def hexDigit (n : Nat) : Char := Nat.digitChar n

/-- A character inside a text. Quotes, backslashes and control characters are escaped. -/
def encodeChar (c : Char) : List Char :=
  if c = '\x22' then ['\\', '\x22']
  else if c = '\\' then ['\\', '\\']
  else if c = '\x08' then ['\\', 'b']
  else if c = '\x0c' then ['\\', 'f']
  else if c = '\n' then ['\\', 'n']
  else if c = '\r' then ['\\', 'r']
  else if c = '\t' then ['\\', 't']
  else if c < ' ' then ['\\', 'u', '0', '0', hexDigit (c.toNat / 16), hexDigit (c.toNat % 16)]
  else [c]

def encodeText (cs : List Char) : List Char :=
  '\x22' :: (cs.flatMap encodeChar ++ ['\x22'])

/-- The start of a line at a level. -/
def newLine (level : Nat) : List Char := '\n' :: List.replicate (2 * level) ' '

mutual

/-- A value that stands on a line of some level. What has no written form becomes `null`. -/
def print (level : Nat) : Data → List Char
  | .null | .text none | .unreadable => ['n', 'u', 'l', 'l']
  | .bool true => ['t', 'r', 'u', 'e']
  | .bool false => ['f', 'a', 'l', 's', 'e']
  | .natural n => Nat.toDigits 10 n
  | .text (some t) => encodeText t.toList
  | .scalar lexeme => lexeme
  | .list [] => ['[', ']']
  | .list (item :: items) =>
    '[' :: (newLine (level + 1) ++ print (level + 1) item ++ printItems (level + 1) items ++
      newLine level ++ [']'])
  | .table [] => ['{', '}']
  | .table ((key, value) :: members) =>
    '{' :: (newLine (level + 1) ++ encodeText (key.getD "").toList ++ [':', ' '] ++
      print (level + 1) value ++ printMembers (level + 1) members ++ newLine level ++ ['}'])

def printItems (level : Nat) : List Data → List Char
  | [] => []
  | item :: items => ',' :: (newLine level ++ print level item ++ printItems level items)

def printMembers (level : Nat) : List (Option String × Data) → List Char
  | [] => []
  | (key, value) :: members =>
    ',' :: (newLine level ++ encodeText (key.getD "").toList ++ [':', ' '] ++ print level value ++
      printMembers level members)

end

end PegScan.Json
