import PegScan.Text.Combining
import PegScan.Text.DefaultIgnorable
import PegScan.Text.Unprintable

/-!
# Escaped text
Text as it is shown to readers: on one line, with everything visible.
-/

namespace PegScan.Text

/-- The number of a character in lower-case hexadecimal digits, without leading zeros. -/
def escapeNumber (c : Char) : List Char :=
  ['\\', 'u', '\x7b'] ++ Nat.toDigits 16 c.toNat ++ ['\x7d']

/-- A character as it is shown. One that would join what stands before it is escaped only if
`alone` says so. -/
def escapeChar (alone : Bool) (c : Char) : List Char :=
  if c = '\x00' then ['\\', '0']
  else if c = '\t' then ['\\', 't']
  else if c = '\r' then ['\\', 'r']
  else if c = '\n' then ['\\', 'n']
  else if c = '\\' || c = '\x22' || c = '\x27' then ['\\', c]
  else if isUnprintable c || isIgnorable c || (alone && isCombining c) then escapeNumber c
  else [c]

/-- A text as it is shown. Only its first character has nothing before it to join. -/
def escape : List Char → List Char
  | [] => []
  | c :: cs => escapeChar true c ++ cs.flatMap (escapeChar false)

end PegScan.Text
