import PegScan.Text.Number
import PegScan.Text.Reader

/-!
# JSON tokens
-/

namespace PegScan.Json

open Text

/-- A number is kept as it is written. A text is missing when an escape in it names half of a
surrogate pair without the other half. -/
inductive Token
  | openBrace
  | closeBrace
  | openBracket
  | closeBracket
  | colon
  | comma
  | null
  | bool (value : Bool)
  | number (lexeme : List Char)
  | text (value : Option String)
  deriving DecidableEq, Repr

def isBlank (c : Char) : Bool := c = ' ' || c = '\n' || c = '\t' || c = '\r'

/-- The character that a one-letter escape stands for. -/
def escape? : Char → Option Char
  | '\x22' => some '\x22'
  | '\\' => some '\\'
  | '/' => some '/'
  | 'b' => some '\x08'
  | 'f' => some '\x0c'
  | 'n' => some '\n'
  | 'r' => some '\r'
  | 't' => some '\t'
  | _ => none

/-- The units of a text up to its closing quote, and what follows it. A unit is the number of
a character or half of a surrogate pair. -/
def readUnits : Reader (List Nat)
  | [] => none
  | '\\' :: 'u' :: a :: b :: c :: d :: rest => do
    let unit ← ofDigits? 16 [a, b, c, d]
    let (units, rest) ← readUnits rest
    return (unit :: units, rest)
  | '\\' :: e :: rest => do
    let c ← escape? e
    let (units, rest) ← readUnits rest
    return (c.toNat :: units, rest)
  | c :: rest =>
    if c = '\x22' then some ([], rest)
    else if c = '\\' || c < ' ' then none
    else do
      let (units, rest) ← readUnits rest
      return (c.toNat :: units, rest)

theorem readUnits_shortens : Reader.Shortens readUnits := by
  intro cs
  fun_induction readUnits cs <;> intro units rest h <;> simp_all [Option.bind_eq_some_iff] <;> grind

def isHighSurrogate (unit : Nat) : Bool := 0xD800 ≤ unit && unit ≤ 0xDBFF

def isLowSurrogate (unit : Nat) : Bool := 0xDC00 ≤ unit && unit ≤ 0xDFFF

/-- Joins surrogate pairs. Half of one alone is no character. -/
def joinUnits : List Nat → Option (List Char)
  | [] => some []
  | unit :: units =>
    match isHighSurrogate unit, units with
    | true, low :: rest =>
      if isLowSurrogate low then do
        let c ← charOfNat? (0x10000 + (unit - 0xD800) * 0x400 + (low - 0xDC00))
        return c :: (← joinUnits rest)
      else none
    | true, [] => none
    | false, rest => do return (← charOfNat? unit) :: (← joinUnits rest)

/-- Characters that numbers are made of. -/
def isNumeric (c : Char) : Bool :=
  isDigit 10 c || c = '-' || c = '+' || c = '.' || c = 'e' || c = 'E'

/-- Digits, at least one of them. -/
def areDigits (cs : List Char) : Bool := !cs.isEmpty && cs.all (isDigit 10)

/-- What may follow the letter of an exponent. -/
def isExponent : List Char → Bool
  | '+' :: cs => areDigits cs
  | '-' :: cs => areDigits cs
  | cs => areDigits cs

/-- A number without a sign. Its whole part has no superfluous zero in front. -/
def isUnsigned (cs : List Char) : Bool :=
  let isMantissa (c : Char) : Bool := c ≠ 'e' && c ≠ 'E'
  let mantissa := cs.takeWhile isMantissa
  let whole := mantissa.takeWhile (· ≠ '.')
  areDigits whole && (whole = ['0'] || whole.head? ≠ some '0') &&
    ((mantissa.dropWhile (· ≠ '.')).isEmpty || areDigits (mantissa.dropWhile (· ≠ '.')).tail) &&
    ((cs.dropWhile isMantissa).isEmpty || isExponent (cs.dropWhile isMantissa).tail)

def isNumber : List Char → Bool
  | '-' :: cs => isUnsigned cs
  | cs => isUnsigned cs

theorem isNumber_nil : isNumber [] = false := rfl

namespace Token

/-- The token at the front of a text that does not begin with a blank. -/
def read? : Reader Token
  | '{' :: rest => some (openBrace, rest)
  | '}' :: rest => some (closeBrace, rest)
  | '[' :: rest => some (openBracket, rest)
  | ']' :: rest => some (closeBracket, rest)
  | ':' :: rest => some (colon, rest)
  | ',' :: rest => some (comma, rest)
  | 'n' :: 'u' :: 'l' :: 'l' :: rest => some (null, rest)
  | 't' :: 'r' :: 'u' :: 'e' :: rest => some (bool true, rest)
  | 'f' :: 'a' :: 'l' :: 's' :: 'e' :: rest => some (bool false, rest)
  | '\x22' :: rest => do
    let (units, rest) ← readUnits rest
    return (text ((joinUnits units).map String.ofList), rest)
  | cs =>
    if isNumber (cs.takeWhile isNumeric) then
      some (number (cs.takeWhile isNumeric), cs.dropWhile isNumeric)
    else none

theorem read?_shortens : Reader.Shortens read? := by
  intro cs token rest h
  unfold read? at h
  split at h
  case h_10 =>
    obtain ⟨⟨units, left⟩, hu, h⟩ := Option.bind_eq_some_iff.mp h
    have := readUnits_shortens _ _ _ hu
    grind
  case h_11 =>
    split at h
    · next hn =>
      have hne : cs.takeWhile isNumeric ≠ [] := fun he => by simp [he, isNumber_nil] at hn
      have := length_dropWhile_lt hne
      grind
    · simp at h
  all_goals grind

/-- A blank, which is no token, or a token. -/
def readStep : Reader (Option Token)
  | [] => none
  | c :: rest =>
    if isBlank c then some (none, rest)
    else (read? (c :: rest)).map fun (token, rest) => (some token, rest)

theorem readStep_shortens : Reader.Shortens readStep := by
  intro cs step rest h
  unfold readStep at h
  split at h
  · simp at h
  · split at h
    · grind
    · obtain ⟨⟨token, left⟩, ht, h⟩ := Option.map_eq_some_iff.mp h
      have := read?_shortens _ _ _ ht
      grind

/-- All tokens of a text. -/
def readAll? (cs : List Char) : Option (List Token) :=
  (Reader.all? readStep readStep_shortens cs).map (·.filterMap id)

end Token
end PegScan.Json
