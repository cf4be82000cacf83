import PegScan.Data
import PegScan.Text.Number

/-!
# TOML scalars
Numbers, truth values, dates and times: all that is written without quotes.
-/

namespace PegScan.Toml

/-- Digits without the underscores between them. An underscore has a digit on both sides. -/
def ungroup? (base : Nat) : List Char → Option (List Char)
  | [] => none
  | [c] => if isDigit base c then some [c] else none
  | c :: '_' :: rest => if isDigit base c then (ungroup? base rest).map (c :: ·) else none
  | c :: rest => if isDigit base c then (ungroup? base rest).map (c :: ·) else none

/-- Decimal digits without a superfluous zero in front. -/
def wholeDigits? (cs : List Char) : Option (List Char) := do
  match ← ungroup? 10 cs with
  | '0' :: _ :: _ => none
  | digits => some digits

/-- The sign in front of a number, `true` for a minus, and what it belongs to. -/
def sign (cs : List Char) : Option Bool × List Char :=
  match cs with
  | '+' :: rest => (some false, rest)
  | '-' :: rest => (some true, rest)
  | _ => (none, cs)

/-- Naturals from `2 ^ 128` on are too large. -/
def natural (n : Nat) : Data := if n < Nat.pow 2 128 then .natural n else .unreadable

/-- The digits after the prefix of a base. Where there are none, there is no value. -/
def based? (base : Nat) : List Char → Option Data
  | [] => some .unreadable
  | digits => do return natural (← ofDigits? base (← ungroup? base digits))

/-- Every underscore has a digit of some base on both sides. -/
def isGrouped : List Char → Bool
  | c :: '_' :: rest => isDigit 16 c && rest.head?.any (isDigit 16) && isGrouped rest
  | _ :: rest => isGrouped rest
  | [] => true

/-- A first group of decimal digits, without a zero in front, and groups of anything after it
that does not point to a fraction or an exponent. -/
def hasWholeGroup (cs : List Char) : Bool :=
  cs.head?.any (fun c => isDigit 10 c && c ≠ '0') &&
    (cs.dropWhile (isDigit 10)).head? = some '_' && isGrouped cs &&
    cs.all fun c => c ≠ '.' && c ≠ 'e' && c ≠ 'E' && c ≠ ' '

/-- A decimal integer is known by its first group. That a later one holds more than digits, or
that the number is below `-2 ^ 127`, only leaves it without a value. -/
def integer? (cs : List Char) : Option Data :=
  match cs with
  | '0' :: 'x' :: digits => based? 16 digits
  | '0' :: 'o' :: digits => based? 8 digits
  | '0' :: 'b' :: digits => based? 2 digits
  | _ =>
    let (minus, digits) := sign cs
    match wholeDigits? digits >>= ofDigits? 10 with
    | some n =>
      if minus = some true && n ≠ 0 then
        some (if n ≤ Nat.pow 2 127 then .scalar cs else .unreadable)
      else some (natural n)
    | none => if hasWholeGroup digits then some .unreadable else none

/-- The decimal number `mantissa * 10 ^ exponent` is rounded to a finite number of double
precision: it is below the middle between the greatest one and the next power of two. -/
def isFinite (mantissa : Nat) (exponent : Int) : Bool :=
  let bound := Nat.pow 2 1024 - Nat.pow 2 970
  let digits : Int := (Nat.toDigits 10 mantissa).length
  if mantissa = 0 || digits + exponent ≤ 308 then true
  else if 310 < digits + exponent then false
  else if 0 ≤ exponent then mantissa * Nat.pow 10 exponent.toNat < bound
  else mantissa < bound * Nat.pow 10 (-exponent).toNat

/-- The exponent after its letter, or none. -/
def exponent? : List Char → Option Int
  | [] => some 0
  | _ :: cs => do
    let (minus, digits) := sign cs
    let n ← ofDigits? 10 (← ungroup? 10 digits)
    return if minus = some true then -(n : Int) else n

def float? (cs : List Char) : Option Data := do
  let (_, unsigned) := sign cs
  if unsigned = ['i', 'n', 'f'] || unsigned = ['n', 'a', 'n'] then
    return .scalar cs
  let (decimal, power) := unsigned.span fun c => c ≠ 'e' && c ≠ 'E'
  let exponent ← exponent? power
  let (whole, fraction) := decimal.span (· ≠ '.')
  let whole ← wholeDigits? whole
  let fraction ← match fraction with
    | [] => some []
    | _ :: digits => ungroup? 10 digits
  if power.isEmpty && fraction.isEmpty then none
  let mantissa ← ofDigits? 10 (whole ++ fraction)
  return if isFinite mantissa (exponent - fraction.length) then .scalar cs else .unreadable

/-- Exactly `n` digits and their value, which lies between two bounds. -/
def readField (n low high : Nat) (cs : List Char) : Option (Nat × List Char) := do
  let value ← ofDigits? 10 (cs.take n)
  if (cs.take n).length = n && low ≤ value && value ≤ high then some (value, cs.drop n) else none

def readMark (test : Char → Bool) : List Char → Option (List Char)
  | c :: rest => if test c then some rest else none
  | [] => none

def daysOfMonth (year month : Nat) : Nat :=
  if month = 2 then
    if year % 4 = 0 && (year % 100 ≠ 0 || year % 400 = 0) then 29 else 28
  else if month = 4 || month = 6 || month = 9 || month = 11 then 30
  else 31

/-- A date at the front, `1979-05-27`. -/
def readDate (cs : List Char) : Option (List Char) := do
  let (year, cs) ← readField 4 0 9999 cs
  let (month, cs) ← readField 2 1 12 (← readMark (· = '-') cs)
  let (_, cs) ← readField 2 1 (daysOfMonth year month) (← readMark (· = '-') cs)
  return cs

/-- Seconds and parts of them. Both may be left out. -/
def readSeconds : List Char → Option (List Char)
  | ':' :: cs => do
    let (_, cs) ← readField 2 0 60 cs
    match cs with
    | '.' :: digits =>
      match digits.span (isDigit 10) with
      | ([], _) => none
      | (_, rest) => some rest
    | cs => some cs
  | cs => some cs

/-- A time at the front, `07:32:00.999`. -/
def readTime (cs : List Char) : Option (List Char) := do
  let (_, cs) ← readField 2 0 23 cs
  let (_, cs) ← readField 2 0 59 (← readMark (· = ':') cs)
  readSeconds cs

/-- The offset of a time that ends there, if it has one. -/
def isOffset : List Char → Bool
  | [] | ['Z'] | ['z'] => true
  | c :: cs =>
    (c = '+' || c = '-') && (do
      let (_, cs) ← readField 2 0 23 cs
      let (_, cs) ← readField 2 0 59 (← readMark (· = ':') cs)
      return cs.isEmpty).getD false

def isDate (cs : List Char) : Bool := readDate cs = some []

def isDateTime (cs : List Char) : Bool :=
  readTime cs = some [] ||
    match readDate cs with
    | none => false
    | some [] => true
    | some (c :: rest) =>
      (c = 'T' || c = 't' || c = ' ') && ((readTime rest).map isOffset).getD false

/-- A date or time reads as a table with a single member, whose name no field bears. -/
def dateTime? (cs : List Char) : Option Data :=
  if isDateTime cs then some (.table [(some "datetime", .scalar cs)]) else none

def scalar? (cs : List Char) : Option Data :=
  if cs = ['t', 'r', 'u', 'e'] then some (.bool true)
  else if cs = ['f', 'a', 'l', 's', 'e'] then some (.bool false)
  else integer? cs <|> float? cs <|> dateTime? cs

end PegScan.Toml
