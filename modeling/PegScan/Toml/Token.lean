import PegScan.Text.Number
import PegScan.Text.Reader

/-!
# TOML tokens
A line ends with a line feed, which may have one carriage return in front. Comments leave no
token.
-/

namespace PegScan.Toml

open Text

inductive Token
  | blank (chars : List Char)
  | newline
  | equals
  | dot
  | comma
  | openBracket
  | closeBracket
  | openBrace
  | closeBrace
  | bare (chars : List Char)
  | text (chars : List Char) (multiline : Bool)
  deriving DecidableEq, Repr

def isBlank (c : Char) : Bool := c = ' ' || c = '\t'

/-- Characters of keys without quotes. -/
def isKeyChar (c : Char) : Bool := c.isAlphanum || c = '_' || c = '-'

/-- Characters of scalars without quotes, the point apart. -/
def isBare (c : Char) : Bool := isKeyChar c || c = '+' || c = ':'

/-- Characters that may stand in a comment or in a text as they are. -/
def isPlain (c : Char) : Bool := (' ' ≤ c && c ≠ '\x7f') || c = '\t'

/-- A line break begins with this character, given what follows it. -/
def isBreak (c : Char) (rest : List Char) : Bool :=
  c = '\n' || (c = '\r' && rest.head? = some '\n')

def escape? : Char → Option Char
  | 'b' => some '\x08'
  | 't' => some '\t'
  | 'n' => some '\n'
  | 'f' => some '\x0c'
  | 'r' => some '\r'
  | 'e' => some '\x1b'
  | '\x22' => some '\x22'
  | '\\' => some '\\'
  | _ => none

def hexChar? (digits : List Char) : Option Char := do
  charOfNat? (← ofDigits? 16 digits)

/-- Puts a character in front of what a reader found. -/
def prepend (c : Char) (found : Option (List Char × List Char)) : Option (List Char × List Char) :=
  found.map fun (cs, rest) => (c :: cs, rest)

/-- The rest of a text between double quotes, on one line. -/
def readBasic : Reader (List Char)
  | [] => none
  | '\\' :: 'x' :: a :: b :: rest => do prepend (← hexChar? [a, b]) (readBasic rest)
  | '\\' :: 'u' :: a :: b :: c :: d :: rest => do
    prepend (← hexChar? [a, b, c, d]) (readBasic rest)
  | '\\' :: 'U' :: a :: b :: c :: d :: e :: f :: g :: h :: rest => do
    prepend (← hexChar? [a, b, c, d, e, f, g, h]) (readBasic rest)
  | '\\' :: c :: rest => do prepend (← escape? c) (readBasic rest)
  | c :: rest =>
    if c = '\x22' then some ([], rest)
    else if c ≠ '\\' && isPlain c then prepend c (readBasic rest)
    else none

theorem readBasic_shortens : Reader.Shortens readBasic := by
  intro cs
  fun_induction readBasic cs <;> intro chars left h <;>
    simp_all [Option.bind_eq_some_iff, prepend] <;> grind

/-- The rest of a text between single quotes, on one line. -/
def readLiteral : Reader (List Char)
  | [] => none
  | c :: rest =>
    if c = '\x27' then some ([], rest)
    else if isPlain c then prepend c (readLiteral rest)
    else none

theorem readLiteral_shortens : Reader.Shortens readLiteral := by
  intro cs
  fun_induction readLiteral cs <;> intro chars left h <;> simp_all [prepend]
  grind

/-- Three quotes that end a text of many lines, with up to two more that belong to it. -/
def readClosing (quote : Char) : Reader (List Char) := fun cs =>
  match (cs.takeWhile (· = quote)).length with
  | 0 | 1 | 2 => none
  | n => some (List.replicate (min (n - 3) 2) quote, cs.drop (min n 5))

theorem readClosing_shortens (quote : Char) : Reader.Shortens (readClosing quote) := by
  intro cs chars left h
  unfold readClosing at h
  have := (List.takeWhile_sublist (p := (· = quote)) (l := cs)).length_le
  split at h <;> grind

/-- The rest of a text between triple double quotes. A backslash at the end of a line takes
the blanks and line breaks after it away: `skip` tells that one has been read, and whether a
line break has followed it. -/
def readMultiBasic (skip : Option Bool) : Reader (List Char)
  | [] => none
  | c :: rest =>
    if skip.isSome && isBlank c then readMultiBasic skip rest
    else if skip.isSome && isBreak c rest then readMultiBasic (some true) rest
    else if skip = some false then none
    else if c = '\\' then
      match rest with
      | 'x' :: a :: b :: rest => do prepend (← hexChar? [a, b]) (readMultiBasic none rest)
      | 'u' :: a :: b :: c :: d :: rest => do
        prepend (← hexChar? [a, b, c, d]) (readMultiBasic none rest)
      | 'U' :: a :: b :: c :: d :: e :: f :: g :: h :: rest => do
        prepend (← hexChar? [a, b, c, d, e, f, g, h]) (readMultiBasic none rest)
      | c :: rest =>
        if isBlank c then readMultiBasic (some false) rest
        else if isBreak c rest then readMultiBasic (some true) rest
        else do prepend (← escape? c) (readMultiBasic none rest)
      | [] => none
    else
      match readClosing '\x22' (c :: rest) with
      | some closing => some closing
      | none =>
        if isPlain c || isBreak c rest then prepend c (readMultiBasic none rest) else none

theorem readMultiBasic_shortens (skip : Option Bool) : Reader.Shortens (readMultiBasic skip) := by
  intro cs
  fun_induction readMultiBasic skip cs <;> intro chars left h <;>
    simp_all [Option.bind_eq_some_iff, prepend] <;> grind [readClosing_shortens, Reader.Shortens]

/-- The rest of a text between triple single quotes. -/
def readMultiLiteral : Reader (List Char)
  | [] => none
  | c :: rest =>
    match readClosing '\x27' (c :: rest) with
    | some closing => some closing
    | none => if isPlain c || isBreak c rest then prepend c (readMultiLiteral rest) else none

theorem readMultiLiteral_shortens : Reader.Shortens readMultiLiteral := by
  intro cs
  fun_induction readMultiLiteral cs <;> intro chars left h <;>
    simp_all [prepend] <;> grind [readClosing_shortens, Reader.Shortens]

/-- A line break right after triple quotes does not belong to the text. -/
def dropLineBreak : List Char → List Char
  | '\n' :: rest => rest
  | '\r' :: '\n' :: rest => rest
  | cs => cs

theorem length_dropLineBreak_le (cs : List Char) : (dropLineBreak cs).length ≤ cs.length := by
  unfold dropLineBreak
  split <;> grind

namespace Token

/-- The token that a text between quotes is. -/
def ofQuoted (multiline : Bool) (read : Reader (List Char)) : Reader Token := fun cs =>
  (read cs).map fun (chars, rest) => (text chars multiline, rest)

theorem ofQuoted_shortens (multiline : Bool) {read : Reader (List Char)} (h : read.Shortens) :
    (ofQuoted multiline read).Shortens := by
  intro cs token rest hq
  obtain ⟨⟨chars, left⟩, hr, he⟩ := Option.map_eq_some_iff.mp hq
  have := h _ _ _ hr
  grind

/-- The token at the front of a text that does not begin with a comment. -/
def read? : Reader Token
  | '\n' :: rest => some (newline, rest)
  | '\r' :: '\n' :: rest => some (newline, rest)
  | '=' :: rest => some (equals, rest)
  | '.' :: rest => some (dot, rest)
  | ',' :: rest => some (comma, rest)
  | '[' :: rest => some (openBracket, rest)
  | ']' :: rest => some (closeBracket, rest)
  | '{' :: rest => some (openBrace, rest)
  | '}' :: rest => some (closeBrace, rest)
  | '\x22' :: '\x22' :: '\x22' :: rest =>
    ofQuoted true (readMultiBasic none) (dropLineBreak rest)
  | '\x22' :: rest => ofQuoted false readBasic rest
  | '\x27' :: '\x27' :: '\x27' :: rest => ofQuoted true readMultiLiteral (dropLineBreak rest)
  | '\x27' :: rest => ofQuoted false readLiteral rest
  | cs =>
    if cs.takeWhile isBlank ≠ [] then some (blank (cs.takeWhile isBlank), cs.dropWhile isBlank)
    else if cs.takeWhile isBare ≠ [] then some (bare (cs.takeWhile isBare), cs.dropWhile isBare)
    else none

theorem read?_shortens : Reader.Shortens read? := by
  intro cs token left h
  unfold read? at h
  split at h
  case h_10 rest =>
    have := ofQuoted_shortens _ (readMultiBasic_shortens none) _ _ _ h
    have := length_dropLineBreak_le rest
    grind
  case h_11 =>
    have := ofQuoted_shortens _ readBasic_shortens _ _ _ h
    grind
  case h_12 rest =>
    have := ofQuoted_shortens _ readMultiLiteral_shortens _ _ _ h
    have := length_dropLineBreak_le rest
    grind
  case h_13 =>
    have := ofQuoted_shortens _ readLiteral_shortens _ _ _ h
    grind
  case h_14 =>
    split at h
    · next hne => have := length_dropWhile_lt hne; grind
    · split at h
      · next hne => have := length_dropWhile_lt hne; grind
      · simp at h
  all_goals grind

/-- A comment up to the end of its line, which is no token, or a token. -/
def readStep : Reader (Option Token)
  | '#' :: rest =>
    match rest.dropWhile isPlain with
    | [] => some (none, [])
    | '\n' :: rest => some (none, '\n' :: rest)
    | '\r' :: '\n' :: rest => some (none, '\n' :: rest)
    | _ => none
  | cs => (read? cs).map fun (token, rest) => (some token, rest)

theorem readStep_shortens : Reader.Shortens readStep := by
  intro cs step left h
  unfold readStep at h
  split at h
  · next rest =>
    have := (List.dropWhile_sublist isPlain (l := rest)).length_le
    split at h <;> grind
  · obtain ⟨⟨token, rest⟩, ht, h⟩ := Option.map_eq_some_iff.mp h
    have := read?_shortens _ _ _ ht
    grind

/-- All tokens of a text. -/
def readAll? (cs : List Char) : Option (List Token) :=
  (Reader.all? readStep readStep_shortens cs).map (·.filterMap id)

end Token
end PegScan.Toml
