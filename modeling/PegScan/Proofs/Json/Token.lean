import PegScan.Json.Printer
import PegScan.Json.Reader
import PegScan.Proofs.Text.Number
import PegScan.Proofs.Text.Reader

/-! # Printed tokens of JSON

A text is printed character by character, and read so again. A number ends where something
follows that numbers are not made of. -/

namespace PegScan.Json

open Text

/-! ## Texts -/

/-- A control character is written in four digits. -/
theorem ofDigits?_control {c : Char} (h : c < ' ') :
    ofDigits? 16 ['0', '0', hexDigit (c.toNat / 16), hexDigit (c.toNat % 16)] = some c.toNat := by
  have hlt : c.toNat < 32 := h
  exact ofDigits?_byte (digit?_digitChar (by omega) (le_refl 16))
    (digit?_digitChar (by omega) (le_refl 16))

/-- Puts a unit in front of what a reader found. -/
def prepend (unit : Nat) (found : Option (List Nat × List Char)) :
    Option (List Nat × List Char) := do
  let (units, rest) ← found
  return (unit :: units, rest)

theorem readUnits_escape {e c : Char} (h : escape? e = some c) (rest : List Char) :
    readUnits ('\\' :: e :: rest) = prepend c.toNat (readUnits rest) := by
  have hne : e ≠ 'u' := by
    rintro rfl
    simp [escape?] at h
  rw [readUnits.eq_def]
  simp [hne, h, prepend]

theorem readUnits_control {c : Char} (h : c < ' ') (rest : List Char) :
    readUnits ('\\' :: 'u' :: '0' :: '0' :: hexDigit (c.toNat / 16) :: hexDigit (c.toNat % 16) ::
      rest) = prepend c.toNat (readUnits rest) := by
  rw [readUnits]
  simp [ofDigits?_control h, prepend]

theorem readUnits_plain {c : Char} (hquote : c ≠ '\x22') (hescape : c ≠ '\\') (h : ¬ c < ' ')
    (rest : List Char) : readUnits (c :: rest) = prepend c.toNat (readUnits rest) := by
  rw [readUnits.eq_def]
  simp [hquote, hescape, h, prepend]

theorem readUnits_encodeChar (c : Char) (rest : List Char) :
    readUnits (encodeChar c ++ rest) = prepend c.toNat (readUnits rest) := by
  unfold encodeChar
  split_ifs with h1 h2 h3 h4 h5 h6 h7 h8
  case pos => subst h1; exact readUnits_escape rfl rest
  case pos => subst h2; exact readUnits_escape rfl rest
  case pos => subst h3; exact readUnits_escape rfl rest
  case pos => subst h4; exact readUnits_escape rfl rest
  case pos => subst h5; exact readUnits_escape rfl rest
  case pos => subst h6; exact readUnits_escape rfl rest
  case pos => subst h7; exact readUnits_escape rfl rest
  case pos => exact readUnits_control h8 rest
  case neg => exact readUnits_plain h1 h2 h8 rest

theorem readUnits_flatMap_encodeChar (cs rest : List Char) :
    readUnits (cs.flatMap encodeChar ++ '\x22' :: rest) = some (cs.map Char.toNat, rest) := by
  induction cs with
  | nil => simp [readUnits]
  | cons c cs ih =>
      rw [List.flatMap_cons, List.append_assoc, readUnits_encodeChar, ih]
      rfl

/-- No character is half of a surrogate pair. -/
theorem isHighSurrogate_toNat (c : Char) : isHighSurrogate c.toNat = false := by
  have hvalid : c.toNat < 0xD800 ∨ 0xDFFF < c.toNat ∧ c.toNat < 0x110000 := c.valid
  simp only [isHighSurrogate, Bool.and_eq_false_iff, decide_eq_false_iff_not]
  omega

theorem joinUnits_toNat (cs : List Char) : joinUnits (cs.map Char.toNat) = some cs := by
  induction cs with
  | nil => rfl
  | cons c cs ih =>
      rw [List.map_cons, joinUnits.eq_def]
      simp [isHighSurrogate_toNat, charOfNat?_toNat, ih]

theorem readStep_encodeText (cs rest : List Char) :
    Token.readStep (encodeText cs ++ rest) =
      some (some (.text (some (String.ofList cs))), rest) := by
  have hread : Token.read? ('\x22' :: (cs.flatMap encodeChar ++ '\x22' :: rest)) =
      some (.text (some (String.ofList cs)), rest) := by
    simp [Token.read?, readUnits_flatMap_encodeChar, joinUnits_toNat]
  have hblank : isBlank '\x22' = false := by decide
  simp [encodeText, Token.readStep, hblank, hread]

/-! ## Numbers -/

theorem isNumeric_of_mem_toDigits (n : Nat) : ∀ c ∈ Nat.toDigits 10 n, isNumeric c := by
  intro c hc
  simp [isNumeric, isDigit_of_mem_toDigits n c hc]

theorem isUnsigned_toDigits (n : Nat) : isUnsigned (Nat.toDigits 10 n) := by
  have hdigits := isDigit_of_mem_toDigits n
  have hmantissa : ∀ c ∈ Nat.toDigits 10 n, (decide (c ≠ 'e') && decide (c ≠ 'E')) = true := by
    intro c hc
    simp [ne_of_holds (hdigits c hc) (d := 'e') (by decide),
      ne_of_holds (hdigits c hc) (d := 'E') (by decide)]
  have hwhole : ∀ c ∈ Nat.toDigits 10 n, decide (c ≠ '.') = true := by
    intro c hc
    simp [ne_of_holds (hdigits c hc) (d := '.') (by decide)]
  have hne : Nat.toDigits 10 n ≠ [] := Nat.toDigits_ne_nil
  have hzero := toDigits_eq_zero_or_head? n
  simp only [isUnsigned, List.takeWhile_eq_self_iff.mpr hmantissa,
    List.takeWhile_eq_self_iff.mpr hwhole, List.dropWhile_eq_nil_iff.mpr hmantissa,
    List.dropWhile_eq_nil_iff.mpr hwhole]
  simpa [areDigits, hne, hzero] using hdigits

theorem isNumber_toDigits (n : Nat) : isNumber (Nat.toDigits 10 n) := by
  unfold isNumber
  split
  · rename_i cs hcs
    have hminus : isDigit 10 '-' := isDigit_of_mem_toDigits n '-' (by simp [hcs])
    exact absurd hminus (by decide)
  · exact isUnsigned_toDigits n

theorem ofNumber_toDigits (n : Nat) : ofNumber (Nat.toDigits 10 n) = .natural n := by
  rw [ofNumber, ofDigits?_toDigits]

/-- What follows a number does not belong to it. -/
def EndsNumber (rest : List Char) : Prop := ∀ c ∈ rest.head?, isNumeric c = false

theorem endsNumber_cons {c : Char} (h : isNumeric c = false) (rest : List Char) :
    EndsNumber (c :: rest) := by
  simpa [EndsNumber] using h

theorem readStep_number {lexeme rest : List Char} (hnumber : isNumber lexeme)
    (hnumeric : ∀ c ∈ lexeme, isNumeric c) (hrest : EndsNumber rest) :
    Token.readStep (lexeme ++ rest) = some (some (.number lexeme), rest) := by
  cases lexeme with
  | nil => simp [isNumber_nil] at hnumber
  | cons c cs =>
      have htake := List.takeWhile_append_of_forall hnumeric hrest
      have hdrop := List.dropWhile_append_of_forall hnumeric hrest
      have hc : isNumeric c := hnumeric c (by simp)
      have hne : ∀ d, isNumeric d = false → c ≠ d := fun d hd => ne_of_holds hc hd
      have hblank : isBlank c = false := by
        simp [isBlank, hne ' ' (by decide), hne '\n' (by decide), hne '\t' (by decide),
          hne '\r' (by decide)]
      have hread : Token.read? (c :: (cs ++ rest)) = some (.number (c :: cs), rest) := by
        rw [List.cons_append] at htake hdrop
        unfold Token.read?
        split
        case h_11 => rw [htake, hdrop, if_pos hnumber]
        all_goals
          rename_i heq
          exact absurd (List.cons.inj heq).1 (hne _ (by decide))
      rw [List.cons_append, Token.readStep, hblank, hread]
      rfl

end PegScan.Json
