import PegScan.Config.Text
import PegScan.Proofs.Text.Number
import PegScan.Proofs.Text.Reader

/-! # Printed tokens of TOML

A text of one character stands between quotes of the kind that suits the character. Whatever
kind it is, the character is found between them. -/

namespace PegScan.Toml

open Text

/-! ## Characters between quotes -/

/-- An escaped control character. -/
theorem hexChar?_control {c : Char} (h : c.toNat < 256) :
    hexChar? ['0', '0', hexDigit (c.toNat / 16), hexDigit (c.toNat % 16)] = some c := by
  have hhigh : digit? 16 (hexDigit (c.toNat / 16)) = some (c.toNat / 16) :=
    digit?_toUpper_digitChar (by omega)
  have hlow : digit? 16 (hexDigit (c.toNat % 16)) = some (c.toNat % 16) :=
    digit?_toUpper_digitChar (by omega)
  rw [hexChar?, ofDigits?_byte hhigh hlow]
  exact charOfNat?_toNat c

theorem readBasic_escape {e c : Char} (h : escape? e = some c) (rest : List Char) :
    readBasic ('\\' :: e :: rest) = prepend c (readBasic rest) := by
  have hne : e ≠ 'x' ∧ e ≠ 'u' ∧ e ≠ 'U' := by
    refine ⟨?_, ?_, ?_⟩ <;> rintro rfl <;> simp [escape?] at h
  rw [readBasic.eq_def]
  simp [hne, h]

theorem readBasic_plain {c : Char} (hquote : c ≠ '\x22') (hescape : c ≠ '\\') (h : isPlain c)
    (rest : List Char) : readBasic (c :: rest) = prepend c (readBasic rest) := by
  rw [readBasic.eq_def]
  simp [hquote, hescape, h]

theorem readBasic_encodeChar {c : Char} (hquote : c ≠ '\x22') (hescape : c ≠ '\\')
    (rest : List Char) : readBasic (encodeChar c ++ rest) = prepend c (readBasic rest) := by
  unfold encodeChar
  split_ifs with h1 h2 h3 h4 h5
  case pos => subst h1; exact readBasic_escape rfl rest
  case pos => subst h2; exact readBasic_escape rfl rest
  case pos => subst h3; exact readBasic_escape rfl rest
  case pos => subst h4; exact readBasic_escape rfl rest
  case pos =>
    have hlt : c.toNat < 256 := by
      rcases (Bool.or_eq_true _ _).mp h5 with h | h
      · have hcontrol : c.toNat < 32 := of_decide_eq_true h
        omega
      · simp [of_decide_eq_true h]
    simp only [List.cons_append, List.nil_append]
    rw [readBasic, hexChar?_control hlt]
    rfl
  case neg =>
    have hplain : ' ' ≤ c ∧ c ≠ '\x7f' := by simpa using h5
    exact readBasic_plain hquote hescape (by simp [isPlain, hplain]) rest

theorem encodeChar_ne_nil (c : Char) : encodeChar c ≠ [] := by
  unfold encodeChar
  split_ifs <;> simp

theorem head?_encodeChar {c : Char} (h : c ≠ '\x22') : (encodeChar c).head? ≠ some '\x22' := by
  unfold encodeChar
  split_ifs <;> simp [h]

theorem readBasic_quote (rest : List Char) : readBasic ('\x22' :: rest) = some ([], rest) := by
  simp [readBasic]

theorem readBasic_of_plain {cs : List Char}
    (hcs : ∀ c ∈ cs, c ≠ '\x22' ∧ c ≠ '\\' ∧ isPlain c) (rest : List Char) :
    readBasic (cs ++ '\x22' :: rest) = some (cs, rest) := by
  induction cs with
  | nil => exact readBasic_quote rest
  | cons c cs ih =>
      obtain ⟨⟨hquote, hescape, hplain⟩, hcs⟩ := List.forall_mem_cons.mp hcs
      rw [List.cons_append, readBasic_plain hquote hescape hplain, ih hcs]
      rfl

/-! ## Tokens -/

/-- What stands between double quotes. Two quotes in a row would be something else. -/
theorem readStep_basic {inner chars rest : List Char} (hne : inner ≠ [])
    (hhead : inner.head? ≠ some '\x22')
    (hread : readBasic (inner ++ '\x22' :: rest) = some (chars, rest)) :
    Token.readStep ('\x22' :: (inner ++ '\x22' :: rest)) =
      some (some (.text chars false), rest) := by
  cases inner with
  | nil => exact absurd rfl hne
  | cons c cs =>
      have hc : c ≠ '\x22' := by simpa using hhead
      rw [List.cons_append] at hread ⊢
      simp [Token.readStep, Token.read?, hc, Token.ofQuoted, hread]

theorem readClosing_of_head? {quote : Char} {rest : List Char} (h : rest.head? ≠ some quote) :
    readClosing quote (quote :: quote :: quote :: rest) = some ([], rest) := by
  have htake : rest.takeWhile (· = quote) = [] := by
    cases rest with
    | nil => rfl
    | cons c rest => simpa using h
  simp [readClosing, htake]

/-- Of two line breaks between triple quotes the second one counts. -/
theorem readMultiBasic_newline {rest : List Char} (h : rest.head? ≠ some '\x22') :
    readMultiBasic none ('\n' :: '\x22' :: '\x22' :: '\x22' :: rest) = some (['\n'], rest) := by
  have hopen : readClosing '\x22' ('\n' :: '\x22' :: '\x22' :: '\x22' :: rest) = none := by
    simp [readClosing]
  have hclose := readClosing_of_head? h
  rw [readMultiBasic.eq_def]
  simp only [hopen]
  rw [readMultiBasic.eq_def]
  simp only [hclose]
  simp [isBreak, prepend]

/-- A text of one character is read as this text. -/
theorem readStep_printChar (c : Char) {rest : List Char} (hrest : rest.head? ≠ some '\x22') :
    ∃ multiline, Token.readStep (printChar c ++ rest) =
      some (some (.text [c] multiline), rest) := by
  unfold printChar
  split_ifs with h1 h2
  case pos =>
    refine ⟨false, ?_⟩
    obtain rfl | rfl : c = '\x22' ∨ c = '\\' := by simpa using h1
    · simp [Token.readStep, Token.read?, Token.ofQuoted, readLiteral, prepend, isPlain]
    · simp [Token.readStep, Token.read?, Token.ofQuoted, readLiteral, prepend, isPlain]
  case pos =>
    refine ⟨true, ?_⟩
    subst h2
    simp [Token.readStep, Token.read?, Token.ofQuoted, dropLineBreak, readMultiBasic_newline hrest]
  case neg =>
    obtain ⟨hquote, hescape⟩ : c ≠ '\x22' ∧ c ≠ '\\' := by simpa using h1
    have hread := readBasic_encodeChar hquote hescape ('\x22' :: rest)
    rw [readBasic_quote] at hread
    exact ⟨false, by
      simpa using readStep_basic (encodeChar_ne_nil c) (head?_encodeChar hquote) hread⟩

theorem isBlank_of_isBare {c : Char} (h : isBare c) : isBlank c = false := by
  simp [isBlank, ne_of_holds h (d := ' ') (by decide), ne_of_holds h (d := '\t') (by decide)]

/-- Characters of keys and scalars are none that tokens or blanks begin with. -/
theorem readStep_bare {cs rest : List Char} (hne : cs ≠ []) (hcs : ∀ c ∈ cs, isBare c)
    (hrest : ∀ c ∈ rest.head?, isBare c = false) :
    Token.readStep (cs ++ rest) = some (some (.bare cs), rest) := by
  obtain ⟨c, front, rfl⟩ := List.exists_cons_of_ne_nil hne
  have htake := List.takeWhile_append_of_forall hcs hrest
  have hdrop := List.dropWhile_append_of_forall hcs hrest
  have hc : isBare c := hcs c (by simp)
  have hread : Token.read? (c :: (front ++ rest)) = some (.bare (c :: front), rest) := by
    rw [List.cons_append] at htake hdrop
    unfold Token.read?
    split
    case h_14 => simp [isBlank_of_isBare hc, htake, hdrop]
    all_goals
      rename_i heq
      exact absurd (List.cons.inj heq).1 (ne_of_holds hc (by decide))
  rw [List.cons_append]
  unfold Token.readStep
  split
  · rename_i heq
    exact absurd (List.cons.inj heq).1 (ne_of_holds hc (by decide))
  · rw [hread]
    rfl

theorem readStep_blank {rest : List Char} (h : ∀ c ∈ rest.head?, isBlank c = false) :
    Token.readStep (' ' :: rest) = some (some (.blank [' ']), rest) := by
  have hblank : ∀ c ∈ [' '], isBlank c := List.all_eq_true.mp rfl
  have htake : (' ' :: rest).takeWhile isBlank = [' '] := List.takeWhile_append_of_forall hblank h
  have hdrop : (' ' :: rest).dropWhile isBlank = rest := List.dropWhile_append_of_forall hblank h
  simp [Token.readStep, Token.read?, htake, hdrop]

end PegScan.Toml
