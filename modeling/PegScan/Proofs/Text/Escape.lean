import PegScan.Proofs.Text.Number
import PegScan.Text.Escape

/-! # Escaped text

A character is shown as itself, or as a backslash, a second character and no further backslash.
So an escaped text can be read again, and it matters where it is cut off. -/

namespace PegScan.Text

/-! ## Escapes of a character -/

/-- Characters with an escape of their own, and what stands behind the backslash. -/
def marks : List (Char × Char) :=
  [('\x00', '0'), ('\t', 't'), ('\r', 'r'), ('\n', 'n'), ('\\', '\\'), ('\x22', '\x22'),
    ('\x27', '\x27')]

/-- How a character can be shown. -/
inductive ShownAs (c : Char) : List Char → Prop
  | itself (hc : c ≠ '\\') (hprintable : ¬ isUnprintable c) : ShownAs c [c]
  | mark {e : Char} (he : (c, e) ∈ marks) : ShownAs c ['\\', e]
  | number : ShownAs c (escapeNumber c)

theorem shownAs_escapeChar (alone : Bool) (c : Char) : ShownAs c (escapeChar alone c) := by
  unfold escapeChar
  split_ifs with hnull htab hreturn hfeed hquote hhidden
  · exact .mark (by simp [marks, hnull])
  · exact .mark (by simp [marks, htab])
  · exact .mark (by simp [marks, hreturn])
  · exact .mark (by simp [marks, hfeed])
  · refine .mark ?_
    simp only [Bool.or_eq_true, decide_eq_true_eq] at hquote
    rcases hquote with (rfl | rfl) | rfl <;> decide
  · exact .number
  · simp only [Bool.or_eq_true, decide_eq_true_eq, not_or] at hquote hhidden
    exact .itself hquote.1.1 hhidden.1.1

/-! ### Reading them again -/

/-- The character that stands escaped at the front of a text, and what follows it. -/
def readChar? : List Char → Option (Char × List Char)
  | '\\' :: 'u' :: '\x7b' :: cs =>
      let c? := (ofDigits? 16 (cs.takeWhile (· ≠ '\x7d'))).bind charOfNat?
      c?.map (·, (cs.dropWhile (· ≠ '\x7d')).tail)
  | '\\' :: e :: cs => (marks.find? (·.2 = e)).map fun mark => (mark.1, cs)
  | c :: cs => some (c, cs)
  | [] => none

variable {c : Char} {shown cs : List Char} {alone : Bool}

theorem ShownAs.ne_nil (h : ShownAs c shown) : shown ≠ [] := by
  cases h <;> simp [escapeNumber]

theorem isDigit_of_mem_hex {n : ℕ} {x : Char} (h : x ∈ Nat.toDigits 16 n) : isDigit 16 x :=
  isDigit_of_ofDigits? (ofDigits?_toDigits_base (by decide) (by decide) n) x h

theorem ShownAs.readChar?_append (h : ShownAs c shown) :
    readChar? (shown ++ cs) = some (c, cs) := by
  cases h with
  | itself hc => simp [readChar?, hc]
  | mark he =>
      simp only [marks, List.mem_cons, Prod.mk.injEq, List.not_mem_nil, or_false] at he
      rcases he with ⟨rfl, rfl⟩ | ⟨rfl, rfl⟩ | ⟨rfl, rfl⟩ | ⟨rfl, rfl⟩ | ⟨rfl, rfl⟩ | ⟨rfl, rfl⟩ |
        ⟨rfl, rfl⟩ <;> rfl
  | number =>
      have hdigits : ∀ x ∈ Nat.toDigits 16 c.toNat, decide (x ≠ '\x7d') = true := by
        intro x hx
        rw [decide_eq_true_eq]
        rintro rfl
        exact absurd (isDigit_of_mem_hex hx) (by decide)
      have hnumber : ofDigits? 16 (Nat.toDigits 16 c.toNat) = some c.toNat :=
        ofDigits?_toDigits_base (by decide) (by decide) _
      have hfront : escapeNumber c ++ cs =
          '\\' :: 'u' :: '\x7b' :: (Nat.toDigits 16 c.toNat ++ '\x7d' :: cs) := by
        simp [escapeNumber]
      rw [hfront, readChar?, List.takeWhile_append_of_pos hdigits,
        List.dropWhile_append_of_pos hdigits, List.takeWhile_cons_of_neg (by decide),
        List.dropWhile_cons_of_neg (by decide), List.append_nil, hnumber, Option.bind_some,
        charOfNat?_toNat]
      rfl

/-! ### What they consist of -/

/-- A control character, or a separator of lines or paragraphs. -/
def IsControl (c : Char) : Prop :=
  c.toNat < 0x20 ∨ 0x7F ≤ c.toNat ∧ c.toNat < 0xA0 ∨ c.toNat = 0x2028 ∨ c.toNat = 0x2029

theorem isUnprintable_of_isControl (h : IsControl c) : isUnprintable c := by
  have hranges : (0x0, 0x1F) ∈ unprintableRanges ∧ (0x7F, 0xA0) ∈ unprintableRanges ∧
      (0x2028, 0x202F) ∈ unprintableRanges := by decide +kernel
  obtain ⟨hlow, hhigh, hseparators⟩ := hranges
  rw [isUnprintable, inRanges, Array.any_eq_true']
  rcases h with h | ⟨h, h'⟩ | h | h
  · exact ⟨_, hlow, by simp; omega⟩
  · exact ⟨_, hhigh, by simp; omega⟩
  · exact ⟨_, hseparators, by simp [h]⟩
  · exact ⟨_, hseparators, by simp [h]⟩

theorem toNat_of_isDigit {base : ℕ} (h : isDigit base c) : 0x30 ≤ c.toNat ∧ c.toNat < 0x7F := by
  simp only [isDigit, digit?, Bool.and_eq_true, decide_eq_true_eq, Char.le_def,
    UInt32.le_iff_toNat_le] at h
  split_ifs at h with hdigit hlower hupper
  · exact ⟨hdigit.1, Nat.lt_of_le_of_lt hdigit.2 (by decide)⟩
  · exact ⟨Nat.le_trans (by decide) hlower.1, Nat.lt_of_le_of_lt hlower.2 (by decide)⟩
  · exact ⟨Nat.le_trans (by decide) hupper.1, Nat.lt_of_le_of_lt hupper.2 (by decide)⟩
  · simp at h

theorem ShownAs.not_isControl (h : ShownAs c shown) : ∀ x ∈ shown, ¬ IsControl x := by
  cases h with
  | itself hc hprintable =>
      rw [List.forall_mem_singleton]
      exact mt isUnprintable_of_isControl hprintable
  | mark he =>
      have hall : ∀ mark ∈ marks, ∀ x ∈ ['\\', mark.2], ¬ IsControl x := by
        simp [marks, IsControl]
      exact hall _ he
  | number =>
      have hmarks : ∀ x ∈ ['\\', 'u', '\x7b', '\x7d'], ¬ IsControl x := by
        simp [IsControl]
      intro x hx
      by_cases hdigit : x ∈ Nat.toDigits 16 c.toNat
      · have htoNat := toNat_of_isDigit (isDigit_of_mem_hex hdigit)
        unfold IsControl
        omega
      · refine hmarks x ?_
        simpa [escapeNumber, hdigit] using hx

/-- A printable character of ASCII that is neither a quote nor a backslash. -/
def IsPlain (c : Char) : Prop :=
  0x20 ≤ c.toNat ∧ c.toNat < 0x7F ∧ c ∉ ['\\', '\x22', '\x27']

instance (c : Char) : Decidable (IsPlain c) := inferInstanceAs (Decidable (_ ∧ _ ∧ _))

theorem inRanges_eq_false {ranges : Array (ℕ × ℕ)} (hc : IsPlain c)
    (h : ∀ r ∈ ranges.toList, r.2 < 0x20 ∨ 0x7F ≤ r.1) : inRanges ranges c = false := by
  obtain ⟨hlow, hhigh, -⟩ := hc
  rw [inRanges, Array.any_eq_false']
  intro r hr
  have hout := h r (Array.mem_toList_iff.mpr hr)
  simp only [Bool.and_eq_true, decide_eq_true_eq]
  omega

theorem escapeChar_of_isPlain (alone : Bool) (h : IsPlain c) : escapeChar alone c = [c] := by
  have hunprintable : isUnprintable c = false := inRanges_eq_false h (by decide +kernel)
  have hignorable : isIgnorable c = false := inRanges_eq_false h (by decide +kernel)
  have hcombining : isCombining c = false := inRanges_eq_false h (by decide +kernel)
  obtain ⟨hlow, hhigh, hmarks⟩ := h
  have hcontrol (x : Char) (hx : x.toNat < 0x20) : c ≠ x := by
    rintro rfl
    omega
  simp only [List.mem_cons, List.not_mem_nil, or_false, not_or] at hmarks
  simp [escapeChar, hcontrol, hmarks, hunprintable, hignorable, hcombining]

/-- Only the first of the characters is a backslash. -/
theorem ShownAs.cases_backslash (h : ShownAs c shown) :
    (∃ x, x ≠ '\\' ∧ shown = [x]) ∨ ∃ e tail, shown = '\\' :: e :: tail ∧ '\\' ∉ tail := by
  cases h with
  | itself hc => exact .inl ⟨c, hc, rfl⟩
  | @mark e => exact .inr ⟨e, [], rfl, List.not_mem_nil⟩
  | number =>
      refine .inr ⟨'u', '\x7b' :: (Nat.toDigits 16 c.toNat ++ ['\x7d']), by simp [escapeNumber], ?_⟩
      have hdigits : '\\' ∉ Nat.toDigits 16 c.toNat := fun h =>
        absurd (isDigit_of_mem_hex h) (by decide)
      simp [hdigits]

/-! ## Escapes of a text -/

/-- A text as it is shown, from its beginning or behind another character. -/
def escapeFrom (alone : Bool) : List Char → List Char
  | [] => []
  | c :: cs => escapeChar alone c ++ escapeFrom false cs

theorem escapeFrom_false (cs : List Char) :
    escapeFrom false cs = cs.flatMap (escapeChar false) := by
  induction cs with
  | nil => rfl
  | cons c cs ih => rw [escapeFrom, ih, List.flatMap_cons]

theorem escape_eq (cs : List Char) : escape cs = escapeFrom true cs := by
  cases cs with
  | nil => rfl
  | cons c cs => rw [escape, escapeFrom, escapeFrom_false]

theorem escapeFrom_append (alone : Bool) (xs ys : List Char) :
    escapeFrom alone (xs ++ ys) = escapeFrom alone xs ++ escapeFrom (alone && xs.isEmpty) ys := by
  induction xs generalizing alone with
  | nil => simp [escapeFrom]
  | cons x xs ih => simp [escapeFrom, ih]

theorem escapeFrom_mono (alone : Bool) {xs ys : List Char} (h : xs <+: ys) :
    escapeFrom alone xs <+: escapeFrom alone ys := by
  obtain ⟨rest, rfl⟩ := h
  rw [escapeFrom_append]
  exact List.prefix_append _ _

theorem length_le_escapeFrom (alone : Bool) (cs : List Char) :
    cs.length ≤ (escapeFrom alone cs).length := by
  induction cs generalizing alone with
  | nil => exact Nat.zero_le _
  | cons c cs ih =>
      have hpos := List.length_pos_iff.mpr (shownAs_escapeChar alone c).ne_nil
      have hle := ih false
      rw [escapeFrom, List.length_append, List.length_cons]
      omega

theorem not_isControl_of_mem_escapeFrom {x : Char} (h : x ∈ escapeFrom alone cs) :
    ¬ IsControl x := by
  induction cs generalizing alone with
  | nil => cases h
  | cons c cs ih =>
      rcases List.mem_append.mp h with h | h
      · exact (shownAs_escapeChar alone c).not_isControl x h
      · exact ih h

theorem readChar?_escapeFrom (alone : Bool) (c : Char) (cs : List Char) :
    readChar? (escapeFrom alone (c :: cs)) = some (c, escapeFrom false cs) :=
  (shownAs_escapeChar alone c).readChar?_append

theorem escapeFrom_of_isPlain (alone : Bool) (h : ∀ c ∈ cs, IsPlain c) :
    escapeFrom alone cs = cs := by
  induction cs generalizing alone with
  | nil => rfl
  | cons c cs ih =>
      obtain ⟨hc, hcs⟩ := List.forall_mem_cons.mp h
      rw [escapeFrom, escapeChar_of_isPlain alone hc, ih false hcs]
      rfl

/-- A text can be read again, one character after the other. -/
theorem escapeFrom_injective (alone : Bool) : Function.Injective (escapeFrom alone) := by
  intro cs ds h
  induction cs generalizing alone ds with
  | nil =>
      cases ds with
      | nil => rfl
      | cons d ds => cases (congrArg readChar? h).trans (readChar?_escapeFrom alone d ds)
  | cons c cs ih =>
      have hc := readChar?_escapeFrom alone c cs
      cases ds with
      | nil => cases hc.symm.trans (congrArg readChar? h)
      | cons d ds =>
          rw [h, readChar?_escapeFrom] at hc
          obtain ⟨rfl, hrest⟩ := Prod.mk.inj (Option.some.inj hc)
          rw [ih false hrest.symm]

theorem escape_injective : Function.Injective escape := by
  intro cs ds h
  rw [escape_eq, escape_eq] at h
  exact escapeFrom_injective true h

theorem escape_mono {xs ys : List Char} (h : xs <+: ys) : escape xs <+: escape ys := by
  rw [escape_eq, escape_eq]
  exact escapeFrom_mono true h

/-! ## Cutting an escaped text off -/

/-- Some characters of a text are left, and the beginning of the escape of the next one. -/
structure CutOff (alone : Bool) (cs whole part : List Char) : Prop where
  isPrefix : whole <+: cs
  next : part ≠ [] → ∃ c, whole ++ [c] <+: cs ∧
    part <+: escapeChar (alone && whole.isEmpty) c ∧
    part.length < (escapeChar (alone && whole.isEmpty) c).length

theorem exists_cutOff (alone : Bool) (cs : List Char) (n : ℕ) :
    ∃ whole part, CutOff alone cs whole part ∧
      (escapeFrom alone cs).take n = escapeFrom alone whole ++ part := by
  induction cs generalizing alone n with
  | nil => exact ⟨[], [], ⟨List.prefix_append [] _, fun h => (h rfl).elim⟩, List.take_nil⟩
  | cons c cs ih =>
      by_cases hn : n < (escapeChar alone c).length
      · refine ⟨[], (escapeChar alone c).take n, ?_,
          List.take_append_of_le_length (Nat.le_of_lt hn)⟩
        refine ⟨List.prefix_append [] _, fun _ => ⟨c, List.prefix_append [c] cs, ?_, ?_⟩⟩
        · simpa using List.take_prefix n _
        · rw [List.isEmpty_nil, Bool.and_true, List.length_take]
          exact Nat.lt_of_le_of_lt (Nat.min_le_left _ _) hn
      · obtain ⟨whole, part, hcut, htake⟩ := ih false (n - (escapeChar alone c).length)
        refine ⟨c :: whole, part, ⟨?_, fun hpart => ?_⟩, ?_⟩
        · exact List.cons_prefix_cons.mpr ⟨rfl, hcut.isPrefix⟩
        · obtain ⟨next, hprefix, hnext⟩ := hcut.next hpart
          refine ⟨next, List.cons_prefix_cons.mpr ⟨rfl, hprefix⟩, ?_⟩
          simpa using hnext
        · rw [escapeFrom, List.take_append, List.take_of_length_le (Nat.le_of_not_lt hn), htake,
            escapeFrom, List.append_assoc]

/-- Whether a text ends in a backslash that is not itself behind such a one. What comes next would
be escaped. -/
def escapesNext (cs : List Char) : Bool :=
  cs.foldl (fun escaping c => !escaping && c = '\\') false

theorem escapesNext_append {xs : List Char} (hxs : escapesNext xs = false) (ys : List Char) :
    escapesNext (xs ++ ys) = escapesNext ys := by
  rw [escapesNext, List.foldl_append]
  exact congrArg (ys.foldl _) hxs

theorem escapesNext_of_not_mem (h : '\\' ∉ cs) : escapesNext cs = false := by
  induction cs with
  | nil => rfl
  | cons c cs ih =>
      obtain ⟨hc, hcs⟩ := not_or.mp (mt List.mem_cons.mpr h)
      have hfirst : escapesNext [c] = false := by simp [escapesNext, Ne.symm hc]
      exact (escapesNext_append hfirst cs).trans (ih hcs)

theorem escapesNext_escape {e : Char} {tail : List Char} (h : '\\' ∉ tail) :
    escapesNext ('\\' :: e :: tail) = false := by
  change escapesNext tail = false
  exact escapesNext_of_not_mem h

theorem ShownAs.escapesNext_eq_false (h : ShownAs c shown) : escapesNext shown = false := by
  obtain ⟨x, hx, rfl⟩ | ⟨e, tail, rfl, htail⟩ := h.cases_backslash
  · simp [escapesNext, hx]
  · exact escapesNext_escape htail

theorem escapesNext_escapeFrom (alone : Bool) (cs : List Char) :
    escapesNext (escapeFrom alone cs) = false := by
  induction cs generalizing alone with
  | nil => rfl
  | cons c cs ih =>
      rw [escapeFrom, escapesNext_append (shownAs_escapeChar alone c).escapesNext_eq_false, ih]

namespace CutOff

variable {whole part : List Char}

/-- The part of an escape that is left is a backslash and perhaps more, but no other backslash. -/
theorem cases_part (h : CutOff alone cs whole part) :
    part = [] ∨ part = ['\\'] ∨ ∃ e tail, part = '\\' :: e :: tail ∧ '\\' ∉ tail := by
  by_cases hpart : part = []
  · exact .inl hpart
  obtain ⟨c, -, hprefix, hlt⟩ := h.next hpart
  obtain ⟨x, -, hx⟩ | ⟨e, tail, hescape, htail⟩ := (shownAs_escapeChar _ c).cases_backslash
  · have hpos := List.length_pos_iff.mpr hpart
    rw [hx, List.length_singleton] at hlt
    omega
  · rw [hescape] at hprefix
    match part, hprefix with
    | [], _ => exact .inl rfl
    | [x], hprefix =>
        obtain ⟨rfl, -⟩ := List.cons_prefix_cons.mp hprefix
        exact .inr (.inl rfl)
    | x :: y :: part, hprefix =>
        obtain ⟨rfl, hsecond⟩ := List.cons_prefix_cons.mp hprefix
        obtain ⟨rfl, hthird⟩ := List.cons_prefix_cons.mp hsecond
        exact .inr (.inr ⟨_, _, rfl, fun hmem => htail (hthird.subset hmem)⟩)

theorem escapesNext_iff (h : CutOff alone cs whole part) :
    escapesNext (escapeFrom alone whole ++ part) ↔ part = ['\\'] := by
  rw [escapesNext_append (escapesNext_escapeFrom alone whole)]
  obtain rfl | rfl | ⟨e, tail, rfl, htail⟩ := h.cases_part
  · simp [escapesNext]
  · simp [escapesNext]
  · simp [escapesNext_escape htail]

/-- What is left shows a beginning of the text just where no escape was cut in two. -/
theorem exists_shown_iff (h : CutOff alone cs whole part) :
    (∃ shown, shown <+: cs ∧ escapeFrom alone shown = escapeFrom alone whole ++ part) ↔
      part = [] := by
  constructor
  · rintro ⟨shown, hshown, heq⟩
    have hlength := congrArg List.length heq
    rw [List.length_append] at hlength
    by_contra hpart
    have hpos := List.length_pos_iff.mpr hpart
    obtain ⟨c, hnext, -, hlt⟩ := h.next hpart
    rcases Nat.lt_or_ge whole.length shown.length with hlonger | hshorter
    · have hmore : whole ++ [c] <+: shown :=
        List.prefix_of_prefix_length_le hnext hshown (by simpa [Nat.add_one_le_iff] using hlonger)
      have hle := (escapeFrom_mono alone hmore).length_le
      simp only [escapeFrom_append, escapeFrom, List.append_nil, List.length_append] at hle
      omega
    · have hless := List.prefix_of_prefix_length_le hshown h.isPrefix hshorter
      have hle := (escapeFrom_mono alone hless).length_le
      omega
  · rintro rfl
    exact ⟨whole, h.isPrefix, (List.append_nil _).symm⟩

/-- The whole text is left just where its escapes are. -/
theorem whole_eq_iff (h : CutOff alone cs whole part) :
    whole = cs ↔ escapeFrom alone whole ++ part = escapeFrom alone cs := by
  constructor
  · rintro rfl
    have hpart : part = [] := by
      by_contra hne
      obtain ⟨c, hnext, -⟩ := h.next hne
      have hle := hnext.length_le
      rw [List.length_append, List.length_singleton] at hle
      omega
    rw [hpart, List.append_nil]
  · intro heq
    obtain rfl := h.exists_shown_iff.mp ⟨cs, List.prefix_rfl, heq.symm⟩
    rw [List.append_nil] at heq
    exact escapeFrom_injective alone heq

end CutOff

end PegScan.Text
