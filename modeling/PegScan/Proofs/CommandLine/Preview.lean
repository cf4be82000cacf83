import Mathlib.Data.List.TakeDrop
import PegScan.CommandLine.Report
import PegScan.Proofs.Text.Escape

/-! # Previews

A preview is cut off after the content has been escaped. The cut may go through an escape, and
then the preview is not that of any beginning of the content. -/

namespace PegScan.CommandLine

open Text

/-- Characters between quotes, and an ellipsis if the text goes on. -/
def quote (goesOn : Prop) [Decidable goesOn] (cs : List Char) : String :=
  "\"" ++ String.ofList cs ++ "\"" ++ if goesOn then "…" else ""

/-- A preview ends in an ellipsis. -/
def IsElided (shown : String) : Prop := shown.toList.getLast? = some '…'

instance (shown : String) : Decidable (IsElided shown) := inferInstanceAs (Decidable (_ = _))

/-- The preview shows a beginning of the content, and all of it unless there is an ellipsis. -/
def ShowsPrefix (content : String) : Prop :=
  ∃ shown, shown <+: content.toList ∧ shown.length ≤ previewLength ∧
    preview content = quote (shown ≠ content.toList) (escape shown)

section Quote

variable {p q : Prop} [Decidable p] [Decidable q] {cs ds : List Char}

theorem toList_quote :
    (quote p cs).toList = ('\x22' :: cs) ++ '\x22' :: if p then ['…'] else [] := by
  by_cases hp : p <;> simp [quote, hp]

theorem isElided_quote : IsElided (quote p cs) ↔ p := by
  rw [IsElided, toList_quote, List.getLast?_append]
  by_cases hp : p <;> simp [hp]

theorem quote_inj (h : quote p cs = quote q ds) : (p ↔ q) ∧ cs = ds := by
  have helided : IsElided (quote q ds) ↔ p := h ▸ isElided_quote
  have hgoesOn : p ↔ q := helided.symm.trans isElided_quote
  have hlist := congrArg String.toList h
  simp only [toList_quote, hgoesOn] at hlist
  exact ⟨hgoesOn, List.tail_eq_of_cons_eq (List.append_cancel_right hlist)⟩

end Quote

variable {content : String} {whole part : List Char}

theorem preview_eq_take (content : String) :
    preview content = quote (previewLength < (escape content.toList).length)
      ((escape content.toList).take previewLength) := by
  rcases Nat.lt_or_ge previewLength (escape content.toList).length with hlong | hshort
  · simp [preview, quote, hlong, Nat.not_le.mpr hlong, String.append_assoc]
  · simp [preview, quote, hshort, Nat.not_lt.mpr hshort, List.take_of_length_le hshort]

theorem ne_content_iff (hcut : CutOff true content.toList whole part)
    (htake : (escape content.toList).take previewLength = escape whole ++ part) :
    whole ≠ content.toList ↔ previewLength < (escape content.toList).length := by
  rw [Ne, hcut.whole_eq_iff, ← escape_eq, ← escape_eq, ← htake, List.take_eq_self_iff, Nat.not_le]

/-- The preview is that of a beginning of the content just where no escape is cut in two. -/
theorem showsPrefix_iff_take (content : String) :
    ShowsPrefix content ↔ ∃ shown, shown <+: content.toList ∧
      escape shown = (escape content.toList).take previewLength := by
  constructor
  · rintro ⟨shown, hshown, -, hpreview⟩
    rw [preview_eq_take] at hpreview
    exact ⟨shown, hshown, (quote_inj hpreview).2.symm⟩
  · rintro ⟨shown, hshown, htake⟩
    have hcut : CutOff true content.toList shown [] := ⟨hshown, fun h => (h rfl).elim⟩
    have hgoesOn := ne_content_iff hcut (by rw [List.append_nil, htake])
    have hlength : (escape shown).length ≤ previewLength := htake ▸ List.length_take_le _ _
    rw [escape_eq] at hlength
    refine ⟨shown, hshown, Nat.le_trans (length_le_escapeFrom true shown) hlength, ?_⟩
    simp only [preview_eq_take, htake, hgoesOn]

/-- This is so where nothing is cut off, and where an escape ends at the cut. -/
theorem showsPrefix_iff (content : String) :
    ShowsPrefix content ↔ (escape content.toList).length ≤ previewLength ∨
      ∃ shown, shown <+: content.toList ∧ (escape shown).length = previewLength := by
  rw [showsPrefix_iff_take]
  constructor
  · rintro ⟨shown, hshown, htake⟩
    rcases Nat.lt_or_ge previewLength (escape content.toList).length with hlong | hshort
    · refine .inr ⟨shown, hshown, ?_⟩
      rw [htake, List.length_take, Nat.min_eq_left (Nat.le_of_lt hlong)]
    · exact .inl hshort
  · rintro (hshort | ⟨shown, hshown, hfull⟩)
    · exact ⟨content.toList, List.prefix_rfl, (List.take_of_length_le hshort).symm⟩
    · refine ⟨shown, hshown, ?_⟩
      rw [← hfull]
      exact List.prefix_iff_eq_take.mp (escape_mono hshown)

/-- What a preview shows of a content: the escapes of some characters, and of the next one perhaps
a part of its escape. -/
structure Previews (content : String) (whole part : List Char) : Prop where
  cutOff : CutOff true content.toList whole part
  preview_eq : preview content = quote (whole ≠ content.toList) (escape whole ++ part)
  length_le : (escape whole ++ part).length ≤ previewLength
  /-- An ellipsis only stands behind a preview that could not be longer. -/
  length_eq : whole ≠ content.toList → (escape whole ++ part).length = previewLength
  visible : ∀ c ∈ escape whole ++ part, ¬ IsControl c
  /-- The quote at the end is not escaped, unless just the backslash of an escape is left. -/
  escapesNext_iff : escapesNext (escape whole ++ part) ↔ part = ['\\']
  showsPrefix_iff_part : ShowsPrefix content ↔ part = []

theorem exists_previews (content : String) : ∃ whole part, Previews content whole part := by
  obtain ⟨whole, part, hcut, htake⟩ := exists_cutOff true content.toList previewLength
  rw [← escape_eq, ← escape_eq] at htake
  have hgoesOn := ne_content_iff hcut htake
  refine ⟨whole, part, hcut, ?_, ?_, fun hne => ?_, fun c hc => ?_, ?_, ?_⟩
  · simp only [preview_eq_take, htake, hgoesOn]
  · exact htake ▸ List.length_take_le _ _
  · rw [← htake, List.length_take]
    exact Nat.min_eq_left (Nat.le_of_lt (hgoesOn.mp hne))
  · rw [← htake, escape_eq] at hc
    exact not_isControl_of_mem_escapeFrom (List.mem_of_mem_take hc)
  · rw [escape_eq]
    exact hcut.escapesNext_iff
  · rw [showsPrefix_iff_take, htake, ← hcut.exists_shown_iff]
    simp only [escape_eq]

/-- Without an ellipsis, all of the content is shown. -/
theorem preview_of_not_isElided (h : ¬ IsElided (preview content)) :
    preview content = quote False (escape content.toList) := by
  have hshort : ¬ previewLength < (escape content.toList).length := by
    rwa [preview_eq_take, isElided_quote] at h
  rw [preview_eq_take, List.take_of_length_le (Nat.le_of_not_lt hshort)]
  simp only [hshort]

/-- What a preview shows, and when it is that of a beginning of the content. A preview without an
ellipsis tells its content from all others that have such a preview. -/
theorem preview_showsContent (content : String) :
    (∃ whole part, Previews content whole part) ∧
    (ShowsPrefix content ↔ (escape content.toList).length ≤ previewLength ∨
      ∃ shown, shown <+: content.toList ∧ (escape shown).length = previewLength) ∧
    ∀ other, ¬ IsElided (preview content) → ¬ IsElided (preview other) →
      preview content = preview other → content = other := by
  refine ⟨exists_previews content, showsPrefix_iff content, fun other hcontent hother heq => ?_⟩
  rw [preview_of_not_isElided hcontent, preview_of_not_isElided hother] at heq
  exact String.toList_inj.mp (escape_injective (quote_inj heq).2)

/-- A backslash before a tab is not taken for the one in the escape of the tab. -/
theorem preview_showsContent_tab :
    ¬ IsElided (preview "\t") ∧ ¬ IsElided (preview "\\\t") ∧
      preview "\t" ≠ preview "\\\t" := by
  have htab : ¬ IsElided (preview "\t") := by decide +kernel
  have hboth : ¬ IsElided (preview "\\\t") := by decide +kernel
  refine ⟨htab, hboth, fun heq => ?_⟩
  exact absurd ((preview_showsContent "\t").2.2 _ htab hboth heq) (by decide)

/-- The cut goes through the escape of a line feed, and a lone backslash stands before the quote. -/
theorem preview_not_showsPrefix : ¬ ∀ content, ShowsPrefix content := by
  intro h
  let front := List.replicate 39 'x'
  have hfront : ∀ c ∈ front, IsPlain c := fun c hc => by
    rw [List.eq_of_mem_replicate hc]
    decide
  have hbehind : escapeFrom false ['\n', 'y'] = ['\\', 'n', 'y'] := by
    rw [escapeFrom, escapeFrom_of_isPlain false (List.forall_mem_singleton.mpr (by decide))]
    rfl
  have hescape : escape (front ++ ['\n', 'y']) = front ++ ['\\', 'n', 'y'] := by
    rw [escape_eq, escapeFrom_append, escapeFrom_of_isPlain true hfront]
    exact congrArg (front ++ ·) hbehind
  have hpreview : preview (String.ofList (front ++ ['\n', 'y'])) =
      quote True (front ++ ['\\']) := by
    rw [preview_eq_take, String.toList_ofList, hescape]
    rfl
  obtain ⟨shown, -, -, hshown⟩ := h (String.ofList (front ++ ['\n', 'y']))
  have hcut := (quote_inj (hpreview.symm.trans hshown)).2
  have hopen : escapesNext (front ++ ['\\']) := by decide
  rw [hcut, escape_eq, escapesNext_escapeFrom] at hopen
  exact Bool.noConfusion hopen

end PegScan.CommandLine
