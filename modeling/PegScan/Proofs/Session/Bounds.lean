import PegScan.Proofs.Session.History

/-! # Nothing outside the text is asked for

A parse never asks for characters that are not there, and what it cuts out of the text for a hook
begins and ends between two characters. A literal goes by the width of its own opening bracket,
whatever is matched inside it. -/

namespace PegScan

variable {σ : Type} {C : Context σ}

/-! ## The width that a literal goes by -/

namespace Matcher

/-- A part of the match of a literal, which may write down a width for the parts behind it. The
latest width comes first. -/
abbrev LiteralPart (σ : Type) := List ℕ → Session σ → Outcome × List ℕ × Session σ

/-- There is no width as long as none has been written down. -/
def openingOf (widths : List ℕ) : Opening := ⟨widths.headD 0⟩

def LiteralPart.andThen (f g : LiteralPart σ) : LiteralPart σ := fun widths s =>
  match f widths s with
  | (.matched, widths, s) => g widths s
  | run => run

/-- Writes down the width of the opening bracket, and passes it and the line break behind it. -/
def openPart (C : Context σ) (b : LongBracket) : LiteralPart σ := fun widths s =>
  match b.delimiters.opening? s.cursor.rest with
  | none => (.mismatched, widths, s)
  | some o => (.matched, o.width :: widths, ((s.advance o.width).passLineBreak C).2)

/-- Matches the body, up to a closing bracket of the width that was written down. -/
def bodyPart (C : Context σ) (b : LongBracket) (unit : Matcher σ) : LiteralPart σ := fun widths s =>
  let closing : Matcher σ := consume 0 (b.delimiters.closes (openingOf widths))
  match required C b.contentName (enclosed C b.contentName (upTo closing unit)) s with
  | (outcome, t) => (outcome, widths, t)

def closePart : LiteralPart σ := fun widths s =>
  (.matched, widths, s.advance (openingOf widths).width)

def literalParts (C : Context σ) (b : LongBracket) (unit : Matcher σ) : LiteralPart σ :=
  (openPart C b).andThen ((bodyPart C b unit).andThen closePart)

/-- Every literal is matched by its parts, with no width written down before. -/
theorem longBracket_eq_parts (C : Context σ) (b : LongBracket) (unit : Matcher σ) (s : Session σ) :
    longBracket C b unit s =
      ((literalParts C b unit [] s).1, (literalParts C b unit [] s).2.2) := by
  unfold longBracket literalParts LiteralPart.andThen openPart
  cases b.delimiters.opening? s.cursor.rest with
  | none => rfl
  | some o =>
      simp only [bodyPart, openingOf, List.headD_cons]
      rcases required C b.contentName _ _ with ⟨_ | _ | e, t⟩ <;> rfl

/-- At most one width is written down, that of the opening bracket where the literal starts. When
the literal has matched, a closing bracket of this width has been passed, all of which was there
after the body. -/
structure KeepsWidth (b : LongBracket) (s : Session σ) (run : Outcome × List ℕ × Session σ) :
    Prop where
  once : run.2.1.length ≤ 1
  width : ∀ w ∈ run.2.1, ∃ n, w = n + 2 ∧ b.delimiters.opening n <+: s.cursor.rest
  passed : run.1 = .matched → ∃ (n : ℕ) (u : Session σ), run.2.1 = [n + 2] ∧
    b.delimiters.closing n <+: u.cursor.rest ∧ run.2.2 = u.rewind (u.cursor.advance (n + 2))

theorem keepsWidth_literalParts (C : Context σ) (b : LongBracket) (unit : Matcher σ)
    (s : Session σ) : KeepsWidth b s (literalParts C b unit [] s) := by
  unfold literalParts LiteralPart.andThen openPart
  cases ho : b.delimiters.opening? s.cursor.rest with
  | none => exact ⟨by simp, by simp, by simp⟩
  | some o =>
      obtain ⟨n, rfl, hn, -⟩ := Delimiters.opening?_eq_some_iff.mp ho
      have hwidth : ∀ w ∈ [n + 2], ∃ n, w = n + 2 ∧ b.delimiters.opening n <+: s.cursor.rest :=
        List.forall_mem_singleton.mpr ⟨n, rfl, hn⟩
      simp only [bodyPart, openingOf, List.headD_cons]
      rcases h : required C b.contentName _ _ with ⟨_ | _ | e, t⟩
      · have hclosing := closing_of_body h
        have hle : n + 2 ≤ t.cursor.left := by
          simpa [t.cursor.left_eq] using hclosing.length_le
        exact ⟨by simp [closePart], hwidth, fun _ => ⟨n, t, rfl, hclosing, by
          simp [closePart, openingOf, Session.advance_of_le hle]⟩⟩
      · exact ⟨by simp, hwidth, by simp⟩
      · exact ⟨by simp, hwidth, by simp⟩

end Matcher

/-! ## Slices -/

/-- The byte count of a cursor falls between two characters. -/
theorem Cursor.StandsIn.isValid {c : Cursor} {text : List Char} (h : c.StandsIn text) :
    (⟨c.position.byte⟩ : String.Pos.Raw).IsValid (String.ofList text) := by
  refine String.Pos.Raw.isValid_iff_exists_append.mpr
    ⟨String.ofList (text.take c.position.offset), String.ofList c.rest, ?_, ?_⟩
  · rw [← String.ofList_append, h.rest_eq, List.take_append_drop]
  · rw [h.byte_eq]
    rfl

/-- What an entry says lies inside the text: no character was missed, and a hook was given the
bytes between two boundaries of characters. -/
structure Entry.LiesIn (text : List Char) (x : Entry) : Prop where
  inside : ∀ n, x.event ≠ .overrun n
  slice : ∀ rule m accepted, x.event = .hook rule m accepted →
    m.start.byte ≤ x.position.byte ∧
      (⟨m.start.byte⟩ : String.Pos.Raw).IsValid (String.ofList text) ∧
      (⟨x.position.byte⟩ : String.Pos.Raw).IsValid (String.ofList text) ∧
      m.text = String.Pos.Raw.extract (String.ofList text) ⟨m.start.byte⟩ ⟨x.position.byte⟩

theorem Entry.WrittenIn.liesIn {been : List (Session σ)} {text : List Char} {x : Entry}
    (h : x.WrittenIn been) (hbeen : ∀ u ∈ been, u.cursor.StandsIn text) : x.LiesIn text where
  inside := h.inside
  slice := by
    intro rule m accepted he
    obtain ⟨u, hu, v, hv, hx, hle, rfl⟩ := h.matched rule m accepted he
    have hpasses := (hbeen v hv).passes_between (hbeen u hu) hle
    rw [hx]
    refine ⟨?_, (hbeen v hv).isValid, (hbeen u hu).isValid, ?_⟩
    · exact Nat.le.intro hpasses.byte.symm
    · rw [Session.position_eq, Session.position_eq, (hbeen v hv).extract_eq hpasses,
        hpasses.since_eq]

/-! ## Parses -/

/-- A parse from a cursor that operations on the text have led to stays inside the text at every
moment, and so do the slices for its hooks. All literals, also those inside others, go by the
widths of their own opening brackets. -/
theorem Session.parse_staysInside {policies : List LineBreak} {text : List Char}
    {kept : List Cursor} (C : Context σ) (rule : Rule) (s : Session σ)
    (hC : C.lineBreak ∈ policies) (hs : Cursor.Course policies text (s.cursor :: kept)) :
    (∃ (past : List (Session σ)) (log : List Entry), History C s ((s.parse C rule).2 :: past) ∧
      (∀ u ∈ (s.parse C rule).2 :: past, u.position.offset ≤ text.length) ∧
      (s.parse C rule).2.journal = log.reverse ++ s.journal ∧ ∀ x ∈ log, x.LiesIn text) ∧
    ∀ (b : LongBracket) (contents : List Rule) (t : Session σ),
      let run := Matcher.literalParts C b (Rule.roundOf contents (Rule.rawAll C contents)) [] t
      (Rule.longBracket b contents).raw C t = (run.1, run.2.2) ∧ Matcher.KeepsWidth b t run := by
  refine ⟨?_, fun b contents t => ⟨?_, Matcher.keepsWidth_literalParts C b _ t⟩⟩
  swap
  · rw [Rule.raw, Matcher.longBracket_eq_parts]
  obtain ⟨past, h⟩ := parse_history C rule s
  obtain ⟨log, hj, hlog⟩ := h.exists_log
  obtain ⟨been, hcourse, hmem⟩ := h.course hC hs
  have hstands (u : Session σ) (hu : u ∈ (s.parse C rule).2 :: past) : u.cursor.StandsIn text :=
    hcourse.standsIn _ (hmem u hu)
  exact ⟨past, log, h, fun u hu => (hstands u hu).offset_le, hj,
    fun x hx => (hlog x hx).liesIn hstands⟩

/-- A literal in another one: both closing brackets have a level of their own, and both hooks are
given bytes of the same text. -/
theorem Session.parse_staysInside_nested :
    let inner : Rule := .longBracket { name := "inner" } []
    let rule : Rule := .longBracket { name := "outer" } [.choice [inner, .any]]
    let C : Context ℕ :=
      { hooks := ⟨.on, [("inner", .signal (· + 1)), ("outer", .signal (· + 1))]⟩ }
    let text := "[=[é[[]=]]]=]".toList
    let s : Session ℕ := ⟨.ofList text, .on, 0, 0, []⟩
    (s.parse C rule).1 = .matched ∧ (s.parse C rule).2.state = 2 ∧
      ∃ log : List Entry, (s.parse C rule).2.journal = log.reverse ∧
        ∀ x ∈ log, x.LiesIn text := by
  intro inner rule C text s
  have hs : Cursor.Course [.lfOrCrlf] text [s.cursor] := .start
  obtain ⟨⟨past, log, -, -, hj, hlog⟩, -⟩ := parse_staysInside C rule s (.head []) hs
  exact ⟨by decide +kernel, by decide +kernel, log, by simpa [s] using hj, hlog⟩

end PegScan
