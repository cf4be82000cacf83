import PegScan.Proofs.Session.History

/-! # Positions tell where a session is

Of the four numbers of a position, two follow from the offset however the cursor has come there.
The line and the column do so too where every line break that is passed as one ends in a line
feed. This holds of all operations on cursors, and so at every moment of every parse. -/

namespace PegScan

namespace Cursor

/-- What the positions of cursors on one text tell of the characters and the bytes before, between
and behind them. -/
structure PlacesTold (text : List Char) (been : List Cursor) : Prop where
  offset_le : ∀ c ∈ been, c.position.offset ≤ text.length
  byte_eq : ∀ c ∈ been,
    c.position.byte = (String.ofList (text.take c.position.offset)).utf8ByteSize
  rest_eq : ∀ c ∈ been, c.rest = text.drop c.position.offset
  rest_bytes : ∀ c ∈ been,
    String.Pos.Raw.extract (String.ofList text) ⟨c.position.byte⟩
      (String.ofList text).rawEndPos = String.ofList c.rest
  since_eq : ∀ c ∈ been, ∀ d ∈ been, c.position.offset ≤ d.position.offset →
    c.since d = (text.take d.position.offset).drop c.position.offset
  since_bytes : ∀ c ∈ been, ∀ d ∈ been, c.position.offset ≤ d.position.offset →
    String.Pos.Raw.extract (String.ofList text) ⟨c.position.byte⟩ ⟨d.position.byte⟩ =
      String.ofList (c.since d)

/-- The line and the column as they are read off the characters before a cursor. -/
structure LinesTold (text : List Char) (been : List Cursor) : Prop where
  line_eq : ∀ c ∈ been, c.position.line = 1 + (text.take c.position.offset).count '\n'
  column_eq : ∀ c ∈ been, c.position.column =
    1 + ((text.take c.position.offset).reverse.takeWhile (· ≠ '\n')).length

namespace Course

variable {policies : List LineBreak} {text : List Char} {been been' : List Cursor}

theorem placesTold (h : Course policies text been) : PlacesTold text been where
  offset_le c hc := (h.standsIn c hc).offset_le
  byte_eq c hc := (h.standsIn c hc).byte_eq
  rest_eq c hc := (h.standsIn c hc).rest_eq
  rest_bytes c hc := (h.standsIn c hc).extract_rest
  since_eq c hc d hd hle := ((h.standsIn c hc).passes_between (h.standsIn d hd) hle).since_eq
  since_bytes c hc d hd hle := by
    have hp := (h.standsIn c hc).passes_between (h.standsIn d hd) hle
    rw [hp.since_eq]
    exact (h.standsIn c hc).extract_eq hp

theorem linesTold (h : Course policies text been) (hp : policies ⊆ LineBreak.feeds) :
    LinesTold text been where
  line_eq c hc := congrArg Position.line (h.position_eq hp c hc)
  column_eq c hc := congrArg Position.column (h.position_eq hp c hc)

/-- Two ways to the same offset of one text end at the same position. -/
theorem position_unique (h : Course policies text been) (h' : Course policies text been')
    (hp : policies ⊆ LineBreak.feeds) :
    ∀ c ∈ been, ∀ d ∈ been', c.position.offset = d.position.offset → c.position = d.position := by
  intro c hc d hd heq
  rw [h.position_eq hp c hc, h'.position_eq hp d hd, heq]

end Course
end Cursor

open Cursor

/-- The positions of all operations on cursors tell where they are. All steps of sessions with
such a cursor are such operations, and every parse is a history of such steps, which reports the
positions of its moments and no others. -/
theorem Session.parse_placesTold {σ : Type} (policies : List LineBreak) (text : List Char) :
    (∀ been, Course policies text been → PlacesTold text been) ∧
    (policies ⊆ LineBreak.feeds → ∀ been, Course policies text been → LinesTold text been ∧
      ∀ been', Course policies text been' → ∀ c ∈ been, ∀ d ∈ been',
        c.position.offset = d.position.offset → c.position = d.position) ∧
    ∀ (C : Context σ) (s : Session σ) (kept : List Cursor), C.lineBreak ∈ policies →
      Course policies text (s.cursor :: kept) →
      (∀ past t, History C s (t :: past) →
        ∃ been, Course policies text been ∧ ∀ u ∈ t :: past, u.cursor ∈ been) ∧
      ∀ rule, ∃ (past : List (Session σ)) (log : List Entry),
        History C s ((s.parse C rule).2 :: past) ∧
        (s.parse C rule).2.journal = log.reverse ++ s.journal ∧
        ∀ x ∈ log, ∃ u ∈ (s.parse C rule).2 :: past, x.position = u.position := by
  refine ⟨fun _ h => h.placesTold, fun hp _ h => ⟨h.linesTold hp, fun _ h' =>
    h.position_unique h' hp⟩, fun C s kept hC hs => ⟨fun past t h => ?_, fun rule => ?_⟩⟩
  · obtain ⟨been, hcourse, hmem⟩ := h.course hC hs
    exact ⟨t.cursor :: been, hcourse, hmem⟩
  · obtain ⟨past, h⟩ := parse_history C rule s
    obtain ⟨log, hj, hlog⟩ := h.exists_log
    refine ⟨past, log, h, hj, fun x hx => ?_⟩
    obtain ⟨u, hu, hm⟩ := (hlog x hx).moment
    exact ⟨u, hu, congrArg Entry.position hm⟩

/-- A line break is passed as one and then, after going back, character by character. Both ways
end at the same position, from which a parse goes on. -/
theorem Session.parse_placesTold_going_back :
    let policies : List LineBreak := [.lf, .lfOrCrlf]
    let text := ['é', '\r', '\n', 'x']
    let first := (ofList text).advance 1
    let across := (first.passLineBreak .lfOrCrlf).2
    let along := first.advance 2
    let been := [along, first, across, first, ofList text]
    let C : Context Unit := { hooks := .empty, lineBreak := .lfOrCrlf }
    let s : Session Unit := ⟨along, .off, 0, (), []⟩
    policies ⊆ LineBreak.feeds ∧ Course policies text been ∧
      PlacesTold text been ∧ LinesTold text been ∧
      across.position = along.position ∧ along.position = ⟨3, 4, 2, 1⟩ ∧
      first.since along = ['\r', '\n'] ∧
      (s.parse C .any).2.position = ⟨4, 5, 2, 2⟩ ∧
      ∃ been', Course policies text been' ∧ (s.parse C .any).2.cursor ∈ been' := by
  intro policies text first across along been C s
  have hfeeds : policies ⊆ LineBreak.feeds := by decide
  have hfirst : Course policies text [first, ofList text] := .move .start (.advance (by decide))
  have hacross : Course policies text [across, first, ofList text] :=
    hfirst.move (.passLineBreak (by decide))
  have hback : Course policies text [first, across, first, ofList text] :=
    hacross.move (.goBack (by simp))
  have hcourse : Course policies text been := hback.move (.advance (by decide))
  rcases parse_placesTold (σ := Unit) policies text with ⟨hplaces, hlines, hsessions⟩
  rcases hlines hfeeds been hcourse with ⟨hlines, hunique⟩
  rcases hsessions C s _ (by decide) hcourse with ⟨hhistory, hparse⟩
  rcases hparse .any with ⟨past, log, h, -, -⟩
  rcases hhistory past _ h with ⟨been', hcourse', hmem⟩
  refine ⟨hfeeds, hcourse, hplaces been hcourse, hlines, ?_, rfl, rfl, by decide +kernel, been',
    hcourse', hmem _ List.mem_cons_self⟩
  exact hunique been hcourse across (by simp [been]) along (by simp [been]) rfl

end PegScan
