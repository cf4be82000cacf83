import PegScan.Proofs.Session.Simulation
import PegScan.Proofs.Text.Course

/-! # Runs in a longer text

No rule looks behind the cursor, and none asks where it stands. In front of a text there may be
another one: a run that starts between the two goes as it would at the front of the second one
alone, and all of its positions are moved on by the first one. -/

namespace PegScan

/-! ## Positions -/

namespace Position

/-- A position in the second one of two texts, as a position in both when the first one ends at
`p`. Only the columns of the first line are moved. -/
def translate (p q : Position) : Position where
  offset := p.offset + q.offset
  byte := p.byte + q.byte
  line := p.line + q.line - 1
  column := if q.line = 1 then p.column + q.column - 1 else q.column

def Counted (q : Position) : Prop := 1 ≤ q.line ∧ 1 ≤ q.column

variable {p q : Position}

theorem counted_start : start.Counted := ⟨le_rfl, le_rfl⟩

theorem Counted.next (h : q.Counted) (c : Char) : (q.next c).Counted := by
  obtain ⟨hl, hc⟩ := h
  unfold Position.next
  split
  · exact ⟨Nat.le_add_left .., le_rfl⟩
  · exact ⟨hl, Nat.le_add_left ..⟩

theorem Counted.past (h : q.Counted) (cs : List Char) : (q.past cs).Counted := by
  induction cs generalizing q with
  | nil => exact h
  | cons c cs ih => exact ih (h.next c)

theorem Counted.acrossBreak (h : q.Counted) (cs : List Char) : (q.acrossBreak cs).Counted := by
  unfold Position.acrossBreak
  split
  · exact h
  · exact ⟨Nat.le_add_left .., le_rfl⟩

theorem translate_start (p : Position) : p.translate start = p := by
  simp [translate, start]

theorem next_translate (h : q.Counted) (c : Char) :
    (p.translate q).next c = p.translate (q.next c) := by
  obtain ⟨hl, hc⟩ := h
  by_cases hfeed : c = '\n'
  · have hline : p.line + q.line - 1 + 1 = p.line + (q.line + 1) - 1 := by omega
    have hlater : q.line ≠ 0 := by omega
    simp [next, translate, hfeed, hline, hlater, Nat.add_assoc]
  · by_cases hfirst : q.line = 1
    · have hcolumn : p.column + q.column - 1 + 1 = p.column + (q.column + 1) - 1 := by omega
      simp [next, translate, hfeed, hfirst, hcolumn, Nat.add_assoc]
    · simp [next, translate, hfeed, hfirst, Nat.add_assoc]

theorem past_translate (h : q.Counted) (cs : List Char) :
    (p.translate q).past cs = p.translate (q.past cs) := by
  induction cs generalizing q with
  | nil => rfl
  | cons c cs ih => rw [past_cons, past_cons, next_translate h, ih (h.next c)]

theorem acrossBreak_translate (h : q.Counted) (cs : List Char) :
    (p.translate q).acrossBreak cs = p.translate (q.acrossBreak cs) := by
  obtain ⟨hl, -⟩ := h
  unfold acrossBreak
  split
  · rfl
  · have hline : p.line + q.line - 1 + 1 = p.line + (q.line + 1) - 1 := by omega
    have hlater : q.line ≠ 0 := by omega
    simp [acrossLine, translate, hline, hlater, Nat.add_assoc]

end Position

/-! ## Cursors -/

/-- The first cursor stands where the second one does, with more text before it. -/
structure Cursor.Translated (p : Position) (c d : Cursor) : Prop where
  rest : d.rest = c.rest
  position : c.position = p.translate d.position
  counted : d.position.Counted

namespace Cursor.Translated

variable {p : Position} {c d c' d' : Cursor}

theorem advance (h : c.Translated p d) (n : ℕ) : (c.advance n).Translated p (d.advance n) where
  rest := by rw [rest_advance, rest_advance, h.rest]
  position := by
    rw [position_advance, position_advance, h.position, h.rest, Position.past_translate h.counted]
  counted := by
    rw [position_advance]
    exact h.counted.past _

theorem passLineBreak (h : c.Translated p d) (b : LineBreak) :
    (c.passLineBreak b).2.Translated p (d.passLineBreak b).2 where
  rest := by
    rw [(c.passes_longest b).rest_eq_drop, (d.passes_longest b).rest_eq_drop, h.rest]
  position := by
    rw [position_passLineBreak, position_passLineBreak, h.position, h.rest,
      Position.acrossBreak_translate h.counted]
  counted := by
    rw [position_passLineBreak]
    exact h.counted.acrossBreak _

theorem since_eq (h : c.Translated p d) (h' : c'.Translated p d') : c.since c' = d.since d' := by
  rw [since, since, h.rest, h.position, h'.position]
  simp only [Position.translate, Nat.add_sub_add_left]

end Cursor.Translated

/-! ## Events and errors -/

def Event.translate (p : Position) : Event → Event
  | .hook rule matched accepted =>
    .hook rule { matched with start := p.translate matched.start } accepted
  | event => event

def Entry.translate (p : Position) (x : Entry) : Entry :=
  { x with event := x.event.translate p, position := p.translate x.position }

def Error.translate (p : Position) : Error → Error
  | requiredMatch rule position => requiredMatch rule (p.translate position)
  | e => e

def Outcome.translate (p : Position) : Outcome → Outcome
  | failed e => failed (e.translate p)
  | outcome => outcome

variable {σ ω : Type}

/-- Hooks that go by the text and by what is their own in the user's state: where the text starts
makes no difference to their answers, nor to what is their own. -/
def HookTable.IgnoresStart (t : HookTable σ) (own : σ → ω) : Prop :=
  ∀ rule hook, t.get? rule = some hook → ∀ text p q a b, own a = own b →
    (hook.invoke ⟨text, p⟩ a).1 = (hook.invoke ⟨text, q⟩ b).1 ∧
      own (hook.invoke ⟨text, p⟩ a).2 = own (hook.invoke ⟨text, q⟩ b).2

/-! ## Sessions -/

/-- The first session, behind the journal `i`, is the second one, behind `j`, with more text
before it. -/
structure Session.Translated (p : Position) (own : σ → ω) (i j : Journal) (s t : Session σ) :
    Prop where
  cursor : s.cursor.Translated p t.cursor
  mode : t.mode = s.mode
  depth : t.depth = s.depth
  own_eq : own s.state = own t.state
  journal : ∃ log : Journal, t.journal = log ++ j ∧ s.journal = log.map (Entry.translate p) ++ i

namespace Session.Translated

variable {p : Position} {own : σ → ω} {i j : Journal} {s t s' t' : Session σ}

theorem note (h : Translated p own i j s t) (event : Event) :
    Translated p own i j (s.note (event.translate p)) (t.note event) where
  cursor := h.cursor
  mode := h.mode
  depth := h.depth
  own_eq := h.own_eq
  journal := by
    obtain ⟨log, ht, hs⟩ := h.journal
    refine ⟨⟨event, t.position, t.mode, t.depth⟩ :: log, by rw [journal_note, ht]; rfl, ?_⟩
    rw [journal_note, hs, List.map_cons, List.cons_append, ← h.mode, ← h.depth, position_eq,
      h.cursor.position]
    rfl

theorem opened (h : Translated p own i j s t) (rule : String) :
    Translated p own i j (s.opened rule) (t.opened rule) := by
  have hdeeper : Translated p own i j ({ s with depth := s.depth + 1 } : Session σ)
      ({ t with depth := t.depth + 1 } : Session σ) :=
    ⟨h.cursor, h.mode, congrArg (· + 1) h.depth, h.own_eq, h.journal⟩
  exact hdeeper.note (.start rule)

theorem closed (h : Translated p own i j s t) {event : Event} (he : event.isControl = true) :
    Translated p own i j (s.closed event) (t.closed event) := by
  have hleft : Translated p own i j s.leave t.leave :=
    ⟨h.cursor, h.mode, congrArg (· - 1) h.depth, h.own_eq, h.journal⟩
  have hsame : event.translate p = event := by
    cases event <;> first | rfl | simp [Event.isControl] at he
  have hnoted := hleft.note event
  rw [hsame] at hnoted
  exact hnoted

theorem apply {C : Context σ} (hhooks : C.hooks.IgnoresStart own) (rule : String)
    (h : Translated p own i j s t) (h' : Translated p own i j s' t') :
    (t'.apply C rule t.cursor).1 = (s'.apply C rule s.cursor).1 ∧
      Translated p own i j (s'.apply C rule s.cursor).2 (t'.apply C rule t.cursor).2 := by
  cases hm : s'.mode with
  | off =>
      rw [apply_of_off hm, apply_of_off (h'.mode.trans hm)]
      exact ⟨rfl, h'⟩
  | on =>
      cases hh : C.hooks.get? rule with
      | none =>
          rw [apply_of_none hh, apply_of_none hh]
          exact ⟨rfl, h'⟩
      | some hook =>
          rw [apply_of_hook hm hh, apply_of_hook (h'.mode.trans hm) hh,
            h.cursor.since_eq h'.cursor]
          dsimp only
          generalize String.ofList (t.cursor.since t'.cursor) = text
          obtain ⟨haccepted, hown⟩ :=
            hhooks rule hook hh text s.cursor.position t.cursor.position _ _ h'.own_eq
          have hchanged : Translated p own i j
              ({ s' with state := (hook.invoke ⟨text, s.cursor.position⟩ s'.state).2 } : Session σ)
              ({ t' with state := (hook.invoke ⟨text, t.cursor.position⟩ t'.state).2 } :
                Session σ) :=
            ⟨h'.cursor, h'.mode, h'.depth, hown, h'.journal⟩
          have hnoted := hchanged.note (.hook rule ⟨text, t.cursor.position⟩
            (hook.invoke ⟨text, t.cursor.position⟩ t'.state).1)
          simp only [Event.translate, ← h.cursor.position] at hnoted
          rw [haccepted]
          exact ⟨rfl, hnoted⟩

end Session.Translated

/-- Runs at the end of a text and runs at the front go side by side. -/
def Simulation.translation (C : Context σ)
    (hraise : C.raise = fun _ rule p => .requiredMatch rule p) {own : σ → ω}
    (hhooks : C.hooks.IgnoresStart own) (p : Position) (i j : Journal) : Simulation C C where
  rel := Session.Translated p own i j
  like e e' := e = e'.translate p
  fair _ := True
  fair_of_suffix _ _ := trivial
  lineBreak_eq := rfl
  rest_eq h := h.cursor.rest
  advance n h := ⟨h.cursor.advance n, h.mode, h.depth, h.own_eq, h.journal⟩
  passLineBreak h := ⟨h.cursor.passLineBreak C.lineBreak, h.mode, h.depth, h.own_eq, h.journal⟩
  rewind h h' := ⟨h.cursor, h'.mode, h'.depth, h'.own_eq, h'.journal⟩
  hooksOff h := ⟨h.cursor, rfl, h.depth, h.own_eq, h.journal⟩
  restore h h' := ⟨h'.cursor, h.mode, h'.depth, h'.own_eq, h'.journal⟩
  raise rule h := by
    refine ⟨?_, h.note (.raise rule)⟩
    simp [hraise, Error.translate, Session.position_eq, h.cursor.position]
  refuse rule h hd _ := ⟨h.depth.symm ▸ hd, rfl, h.note (.refused rule)⟩
  enter rule h hd := ⟨h.depth.symm ▸ hd, h.opened rule⟩
  close he h := h.closed he
  apply rule h h' _ := h.apply hhooks rule h'

/-! ## Parses -/

/-- The second run, with more text before it: it ends alike and with as many characters passed,
and every position in what it says is moved on to `p`. -/
structure TranslatedRun (p : Position) (own : σ → ω) (s t : Session σ)
    (run run' : Outcome × Session σ) : Prop where
  outcome : run.1 = run'.1.translate p
  position : run.2.position = p.translate run'.2.position
  rest : run.2.cursor.rest = run'.2.cursor.rest
  own_eq : own run.2.state = own run'.2.state
  journal : ∃ log : Journal, run'.2.journal = log ++ t.journal ∧
    run.2.journal = log.map (Entry.translate p) ++ s.journal

theorem TranslatedRun.of_like {C : Context σ}
    {hraise : C.raise = fun _ rule p => .requiredMatch rule p} {own : σ → ω}
    {hhooks : C.hooks.IgnoresStart own} {p : Position} {s t : Session σ}
    {run run' : Outcome × Session σ}
    (h : (Simulation.translation C hraise hhooks p s.journal t.journal).Like run run') :
    TranslatedRun p own s t run run' := by
  cases h with
  | matched hr => exact ⟨rfl, hr.cursor.position, hr.cursor.rest.symm, hr.own_eq, hr.journal⟩
  | mismatched hr => exact ⟨rfl, hr.cursor.position, hr.cursor.rest.symm, hr.own_eq, hr.journal⟩
  | failed he hr =>
      exact ⟨congrArg Outcome.failed he, hr.cursor.position, hr.cursor.rest.symm, hr.own_eq,
        hr.journal⟩

/-- At the end of `u` in the text `u ++ v` a parse goes as at the front of `v`, with its positions
moved on to the end of `u`. -/
theorem Session.parse_translated (C : Context σ) (rule : Rule) {own : σ → ω} {u v : List Char}
    {s t : Session σ} (hraise : C.raise = fun _ rule p => .requiredMatch rule p)
    (hhooks : C.hooks.IgnoresStart own) (hs : s.cursor.StandsIn (u ++ v))
    (hu : s.position.offset = u.length) (ht : t.cursor = .ofList v) (hmode : t.mode = s.mode)
    (hdepth : t.depth = s.depth) (hown : own s.state = own t.state) :
    TranslatedRun s.position own s t (s.parse C rule) (t.parse C rule) ∧
      TranslatedRun s.position own s t (s.parseAll C rule) (t.parseAll C rule) := by
  have hcursor : s.cursor.Translated s.position t.cursor := by
    rw [ht]
    refine ⟨?_, (s.position.translate_start).symm, Position.counted_start⟩
    rw [hs.rest_eq, ← position_eq, hu, List.drop_left]
    rfl
  have hst : Translated s.position own s.journal t.journal s t :=
    ⟨hcursor, hmode, hdepth, hown, [], rfl, rfl⟩
  let S := Simulation.translation C hraise hhooks s.position s.journal t.journal
  exact ⟨.of_like (S.simulates_parse rule hst trivial),
    .of_like (S.simulates_parseAll rule hst trivial)⟩

/-- The first text ends with half of a line break, and the second one begins with the other half.
An action keeps where its matches start, which no answer of a hook goes by. -/
theorem Session.parse_translated_behind_half_break :
    let C : Context (ℕ × List Position) :=
      { hooks := ⟨.on, [("word", .action fun m a => (a.1 + 1, m.start :: a.2)),
          ("any", .guard fun m a => (m.text != "z" && a.1 < 2, a))]⟩ }
    let rule : Rule := .seq [.lineBreak, .star [.named "word" .any], .must (.one ['!'])]
    let c : Cursor := (Cursor.ofList "x\r\né!z".toList).advance 2
    let s : Session (ℕ × List Position) := ⟨c, .on, 0, (0, []), []⟩
    let t : Session (ℕ × List Position) := ⟨.ofList "\né!z".toList, .on, 0, (0, []), []⟩
    (t.parse C rule).1 = .failed (.requiredMatch "one" ⟨3, 4, 2, 3⟩) ∧
      TranslatedRun ⟨2, 2, 1, 3⟩ Prod.fst s t (s.parse C rule) (t.parse C rule) := by
  intro C rule c s t
  have hhooks : C.hooks.IgnoresStart Prod.fst := by
    intro name hook h text p q a b hab
    rw [HookTable.get?, List.lookup_cons, List.lookup_cons, List.lookup_nil] at h
    split at h
    · obtain rfl := Option.some.inj h
      exact ⟨rfl, congrArg (· + 1) hab⟩
    · split at h
      · obtain rfl := Option.some.inj h
        exact ⟨by simp [Hook.invoke, hab], hab⟩
      · simp at h
  have hs : s.cursor.StandsIn ("x\r".toList ++ "\né!z".toList) :=
    (Cursor.standsIn_ofList _).passes (Cursor.passes_advance 2 _)
  have ht : t.cursor = .ofList "\né!z".toList := rfl
  exact ⟨by decide +kernel, (parse_translated C rule rfl hhooks hs rfl ht rfl rfl rfl).1⟩

end PegScan
