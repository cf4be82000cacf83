import PegScan.Proofs.Session.Shallower

/-! # Single characters as rules

A loop without a body passes one character in a round, and one whose body is the rule for any
character does the same by a rule of its own. Side by side, the second run has more to report, and
nothing else is different unless a hook on that rule has a say. -/

namespace PegScan

variable {σ : Type} {C : Context σ} {i : Journal} {s t : Session σ}

/-- Both journals have gone on from `i`, and the second one is the first one with rules for a
single character put in, which were started and have matched. -/
inductive Journal.Padded (i : Journal) : Journal → Journal → Prop
  | start : Padded i i i
  | cons {j k} (x : Entry) : Padded i j k → Padded i (x :: j) (x :: k)
  | any {j k} {x y : Entry} : x.event = .start "any" → y.event = .success "any" →
      Padded i j k → Padded i j (y :: x :: k)

theorem Journal.Padded.suffix {j k : Journal} (h : Padded i j k) : i <:+ k := by
  induction h with
  | start => exact List.suffix_rfl
  | cons x _ ih => exact ih.trans (List.suffix_cons x _)
  | @any j k x y _ _ _ ih => exact ih.trans (List.suffix_append [y, x] k)

/-! ## Errors -/

/-- The same error, or two that were raised for a required match of the same rule at the same
position, behind journals that are related. -/
inductive RaisedAlike (C : Context σ) (R : Journal → Journal → Prop) : Error → Error → Prop
  | same (e) : RaisedAlike C R e e
  | raised {j k} (rule position) : R j k →
      RaisedAlike C R (C.raise j rule position) (C.raise k rule position)

/-- The outcomes of two runs whose errors were raised alike. They are equal where the error for a
required match is the same behind related journals. -/
structure OutcomesAlike (C : Context σ) (R : Journal → Journal → Prop) (o o' : Outcome) : Prop where
  settled : ∀ p, (∀ e, p ≠ .failed e) → (o' = p ↔ o = p)
  raised : ∀ e, o = .failed e → ∃ e', o' = .failed e' ∧ RaisedAlike C R e e'
  same : (∀ j k, R j k → C.raise k = C.raise j) → o' = o

namespace OutcomesAlike

variable {R : Journal → Journal → Prop} {o : Outcome} {e e' : Error}

theorem refl (o : Outcome) : OutcomesAlike C R o o where
  settled _ _ := .rfl
  raised e he := ⟨e, he, .same e⟩
  same _ := rfl

theorem failed (h : RaisedAlike C R e e') : OutcomesAlike C R (.failed e) (.failed e') where
  settled p hp := by simp [(hp _).symm]
  raised := by
    rintro _ ⟨rfl⟩
    exact ⟨e', rfl, h⟩
  same hraise := by
    cases h with
    | same => rfl
    | raised rule position hR => rw [hraise _ _ hR]

end OutcomesAlike

/-! ## The simulation -/

/-- The sessions stand at one place and depth, and the journal of the second one is padded. -/
structure SameButAny (i : Journal) (s t : Session σ) : Prop extends SamePlace s t where
  depth : t.depth = s.depth
  journal : Journal.Padded i s.journal t.journal

namespace SameButAny

theorem refl (s : Session σ) : SameButAny s.journal s s := ⟨⟨rfl, rfl, rfl⟩, rfl, .start⟩

theorem moment_eq (h : SameButAny i s t) : t.moment = s.moment := by
  simp [Session.moment, Session.position_eq, h.cursor, h.mode, h.depth]

theorem note (h : SameButAny i s t) (event : Event) :
    SameButAny i (s.note event) (t.note event) := by
  refine ⟨⟨h.cursor, h.mode, h.state⟩, h.depth, ?_⟩
  rw [Session.journal_note_eq, Session.journal_note_eq, h.moment_eq]
  exact h.journal.cons _

theorem opened (h : SameButAny i s t) (rule : String) :
    SameButAny i (s.opened rule) (t.opened rule) := by
  have hdeeper : SameButAny i { s with depth := s.depth + 1 } { t with depth := t.depth + 1 } :=
    ⟨⟨h.cursor, h.mode, h.state⟩, congrArg (· + 1) h.depth, h.journal⟩
  exact hdeeper.note (.start rule)

theorem closed (h : SameButAny i s t) (event : Event) :
    SameButAny i (s.closed event) (t.closed event) := by
  have hleft : SameButAny i s.leave t.leave :=
    ⟨⟨h.cursor, h.mode, h.state⟩, congrArg (· - 1) h.depth, h.journal⟩
  exact hleft.note event

theorem apply (h : SameButAny i s t) (rule : String) (start : Cursor) :
    (t.apply C rule start).1 = (s.apply C rule start).1 ∧
      SameButAny i (s.apply C rule start).2 (t.apply C rule start).2 := by
  by_cases hhook : C.hasHook s.mode rule = true
  · obtain ⟨hon, hook, hget⟩ : s.mode = .on ∧ ∃ hook, C.hooks.get? rule = some hook := by
      simpa [Context.hasHook, Option.isSome_iff_exists] using hhook
    let answer : Bool × σ :=
      hook.invoke ⟨String.ofList (start.since s.cursor), start.position⟩ s.state
    have htold : SameButAny i { s with state := answer.2 } { t with state := answer.2 } :=
      ⟨⟨h.cursor, h.mode, rfl⟩, h.depth, h.journal⟩
    have hsince : start.since t.cursor = start.since s.cursor := congrArg start.since h.cursor
    rw [Session.apply_of_hook hon hget, Session.apply_of_hook (h.mode.trans hon) hget, hsince,
      h.state]
    exact ⟨rfl, htold.note _⟩
  · have hnone : C.hasHook s.mode rule = false := by simpa using hhook
    rw [Session.apply_of_hasHook_eq_false hnone,
      Session.apply_of_hasHook_eq_false (h.mode ▸ hnone)]
    exact ⟨rfl, h⟩

end SameButAny

/-- All steps keep what the two sessions have in common. A property may be asked of all that the
second run writes. -/
def Simulation.padding (C : Context σ) (P : Entry → Prop) (i : Journal) : Simulation C C :=
  { Simulation.shallower C i with
    rel := fun s t => SameButAny i t s
    like := fun e e' => RaisedAlike C (Journal.Padded i) e' e
    fair := Journal.Since P i
    fair_of_suffix := Journal.Since.of_suffix
    rest_eq := fun h => congrArg Cursor.rest h.cursor.symm
    advance := fun n h =>
      ⟨⟨congrArg (Cursor.advance n) h.cursor, h.mode, h.state⟩, h.depth, h.journal⟩
    passLineBreak := fun h =>
      ⟨⟨congrArg (fun c => (c.passLineBreak C.lineBreak).2) h.cursor, h.mode, h.state⟩, h.depth,
        h.journal⟩
    rewind := fun h h' => ⟨⟨h.cursor, h'.mode, h'.state⟩, h'.depth, h'.journal⟩
    hooksOff := fun h => ⟨⟨h.cursor, rfl, h.state⟩, h.depth, h.journal⟩
    restore := fun h h' => ⟨⟨h'.cursor, h.mode, h'.state⟩, h'.depth, h'.journal⟩
    raise := fun {s t} rule h => by
      have hnoted := h.note (.raise rule)
      have hposition : t.position = s.position := congrArg Cursor.position h.cursor.symm
      refine ⟨?_, hnoted⟩
      rw [Session.raise_eq, Session.raise_eq, hposition]
      exact .raised rule s.position hnoted.journal
    refuse := fun _ h hd _ => ⟨h.depth ▸ hd, .same _, h.note _⟩
    enter := fun rule h hd => ⟨h.depth ▸ hd, h.opened rule⟩
    close := fun _ h => h.closed _
    apply := fun rule h h' _ => by
      obtain ⟨haccepted, hsame⟩ := h'.apply rule _
      rw [h.cursor]
      exact ⟨haccepted.symm, hsame⟩ }

/-- Two runs from one session that end alike, at the same place and with the same user's state.
The second one has reported more rules for single characters, and for the rest the same. -/
structure RunsAlikeButAny (C : Context σ) (s : Session σ) (run run' : Outcome × Session σ) : Prop
    extends SameButAny s.journal run.2 run'.2 where
  outcome : OutcomesAlike C (Journal.Padded s.journal) run.1 run'.1

theorem Simulation.Like.runsAlikeButAny {P : Entry → Prop} {run run' : Outcome × Session σ}
    (h : (padding C P s.journal).Like run run') : RunsAlikeButAny C s run' run := by
  cases h with
  | matched hr => exact ⟨hr, .refl _⟩
  | mismatched hr => exact ⟨hr, .refl _⟩
  | failed he hr => exact ⟨hr, .failed he⟩

/-! ## One round -/

theorem rawAll_any (hany : C.hooks.get? "any" = none) (hd : s.depth < C.maxDepth)
    (he : s.cursor.isEmpty = false) :
    Rule.rawAll C [.any] s = (.matched, ((s.opened "any").advance 1).closed (.success "any")) := by
  obtain ⟨x, rest, hrest⟩ : ∃ x rest, s.cursor.rest = x :: rest := by
    cases hs : s.cursor.rest with
    | nil => simp [Cursor.isEmpty, hs] at he
    | cons x rest => exact ⟨x, rest, rfl⟩
  have hraw : Rule.raw C .any (s.opened "any") = (.matched, (s.opened "any").advance 1) := by
    simp [Rule.raw, Matcher.character, Matcher.consume, hrest]
  have hrun : Matcher.enclosed C Rule.any.name (Rule.raw C .any) s =
      (.matched, ((s.opened "any").advance 1).closed (.success "any")) := by
    rw [Rule.name, Matcher.enclosed_of_lt hd, hraw]
    simp only [Session.apply_of_none hany]
  rw [Rule.rawAll, Rule.rawAll, Matcher.andThen, hrun]
  rfl

/-- A round of the rule for any character, beside one of a loop without a body. -/
theorem Simulation.like_roundOf_any {P : Entry → Prop} {f : Matcher σ}
    (hany : C.hooks.get? "any" = none) (hd : s.depth < C.maxDepth) (h : SameButAny i t s)
    (he : s.cursor.isEmpty = false) :
    (padding C P i).Like (Rule.roundOf [.any] (Rule.rawAll C [.any]) s) (Rule.roundOf [] f t) := by
  have hround : Rule.roundOf [.any] (Rule.rawAll C [.any]) s =
      (.matched, ((s.opened "any").advance 1).closed (.success "any")) :=
    rawAll_any hany hd he
  have hs : 1 ≤ s.cursor.left := Nat.lt_of_le_of_lt (Nat.zero_le _) (Cursor.left_next_lt he)
  have ht : 1 ≤ t.cursor.left := h.cursor ▸ hs
  have hopened : (s.opened "any").advance 1 = (s.opened "any").rewind (s.cursor.advance 1) :=
    Session.advance_of_le hs
  have hpassed : Rule.roundOf [] f t = (.matched, t.rewind (t.cursor.advance 1)) :=
    congrArg (Prod.mk Outcome.matched) (Session.advance_of_le ht)
  rw [hround, hpassed, hopened]
  exact .matched ⟨⟨congrArg (Cursor.advance 1) h.cursor, h.mode, h.state⟩,
    by simpa using h.depth, .any rfl rfl h.journal⟩

end PegScan
