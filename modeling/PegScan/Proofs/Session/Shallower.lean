import PegScan.Proofs.Session.DepthLimit

/-! # Runs at another depth

The depth of a session decides nothing but whether a rule is refused. A run that stands less deep
than another one ends in the same way, as long as the other one is refused nothing. -/

namespace PegScan

variable {σ : Type} {C : Context σ} {i : Journal} {s t : Session σ}

def Journal.Since (P : Entry → Prop) (i k : Journal) : Prop :=
  ∀ log, k = log ++ i → ∀ x ∈ log, P x

theorem Journal.Since.of_suffix {P : Entry → Prop} {j k : Journal} (h : j <:+ k)
    (hk : Since P i k) : Since P i j := by
  obtain ⟨new, rfl⟩ := h
  rintro log rfl x hx
  exact hk (new ++ log) (List.append_assoc ..).symm x (List.mem_append_right new hx)

/-! ## Sessions at one place -/

/-- The second session stands where the first one does, with the same user's state. -/
structure SamePlace (s t : Session σ) : Prop where
  cursor : t.cursor = s.cursor
  mode : t.mode = s.mode
  state : t.state = s.state

namespace SamePlace

theorem closed (h : SamePlace s t) (event event' : Event) :
    SamePlace (s.closed event) (t.closed event') :=
  ⟨h.cursor, h.mode, h.state⟩

theorem rewind (h : SamePlace s t) (c : Cursor) : SamePlace (s.rewind c) (t.rewind c) :=
  ⟨rfl, h.mode, h.state⟩

/-- A hook is told the same on both sides, so that it answers the same. -/
theorem apply {rule rule' : String} (h : SamePlace s t) (start : Cursor)
    (hhook : s.mode = .off ∨ C.hooks.get? rule' = C.hooks.get? rule) :
    (t.apply C rule' start).1 = (s.apply C rule start).1 ∧
      SamePlace (s.apply C rule start).2 (t.apply C rule' start).2 := by
  by_cases hon : s.mode = .on
  · have hget : C.hooks.get? rule' = C.hooks.get? rule := by simpa [hon] using hhook
    cases hrule : C.hooks.get? rule with
    | none =>
        rw [Session.apply_of_none hrule, Session.apply_of_none (hget.trans hrule)]
        exact ⟨rfl, h⟩
    | some hook =>
        rw [Session.apply_of_hook hon hrule,
          Session.apply_of_hook (h.mode.trans hon) (hget.trans hrule), h.cursor, h.state]
        exact ⟨rfl, rfl, h.mode, rfl⟩
  · have hoff : s.mode = .off := by
      cases hmode : s.mode <;> simp_all
    rw [Session.apply_of_off hoff, Session.apply_of_off (h.mode.trans hoff)]
    exact ⟨rfl, h⟩

end SamePlace

/-- The second session stands no deeper either. The first one has gone on from a journal. -/
structure Shallower (i : Journal) (s t : Session σ) : Prop extends SamePlace s t where
  depth : t.depth ≤ s.depth
  since : i <:+ s.journal

namespace Shallower

theorem refl (s : Session σ) : Shallower s.journal s s :=
  ⟨⟨rfl, rfl, rfl⟩, Nat.le_refl _, List.suffix_rfl⟩

theorem note (h : Shallower i s t) (event event' : Event) :
    Shallower i (s.note event) (t.note event') :=
  ⟨⟨h.cursor, h.mode, h.state⟩, h.depth, h.since.trans (List.suffix_cons _ _)⟩

theorem opened (h : Shallower i s t) (rule rule' : String) :
    Shallower i (s.opened rule) (t.opened rule') :=
  ⟨⟨h.cursor, h.mode, h.state⟩, Nat.succ_le_succ h.depth,
    h.since.trans (List.suffix_cons _ _)⟩

theorem closed (h : Shallower i s t) (event event' : Event) :
    Shallower i (s.closed event) (t.closed event') :=
  ⟨h.toSamePlace.closed event event', Nat.sub_le_sub_right h.depth 1,
    h.since.trans (List.suffix_cons _ _)⟩

theorem apply (h : Shallower i s t) (rule : String) (start : Cursor) :
    (t.apply C rule start).1 = (s.apply C rule start).1 ∧
      Shallower i (s.apply C rule start).2 (t.apply C rule start).2 := by
  obtain ⟨haccepted, hplace⟩ := h.toSamePlace.apply start (.inr (rfl : _ = C.hooks.get? rule))
  refine ⟨haccepted, hplace, ?_, h.since.trans (Session.suffix_apply C rule start s)⟩
  simpa using h.depth

end Shallower

/-- Where no rule is refused, the depth is of no account. An error may differ, since it may tell
how deep the rules were nested. -/
def Simulation.shallower (C : Context σ) (i : Journal) : Simulation C C where
  rel := Shallower i
  like e e' := (∀ j j', C.raise j = C.raise j') → e' = e
  fair := Journal.Since (fun x => x.event.isRefusal = false) i
  fair_of_suffix := Journal.Since.of_suffix
  lineBreak_eq := Eq.refl (C.withLimit C.maxDepth).lineBreak
  rest_eq h := congrArg Cursor.rest h.cursor
  advance n h :=
    ⟨⟨congrArg (Cursor.advance n) h.cursor, h.mode, h.state⟩, h.depth, h.since⟩
  passLineBreak h :=
    ⟨⟨congrArg (fun c => (c.passLineBreak C.lineBreak).2) h.cursor, h.mode, h.state⟩, h.depth,
      h.since⟩
  rewind h h' := ⟨⟨h.cursor, h'.mode, h'.state⟩, h'.depth, h'.since⟩
  hooksOff h := ⟨⟨h.cursor, rfl, h.state⟩, h.depth, h.since⟩
  restore h h' := ⟨⟨h'.cursor, h.mode, h'.state⟩, h'.depth, h'.since⟩
  raise rule h := by
    refine ⟨fun hraise => ?_, h.note _ _⟩
    simp only [Session.raise_eq, Session.position_eq, h.cursor]
    exact congrFun₂ (hraise _ _) _ _
  refuse := by
    intro s t rule h hd hfair
    obtain ⟨log, hlog⟩ := h.since
    have hj : (s.note (.refused rule)).journal = (s.moment.entry (.refused rule) :: log) ++ i := by
      rw [List.cons_append, hlog, Session.journal_note_eq]
    have hno := hfair _ hj _ (.head log)
    simp [Moment.entry, Event.isRefusal] at hno
  enter rule h hd := ⟨Nat.lt_of_le_of_lt h.depth hd, h.opened rule rule⟩
  close _ h := h.closed _ _
  apply rule h h' _ := by
    rw [h.cursor]
    exact h'.apply rule _

theorem Journal.Unrefused.fair {k : Journal} (h : Journal.Unrefused i k) :
    (Simulation.shallower C i).fair k := by
  obtain ⟨log, rfl, hlog⟩ := h
  intro log' hlog'
  rwa [List.append_cancel_right hlog'.symm]

theorem lt_maxDepth_of_fair {f : Matcher σ} (name : String) (hi : i <:+ s.journal)
    (hfair : (Simulation.shallower C i).fair (Matcher.enclosed C name f s).2.journal) :
    s.depth < C.maxDepth := by
  by_contra hge
  obtain ⟨log, hlog⟩ := hi
  rw [Matcher.enclosed_of_le (Nat.not_lt.mp hge), Session.journal_note_eq, ← hlog] at hfair
  have hno := hfair (s.moment.entry (.refused name) :: log) rfl _ (.head log)
  simp [Moment.entry, Event.isRefusal] at hno

/-! ## Ends of two runs -/

/-- The outcomes of two runs that raise their errors behind different journals. -/
structure SameOutcome (C : Context σ) (o o' : Outcome) : Prop where
  settled : ∀ p, (∀ e, p ≠ .failed e) → (o' = p ↔ o = p)
  same : (∀ j j', C.raise j = C.raise j') → o' = o

theorem SameOutcome.refl (o : Outcome) : SameOutcome C o o := ⟨fun _ _ => .rfl, fun _ => rfl⟩

theorem SameOutcome.exists_failed {o o' : Outcome} {e : Error}
    (h : SameOutcome C o o') (he : o = .failed e) : ∃ e', o' = .failed e' := by
  subst he
  cases o' with
  | failed e' => exact ⟨e', rfl⟩
  | matched => simpa using (h.settled .matched (by simp)).mp rfl
  | mismatched => simpa using (h.settled .mismatched (by simp)).mp rfl

theorem Simulation.Like.sameOutcome {run run' : Outcome × Session σ}
    (h : (shallower C i).Like run run') :
    SameOutcome C run.1 run'.1 ∧ Shallower i run.2 run'.2 := by
  cases h with
  | matched hr => exact ⟨.refl _, hr⟩
  | mismatched hr => exact ⟨.refl _, hr⟩
  | failed he hr =>
      refine ⟨⟨fun p hp => ?_, fun hraise => congrArg Outcome.failed (he hraise)⟩, hr⟩
      simp [(hp _).symm]

/-- Two runs end in the same way, at the same place and with the same user's state. -/
structure SameEnd (C : Context σ) (run run' : Outcome × Session σ) : Prop
    extends SamePlace run.2 run'.2 where
  outcome : SameOutcome C run.1 run'.1

/-- The names of two rules count only for their hooks. -/
theorem SameEnd.enclosed {f g : Matcher σ} {n n' : String} (hd : s.depth < C.maxDepth)
    (h : SameEnd C (f (s.opened n)) (g (s.opened n')))
    (hhook : (f (s.opened n)).2.mode = .off ∨ C.hooks.get? n' = C.hooks.get? n) :
    SameEnd C (Matcher.enclosed C n f s) (Matcher.enclosed C n' g s) := by
  rw [Matcher.enclosed_of_lt hd, Matcher.enclosed_of_lt hd]
  rcases hf : f (s.opened n) with ⟨o, u⟩
  rcases hg : g (s.opened n') with ⟨o', v⟩
  rw [hf, hg] at h
  rw [hf] at hhook
  obtain ⟨hplace, houtcome⟩ := h
  cases o with
  | matched =>
      obtain rfl : o' = .matched := (houtcome.settled .matched (by simp)).mpr rfl
      obtain ⟨haccepted, hend⟩ :=
        (hplace.closed (.success n) (.success n')).apply s.cursor hhook
      dsimp only
      rcases hu : (u.closed (.success n)).apply C n s.cursor with ⟨accepted, u'⟩
      rcases hv : (v.closed (.success n')).apply C n' s.cursor with ⟨accepted', v'⟩
      rw [hu, hv] at haccepted hend
      obtain rfl : accepted' = accepted := haccepted
      cases accepted' with
      | true => exact ⟨hend, .refl _⟩
      | false => exact ⟨hend.rewind _, .refl _⟩
  | mismatched =>
      obtain rfl : o' = .mismatched := (houtcome.settled .mismatched (by simp)).mpr rfl
      exact ⟨(hplace.closed _ _).rewind _, .refl _⟩
  | failed e =>
      obtain ⟨e', rfl⟩ := houtcome.exists_failed rfl
      exact ⟨hplace.closed _ _, houtcome⟩

end PegScan
