import PegScan.Proofs.Text.LineBreak
import PegScan.Session.Matching

/-! # Steps of a session

What each step changes, and what it leaves as it was. -/

namespace PegScan.Session

variable {σ : Type} {C : Context σ}

/-! ## Notes, modes and rewinding -/

@[simp] theorem cursor_note (s : Session σ) (e : Event) : (s.note e).cursor = s.cursor := rfl

@[simp] theorem mode_note (s : Session σ) (e : Event) : (s.note e).mode = s.mode := rfl

@[simp] theorem depth_note (s : Session σ) (e : Event) : (s.note e).depth = s.depth := rfl

@[simp] theorem state_note (s : Session σ) (e : Event) : (s.note e).state = s.state := rfl

@[simp] theorem journal_note (s : Session σ) (e : Event) :
    (s.note e).journal = ⟨e, s.position, s.mode, s.depth⟩ :: s.journal := rfl

@[simp] theorem cursor_rewind (s : Session σ) (c : Cursor) : (s.rewind c).cursor = c := rfl

@[simp] theorem mode_rewind (s : Session σ) (c : Cursor) : (s.rewind c).mode = s.mode := rfl

@[simp] theorem depth_rewind (s : Session σ) (c : Cursor) : (s.rewind c).depth = s.depth := rfl

@[simp] theorem journal_rewind (s : Session σ) (c : Cursor) :
    (s.rewind c).journal = s.journal := rfl

@[simp] theorem rewind_cursor (s : Session σ) : s.rewind s.cursor = s := rfl

@[simp] theorem cursor_setMode (s : Session σ) (m : HookMode) :
    (s.setMode m).cursor = s.cursor := rfl

@[simp] theorem mode_setMode (s : Session σ) (m : HookMode) : (s.setMode m).mode = m := rfl

@[simp] theorem depth_setMode (s : Session σ) (m : HookMode) : (s.setMode m).depth = s.depth := rfl

@[simp] theorem journal_setMode (s : Session σ) (m : HookMode) :
    (s.setMode m).journal = s.journal := rfl

theorem position_eq (s : Session σ) : s.position = s.cursor.position := rfl

/-! ## Moving forward -/

theorem advance_of_le {s : Session σ} {n : ℕ} (h : n ≤ s.cursor.left) :
    s.advance n = s.rewind (s.cursor.advance n) := by
  simp [advance, asking, Cursor.hasAtLeast, h, rewind]

@[simp] theorem advance_zero (s : Session σ) : s.advance 0 = s :=
  advance_of_le (Nat.zero_le _)

theorem advance_one_of_cons {s : Session σ} {x : Char} {rest : List Char}
    (h : s.cursor.rest = x :: rest) : s.advance 1 = s.rewind s.cursor.next := by
  have hl : 1 ≤ s.cursor.left := by simp [s.cursor.left_eq, h]
  rw [advance_of_le hl, Cursor.advance_succ_of_cons h, Cursor.advance_zero]

/-- A policy never asks for more characters than there are. -/
theorem passLineBreak_eq (C : Context σ) (s : Session σ) :
    s.passLineBreak C =
      ((s.cursor.passLineBreak C.lineBreak).1,
        s.rewind (s.cursor.passLineBreak C.lineBreak).2) := by
  have h : C.lineBreak.width s.cursor.rest ≤ s.cursor.left :=
    s.cursor.left_eq ▸ C.lineBreak.width_le s.cursor.rest
  simp [passLineBreak, asking, Cursor.hasAtLeast, h, rewind]

/-! ## Entering and leaving a rule -/

/-- The session in which the raw matcher of a rule starts. -/
def opened (s : Session σ) (rule : String) : Session σ :=
  ({ s with depth := s.depth + 1 } : Session σ).note (.start rule)

/-- The session after the raw matcher of a rule, with the note on how it ended. -/
def closed (s : Session σ) (event : Event) : Session σ := s.leave.note event

@[simp] theorem cursor_opened (s : Session σ) (rule : String) :
    (s.opened rule).cursor = s.cursor := rfl

@[simp] theorem mode_opened (s : Session σ) (rule : String) : (s.opened rule).mode = s.mode := rfl

@[simp] theorem depth_opened (s : Session σ) (rule : String) :
    (s.opened rule).depth = s.depth + 1 := rfl

@[simp] theorem journal_opened (s : Session σ) (rule : String) :
    (s.opened rule).journal = ⟨.start rule, s.position, s.mode, s.depth + 1⟩ :: s.journal := rfl

@[simp] theorem cursor_closed (s : Session σ) (e : Event) : (s.closed e).cursor = s.cursor := rfl

@[simp] theorem mode_closed (s : Session σ) (e : Event) : (s.closed e).mode = s.mode := rfl

@[simp] theorem depth_closed (s : Session σ) (e : Event) : (s.closed e).depth = s.depth - 1 := rfl

@[simp] theorem journal_closed (s : Session σ) (e : Event) :
    (s.closed e).journal = ⟨e, s.position, s.mode, s.depth - 1⟩ :: s.journal := rfl

/-! ## Errors and hooks -/

@[simp] theorem raise_eq (C : Context σ) (rule : String) (s : Session σ) :
    s.raise C rule =
      (C.raise (s.note (.raise rule)).journal rule s.position, s.note (.raise rule)) := rfl

/-- A hook changes the user's state and the journal, and nothing else. -/
theorem apply_cases (C : Context σ) (rule : String) (start : Cursor) (s : Session σ) :
    s.apply C rule start = (true, s) ∨
      ∃ matched accepted state, s.apply C rule start =
        (accepted, ({ s with state } : Session σ).note (.hook rule matched accepted)) := by
  unfold apply
  split
  · exact .inr ⟨_, _, _, rfl⟩
  · exact .inl rfl

@[simp] theorem cursor_apply (C : Context σ) (rule : String) (start : Cursor) (s : Session σ) :
    (s.apply C rule start).2.cursor = s.cursor := by
  rcases apply_cases C rule start s with h | ⟨_, _, _, h⟩
  · rw [h]
  · rw [h]
    rfl

@[simp] theorem mode_apply (C : Context σ) (rule : String) (start : Cursor) (s : Session σ) :
    (s.apply C rule start).2.mode = s.mode := by
  rcases apply_cases C rule start s with h | ⟨_, _, _, h⟩
  · rw [h]
  · rw [h]
    rfl

@[simp] theorem depth_apply (C : Context σ) (rule : String) (start : Cursor) (s : Session σ) :
    (s.apply C rule start).2.depth = s.depth := by
  rcases apply_cases C rule start s with h | ⟨_, _, _, h⟩
  · rw [h]
  · rw [h]
    rfl

theorem suffix_apply (C : Context σ) (rule : String) (start : Cursor) (s : Session σ) :
    s.journal <:+ (s.apply C rule start).2.journal := by
  rcases apply_cases C rule start s with h | ⟨_, _, _, h⟩
  · rw [h]
  · rw [h]
    exact List.suffix_cons _ _

theorem apply_of_off {rule : String} {start : Cursor} {s : Session σ} (h : s.mode = .off) :
    s.apply C rule start = (true, s) := by
  simp [apply, h]

theorem apply_of_none {rule : String} {start : Cursor} {s : Session σ}
    (h : C.hooks.get? rule = none) : s.apply C rule start = (true, s) := by
  unfold apply
  rw [h]
  cases s.mode <;> rfl

/-- A hook sees the characters that have been passed since the start, and its answer counts. -/
theorem apply_of_hook {rule : String} {start : Cursor} {s : Session σ} {hook : Hook σ}
    (hon : s.mode = .on) (h : C.hooks.get? rule = some hook) :
    let matched : Matched := ⟨String.ofList (start.since s.cursor), start.position⟩
    s.apply C rule start = ((hook.invoke matched s.state).1,
      ({ s with state := (hook.invoke matched s.state).2 } : Session σ).note
        (.hook rule matched (hook.invoke matched s.state).1)) := by
  unfold apply
  rw [hon, h]

/-- An action accepts. -/
theorem apply_of_action {rule : String} {start : Cursor} {s : Session σ}
    {run : Matched → σ → σ} (hon : s.mode = .on) (h : C.hooks.get? rule = some (.action run)) :
    let matched : Matched := ⟨String.ofList (start.since s.cursor), start.position⟩
    s.apply C rule start =
      (true, ({ s with state := run matched s.state } : Session σ).note
        (.hook rule matched true)) :=
  apply_of_hook hon h

end PegScan.Session

namespace PegScan.Matcher

variable {σ : Type} {C : Context σ}

/-! ## Enclosed matchers -/

theorem enclosed_of_le {rule : String} {raw : Matcher σ} {s : Session σ}
    (h : C.maxDepth ≤ s.depth) :
    enclosed C rule raw s =
      (.failed (.depthLimitExceeded rule C.maxDepth), s.note (.refused rule)) := by
  simp [enclosed, Session.enter, Nat.not_lt.mpr h]

theorem enclosed_of_lt {rule : String} {raw : Matcher σ} {s : Session σ}
    (h : s.depth < C.maxDepth) :
    enclosed C rule raw s =
      match raw (s.opened rule) with
      | (.failed e, t) => (.failed e, t.closed (.unwind rule))
      | (.mismatched, t) => (.mismatched, (t.closed (.failure rule)).rewind s.cursor)
      | (.matched, t) =>
        match (t.closed (.success rule)).apply C rule s.cursor with
        | (true, u) => (.matched, u)
        | (false, u) => (.mismatched, u.rewind s.cursor) := by
  simp only [enclosed, Session.enter, h, ite_true]
  rfl

/-- A matcher that goes back to where it began when it does not match. -/
def Restores (f : Matcher σ) : Prop :=
  ∀ ⦃s t : Session σ⦄, f s = (.mismatched, t) → t.cursor = s.cursor

theorem restores_enclosed (rule : String) (raw : Matcher σ) : Restores (enclosed C rule raw) := by
  intro s t h
  rcases Nat.lt_or_ge s.depth C.maxDepth with hd | hd
  · rw [enclosed_of_lt hd] at h
    split at h
    · simp at h
    · obtain ⟨-, rfl⟩ := Prod.mk.inj h
      rfl
    · split at h
      · simp at h
      · obtain ⟨-, rfl⟩ := Prod.mk.inj h
        rfl
  · simp [enclosed_of_le hd] at h

/-- An accepted match ends where the raw matcher ended. -/
theorem matched_of_enclosed_eq {rule : String} {raw : Matcher σ} {s t : Session σ}
    (h : enclosed C rule raw s = (.matched, t)) :
    ∃ u, raw (s.opened rule) = (.matched, u) ∧ t.cursor = u.cursor := by
  rcases Nat.lt_or_ge s.depth C.maxDepth with hd | hd
  · rw [enclosed_of_lt hd] at h
    split at h
    · simp at h
    · simp at h
    · rename_i u hu
      refine ⟨u, hu, ?_⟩
      split at h
      · rename_i v hv
        obtain ⟨-, rfl⟩ := Prod.mk.inj h
        simpa [hv] using Session.cursor_apply C rule s.cursor (u.closed (.success rule))
      · simp at h
  · simp [enclosed_of_le hd] at h

theorem matched_of_required_eq {rule : String} {f : Matcher σ} {s t : Session σ}
    (h : required C rule f s = (.matched, t)) : f s = (.matched, t) := by
  unfold required at h
  split at h
  · simp at h
  · rename_i hf
    exact hf.trans h

/-! ## Looking for the end of a loop -/

theorem consume_zero (test : List Char → Bool) (s : Session σ) :
    consume 0 test s = (if test s.cursor.rest then .matched else .mismatched, s) := by
  unfold consume
  split <;> simp

theorem restores_consume_zero (test : List Char → Bool) :
    Restores (consume 0 test : Matcher σ) := by
  intro s t h
  rw [consume_zero] at h
  exact congrArg Session.cursor (Prod.mk.inj h).2.symm

/-- A loop that has matched has ended with a match of its stop. -/
theorem stop_of_upTo_eq {stop round : Matcher σ} {s t : Session σ}
    (h : upTo stop round s = (.matched, t)) : ∃ u, stop u = (.matched, t) := by
  fun_induction upTo stop round s with
  | case2 s u hu => exact ⟨s, (Prod.mk.inj h).2 ▸ hu⟩
  | case6 s u _ _ v _ _ ih => exact ih h
  | _ => simp at h

end PegScan.Matcher
