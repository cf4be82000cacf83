import PegScan.Proofs.Session.Steps

/-! # Where a run ends

With actions only, a run can be followed without its journal: what matters is the cursor at its
end, and what the actions have made of the user's state. -/

namespace PegScan

variable {σ : Type} {C : Context σ}

/-- A run ends at a cursor and with a user's state. Of the rest of the session it changes
nothing but the journal. -/
def Matcher.Ends (f : Matcher σ) (s : Session σ) (o : Outcome) (c : Cursor) (state : σ) : Prop :=
  ∃ journal, f s = (o, { s with cursor := c, state := state, journal := journal })

namespace Matcher.Ends

variable {f g : Matcher σ} {s : Session σ} {o : Outcome} {c d : Cursor} {a a' : σ}
  {rule : String} {e : Error}

/-! ## Combinators -/

theorem of_eq {t : Session σ} (h : f s = (o, t)) (hm : t.mode = s.mode) (hd : t.depth = s.depth) :
    Ends f s o t.cursor t.state :=
  ⟨t.journal, by rw [h, ← hm, ← hd]⟩

theorem andThen (hf : Ends f s .matched c a)
    (hg : ∀ j, Ends g { s with cursor := c, state := a, journal := j } o d a') :
    Ends (f.andThen g) s o d a' := by
  obtain ⟨j, hj⟩ := hf
  obtain ⟨k, hk⟩ := hg j
  exact ⟨k, by rw [Matcher.andThen, hj, ← hk]⟩

theorem orElse (hf : Ends f s .mismatched c a)
    (hg : ∀ j, Ends g { s with cursor := c, state := a, journal := j } o d a') :
    Ends (f.orElse g) s o d a' := by
  obtain ⟨j, hj⟩ := hf
  obtain ⟨k, hk⟩ := hg j
  exact ⟨k, by rw [Matcher.orElse, hj, ← hk]⟩

theorem orElse_of_ne (hf : Ends f s o c a) (ho : o ≠ .mismatched) : Ends (f.orElse g) s o c a := by
  obtain ⟨j, hj⟩ := hf
  refine ⟨j, ?_⟩
  rw [Matcher.orElse, hj]
  cases o with
  | mismatched => exact (ho rfl).elim
  | _ => rfl

theorem andThen_of_ne (hf : Ends f s o c a) (ho : o ≠ .matched) : Ends (f.andThen g) s o c a := by
  obtain ⟨j, hj⟩ := hf
  refine ⟨j, ?_⟩
  rw [Matcher.andThen, hj]
  cases o with
  | matched => exact (ho rfl).elim
  | _ => rfl

theorem required_of_ne (hf : Ends f s o c a) (ho : o ≠ .mismatched) :
    Ends (f.required C rule) s o c a := by
  obtain ⟨j, hj⟩ := hf
  refine ⟨j, ?_⟩
  rw [Matcher.required, hj]
  cases o with
  | mismatched => exact (ho rfl).elim
  | _ => rfl

theorem required_failed (hr : C.raise = fun _ rule p => .requiredMatch rule p)
    (hf : Ends f s .mismatched c a) :
    Ends (f.required C rule) s (.failed (.requiredMatch rule c.position)) c a := by
  obtain ⟨j, hj⟩ := hf
  constructor
  rw [Matcher.required, hj]
  simp only [Session.raise_eq, hr]
  rfl

/-! ## Loops -/

/-- A loop goes on where a round has ended with fewer characters left. -/
theorem repeated_eq (hf : Ends f s .matched c a) (hlt : c.left < s.cursor.left) :
    ∃ journal, repeated f s =
      repeated f { s with cursor := c, state := a, journal := journal } := by
  obtain ⟨j, hj⟩ := hf
  refine ⟨j, ?_⟩
  conv_lhs => rw [repeated, hj]
  exact if_pos hlt

theorem repeated (hf : Ends f s .mismatched c a) : Ends (repeated f) s .matched s.cursor a := by
  obtain ⟨j, hj⟩ := hf
  exact ⟨j, by rw [Matcher.repeated, hj]; rfl⟩

theorem repeated_failed (hf : Ends f s (.failed e) c a) :
    Ends (Matcher.repeated f) s (.failed e) c a := by
  obtain ⟨j, hj⟩ := hf
  exact ⟨j, by rw [Matcher.repeated, hj]⟩

/-! ## Enclosed matchers -/

theorem enclosed_mismatched (hf : Ends f (s.opened rule) .mismatched c a)
    (hd : s.depth < C.maxDepth) : Ends (enclosed C rule f) s .mismatched s.cursor a := by
  obtain ⟨j, hj⟩ := hf
  constructor
  rw [enclosed_of_lt hd, hj]
  rfl

theorem enclosed_failed (hf : Ends f (s.opened rule) (.failed e) c a)
    (hd : s.depth < C.maxDepth) : Ends (enclosed C rule f) s (.failed e) c a := by
  obtain ⟨j, hj⟩ := hf
  constructor
  rw [enclosed_of_lt hd, hj]
  rfl

/-- At the limit a rule is refused where it stands. -/
theorem enclosed_refused (hd : C.maxDepth ≤ s.depth) :
    Ends (Matcher.enclosed C rule f) s (.failed (.depthLimitExceeded rule C.maxDepth))
      s.cursor s.state :=
  of_eq (t := s.note (.refused rule)) (enclosed_of_le hd) rfl rfl

/-- A match of a rule without a hook. -/
theorem enclosed (hf : Ends f (s.opened rule) .matched c a) (hd : s.depth < C.maxDepth)
    (hh : C.hooks.get? rule = none) : Ends (enclosed C rule f) s .matched c a := by
  obtain ⟨j, hj⟩ := hf
  constructor
  rw [enclosed_of_lt hd, hj]
  simp only [Session.apply_of_none hh]
  rfl

/-- A match of a rule with an action, which sees the characters that have been passed. -/
theorem enclosed_action {run : Matched → σ → σ} {cs : List Char}
    (hf : Ends f (s.opened rule) .matched c a) (hp : s.cursor.Passes cs c)
    (hd : s.depth < C.maxDepth) (hon : s.mode = .on)
    (hh : C.hooks.get? rule = some (.action run)) :
    Ends (Matcher.enclosed C rule f) s .matched c (run ⟨String.ofList cs, s.position⟩ a) := by
  obtain ⟨j, hj⟩ := hf
  constructor
  rw [enclosed_of_lt hd, hj]
  dsimp only
  rw [Session.apply_of_action ?_ hh, ← hp.since_eq]
  · rfl
  · exact hon

end Matcher.Ends
end PegScan
