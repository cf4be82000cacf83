import PegScan.Proofs.Session.Derivation

/-! # What a parse leaves as it was

Hooks may refuse any match, by any state of their own. Whatever they do, the hook mode and the
depth come back, and a parse that does not match comes back to where it began. -/

namespace PegScan

variable {σ : Type} {C : Context σ} {s t : Session σ} {o : Outcome} {ps : List Outline}

namespace Derivation

theorem mode_eq (h : Derivation C ps s o t) : t.mode = s.mode := by
  induction h with
  | succeed | mismatch | advance | passLineBreak | refused => rfl
  | andThen _ _ ih ih' => exact ih'.trans ih
  | orElse _ _ _ ih ih' => exact ih'.trans ih
  | giveUp _ ih => exact ih
  | goBack _ ih => exact ih
  | required _ _ ih => simpa using ih
  | lookAhead => rfl
  | lookAheadFailed => rfl
  | unwound _ _ _ ih => simpa using ih
  | missed _ _ _ ih => simpa using ih
  | accepted _ _ _ ha ih => simpa [ih] using congrArg (·.2.mode) ha.symm
  | vetoed _ _ _ ha ih => simpa [ih] using congrArg (·.2.mode) ha.symm

theorem depth_eq (h : Derivation C ps s o t) : t.depth = s.depth := by
  induction h with
  | succeed | mismatch | advance | passLineBreak | refused => rfl
  | andThen _ _ ih ih' => exact ih'.trans ih
  | orElse _ _ _ ih ih' => exact ih'.trans ih
  | giveUp _ ih => exact ih
  | goBack _ ih => exact ih
  | required _ _ ih => simpa using ih
  | lookAhead _ _ _ ih => simpa using ih
  | lookAheadFailed _ ih => simpa using ih
  | unwound _ _ _ ih => simp [ih]
  | missed _ _ _ ih => simp [ih]
  | accepted _ _ _ ha ih => simpa [ih] using congrArg (·.2.depth) ha.symm
  | vetoed _ _ _ ha ih => simpa [ih] using congrArg (·.2.depth) ha.symm

/-- A match ends where it began or further on. -/
theorem passes (h : Derivation C ps s o t) (ho : o = .matched) :
    ∃ cs, s.cursor.Passes cs t.cursor := by
  induction h with
  | succeed s => exact ⟨_, .refl s.cursor⟩
  | @advance _ s n _ => exact ⟨_, Cursor.passes_advance n s.cursor⟩
  | passLineBreak s => exact ⟨_, s.cursor.passes_passLineBreak C.lineBreak⟩
  | andThen _ _ ih ih' =>
      obtain ⟨cs, h⟩ := ih rfl
      obtain ⟨ds, h'⟩ := ih' ho
      exact ⟨_, h.trans h'⟩
  | orElse _ hc _ _ ih' =>
      obtain ⟨cs, h⟩ := ih' ho
      exact ⟨cs, hc ▸ h⟩
  | @goBack _ s t _ _ => exact ⟨_, .refl s.cursor⟩
  | @lookAhead _ s t _ _ _ _ _ _ => exact ⟨_, .refl s.cursor⟩
  | @accepted _ s t u _ _ _ _ ha ih =>
      obtain ⟨cs, h⟩ := ih rfl
      have hu : u.cursor = t.cursor := by
        simpa using congrArg (·.2.cursor) ha.symm
      exact ⟨cs, by simpa [hu] using h⟩
  | _ => simp at ho

end Derivation

/-- A run that keeps the mode and the depth, gives back the cursor with all of its position when
it does not match, and never ends before its start when it does. -/
structure KeepsSession (s : Session σ) (run : Outcome × Session σ) : Prop where
  mode : run.2.mode = s.mode
  depth : run.2.depth = s.depth
  back : run.1 = .mismatched → run.2.cursor = s.cursor
  forward : run.1 = .matched → s.position.offset ≤ run.2.position.offset

namespace Session

theorem keepsSession_parse (C : Context σ) (rule : Rule) (s : Session σ) :
    KeepsSession s (s.parse C rule) := by
  have h : Derivation C [rule.outline] s (s.parse C rule).1 (s.parse C rule).2 :=
    Rule.derives_run C rule s
  refine ⟨h.mode_eq, h.depth_eq, ?_, ?_⟩
  · intro ho
    exact Matcher.restores_enclosed rule.name (rule.raw C) (Prod.ext ho rfl)
  · intro ho
    obtain ⟨cs, hp⟩ := h.passes ho
    simp only [position_eq, hp.offset]
    omega

/-- A parse of all the rest is a parse whose match has to end at the end of the text. -/
theorem parseAll_eq (C : Context σ) (rule : Rule) (s : Session σ) :
    s.parseAll C rule =
      if (s.parse C rule).1 = .matched ∧ (s.parse C rule).2.cursor.isEmpty = false then
        (.mismatched, (s.parse C rule).2.rewind s.cursor)
      else s.parse C rule := by
  have hback := (keepsSession_parse C rule s).back
  unfold parseAll
  split
  · rename_i e t h
    simp [h]
  · rename_i t h
    rw [h] at hback ⊢
    simp [← hback rfl]
  · rename_i t h
    cases ht : t.cursor.isEmpty <;> simp [h, ht]

theorem keepsSession_parseAll (C : Context σ) (rule : Rule) (s : Session σ) :
    KeepsSession s (s.parseAll C rule) := by
  have h := keepsSession_parse C rule s
  rw [parseAll_eq]
  split
  · exact ⟨h.mode, h.depth, fun _ => rfl, by simp⟩
  · exact h

theorem parseAll_matched_iff (C : Context σ) (rule : Rule) (s : Session σ) :
    (s.parseAll C rule).1 = .matched ↔
      (s.parse C rule).1 = .matched ∧ (s.parse C rule).2.cursor.isEmpty = true := by
  rw [parseAll_eq]
  split
  · rename_i h
    simp [h]
  · rename_i h
    simp only [not_and, Bool.not_eq_false] at h
    simpa using h

/-- Whatever hooks there are, both ways to parse keep the session, and a parse of all the rest
matches exactly when the rule does and ends at the end of the text. -/
theorem parse_keepsSession (C : Context σ) (rule : Rule) (s : Session σ) :
    KeepsSession s (s.parse C rule) ∧ KeepsSession s (s.parseAll C rule) ∧
      ((s.parseAll C rule).1 = .matched ↔
        (s.parse C rule).1 = .matched ∧ (s.parse C rule).2.cursor.isEmpty = true) :=
  ⟨keepsSession_parse C rule s, keepsSession_parseAll C rule s, parseAll_matched_iff C rule s⟩

end Session
end PegScan
