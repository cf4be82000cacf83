import PegScan.Proofs.Session.DepthLimit

/-! # Loops by their own tests

A loop is read here round by round, with no other test than the one that it makes itself: after a
round it looks whether the offset has changed. Nothing in this says that a loop ends. That it does,
after no more rounds than there are characters left and one more, rests on what is known of the
matchers inside it: none of them ever ends before the place where it began. -/

namespace PegScan

variable {σ : Type} {C : Context σ}

/-! ## Never before the start -/

/-- At no moment of a history does the cursor stand before the place where the history began. -/
theorem History.offset_le {s : Session σ} {been : List (Session σ)} (h : History C s been) :
    ∀ u ∈ been, s.position.offset ≤ u.position.offset := by
  refine h.forall_of_step le_rfl fun {_ t _} hbeen ht hstep => ?_
  have hle := hbeen t ht
  cases hstep with
  | @advance n _ => exact hle.trans (Nat.le.intro (Cursor.passes_advance n t.cursor).offset.symm)
  | passLineBreak =>
      have hp := t.cursor.passes_passLineBreak C.lineBreak
      exact hle.trans (Nat.le.intro hp.offset.symm)
  | @goBack u hu => exact hbeen u hu
  | apply rule _ _ => simpa only [Session.position_eq, Session.cursor_apply] using hle
  | _ => exact hle

/-- The second session follows on the first one, and at no moment in between has the cursor stood
before the place of the first one. -/
def Forward (C : Context σ) (s t : Session σ) : Prop :=
  ∃ past, History C s (t :: past) ∧ ∀ u ∈ t :: past, s.position.offset ≤ u.position.offset

theorem GoesOn.forward {s t : Session σ} (h : GoesOn C s t) : Forward C s t := by
  obtain ⟨past, hpast, -⟩ := h (.start : History C s [s])
  exact ⟨past, hpast, hpast.offset_le⟩

/-- The offset changes in a match exactly if fewer characters are left. -/
theorem Matcher.Derives.offset_ne_iff {ps : List Outline} {f : Matcher σ} {s t : Session σ}
    (hf : Derives C ps f) (h : f s = (.matched, t)) :
    t.position.offset ≠ s.position.offset ↔ t.cursor.left < s.cursor.left := by
  obtain ⟨cs, hp⟩ := (hf.of_eq h).passes rfl
  rw [Session.position_eq, Session.position_eq, hp.offset, hp.left]
  omega

/-! ## Loops -/

/-- How a matcher may run from a session. Nothing says that it ends, or in one way only. -/
abbrev Behaviour (σ : Type) := Session σ → Outcome × Session σ → Prop

def Behaviour.of (f : Matcher σ) : Behaviour σ := fun s run => f s = run

theorem Behaviour.of_iff {f : Matcher σ} {s : Session σ} {run : Outcome × Session σ} :
    of f s run ↔ f s = run :=
  .rfl

structure Loop (σ : Type) where
  /-- A round that is followed by another one. -/
  again : Session σ → Session σ → Prop
  /-- A round behind which the loop ends. -/
  last : Session σ → Outcome × Session σ → Prop

namespace Loop

open Matcher

inductive Ends (L : Loop σ) : ℕ → Session σ → Outcome × Session σ → Prop
  | last {s run} : L.last s run → Ends L 1 s run
  | again {n s t run} : L.again s t → Ends L n t run → Ends L (n + 1) s run

/-- A loop that does what a matcher does. Every round but the last one takes characters, and no
round goes before its start. -/
structure Implements (C : Context σ) (L : Loop σ) (f : Matcher σ) : Prop where
  last : ∀ {s run}, L.last s run → f s = run
  again : ∀ {s t}, L.again s t → f s = f t
  goesOn : ∀ s, (∃ t, L.again s t) ∨ ∃ run, L.last s run
  takes : ∀ {s t}, L.again s t → ∃ cs, cs ≠ [] ∧ s.cursor.Passes cs t.cursor
  forward : ∀ {s t}, L.again s t → Forward C s t
  forward_last : ∀ {s run}, L.last s run → Forward C s run.2

namespace Implements

variable {L : Loop σ} {f : Matcher σ}

theorem left_lt (h : L.Implements C f) {s t : Session σ} (hst : L.again s t) :
    t.cursor.left < s.cursor.left := by
  obtain ⟨cs, hcs, hp⟩ := h.takes hst
  have hpos := List.length_pos_iff.mpr hcs
  have hleft := hp.left
  omega

theorem eq_of_ends (h : L.Implements C f) {n : ℕ} {s : Session σ} {run : Outcome × Session σ}
    (he : L.Ends n s run) : f s = run := by
  induction he with
  | last hlast => exact h.last hlast
  | again hst _ ih => exact (h.again hst).trans ih

/-- There are no more rounds than characters left, and one more. -/
theorem rounds_le (h : L.Implements C f) {n : ℕ} {s : Session σ} {run : Outcome × Session σ}
    (he : L.Ends n s run) : n ≤ s.cursor.left + 1 := by
  induction he with
  | last => omega
  | again hst _ ih =>
      have hlt := h.left_lt hst
      omega

theorem exists_ends (h : L.Implements C f) (s : Session σ) : ∃ n, L.Ends n s (f s) := by
  -- The characters that are left decide: a round that is not the last one leaves fewer of them.
  induction hleft : s.cursor.left using Nat.strong_induction_on generalizing s with
  | _ left ih =>
      subst hleft
      rcases h.goesOn s with ⟨t, hst⟩ | ⟨run, hlast⟩
      · obtain ⟨n, hn⟩ := ih _ (h.left_lt hst) t rfl
        exact ⟨n + 1, .again hst (h.again hst ▸ hn)⟩
      · exact ⟨1, .last (h.last hlast ▸ hlast)⟩

end Implements

/-! ## Repetition -/

inductive RepeatedLast (round : Behaviour σ) (s : Session σ) : Outcome × Session σ → Prop
  | idle {t} : round s (.matched, t) → t.position.offset = s.position.offset →
      RepeatedLast round s (.matched, t)
  | missed {t} : round s (.mismatched, t) → RepeatedLast round s (.matched, t.rewind s.cursor)
  | failed {e t} : round s (.failed e, t) → RepeatedLast round s (.failed e, t)

/-- A round is repeated as long as it matches and the offset changes. -/
def repeated (round : Behaviour σ) : Loop σ where
  again s t := round s (.matched, t) ∧ t.position.offset ≠ s.position.offset
  last := RepeatedLast round

theorem implements_repeated {ps : List Outline} {f : Matcher σ} (hf : Derives C ps f) :
    (repeated (.of f)).Implements C (Matcher.repeated f) where
  last := by
    intro s run hlast
    rw [Matcher.repeated]
    cases hlast with
    | @idle t hround hsame =>
        have hlt := mt (hf.offset_ne_iff hround).mpr (by simpa using hsame)
        rw [Behaviour.of_iff.mp hround]
        exact if_neg hlt
    | missed hround => rw [Behaviour.of_iff.mp hround]
    | failed hround => rw [Behaviour.of_iff.mp hround]
  again := by
    rintro s t ⟨hround, hne⟩
    rw [Matcher.repeated, Behaviour.of_iff.mp hround]
    exact if_pos ((hf.offset_ne_iff hround).mp hne)
  goesOn := by
    intro s
    rcases hrun : f s with ⟨_ | _ | e, t⟩
    · by_cases hsame : t.position.offset = s.position.offset
      · exact .inr ⟨_, .idle hrun hsame⟩
      · exact .inl ⟨t, hrun, hsame⟩
    · exact .inr ⟨_, .missed hrun⟩
    · exact .inr ⟨_, .failed hrun⟩
  takes := by
    rintro s t ⟨hround, hne⟩
    obtain ⟨cs, hp⟩ := (hf.of_eq hround).passes rfl
    refine ⟨cs, ?_, hp⟩
    rintro rfl
    exact hne hp.offset
  forward := by
    rintro s t ⟨hround, -⟩
    exact (hf.of_eq hround).goesOn.forward
  forward_last := by
    intro s run hlast
    cases hlast with
    | idle hround _ => exact (hf.of_eq hround).goesOn.forward
    | missed hround => exact (hf.of_eq hround).goesOn.back.forward
    | failed hround => exact (hf.of_eq hround).goesOn.forward

/-! ## Rounds up to a stop -/

/-- A round of a loop up to a stop that is not the last one. Without a body one character is
passed, and nothing is looked at. -/
inductive UpToAgain (stop : Behaviour σ) (body : List Rule) (round : Behaviour σ) (s : Session σ) :
    Session σ → Prop
  | character {t} : stop s (.mismatched, t) → t.cursor.isEmpty = false → body = [] →
      UpToAgain stop body round s (t.advance 1)
  | body {t u} : stop s (.mismatched, t) → t.cursor.isEmpty = false → body ≠ [] →
      round t (.matched, u) → u.position.offset ≠ t.position.offset →
      UpToAgain stop body round s u

inductive UpToLast (stop : Behaviour σ) (body : List Rule) (round : Behaviour σ) (s : Session σ) :
    Outcome × Session σ → Prop
  | found {t} : stop s (.matched, t) → UpToLast stop body round s (.matched, t)
  | stopFailed {e t} : stop s (.failed e, t) → UpToLast stop body round s (.failed e, t)
  | textEnded {t} : stop s (.mismatched, t) → t.cursor.isEmpty = true →
      UpToLast stop body round s (.mismatched, t)
  | idle {t u} : stop s (.mismatched, t) → t.cursor.isEmpty = false → body ≠ [] →
      round t (.matched, u) → u.position.offset = t.position.offset →
      UpToLast stop body round s (.mismatched, u)
  | missed {t u} : stop s (.mismatched, t) → t.cursor.isEmpty = false → body ≠ [] →
      round t (.mismatched, u) → UpToLast stop body round s (.mismatched, u)
  | failed {e t u} : stop s (.mismatched, t) → t.cursor.isEmpty = false → body ≠ [] →
      round t (.failed e, u) → UpToLast stop body round s (.failed e, u)

/-- Rounds of a body, or single characters without one, as long as a stop mismatches. -/
def upTo (stop : Behaviour σ) (body : List Rule) (round : Behaviour σ) : Loop σ where
  again := UpToAgain stop body round
  last := UpToLast stop body round

section UpTo

variable {ps : List Outline} {f g : Matcher σ} {body : List Rule} {s t u : Session σ}

/-- Where the stop has mismatched, the round decides. -/
theorem upTo_of_mismatched (h : f s = (.mismatched, t)) (he : t.cursor.isEmpty = false) :
    Matcher.upTo f g s =
      match g t with
      | (.failed e, u) => (.failed e, u)
      | (.mismatched, u) => (.mismatched, u)
      | (.matched, u) =>
        if u.cursor.left < s.cursor.left then Matcher.upTo f g u else (.mismatched, u) := by
  rw [Matcher.upTo, h]
  exact if_neg (by simp [he])

theorem roundOf_of_ne_nil (h : body ≠ []) : Rule.roundOf body g = g :=
  if_neg (by simpa using h)

theorem derivation_of_roundOf (hg : Derives C ps g) (he : t.cursor.isEmpty = false)
    (h : Rule.roundOf body g t = (.matched, u)) : Derivation C ps t .matched u := by
  have hround : Derivation C ps t (Rule.roundOf body g t).1 (Rule.roundOf body g t).2 :=
    derives_roundOf hg t he
  rwa [h] at hround

/-- Both kinds of rounds leave fewer characters where they are followed by another one. -/
theorem UpToAgain.exists_round (hg : Derives C ps g) (h : UpToAgain (.of f) body (.of g) s u) :
    ∃ t, f s = (.mismatched, t) ∧ t.cursor.isEmpty = false ∧
      Rule.roundOf body g t = (.matched, u) ∧ u.cursor.left < t.cursor.left := by
  cases h with
  | @character t hstop he hbody =>
      subst hbody
      refine ⟨t, hstop, he, rfl, ?_⟩
      have hlt := Cursor.left_next_lt he
      have hnext : t.cursor.advance 1 = t.cursor.next := by simp [Cursor.advance, he]
      rw [Session.advance_of_le (by omega), hnext]
      exact hlt
  | @body t _ hstop he hne hround hoffset =>
      refine ⟨t, hstop, he, ?_, (hg.offset_ne_iff hround).mp hoffset⟩
      rw [roundOf_of_ne_nil hne]
      exact hround

theorem UpToLast.eq (hback : Restores f) (hg : Derives C ps g) {run : Outcome × Session σ}
    (h : UpToLast (.of f) body (.of g) s run) :
    Matcher.upTo f (Rule.roundOf body g) s = run := by
  cases h with
  | found hstop => rw [Matcher.upTo, Behaviour.of_iff.mp hstop]
  | stopFailed hstop => rw [Matcher.upTo, Behaviour.of_iff.mp hstop]
  | textEnded hstop he =>
      rw [Matcher.upTo, Behaviour.of_iff.mp hstop]
      exact if_pos he
  | @idle t _ hstop he hne hround hsame =>
      have hlt := mt (hg.offset_ne_iff hround).mpr (by simpa using hsame)
      rw [hback hstop] at hlt
      rw [upTo_of_mismatched hstop he, roundOf_of_ne_nil hne, Behaviour.of_iff.mp hround]
      exact if_neg hlt
  | @missed t _ hstop he hne hround =>
      rw [upTo_of_mismatched hstop he, roundOf_of_ne_nil hne, Behaviour.of_iff.mp hround]
  | @failed _ t _ hstop he hne hround =>
      rw [upTo_of_mismatched hstop he, roundOf_of_ne_nil hne, Behaviour.of_iff.mp hround]

theorem UpToLast.forward (hf : Derives C ps f) (hg : Derives C ps g) {run : Outcome × Session σ}
    (h : UpToLast (.of f) body (.of g) s run) : Forward C s run.2 := by
  cases h with
  | found hstop | stopFailed hstop | textEnded hstop _ => exact (hf.of_eq hstop).goesOn.forward
  | idle hstop _ _ hround _ | missed hstop _ _ hround | failed hstop _ _ hround =>
      exact ((hf.of_eq hstop).goesOn.trans (hg.of_eq hround).goesOn).forward

theorem upTo_goesOn (f g : Matcher σ) (body : List Rule) (s : Session σ) :
    (∃ t, UpToAgain (.of f) body (.of g) s t) ∨ ∃ run, UpToLast (.of f) body (.of g) s run := by
  rcases hstop : f s with ⟨_ | _ | e, t⟩
  · exact .inr ⟨_, .found hstop⟩
  · by_cases he : t.cursor.isEmpty = true
    · exact .inr ⟨_, .textEnded hstop he⟩
    rw [Bool.not_eq_true] at he
    by_cases hbody : body = []
    · exact .inl ⟨_, .character hstop he hbody⟩
    rcases hround : g t with ⟨_ | _ | e, u⟩
    · by_cases hsame : u.position.offset = t.position.offset
      · exact .inr ⟨_, .idle hstop he hbody hround hsame⟩
      · exact .inl ⟨_, .body hstop he hbody hround hsame⟩
    · exact .inr ⟨_, .missed hstop he hbody hround⟩
    · exact .inr ⟨_, .failed hstop he hbody hround⟩
  · exact .inr ⟨_, .stopFailed hstop⟩

theorem implements_upTo (hf : Derives C ps f) (hback : Restores f) (hg : Derives C ps g) :
    (upTo (.of f) body (.of g)).Implements C (Matcher.upTo f (Rule.roundOf body g)) where
  last hlast := UpToLast.eq hback hg hlast
  again := by
    intro s u hagain
    obtain ⟨t, hstop, he, hround, hlt⟩ := UpToAgain.exists_round hg hagain
    rw [hback hstop] at hlt
    rw [upTo_of_mismatched hstop he, hround]
    exact if_pos hlt
  goesOn := upTo_goesOn f g body
  takes := by
    intro s u hagain
    obtain ⟨t, hstop, he, hround, hlt⟩ := UpToAgain.exists_round hg hagain
    have hderived := derivation_of_roundOf hg he hround
    obtain ⟨cs, hp⟩ := hderived.passes rfl
    refine ⟨cs, List.length_pos_iff.mp (hp.left_lt_iff.mp hlt).1, ?_⟩
    rwa [← hback hstop]
  forward := by
    intro s u hagain
    obtain ⟨t, hstop, he, hround, -⟩ := UpToAgain.exists_round hg hagain
    have hderived := derivation_of_roundOf hg he hround
    exact ((hf.of_eq hstop).goesOn.trans hderived.goesOn).forward
  forward_last hlast := UpToLast.forward hf hg hlast

/-- The rounds of the body of a literal. -/
theorem implements_body (d : Delimiters) (o : Opening) (contents : List Rule)
    (hg : Derives C ps g) :
    (upTo (.of (consume 0 (d.closes o))) contents (.of g)).Implements C
      (Matcher.upTo (consume 0 (d.closes o)) (Rule.roundOf contents g)) := by
  have hclosing : Derives C ps (consume 0 (d.closes o)) := derives_consume fun _ _ => Nat.zero_le _
  exact implements_upTo hclosing (restores_consume_zero _) hg

end UpTo

end Loop
end PegScan
