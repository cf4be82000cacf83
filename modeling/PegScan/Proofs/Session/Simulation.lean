import Mathlib.Data.List.Forall2
import PegScan.Proofs.Session.Recording

/-! # Runs side by side

Two contexts may differ in their hooks, their limits and their errors. When every step of a
session keeps a relation between the sessions of both, all rules keep it: their runs take the
same turns, and end alike. -/

namespace PegScan

variable {σ τ : Type}

/-- A relation between the sessions of two contexts that every step keeps, and one between their
errors. Of refused rules and of hooks this is only said where the journal of the first run is
fair. -/
structure Simulation (C : Context σ) (D : Context τ) where
  rel : Session σ → Session τ → Prop
  like : Error → Error → Prop
  fair : Journal → Prop
  fair_of_suffix : ∀ {i j}, i <:+ j → fair j → fair i
  lineBreak_eq : D.lineBreak = C.lineBreak
  rest_eq : ∀ {s t}, rel s t → t.cursor.rest = s.cursor.rest
  advance : ∀ {s t} (n), rel s t →
    rel (s.rewind (s.cursor.advance n)) (t.rewind (t.cursor.advance n))
  passLineBreak : ∀ {s t}, rel s t →
    rel (s.rewind (s.cursor.passLineBreak C.lineBreak).2)
      (t.rewind (t.cursor.passLineBreak D.lineBreak).2)
  rewind : ∀ {s s' t t'}, rel s t → rel s' t' → rel (s'.rewind s.cursor) (t'.rewind t.cursor)
  hooksOff : ∀ {s t}, rel s t → rel (s.setMode .off) (t.setMode .off)
  restore : ∀ {s s' t t'}, rel s t → rel s' t' → rel (s'.setMode s.mode) (t'.setMode t.mode)
  raise : ∀ {s t} (rule), rel s t →
    like (s.raise C rule).1 (t.raise D rule).1 ∧ rel (s.raise C rule).2 (t.raise D rule).2
  refuse : ∀ {s t} (rule), rel s t → C.maxDepth ≤ s.depth →
    fair (s.note (.refused rule)).journal → D.maxDepth ≤ t.depth ∧
      like (.depthLimitExceeded rule C.maxDepth) (.depthLimitExceeded rule D.maxDepth) ∧
      rel (s.note (.refused rule)) (t.note (.refused rule))
  enter : ∀ {s t} (rule), rel s t → s.depth < C.maxDepth →
    t.depth < D.maxDepth ∧ rel (s.opened rule) (t.opened rule)
  close : ∀ {s t} {event}, event.isControl = true → rel s t → rel (s.closed event) (t.closed event)
  apply : ∀ {s s' t t'} (rule), rel s t → rel s' t' →
    fair (s'.apply C rule s.cursor).2.journal →
      (t'.apply D rule t.cursor).1 = (s'.apply C rule s.cursor).1 ∧
        rel (s'.apply C rule s.cursor).2 (t'.apply D rule t.cursor).2

namespace Simulation

variable {C : Context σ} {D : Context τ} {S : Simulation C D}

inductive Like (S : Simulation C D) : Outcome × Session σ → Outcome × Session τ → Prop
  | matched {s t} : S.rel s t → Like S (.matched, s) (.matched, t)
  | mismatched {s t} : S.rel s t → Like S (.mismatched, s) (.mismatched, t)
  | failed {s t e e'} : S.like e e' → S.rel s t → Like S (.failed e, s) (.failed e', t)

namespace Like

variable {s : Session σ} {e : Error} {run : Outcome × Session τ}

theorem of_matched (h : S.Like (.matched, s) run) : ∃ t, run = (.matched, t) ∧ S.rel s t := by
  cases h with
  | matched hr => exact ⟨_, rfl, hr⟩

theorem of_mismatched (h : S.Like (.mismatched, s) run) :
    ∃ t, run = (.mismatched, t) ∧ S.rel s t := by
  cases h with
  | mismatched hr => exact ⟨_, rfl, hr⟩

theorem of_failed (h : S.Like (.failed e, s) run) :
    ∃ e' t, run = (.failed e', t) ∧ S.like e e' ∧ S.rel s t := by
  cases h with
  | failed he hr => exact ⟨_, _, rfl, he, hr⟩

/-- Where related sessions are equal, and so are errors alike, the runs are equal. -/
theorem eq {D : Context σ} {S : Simulation C D} {run run' : Outcome × Session σ}
    (h : S.Like run run') (hrel : ∀ {s t}, S.rel s t → t = s)
    (hlike : ∀ {e e'}, S.like e e' → e' = e) : run' = run := by
  cases h with
  | matched hr => rw [hrel hr]
  | mismatched hr => rw [hrel hr]
  | failed he hr => rw [hrel hr, hlike he]

end Like

/-- From related sessions both matchers end in the same way, unless the first run is unfair. -/
def Simulates (S : Simulation C D) (f : Matcher σ) (g : Matcher τ) : Prop :=
  ∀ s t, S.rel s t → S.fair (f s).2.journal → S.Like (f s) (g t)

theorem left_eq {s : Session σ} {t : Session τ} (h : S.rel s t) :
    t.cursor.left = s.cursor.left := by
  rw [t.cursor.left_eq, s.cursor.left_eq, S.rest_eq h]

theorem isEmpty_eq {s : Session σ} {t : Session τ} (h : S.rel s t) :
    t.cursor.isEmpty = s.cursor.isEmpty := by
  rw [Cursor.isEmpty, S.rest_eq h, Cursor.isEmpty]

end Simulation

/-! ## Journals grow -/

theorem Derivation.suffix {C : Context σ} {ps : List Outline} {s t : Session σ} {o : Outcome}
    (h : Derivation C ps s o t) : s.journal <:+ t.journal := by
  obtain ⟨ts, hr⟩ := h.exists_recorded
  exact ⟨_, hr.journal.symm⟩

namespace Simulation

variable {C : Context σ} {D : Context τ} {S : Simulation C D} {ps : List Outline}
  {f g : Matcher σ} {f' g' : Matcher τ}

open Matcher

theorem fair_of_derives (hf : Derives C ps f) {s : Session σ} (h : S.fair (f s).2.journal) :
    S.fair s.journal :=
  S.fair_of_suffix (hf s).suffix h

/-! ## Characters and line breaks -/

theorem rel_advance {s : Session σ} {t : Session τ} {n : ℕ} (h : S.rel s t)
    (hn : n ≤ s.cursor.left) : S.rel (s.advance n) (t.advance n) := by
  rw [Session.advance_of_le hn, Session.advance_of_le (left_eq h ▸ hn)]
  exact S.advance n h

theorem simulates_consume {n : ℕ} {test : List Char → Bool}
    (h : ∀ cs, test cs = true → n ≤ cs.length) :
    S.Simulates (consume n test) (consume n test) := by
  intro s t hst _
  unfold consume
  rw [S.rest_eq hst]
  split
  · rename_i ht
    exact .matched (rel_advance hst (s.cursor.left_eq ▸ h _ ht))
  · exact .mismatched hst

theorem simulates_character (test : Char → Bool) :
    S.Simulates (character test) (character test) := by
  apply simulates_consume
  intro cs h
  cases cs with
  | nil => simp at h
  | cons c cs => simp

theorem probe_eq {s : Session σ} {t : Session τ} (h : S.rel s t) :
    (t.cursor.passLineBreak D.lineBreak).1 = (s.cursor.passLineBreak C.lineBreak).1 := by
  unfold Cursor.passLineBreak
  rw [S.lineBreak_eq, S.rest_eq h, left_eq h]
  dsimp only
  split <;> rfl

theorem simulates_lineBreak : S.Simulates (Matcher.lineBreak C) (Matcher.lineBreak D) := by
  intro s t hst _
  simp only [Matcher.lineBreak, Session.passLineBreak_eq, probe_eq hst]
  split
  · exact .matched (S.passLineBreak hst)
  · exact .mismatched (S.passLineBreak hst)

/-! ## Combinators -/

theorem Simulates.andThen (hf : S.Simulates f f') (hg : S.Simulates g g') (hd : Derives C ps g) :
    S.Simulates (f.andThen g) (f'.andThen g') := by
  intro s t hst hfair
  have h := hf s t hst
  unfold Matcher.andThen at hfair ⊢
  rcases hs : f s with ⟨_ | _ | e, s'⟩ <;> rw [hs] at h hfair
  · obtain ⟨t', ht, hr⟩ := (h (fair_of_derives hd hfair)).of_matched
    rw [ht]
    exact hg s' t' hr hfair
  · obtain ⟨t', ht, hr⟩ := (h hfair).of_mismatched
    rw [ht]
    exact .mismatched hr
  · obtain ⟨e', t', ht, he, hr⟩ := (h hfair).of_failed
    rw [ht]
    exact .failed he hr

theorem Simulates.orElse (hf : S.Simulates f f') (hg : S.Simulates g g') (hd : Derives C ps g) :
    S.Simulates (f.orElse g) (f'.orElse g') := by
  intro s t hst hfair
  have h := hf s t hst
  unfold Matcher.orElse at hfair ⊢
  rcases hs : f s with ⟨_ | _ | e, s'⟩ <;> rw [hs] at h hfair
  · obtain ⟨t', ht, hr⟩ := (h hfair).of_matched
    rw [ht]
    exact .matched hr
  · obtain ⟨t', ht, hr⟩ := (h (fair_of_derives hd hfair)).of_mismatched
    rw [ht]
    exact hg s' t' hr hfair
  · obtain ⟨e', t', ht, he, hr⟩ := (h hfair).of_failed
    rw [ht]
    exact .failed he hr

theorem Simulates.optional (hf : S.Simulates f f') : S.Simulates f.optional f'.optional := by
  intro s t hst hfair
  have h := hf s t hst
  unfold Matcher.optional at hfair ⊢
  rcases hs : f s with ⟨_ | _ | e, s'⟩ <;> rw [hs] at h hfair
  · obtain ⟨t', ht, hr⟩ := (h hfair).of_matched
    rw [ht]
    exact .matched hr
  · obtain ⟨t', ht, hr⟩ := (h hfair).of_mismatched
    rw [ht]
    exact .matched (S.rewind hst hr)
  · obtain ⟨e', t', ht, he, hr⟩ := (h hfair).of_failed
    rw [ht]
    exact .failed he hr

theorem Simulates.lookAhead (hf : S.Simulates f f') : S.Simulates f.lookAhead f'.lookAhead := by
  intro s t hst hfair
  have h := hf _ _ (S.hooksOff hst)
  unfold Matcher.lookAhead at hfair ⊢
  rcases hs : f (s.setMode .off) with ⟨_ | _ | e, s'⟩ <;> rw [hs] at h hfair
  · obtain ⟨t', ht, hr⟩ := (h hfair).of_matched
    rw [ht]
    exact .matched (S.rewind hst (S.restore hst hr))
  · obtain ⟨t', ht, hr⟩ := (h hfair).of_mismatched
    rw [ht]
    exact .mismatched (S.rewind hst (S.restore hst hr))
  · obtain ⟨e', t', ht, he, hr⟩ := (h hfair).of_failed
    rw [ht]
    exact .failed he (S.restore hst hr)

theorem Simulates.negate (hf : S.Simulates f f') : S.Simulates f.negate f'.negate := by
  intro s t hst hfair
  have h := hf s t hst
  unfold Matcher.negate at hfair ⊢
  rcases hs : f s with ⟨_ | _ | e, s'⟩ <;> rw [hs] at h hfair
  · obtain ⟨t', ht, hr⟩ := (h hfair).of_matched
    rw [ht]
    exact .mismatched hr
  · obtain ⟨t', ht, hr⟩ := (h hfair).of_mismatched
    rw [ht]
    exact .matched hr
  · obtain ⟨e', t', ht, he, hr⟩ := (h hfair).of_failed
    rw [ht]
    exact .failed he hr

theorem Simulates.required (rule : String) (hf : S.Simulates f f') :
    S.Simulates (f.required C rule) (f'.required D rule) := by
  intro s t hst hfair
  have h := hf s t hst
  unfold Matcher.required at hfair ⊢
  rcases hs : f s with ⟨_ | _ | e, s'⟩ <;> rw [hs] at h hfair
  · obtain ⟨t', ht, hr⟩ := (h hfair).of_matched
    rw [ht]
    exact .matched hr
  · obtain ⟨t', ht, hr⟩ := (h (S.fair_of_suffix (List.suffix_cons _ _) hfair)).of_mismatched
    obtain ⟨he, hraised⟩ := S.raise rule hr
    rw [ht]
    exact .failed he hraised
  · obtain ⟨e', t', ht, he, hr⟩ := (h hfair).of_failed
    rw [ht]
    exact .failed he hr

theorem Simulates.enclosed (rule : String) (hf : S.Simulates f f') :
    S.Simulates (enclosed C rule f) (enclosed D rule f') := by
  intro s t hst hfair
  rcases Nat.lt_or_ge s.depth C.maxDepth with hd | hd
  · obtain ⟨hd', hopened⟩ := S.enter rule hst hd
    have h := hf _ _ hopened
    rw [enclosed_of_lt hd] at hfair ⊢
    rw [enclosed_of_lt hd']
    rcases hs : f (s.opened rule) with ⟨_ | _ | e, s'⟩ <;> rw [hs] at h hfair
    · rcases ha : (s'.closed (.success rule)).apply C rule s.cursor with ⟨accepted, u⟩
      have hfair' : S.fair u.journal := by
        cases accepted <;> simpa [ha] using hfair
      have hsuffix : (s'.closed (.success rule)).journal <:+ u.journal := by
        simpa [ha] using Session.suffix_apply C rule s.cursor (s'.closed (.success rule))
      obtain ⟨t', ht, hr⟩ :=
        (h (S.fair_of_suffix ((List.suffix_cons _ _).trans hsuffix) hfair')).of_matched
      have happly := S.apply rule hst (S.close rfl hr) (by rwa [ha])
      rcases hb : (t'.closed (.success rule)).apply D rule t.cursor with ⟨accepted', v⟩
      rw [ha, hb] at happly
      obtain ⟨rfl, hr'⟩ : accepted' = accepted ∧ S.rel u v := happly
      rw [ht]
      cases accepted'
      · simpa [ha, hb] using .mismatched (S.rewind hst hr')
      · simpa [ha, hb] using .matched hr'
    · obtain ⟨t', ht, hr⟩ := (h (S.fair_of_suffix (List.suffix_cons _ _) hfair)).of_mismatched
      rw [ht]
      exact .mismatched (S.rewind hst (S.close rfl hr))
    · obtain ⟨e', t', ht, he, hr⟩ := (h (S.fair_of_suffix (List.suffix_cons _ _) hfair)).of_failed
      rw [ht]
      exact .failed he (S.close rfl hr)
  · rw [enclosed_of_le hd] at hfair ⊢
    obtain ⟨hd', he, hr⟩ := S.refuse rule hst hd hfair
    rw [enclosed_of_le hd']
    exact .failed he hr

/-! ## Loops -/

theorem Simulates.repeated (hf : S.Simulates f f') (hd : Derives C ps f) :
    S.Simulates (repeated f) (repeated f') := by
  intro s
  fun_induction Matcher.repeated f s with
  | case1 s e s' hs =>
      intro t hst hfair
      obtain ⟨e', t', ht, he, hr⟩ := (hs ▸ hf s t hst (by rwa [hs])).of_failed
      rw [Matcher.repeated, ht]
      exact .failed he hr
  | case2 s s' hs =>
      intro t hst hfair
      obtain ⟨t', ht, hr⟩ := (hs ▸ hf s t hst (by rwa [hs])).of_mismatched
      rw [Matcher.repeated, ht]
      exact .matched (S.rewind hst hr)
  | case3 s s' hs hlt ih =>
      intro t hst hfair
      have hfair' : S.fair s'.journal := fair_of_derives hd.repeated hfair
      obtain ⟨t', ht, hr⟩ := (hs ▸ hf s t hst (by rwa [hs])).of_matched
      rw [Matcher.repeated.eq_def f' t, ht]
      simpa only [left_eq hst, left_eq hr, hlt, if_true] using ih t' hr hfair
  | case4 s s' hs hlt =>
      intro t hst hfair
      obtain ⟨t', ht, hr⟩ := (hs ▸ hf s t hst (by rwa [hs])).of_matched
      rw [Matcher.repeated, ht]
      simpa only [left_eq hst, left_eq hr, hlt, if_false] using .matched hr

/-- Each round of such a loop starts with characters left, where the stop has just mismatched. -/
theorem Simulates.upTo (hf : S.Simulates f f') (hd : Derives C ps f) (hback : Restores f)
    (hg : ∀ r s t, f r = (.mismatched, s) → S.rel s t → s.cursor.isEmpty = false →
      S.fair (g s).2.journal → S.Like (g s) (g' t))
    (hgd : ∀ s, s.cursor.isEmpty = false → Derivation C ps s (g s).1 (g s).2) :
    S.Simulates (Matcher.upTo f g) (Matcher.upTo f' g') := by
  have hfair_round {s u : Session σ} {o : Outcome} (hne : ¬s.cursor.isEmpty = true)
      (hu : g s = (o, u)) (h : S.fair u.journal) : S.fair s.journal := by
    refine S.fair_of_suffix ?_ h
    simpa [hu] using (hgd s (by simpa using hne)).suffix
  intro s
  fun_induction Matcher.upTo f g s with
  | case1 s e s' hs =>
      intro t hst hfair
      obtain ⟨e', t', ht, he, hr⟩ := (hs ▸ hf s t hst (by rwa [hs])).of_failed
      rw [Matcher.upTo, ht]
      exact .failed he hr
  | case2 s s' hs =>
      intro t hst hfair
      obtain ⟨t', ht, hr⟩ := (hs ▸ hf s t hst (by rwa [hs])).of_matched
      rw [Matcher.upTo, ht]
      exact .matched hr
  | case3 s s' hs hempty =>
      intro t hst hfair
      obtain ⟨t', ht, hr⟩ := (hs ▸ hf s t hst (by rwa [hs])).of_mismatched
      rw [Matcher.upTo, ht]
      simpa only [isEmpty_eq hr, hempty, if_true] using .mismatched hr
  | case4 s s' hs hne e u hu =>
      intro t hst hfair
      have hs' := hfair_round hne hu hfair
      obtain ⟨t', ht, hr⟩ := (hs ▸ hf s t hst (by rwa [hs])).of_mismatched
      obtain ⟨e', v, hv, he, hr'⟩ :=
        (hu ▸ hg s s' t' hs hr (by simpa using hne) (by rwa [hu])).of_failed
      rw [Matcher.upTo, ht]
      simpa only [isEmpty_eq hr, hne, if_false, hv] using .failed he hr'
  | case5 s s' hs hne u hu =>
      intro t hst hfair
      have hs' := hfair_round hne hu hfair
      obtain ⟨t', ht, hr⟩ := (hs ▸ hf s t hst (by rwa [hs])).of_mismatched
      obtain ⟨v, hv, hr'⟩ :=
        (hu ▸ hg s s' t' hs hr (by simpa using hne) (by rwa [hu])).of_mismatched
      rw [Matcher.upTo, ht]
      simpa only [isEmpty_eq hr, hne, if_false, hv] using .mismatched hr'
  | case6 s s' hs hne u hu hlt ih =>
      intro t hst hfair
      have hu' : S.fair u.journal := fair_of_derives (hd.upTo hback hgd) hfair
      have hs' := hfair_round hne hu hu'
      obtain ⟨t', ht, hr⟩ := (hs ▸ hf s t hst (by rwa [hs])).of_mismatched
      obtain ⟨v, hv, hr'⟩ :=
        (hu ▸ hg s s' t' hs hr (by simpa using hne) (by rwa [hu])).of_matched
      rw [Matcher.upTo.eq_def f' g' t, ht]
      simpa only [isEmpty_eq hr, hne, Bool.false_eq_true, if_false, hv, left_eq hst, left_eq hr',
        hlt, if_true] using ih v hr' hfair
  | case7 s s' hs hne u hu hlt =>
      intro t hst hfair
      have hs' := hfair_round hne hu hfair
      obtain ⟨t', ht, hr⟩ := (hs ▸ hf s t hst (by rwa [hs])).of_mismatched
      obtain ⟨v, hv, hr'⟩ :=
        (hu ▸ hg s s' t' hs hr (by simpa using hne) (by rwa [hu])).of_matched
      rw [Matcher.upTo, ht]
      simpa only [isEmpty_eq hr, hne, if_false, hv, left_eq hst, left_eq hr', hlt]
        using .mismatched hr'

/-- A round only looks whether there are rules at all. -/
theorem simulates_roundOf {rules rules' : List Rule} (hrules : rules'.isEmpty = rules.isEmpty)
    (hf : S.Simulates f f') (s : Session σ) (t : Session τ) (hst : S.rel s t)
    (h : s.cursor.isEmpty = false) (hfair : S.fair (Rule.roundOf rules f s).2.journal) :
    S.Like (Rule.roundOf rules f s) (Rule.roundOf rules' f' t) := by
  unfold Rule.roundOf at hfair ⊢
  rw [hrules]
  split
  · exact .matched (rel_advance hst (Nat.lt_of_le_of_lt (Nat.zero_le _) (Cursor.left_next_lt h)))
  · rename_i hr
    rw [if_neg hr] at hfair
    exact hf s t hst hfair

/-! ## Long brackets -/

theorem simulates_longBracket {b : LongBracket} (hg : ∀ s t, S.rel s t →
      s.cursor.isEmpty = false → S.fair (g s).2.journal → S.Like (g s) (g' t))
    (hgd : ∀ s, s.cursor.isEmpty = false → Derivation C ps s (g s).1 (g s).2) :
    S.Simulates (longBracket C b g) (longBracket D b g') := by
  intro s t hst hfair
  unfold Matcher.longBracket at hfair ⊢
  rw [S.rest_eq hst]
  cases ho : b.delimiters.opening? s.cursor.rest with
  | none => exact .mismatched hst
  | some o =>
      obtain ⟨n, rfl, hn, -⟩ := Delimiters.opening?_eq_some_iff.mp ho
      have hl : n + 2 ≤ s.cursor.left := by
        simpa [s.cursor.left_eq] using hn.length_le
      have hclosing : Derives C ps (consume 0 (b.delimiters.closes ⟨n + 2⟩)) :=
        derives_consume fun _ _ => Nat.zero_le _
      have hbody := (((simulates_consume fun _ _ => Nat.zero_le _).upTo hclosing
        (restores_consume_zero _) (fun _ s t _ => hg s t) hgd).enclosed
          b.contentName).required b.contentName
      have hbreak : S.rel ((s.advance (n + 2)).passLineBreak C).2
          ((t.advance (n + 2)).passLineBreak D).2 := by
        simpa only [Session.passLineBreak_eq] using S.passLineBreak (rel_advance hst hl)
      have h := hbody _ _ hbreak
      rw [ho] at hfair
      dsimp only at hfair ⊢
      rcases hs : Matcher.required C b.contentName _ _ with ⟨_ | _ | e, s'⟩
      · have hw : n + 2 ≤ s'.cursor.left := by
          simpa [s'.cursor.left_eq] using (closing_of_body hs).length_le
        have hfair' : S.fair s'.journal := by
          simpa [hs, Session.advance_of_le hw] using hfair
        obtain ⟨t', ht, hr⟩ := (hs ▸ h (by rwa [hs])).of_matched
        rw [ht]
        exact .matched (rel_advance hr hw)
      · obtain ⟨t', ht, hr⟩ := (hs ▸ h (by simpa [hs] using hfair)).of_mismatched
        rw [ht]
        exact .mismatched hr
      · obtain ⟨e', t', ht, he, hr⟩ := (hs ▸ h (by simpa [hs] using hfair)).of_failed
        rw [ht]
        exact .failed he hr

/-! ## Rules -/

open Rule

theorem simulates_rawAll {rules rules' : List Rule}
    (h : List.Forall₂ (fun r r' => S.Simulates (r.run C) (r'.run D)) rules rules') :
    S.Simulates (rawAll C rules) (rawAll D rules') := by
  induction h with
  | nil =>
      intro s t hst _
      exact .matched hst
  | cons hrun _ ih =>
      rw [rawAll, rawAll]
      exact hrun.andThen ih (derives_all C fun _ => mem_outlines)

theorem simulates_rawFirst {rules rules' : List Rule}
    (h : List.Forall₂ (fun r r' => S.Simulates (r.run C) (r'.run D)) rules rules') :
    S.Simulates (rawFirst C rules) (rawFirst D rules') := by
  induction h with
  | nil =>
      intro s t hst _
      exact .mismatched hst
  | cons hrun _ ih =>
      rw [rawFirst, rawFirst]
      exact hrun.orElse ih (derives_rawFirst (fun _ => mem_outlines) fun r _ => derives_raw C r)

/-- The same rules on both sides, each of them enclosed. -/
theorem simulates_runs {rules : List Rule} (h : ∀ r ∈ rules, S.Simulates (r.raw C) (r.raw D)) :
    List.Forall₂ (fun r r' => S.Simulates (r.run C) (r'.run D)) rules rules :=
  List.forall₂_same.mpr fun r hr => (h r hr).enclosed r.name

theorem simulates_raw (S : Simulation C D) (rule : Rule) :
    S.Simulates (rule.raw C) (rule.raw D) := by
  have hall (rules : List Rule) : Derives C (outlines rules) (rawAll C rules) :=
    derives_all C fun _ => mem_outlines
  induction rule with
  | any => exact simulates_character _
  | one chars => exact simulates_character _
  | notOne chars => exact simulates_character _
  | range low high => exact simulates_character _
  | text chars =>
      rw [raw, raw]
      apply simulates_consume
      intro cs h
      exact (List.isPrefixOf_iff_prefix.mp h).length_le
  | endOfText => exact simulates_consume fun _ _ => Nat.zero_le _
  | lineBreak => exact simulates_lineBreak
  | seq rules ih => exact simulates_rawAll (simulates_runs ih)
  | choice rules ih => exact simulates_rawFirst (simulates_runs ih)
  | star rules ih => exact (simulates_rawAll (simulates_runs ih)).repeated (hall rules)
  | plus rules ih =>
      have hround := simulates_rawAll (simulates_runs ih)
      exact hround.andThen (hround.repeated (hall rules)) (hall rules).repeated
  | opt rules ih => exact (simulates_rawAll (simulates_runs ih)).optional
  | ahead rule ih => exact (ih.enclosed _).lookAhead
  | notAhead rule ih => exact (ih.enclosed _).lookAhead.negate
  | must rule ih => exact (ih.enclosed _).required _
  | upTo stop body hstop hbody =>
      have hround : Derives C (outlines (stop :: body)) (rawAll C body) :=
        derives_all C fun _ hr => mem_outlines (.tail stop hr)
      have hend : Derives C (outlines (stop :: body)) (Matcher.enclosed C stop.name (stop.raw C)) :=
        derives_enclosed (derives_raw C stop) (mem_outlines (.head body))
      exact (hstop.enclosed _).upTo hend (restores_enclosed _ _)
        (fun _ s t _ => simulates_roundOf rfl (simulates_rawAll (simulates_runs hbody)) s t)
        (derives_roundOf hround)
  | named name rule ih => exact ih.enclosed _
  | longBracket bracket contents ih =>
      exact simulates_longBracket (simulates_roundOf rfl (simulates_rawAll (simulates_runs ih)))
        (derives_roundOf (hall contents))

/-- All rules keep what every step of a session keeps. -/
theorem simulates_parse (S : Simulation C D) (rule : Rule) {s : Session σ} {t : Session τ}
    (h : S.rel s t) (hfair : S.fair (s.parse C rule).2.journal) :
    S.Like (s.parse C rule) (t.parse D rule) :=
  (simulates_raw S rule).enclosed rule.name s t h hfair

theorem simulates_parseAll (S : Simulation C D) (rule : Rule) {s : Session σ} {t : Session τ}
    (h : S.rel s t) (hfair : S.fair (s.parseAll C rule).2.journal) :
    S.Like (s.parseAll C rule) (t.parseAll D rule) := by
  have hjournal : (s.parseAll C rule).2.journal = (s.parse C rule).2.journal := by
    rw [Session.parseAll_eq]
    split <;> rfl
  have hlike := S.simulates_parse rule h (hjournal ▸ hfair)
  unfold Session.parseAll
  rcases hs : s.parse C rule with ⟨_ | _ | e, s'⟩ <;> rw [hs] at hlike
  · obtain ⟨t', ht, hr⟩ := hlike.of_matched
    simp only [ht, isEmpty_eq hr]
    split
    · exact .matched hr
    · exact .mismatched (S.rewind h hr)
  · obtain ⟨t', ht, hr⟩ := hlike.of_mismatched
    rw [ht]
    exact .mismatched (S.rewind h hr)
  · obtain ⟨e', t', ht, he, hr⟩ := hlike.of_failed
    rw [ht]
    exact .failed he hr

end Simulation
end PegScan
