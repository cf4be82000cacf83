import PegScan.Proofs.Peg.Evaluator
import PegScan.Proofs.Session.Derivation

/-! # Matchers agree with evaluators

A matcher moves one shared cursor and goes back where it has to. With hooks off it comes to
what the evaluator of the same rule says of the characters behind the cursor, unless the limit
on the nesting of rules stops it. -/

namespace PegScan

open Peg

variable {σ : Type} {C : Context σ}

/-- The end of a run bears out a verdict on what followed its start. A run that the depth limit
has stopped bears out any verdict. -/
inductive Describes (s : Session σ) (v : Verdict) : Outcome → Session σ → Prop where
  | matched {t cs} : v = .success cs.length → s.cursor.Passes cs t.cursor →
      t.mode = s.mode → Describes s v .matched t
  | mismatched {t} : v = .mismatch → t.mode = s.mode → Describes s v .mismatched t
  | required {t rule p n} : v = .fatal rule n → p.offset = s.position.offset + n →
      Describes s v (.failed (.requiredMatch rule p)) t
  | limit {t rule bound} : Describes s v (.failed (.depthLimitExceeded rule bound)) t

namespace Describes

variable {s t u : Session σ} {v : Verdict} {o : Outcome}

/-- A verdict depends on the cursor at the start of the run, and on the mode. -/
theorem of_start_eq (h : Describes t v o u) (hc : t.cursor = s.cursor) (hm : t.mode = s.mode) :
    Describes s v o u := by
  cases h with
  | matched hv hp hu => exact .matched hv (hc ▸ hp) (hu.trans hm)
  | mismatched hv hu => exact .mismatched hv (hu.trans hm)
  | required hv hp => exact .required hv (by simpa only [Session.position_eq, hc] using hp)
  | limit => exact .limit

/-- A run that starts further on, told from an earlier place. -/
theorem shift {cs : List Char} (h : Describes t v o u) (hp : s.cursor.Passes cs t.cursor)
    (hm : t.mode = s.mode) : Describes s (v.shift cs.length) o u := by
  cases h with
  | matched hv hq hu =>
      refine .matched ?_ (hp.trans hq) (hu.trans hm)
      rw [hv, Verdict.shift, List.length_append]
  | mismatched hv hu =>
      refine .mismatched ?_ (hu.trans hm)
      rw [hv, Verdict.shift]
  | required hv hq =>
      refine .required (by rw [hv, Verdict.shift]) ?_
      rw [hq, Session.position_eq, hp.offset, Session.position_eq, Nat.add_assoc]
  | limit => exact .limit

end Describes

/-- A matcher with hooks off comes to what an evaluator says of the characters that follow. -/
def Matcher.Agrees (f : Matcher σ) (ev : Evaluator) : Prop :=
  ∀ s, s.mode = .off → Describes s (ev s.cursor.rest) (f s).1 (f s).2

namespace Matcher

variable {f g : Matcher σ} {ev ev' : Evaluator}

theorem Agrees.of_eq {s t : Session σ} {o : Outcome} (hf : Agrees f ev) (h : f s = (o, t))
    (hm : s.mode = .off) : Describes s (ev s.cursor.rest) o t := by
  simpa only [h] using hf s hm

/-! ## Characters and line breaks -/

theorem agrees_consume {n : ℕ} {test : List Char → Bool}
    (hyes : ∀ cs, test cs = true → n ≤ cs.length ∧ ev cs = .success n)
    (hno : ∀ cs, test cs = false → ev cs = .mismatch) :
    Agrees (consume n test : Matcher σ) ev := by
  intro s _
  unfold consume
  split
  · rename_i ht
    obtain ⟨hn, hv⟩ := hyes _ ht
    rw [Session.advance_of_le (s.cursor.left_eq ▸ hn)]
    exact .matched (by simp [hv, hn]) (Cursor.passes_advance n s.cursor) rfl
  · rename_i ht
    exact .mismatched (hno _ (by simpa using ht)) rfl

theorem agrees_character (test : Char → Bool) :
    Agrees (character test : Matcher σ) (Evaluator.character test) := by
  apply agrees_consume
  · rintro (_ | ⟨c, cs⟩) h
    · simp at h
    · simp_all [Evaluator.character]
  · rintro (_ | ⟨c, cs⟩) h
    · rfl
    · simp_all [Evaluator.character]

theorem agrees_text (chars : List Char) :
    Agrees (consume chars.length chars.isPrefixOf : Matcher σ) (Evaluator.text chars) := by
  apply agrees_consume
  · intro cs h
    exact ⟨(List.isPrefixOf_iff_prefix.mp h).length_le, by simp [Evaluator.text, h]⟩
  · intro cs h
    simp [Evaluator.text, h]

theorem agrees_endOfText :
    Agrees (consume 0 List.isEmpty : Matcher σ) Evaluator.endOfText := by
  apply agrees_consume
  · intro cs h
    simp_all [Evaluator.endOfText]
  · intro cs h
    simp_all [Evaluator.endOfText]

theorem agrees_lineBreak : Agrees (Matcher.lineBreak C) (Evaluator.lineBreak C.lineBreak) := by
  intro s _
  have hp := s.cursor.passes_longest C.lineBreak
  have hw := C.lineBreak.width_eq_length_longest s.cursor.rest
  simp only [Matcher.lineBreak, Session.passLineBreak_eq]
  by_cases h : C.lineBreak.longest s.cursor.rest = []
  · have hc : (s.cursor.passLineBreak C.lineBreak).1.consumed = false := by
      simp [Cursor.passLineBreak, hw, h]
    simp only [hc]
    exact .mismatched (by simp [Evaluator.lineBreak, h]) rfl
  · have hc : (s.cursor.passLineBreak C.lineBreak).1.consumed = true := by
      simp [Cursor.passLineBreak, hw, h]
    simp only [hc]
    exact .matched (by simp [Evaluator.lineBreak, h]) hp rfl

/-! ## Combinators -/

/-- The second one has to agree only where the first one may have ended. -/
theorem Agrees.andThen_of (hf : Agrees f ev)
    (hg : ∀ s t, f s = (.matched, t) → t.mode = .off →
      Describes t (ev' t.cursor.rest) (g t).1 (g t).2) :
    Agrees (f.andThen g) (ev.andThen ev') := by
  intro s hm
  unfold Matcher.andThen Evaluator.andThen
  rcases h : f s with ⟨o, t⟩
  cases hf.of_eq h hm with
  | matched hv hp ht =>
      rw [hv]
      simpa only [hp.rest_eq_drop] using (hg s t h (ht.trans hm)).shift hp ht
  | mismatched hv ht => exact .mismatched (by rw [hv]) ht
  | required hv hp => exact .required (by rw [hv]) hp
  | limit => exact .limit

theorem Agrees.andThen (hf : Agrees f ev) (hg : Agrees g ev') :
    Agrees (f.andThen g) (ev.andThen ev') :=
  hf.andThen_of fun _ t _ ht => hg t ht

theorem Agrees.orElse (hf : Agrees f ev) (hback : Restores f) (hg : Agrees g ev') :
    Agrees (f.orElse g) (ev.orElse ev') := by
  intro s hm
  unfold Matcher.orElse Evaluator.orElse
  rcases h : f s with ⟨o, t⟩
  cases hf.of_eq h hm with
  | matched hv hp ht => exact .matched (by rw [hv]) hp ht
  | mismatched hv ht =>
      rw [hv]
      simpa only [hback h] using (hg t (ht.trans hm)).of_start_eq (hback h) ht
  | required hv hp => exact .required (by rw [hv]) hp
  | limit => exact .limit

theorem Agrees.optional (hf : Agrees f ev) : Agrees f.optional ev.optional := by
  intro s hm
  unfold Matcher.optional Evaluator.optional Evaluator.orElse
  rcases h : f s with ⟨o, t⟩
  cases hf.of_eq h hm with
  | matched hv hp ht => exact .matched (by rw [hv]) hp ht
  | mismatched hv ht => exact .matched (by rw [hv]; rfl) (.refl s.cursor) ht
  | required hv hp => exact .required (by rw [hv]) hp
  | limit => exact .limit

theorem Agrees.lookAhead (hf : Agrees f ev) : Agrees f.lookAhead ev.ahead := by
  intro s hm
  unfold Matcher.lookAhead Evaluator.ahead
  rcases h : f (s.setMode .off) with ⟨o, t⟩
  have hs : Describes s (ev s.cursor.rest) o t := (hf.of_eq h rfl).of_start_eq rfl hm.symm
  cases hs with
  | matched hv hp ht => exact .matched (by simp_all) (.refl s.cursor) rfl
  | mismatched hv ht => exact .mismatched (by simp_all) rfl
  | required hv hp => exact .required (by simp_all) hp
  | limit => exact .limit

theorem Agrees.negate_lookAhead (hf : Agrees f ev) : Agrees f.lookAhead.negate ev.notAhead := by
  intro s hm
  unfold Matcher.negate Matcher.lookAhead Evaluator.notAhead
  rcases h : f (s.setMode .off) with ⟨o, t⟩
  have hs : Describes s (ev s.cursor.rest) o t := (hf.of_eq h rfl).of_start_eq rfl hm.symm
  cases hs with
  | matched hv hp ht => exact .mismatched (by simp_all) rfl
  | mismatched hv ht => exact .matched (by simp_all) (.refl s.cursor) rfl
  | required hv hp => exact .required (by simp_all) hp
  | limit => exact .limit

theorem Agrees.required (hr : C.raise = fun _ rule p => .requiredMatch rule p) (rule : String)
    (hf : Agrees f ev) (hback : Restores f) :
    Agrees (f.required C rule) (ev.required rule) := by
  intro s hm
  unfold Matcher.required Evaluator.required Evaluator.orElse
  rcases h : f s with ⟨o, t⟩
  cases hf.of_eq h hm with
  | matched hv hp ht => exact .matched (by rw [hv]) hp ht
  | mismatched hv ht =>
      simp only [Session.raise_eq, hr, hv]
      exact .required rfl (by simp only [Session.position_eq, hback h, Nat.add_zero])
  | required hv hp => exact .required (by rw [hv]) hp
  | limit => exact .limit

theorem Agrees.enclosed (rule : String) (hf : Agrees f ev) : Agrees (enclosed C rule f) ev := by
  intro s hm
  rcases Nat.lt_or_ge s.depth C.maxDepth with hd | hd
  · rw [enclosed_of_lt hd]
    rcases h : f (s.opened rule) with ⟨o, t⟩
    cases (hf.of_eq h hm).of_start_eq (s.cursor_opened rule) (s.mode_opened rule) with
    | matched hv hp ht =>
        have ha : (t.closed (.success rule)).apply C rule s.cursor =
            (true, t.closed (.success rule)) :=
          Session.apply_of_off (ht.trans hm)
        simp only [ha]
        exact .matched hv hp ht
    | mismatched hv ht => exact .mismatched hv ht
    | required hv hp => exact .required hv hp
    | limit => exact .limit
  · rw [enclosed_of_le hd]
    exact .limit

/-! ## Loops -/

theorem Agrees.repeated (hf : Agrees f ev) : Agrees (repeated f) (Evaluator.repeated ev) := by
  intro s hm
  fun_induction Matcher.repeated f s with
  | case1 s e t h =>
      rw [Evaluator.repeated]
      cases hf.of_eq h hm with
      | required hv hp => exact .required (by rw [hv]) hp
      | limit => exact .limit
  | case2 s t h =>
      rw [Evaluator.repeated]
      cases hf.of_eq h hm with
      | mismatched hv ht => exact .matched (by rw [hv]; rfl) (.refl s.cursor) ht
  | case3 s t h hlt ih =>
      rw [Evaluator.repeated]
      cases hf.of_eq h hm with
      | matched hv hp ht =>
          simp only [hv, if_pos (hp.left_lt_iff.mp hlt), ← hp.rest_eq_drop]
          exact (ih (ht.trans hm)).shift hp ht
  | case4 s t h hlt =>
      rw [Evaluator.repeated]
      cases hf.of_eq h hm with
      | matched hv hp ht =>
          exact .matched (by simp only [hv, if_neg (mt hp.left_lt_iff.mpr hlt)]) hp ht

/-- Where such a loop goes on, the stop has mismatched and has gone back to the start. -/
theorem describes_round (hf : Agrees f ev) (hback : Restores f)
    (hg : ∀ s, s.mode = .off → s.cursor.isEmpty = false →
      Describes s (ev' s.cursor.rest) (g s).1 (g s).2)
    {s t u : Session σ} {o : Outcome} (h : f s = (.mismatched, t)) (hm : s.mode = .off)
    (he : ¬ t.cursor.isEmpty) (hu : g t = (o, u)) :
    ev s.cursor.rest = .mismatch ∧ s.cursor.rest ≠ [] ∧ Describes s (ev' s.cursor.rest) o u := by
  cases hf.of_eq h hm with
  | mismatched hv ht =>
      have hd := hg t (ht.trans hm) (by simpa using he)
      rw [hu, hback h] at hd
      rw [Cursor.isEmpty_iff, hback h] at he
      exact ⟨hv, he, hd.of_start_eq (hback h) ht⟩

theorem Agrees.upTo (hf : Agrees f ev) (hback : Restores f)
    (hg : ∀ s, s.mode = .off → s.cursor.isEmpty = false →
      Describes s (ev' s.cursor.rest) (g s).1 (g s).2) :
    Agrees (Matcher.upTo f g) (Evaluator.upTo ev ev') := by
  intro s hm
  fun_induction Matcher.upTo f g s with
  | case1 s e t h =>
      rw [Evaluator.upTo]
      cases hf.of_eq h hm with
      | required hv hp => exact .required (by rw [hv]) hp
      | limit => exact .limit
  | case2 s t h =>
      rw [Evaluator.upTo]
      cases hf.of_eq h hm with
      | matched hv hp ht => exact .matched (by rw [hv]) hp ht
  | case3 s t h he =>
      rw [Evaluator.upTo]
      rw [Cursor.isEmpty_iff, hback h] at he
      cases hf.of_eq h hm with
      | mismatched hv ht => exact .mismatched (by simp only [hv, if_pos he]) ht
  | case4 s t h he e u hu =>
      rw [Evaluator.upTo]
      obtain ⟨hv, hne, hd⟩ := describes_round hf hback hg h hm he hu
      cases hd with
      | required hv' hp => exact .required (by simp only [hv, if_neg hne, hv']) hp
      | limit => exact .limit
  | case5 s t h he u hu =>
      rw [Evaluator.upTo]
      obtain ⟨hv, hne, hd⟩ := describes_round hf hback hg h hm he hu
      cases hd with
      | mismatched hv' ht => exact .mismatched (by simp only [hv, if_neg hne, hv']) ht
  | case6 s t h he u hu hlt ih =>
      rw [Evaluator.upTo]
      obtain ⟨hv, hne, hd⟩ := describes_round hf hback hg h hm he hu
      cases hd with
      | matched hv' hp hu =>
          simp only [hv, if_neg hne, hv', if_pos (hp.left_lt_iff.mp hlt), ← hp.rest_eq_drop]
          exact (ih (hu.trans hm)).shift hp hu
  | case7 s t h he u hu hlt =>
      rw [Evaluator.upTo]
      obtain ⟨hv, hne, hd⟩ := describes_round hf hback hg h hm he hu
      cases hd with
      | matched hv' hp hu =>
          refine .mismatched ?_ hu
          simp only [hv, if_neg hne, hv', if_neg (mt hp.left_lt_iff.mpr hlt)]

/-! ## Long brackets -/

theorem agrees_roundOf {rules : List Rule} (hf : Agrees f ev) (s : Session σ) (hm : s.mode = .off)
    (h : s.cursor.isEmpty = false) :
    Describes s (Rule.roundVerdict rules ev s.cursor.rest) (Rule.roundOf rules f s).1
      (Rule.roundOf rules f s).2 := by
  unfold Rule.roundOf Rule.roundVerdict
  split
  · have hl : 1 ≤ s.cursor.left := Nat.lt_of_le_of_lt (Nat.zero_le _) (Cursor.left_next_lt h)
    simp only [Session.advance_of_le hl]
    refine .matched ?_ (Cursor.passes_advance 1 s.cursor) rfl
    cases hr : s.cursor.rest with
    | nil => simp [Cursor.isEmpty, hr] at h
    | cons c cs => simp [Evaluator.character]
  · exact hf s hm

theorem opening?_eq_map_level? (d : Delimiters) (cs : List Char) :
    d.opening? cs = (Evaluator.level? d cs).map fun n => ⟨n + 2⟩ := by
  ext o
  rw [Delimiters.opening?_eq_some_iff, Option.map_eq_some_iff]
  simp only [Evaluator.level?_eq_some_iff]
  exact exists_congr fun n => by rw [and_comm, eq_comm]

theorem agrees_closing (d : Delimiters) (n : ℕ) :
    Agrees (consume 0 (d.closes ⟨n + 2⟩) : Matcher σ)
      (Evaluator.ahead (Evaluator.text (d.closing n))) := by
  apply agrees_consume
  · intro cs h
    have hc := List.isPrefixOf_iff_prefix.mpr (Delimiters.closes_iff.mp h)
    simp [Evaluator.ahead, Evaluator.text, hc]
  · intro cs h
    have hc : (d.closing n).isPrefixOf cs = false := by
      rw [← Bool.not_eq_true, List.isPrefixOf_iff_prefix, ← Delimiters.closes_iff, h]
      exact Bool.false_ne_true
    simp [Evaluator.ahead, Evaluator.text, hc]

/-- The body of a literal, and the closing bracket that has been found behind it. -/
theorem agrees_body (hr : C.raise = fun _ rule p => .requiredMatch rule p) (name : String)
    (d : Delimiters) (n : ℕ) {unit : Matcher σ}
    (hunit : ∀ s, s.mode = .off → s.cursor.isEmpty = false →
      Describes s (ev s.cursor.rest) (unit s).1 (unit s).2) :
    Agrees
      ((Matcher.required C name
        (Matcher.enclosed C name (Matcher.upTo (consume 0 (d.closes ⟨n + 2⟩)) unit))).andThen
          fun t => (.matched, t.advance (n + 2)))
      ((Evaluator.required name (Evaluator.upTo
        (Evaluator.ahead (Evaluator.text (d.closing n))) ev)).andThen
          (Evaluator.text (d.closing n))) := by
  have hcontent := (agrees_closing d n).upTo (restores_consume_zero _) hunit
  refine ((hcontent.enclosed name).required hr name (restores_enclosed _ _)).andThen_of ?_
  intro s t h _
  have hc := closing_of_body h
  have hl : n + 2 ≤ t.cursor.rest.length := by simpa using hc.length_le
  simp only [Session.advance_of_le (t.cursor.left_eq ▸ hl)]
  refine .matched ?_ (Cursor.passes_advance (n + 2) t.cursor) rfl
  simp [Evaluator.text, hc, hl]

theorem agrees_longBracket (hr : C.raise = fun _ rule p => .requiredMatch rule p)
    {b : LongBracket} {unit : Matcher σ}
    (hunit : ∀ s, s.mode = .off → s.cursor.isEmpty = false →
      Describes s (ev s.cursor.rest) (unit s).1 (unit s).2) :
    Agrees (Matcher.longBracket C b unit) (Evaluator.longBracket C.lineBreak b ev) := by
  intro s hm
  unfold Matcher.longBracket Evaluator.longBracket
  rw [opening?_eq_map_level?]
  cases ho : Evaluator.level? b.delimiters s.cursor.rest with
  | none => exact .mismatched rfl rfl
  | some n =>
      have hl : n + 2 ≤ s.cursor.left := by
        simpa [s.cursor.left_eq] using (Evaluator.level?_eq_some_iff.mp ho).1.length_le
      let t := s.rewind (s.cursor.advance (n + 2))
      let u := t.rewind (t.cursor.passLineBreak C.lineBreak).2
      have hsu : s.cursor.Passes _ u.cursor :=
        (Cursor.passes_advance (n + 2) s.cursor).trans (t.cursor.passes_longest C.lineBreak)
      have hk : (s.cursor.rest.take (n + 2) ++ C.lineBreak.longest t.cursor.rest).length =
          n + 2 + (C.lineBreak.longest (s.cursor.rest.drop (n + 2))).length := by
        simp [t, s.cursor.left_eq ▸ hl]
      have hd := (agrees_body hr b.contentName b.delimiters n hunit u hm).shift hsu rfl
      rw [hsu.rest_eq_drop, hk] at hd
      simp only [Option.map_some, Session.advance_of_le hl, Session.passLineBreak_eq]
      exact hd

end Matcher

/-! ## Rules -/

namespace Rule

open Matcher

theorem agrees_rawAll {rules : List Rule}
    (h : ∀ r ∈ rules, Agrees (r.raw C) (r.verdict C.lineBreak)) :
    Agrees (rawAll C rules) (verdictAll C.lineBreak rules) := by
  induction rules with
  | nil => exact fun s _ => .matched rfl (.refl s.cursor) rfl
  | cons r rules ih =>
      rw [rawAll, verdictAll]
      exact ((h r (by simp)).enclosed _).andThen (ih fun r' hr => h r' (by simp [hr]))

theorem agrees_rawFirst {rules : List Rule}
    (h : ∀ r ∈ rules, Agrees (r.raw C) (r.verdict C.lineBreak)) :
    Agrees (rawFirst C rules) (verdictFirst C.lineBreak rules) := by
  induction rules with
  | nil => exact fun s _ => .mismatched rfl rfl
  | cons r rules ih =>
      rw [rawFirst, verdictFirst]
      exact ((h r (by simp)).enclosed _).orElse (restores_enclosed _ _)
        (ih fun r' hr => h r' (by simp [hr]))

theorem agrees_raw (hr : C.raise = fun _ rule p => .requiredMatch rule p) (rule : Rule) :
    Agrees (rule.raw C) (rule.verdict C.lineBreak) := by
  induction rule with
  | any => exact agrees_character _
  | one chars => exact agrees_character _
  | notOne chars => exact agrees_character _
  | range low high => exact agrees_character _
  | text chars => exact agrees_text chars
  | endOfText => exact agrees_endOfText
  | lineBreak => exact agrees_lineBreak
  | seq rules ih => exact agrees_rawAll ih
  | choice rules ih => exact agrees_rawFirst ih
  | star rules ih => exact (agrees_rawAll ih).repeated
  | plus rules ih => exact (agrees_rawAll ih).andThen (agrees_rawAll ih).repeated
  | opt rules ih => exact (agrees_rawAll ih).optional
  | ahead rule ih => exact (ih.enclosed _).lookAhead
  | notAhead rule ih => exact (ih.enclosed _).negate_lookAhead
  | must rule ih => exact (ih.enclosed _).required hr _ (restores_enclosed _ _)
  | upTo stop body hstop hbody =>
      exact (hstop.enclosed _).upTo (restores_enclosed _ _)
        (agrees_roundOf (agrees_rawAll hbody))
  | named name rule ih => exact ih.enclosed _
  | longBracket bracket contents ih =>
      exact agrees_longBracket hr (agrees_roundOf (agrees_rawAll ih))

theorem agrees_run (hr : C.raise = fun _ rule p => .requiredMatch rule p) (rule : Rule) :
    Agrees (rule.run C) (rule.verdict C.lineBreak) :=
  (agrees_raw hr rule).enclosed _

end Rule

/-- What a verdict says about a run from a session. -/
def Peg.Verdict.HoldsOf (s : Session σ) (run : Outcome × Session σ) : Verdict → Prop
  | .success k => run.1 = .matched ∧ run.2.position.offset = s.position.offset + k ∧
      k ≤ s.cursor.rest.length ∧ run.2.cursor.rest = s.cursor.rest.drop k
  | .mismatch => run.1 = .mismatched ∧ run.2.cursor = s.cursor
  | .fatal rule k =>
      ∃ p, run.1 = .failed (.requiredMatch rule p) ∧ p.offset = s.position.offset + k

/-- With hooks off and no error but the usual one, a parse that stays within the depth limit ends
as the verdict on the rule says. -/
theorem Session.parse_agrees (C : Context σ) (rule : Rule) (s : Session σ)
    (hr : C.raise = fun _ rule p => .requiredMatch rule p) (hm : s.mode = .off)
    (hd : ∀ name bound, (s.parse C rule).1 ≠ .failed (.depthLimitExceeded name bound)) :
    (rule.verdict C.lineBreak s.cursor.rest).HoldsOf s (s.parse C rule) := by
  have h : Describes s _ (s.parse C rule).1 (s.parse C rule).2 := Rule.agrees_run hr rule s hm
  rcases hrun : s.parse C rule with ⟨o, t⟩
  rw [hrun] at h hd
  cases h with
  | matched hv hp _ =>
      rw [hv]
      refine ⟨rfl, hp.offset, ?_, hp.rest_eq_drop⟩
      rw [hp.rest, List.length_append]
      omega
  | mismatched hv _ =>
      rw [hv]
      exact ⟨rfl, Matcher.restores_enclosed rule.name (rule.raw C) hrun⟩
  | required hv hp =>
      rw [hv]
      exact ⟨_, rfl, hp⟩
  | limit => exact (hd _ _ rfl).elim

/-- Two rounds and a third one that breaks off, and a literal behind them. -/
theorem Session.parse_agrees_behind_rounds :
    let C : Context Unit := { hooks := .empty }
    let rule : Rule := .seq [.star [.one ['a'], .one ['b']], .any, .longBracket {} []]
    let s : Session Unit := ⟨.ofList ['a', 'b', 'a', 'b', 'a', '[', '=', '[', '\n', ']', ']', 'c',
      ']', '=', ']', 'd'], .off, 0, (), []⟩
    rule.verdict C.lineBreak s.cursor.rest = .success 15 ∧
      (s.parse C rule).2.position.offset = 15 ∧ (s.parse C rule).2.cursor.rest = ['d'] := by
  intro C rule s
  have hv : rule.verdict C.lineBreak s.cursor.rest = .success 15 := by decide +kernel
  have ho : (s.parse C rule).1 = .matched := by decide +kernel
  have h := Session.parse_agrees C rule s rfl rfl (by simp [ho])
  rw [hv] at h
  exact ⟨hv, h.2.1, h.2.2.2⟩

end PegScan
