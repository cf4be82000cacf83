import PegScan.Proofs.LongBracket
import PegScan.Proofs.Rule.Parts
import PegScan.Proofs.Session.Steps

/-! # Derivations of matching runs

The rules below say what a run of a matcher is composed of: steps of the session, and what
becomes of a run inside another one. Of the grammar they only know which parts may be started
or required, and the loops do not appear in them. Every rule runs by them, so that what they
preserve holds of every parse. -/

namespace PegScan

/-- A run from one session to another one, with its outcome, that starts some of the given parts
of a grammar. -/
inductive Derivation {σ : Type} (C : Context σ) :
    List Outline → Session σ → Outcome → Session σ → Prop where
  | succeed {ps} (s) : Derivation C ps s .matched s
  | mismatch {ps} (s) : Derivation C ps s .mismatched s
  | advance {ps s n} : n ≤ s.cursor.left →
      Derivation C ps s .matched (s.rewind (s.cursor.advance n))
  | passLineBreak {ps} (s) :
      Derivation C ps s .matched (s.rewind (s.cursor.passLineBreak C.lineBreak).2)
  | andThen {ps s t u o} : Derivation C ps s .matched t → Derivation C ps t o u →
      Derivation C ps s o u
  | orElse {ps s t u o} : Derivation C ps s .mismatched t → t.cursor = s.cursor →
      Derivation C ps t o u → Derivation C ps s o u
  | giveUp {ps s t} : Derivation C ps s .matched t → Derivation C ps s .mismatched t
  | goBack {ps s t} : Derivation C ps s .mismatched t →
      Derivation C ps s .matched (t.rewind s.cursor)
  | required {ps s t p} : p ∈ ps → Derivation C ps s .mismatched t →
      Derivation C ps s (.failed (t.raise C p.name).1) (t.raise C p.name).2
  | lookAhead {ps s t o o'} : Derivation C ps (s.setMode .off) o t → (∀ e, o ≠ .failed e) →
      (∀ e, o' ≠ .failed e) → Derivation C ps s o' ((t.setMode s.mode).rewind s.cursor)
  | lookAheadFailed {ps s t e} : Derivation C ps (s.setMode .off) (.failed e) t →
      Derivation C ps s (.failed e) (t.setMode s.mode)
  | refused {ps s p} : p ∈ ps → C.maxDepth ≤ s.depth →
      Derivation C ps s (.failed (.depthLimitExceeded p.name C.maxDepth))
        (s.note (.refused p.name))
  | unwound {ps s t p e} : p ∈ ps → s.depth < C.maxDepth →
      Derivation C p.parts (s.opened p.name) (.failed e) t →
      Derivation C ps s (.failed e) (t.closed (.unwind p.name))
  | missed {ps s t p} : p ∈ ps → s.depth < C.maxDepth →
      Derivation C p.parts (s.opened p.name) .mismatched t →
      Derivation C ps s .mismatched ((t.closed (.failure p.name)).rewind s.cursor)
  | accepted {ps s t u p} : p ∈ ps → s.depth < C.maxDepth →
      Derivation C p.parts (s.opened p.name) .matched t →
      (t.closed (.success p.name)).apply C p.name s.cursor = (true, u) →
      Derivation C ps s .matched u
  | vetoed {ps s t u p} : p ∈ ps → s.depth < C.maxDepth →
      Derivation C p.parts (s.opened p.name) .matched t →
      (t.closed (.success p.name)).apply C p.name s.cursor = (false, u) →
      Derivation C ps s .mismatched (u.rewind s.cursor)

namespace Matcher

variable {σ : Type} {C : Context σ} {ps : List Outline} {f g : Matcher σ}

/-- All runs of a matcher can be derived, with the parts that it may start. -/
def Derives (C : Context σ) (ps : List Outline) (f : Matcher σ) : Prop :=
  ∀ s, Derivation C ps s (f s).1 (f s).2

theorem Derives.of_eq {s t : Session σ} {o : Outcome} (hf : Derives C ps f) (h : f s = (o, t)) :
    Derivation C ps s o t := by
  simpa only [h] using hf s

/-! ## Characters and line breaks -/

theorem derives_consume {n : ℕ} {test : List Char → Bool}
    (h : ∀ cs, test cs = true → n ≤ cs.length) : Derives C ps (consume n test) := by
  intro s
  unfold consume
  split
  · rename_i ht
    have hn : n ≤ s.cursor.left := s.cursor.left_eq ▸ h _ ht
    rw [Session.advance_of_le hn]
    exact .advance hn
  · exact .mismatch s

theorem derives_character (test : Char → Bool) : Derives C ps (character test) := by
  apply derives_consume
  intro cs h
  cases cs with
  | nil => simp at h
  | cons c cs => simp

theorem derives_lineBreak : Derives C ps (Matcher.lineBreak C) := by
  intro s
  simp only [Matcher.lineBreak, Session.passLineBreak_eq]
  split
  · exact .passLineBreak s
  · exact .giveUp (.passLineBreak s)

/-! ## Combinators -/

theorem Derives.andThen (hf : Derives C ps f) (hg : Derives C ps g) :
    Derives C ps (f.andThen g) := by
  intro s
  have hs := hf s
  unfold Matcher.andThen
  split
  · rename_i t h
    exact .andThen (hf.of_eq h) (hg t)
  · rename_i o t _ h
    exact hf.of_eq h

theorem Derives.orElse (hf : Derives C ps f) (hback : Restores f) (hg : Derives C ps g) :
    Derives C ps (f.orElse g) := by
  intro s
  unfold Matcher.orElse
  split
  · rename_i t h
    exact .orElse (hf.of_eq h) (hback h) (hg t)
  · rename_i o t _ h
    exact hf.of_eq h

theorem Derives.optional (hf : Derives C ps f) : Derives C ps f.optional := by
  intro s
  unfold Matcher.optional
  split
  · rename_i t h
    exact .goBack (hf.of_eq h)
  · rename_i o t _ h
    exact hf.of_eq h

theorem Derives.lookAhead (hf : Derives C ps f) : Derives C ps f.lookAhead := by
  intro s
  unfold Matcher.lookAhead
  split
  · rename_i e t h
    exact .lookAheadFailed (hf.of_eq h)
  · rename_i o t ho h
    exact .lookAhead (hf.of_eq h) ho ho

theorem Derives.negate_lookAhead (hf : Derives C ps f) : Derives C ps f.lookAhead.negate := by
  intro s
  unfold Matcher.negate Matcher.lookAhead
  cases h : f (s.setMode .off) with
  | mk o t =>
      cases o with
      | matched => exact .lookAhead (hf.of_eq h) (by simp) (by simp)
      | mismatched => exact .lookAhead (hf.of_eq h) (by simp) (by simp)
      | failed e => exact .lookAheadFailed (hf.of_eq h)

theorem Derives.required {p : Outline} {rule : String} (hf : Derives C ps f) (hp : p ∈ ps)
    (hn : p.name = rule) : Derives C ps (f.required C rule) := by
  subst hn
  intro s
  unfold Matcher.required
  split
  · rename_i t h
    exact .required hp (hf.of_eq h)
  · rename_i o t _ h
    exact hf.of_eq h

theorem Derives.enclosed {p : Outline} {rule : String} (hf : Derives C p.parts f) (hp : p ∈ ps)
    (hn : p.name = rule) : Derives C ps (enclosed C rule f) := by
  subst hn
  intro s
  rcases Nat.lt_or_ge s.depth C.maxDepth with hd | hd
  · rw [enclosed_of_lt hd]
    cases h : f (s.opened p.name) with
    | mk o t =>
        cases o with
        | failed e => exact .unwound hp hd (hf.of_eq h)
        | mismatched => exact .missed hp hd (hf.of_eq h)
        | matched =>
            cases ha : (t.closed (.success p.name)).apply C p.name s.cursor with
            | mk accepted u =>
                cases accepted with
                | true => simpa [ha] using .accepted hp hd (hf.of_eq h) ha
                | false => simpa [ha] using .vetoed hp hd (hf.of_eq h) ha
  · rw [enclosed_of_le hd]
    exact .refused hp hd

/-! ## Loops -/

theorem Derives.repeated (hf : Derives C ps f) : Derives C ps (repeated f) := by
  intro s
  fun_induction Matcher.repeated f s with
  | case1 s e t h => exact hf.of_eq h
  | case2 s t h => exact .goBack (hf.of_eq h)
  | case3 s t h _ ih => exact .andThen (hf.of_eq h) ih
  | case4 s t h _ => exact hf.of_eq h

/-- Each round of such a loop starts with characters left. -/
theorem Derives.upTo (hf : Derives C ps f) (hback : Restores f)
    (hg : ∀ s, s.cursor.isEmpty = false → Derivation C ps s (g s).1 (g s).2) :
    Derives C ps (Matcher.upTo f g) := by
  intro s
  fun_induction Matcher.upTo f g s with
  | case1 s e t h => exact hf.of_eq h
  | case2 s t h => exact hf.of_eq h
  | case3 s t h _ => exact hf.of_eq h
  | case4 s t h hne e u hu =>
      exact .orElse (hf.of_eq h) (hback h) (by simpa [hu] using hg t (by simpa using hne))
  | case5 s t h hne u hu =>
      exact .orElse (hf.of_eq h) (hback h) (by simpa [hu] using hg t (by simpa using hne))
  | case6 s t h hne u hu _ ih =>
      have hr : Derivation C ps t .matched u := by simpa [hu] using hg t (by simpa using hne)
      exact .orElse (hf.of_eq h) (hback h) (.andThen hr ih)
  | case7 s t h hne u hu _ =>
      have hr : Derivation C ps t .matched u := by simpa [hu] using hg t (by simpa using hne)
      exact .orElse (hf.of_eq h) (hback h) (.giveUp hr)

theorem derives_roundOf {rules : List Rule} (hf : Derives C ps f) (s : Session σ)
    (h : s.cursor.isEmpty = false) :
    Derivation C ps s (Rule.roundOf rules f s).1 (Rule.roundOf rules f s).2 := by
  unfold Rule.roundOf
  split
  · have hl : 1 ≤ s.cursor.left := Nat.lt_of_le_of_lt (Nat.zero_le _) (Cursor.left_next_lt h)
    simpa only [Session.advance_of_le hl] using Derivation.advance hl
  · exact hf s

/-! ## Long brackets -/

/-- Where the body of a literal has been accepted, the closing bracket lies ahead. -/
theorem closing_of_body {rule name : String} {d : Delimiters} {n : ℕ} {round : Matcher σ}
    {s t : Session σ}
    (h : Matcher.required C rule
      (enclosed C name (Matcher.upTo (consume 0 (d.closes ⟨n + 2⟩)) round)) s = (.matched, t)) :
    d.closing n <+: t.cursor.rest := by
  obtain ⟨u, hu, ht⟩ := matched_of_enclosed_eq (matched_of_required_eq h)
  obtain ⟨v, hv⟩ := stop_of_upTo_eq hu
  rw [consume_zero] at hv
  obtain ⟨ho, rfl⟩ := Prod.mk.inj hv
  have hc : d.closes ⟨n + 2⟩ v.cursor.rest = true := by
    by_contra hn
    simp [hn] at ho
  rw [ht]
  exact Delimiters.closes_iff.mp hc

theorem derives_bracketBody {b : LongBracket} {body : Outline} {unit : Matcher σ} (o : Opening)
    (hp : body ∈ ps) (hname : body.name = b.contentName)
    (hunit : ∀ s, s.cursor.isEmpty = false → Derivation C body.parts s (unit s).1 (unit s).2) :
    Derives C ps (Matcher.required C b.contentName (enclosed C b.contentName
      (Matcher.upTo (consume 0 (b.delimiters.closes o)) unit))) := by
  have hclosing : Derives C body.parts (consume 0 (b.delimiters.closes o)) :=
    derives_consume fun _ _ => Nat.zero_le _
  exact ((hclosing.upTo (restores_consume_zero _) hunit).enclosed hp hname).required hp hname

theorem derives_longBracket {b : LongBracket} {body : Outline} {unit : Matcher σ}
    (hp : body ∈ ps) (hname : body.name = b.contentName)
    (hunit : ∀ s, s.cursor.isEmpty = false → Derivation C body.parts s (unit s).1 (unit s).2) :
    Derives C ps (Matcher.longBracket C b unit) := by
  intro s
  unfold Matcher.longBracket
  cases ho : b.delimiters.opening? s.cursor.rest with
  | none => exact .mismatch s
  | some o =>
      obtain ⟨n, rfl, hn, -⟩ := Delimiters.opening?_eq_some_iff.mp ho
      have hl : n + 2 ≤ s.cursor.left := by
        simpa [s.cursor.left_eq] using hn.length_le
      have hbody := derives_bracketBody (C := C) ⟨n + 2⟩ hp hname hunit
      simp only [Session.advance_of_le hl, Session.passLineBreak_eq]
      refine .andThen (.advance hl) (.andThen (.passLineBreak _) ?_)
      split
      · rename_i t h
        have hw : n + 2 ≤ t.cursor.left := by
          simpa [t.cursor.left_eq] using (closing_of_body h).length_le
        rw [Session.advance_of_le hw]
        exact .andThen (hbody.of_eq h) (.advance hw)
      · rename_i o t _ h
        exact hbody.of_eq h

end Matcher

/-! ## Rules -/

namespace Rule

variable {σ : Type} {C : Context σ}

open Matcher

/-- A rule that may be started runs as a whole where its raw matcher does. -/
theorem derives_enclosed {r : Rule} (hf : Derives C r.outline.parts (r.raw C))
    (hp : r.outline ∈ ps) : Derives C ps (enclosed C r.name (r.raw C)) :=
  hf.enclosed hp r.name_outline

theorem derives_rawAll {rules : List Rule} (hp : ∀ r ∈ rules, r.outline ∈ ps)
    (h : ∀ r ∈ rules, Derives C r.outline.parts (r.raw C)) : Derives C ps (rawAll C rules) := by
  induction rules with
  | nil => exact .succeed
  | cons r rules ih =>
      rw [rawAll]
      exact (derives_enclosed (h r (by simp)) (hp r (by simp))).andThen
        (ih (fun r' hr => hp r' (by simp [hr])) fun r' hr => h r' (by simp [hr]))

theorem derives_rawFirst {rules : List Rule} (hp : ∀ r ∈ rules, r.outline ∈ ps)
    (h : ∀ r ∈ rules, Derives C r.outline.parts (r.raw C)) : Derives C ps (rawFirst C rules) := by
  induction rules with
  | nil => exact .mismatch
  | cons r rules ih =>
      rw [rawFirst]
      exact (derives_enclosed (h r (by simp)) (hp r (by simp))).orElse (restores_enclosed _ _)
        (ih (fun r' hr => hp r' (by simp [hr])) fun r' hr => h r' (by simp [hr]))

/-- The raw matcher of every rule runs by the rules of derivation, and starts the parts of the
rule only. -/
theorem derives_raw (C : Context σ) (rule : Rule) : Derives C rule.outline.parts (rule.raw C) := by
  induction rule with
  | any => exact derives_character _
  | one chars => exact derives_character _
  | notOne chars => exact derives_character _
  | range low high => exact derives_character _
  | text chars =>
      rw [raw]
      apply derives_consume
      intro cs h
      exact (List.isPrefixOf_iff_prefix.mp h).length_le
  | endOfText => exact derives_consume fun _ _ => Nat.zero_le _
  | lineBreak => exact derives_lineBreak
  | seq rules ih => exact derives_rawAll (outline_mem_parts rfl) ih
  | choice rules ih => exact derives_rawFirst (outline_mem_parts rfl) ih
  | star rules ih => exact (derives_rawAll (outline_mem_parts rfl) ih).repeated
  | plus rules ih =>
      have hall := derives_rawAll (outline_mem_parts (o := (plus rules).outline) rfl) ih
      exact hall.andThen hall.repeated
  | opt rules ih => exact (derives_rawAll (outline_mem_parts rfl) ih).optional
  | ahead rule ih => exact (derives_enclosed ih (outline_mem_parts rfl _ (.head []))).lookAhead
  | notAhead rule ih =>
      exact (derives_enclosed ih (outline_mem_parts rfl _ (.head []))).negate_lookAhead
  | must rule ih =>
      have hp := outline_mem_parts (o := (must rule).outline) rfl rule (.head [])
      exact (derives_enclosed ih hp).required hp rule.name_outline
  | upTo stop body hstop hbody =>
      have hp : ∀ r ∈ stop :: body, r.outline ∈ (upTo stop body).outline.parts :=
        outline_mem_parts rfl
      exact (derives_enclosed hstop (hp stop (.head body))).upTo (restores_enclosed _ _)
        (derives_roundOf (derives_rawAll (fun r hr => hp r (.tail stop hr)) hbody))
  | named name rule ih => exact derives_enclosed ih (outline_mem_parts rfl _ (.head []))
  | longBracket bracket contents ih =>
      exact derives_longBracket (bodyOutline_mem_parts bracket contents) rfl
        (derives_roundOf (derives_rawAll (outline_mem_parts_bodyOutline bracket) ih))

theorem derives_all (C : Context σ) {rules : List Rule} (hp : ∀ r ∈ rules, r.outline ∈ ps) :
    Derives C ps (rawAll C rules) :=
  derives_rawAll hp fun r _ => derives_raw C r

theorem derives_run (C : Context σ) (rule : Rule) : Derives C [rule.outline] (rule.run C) :=
  derives_enclosed (derives_raw C rule) (.head [])

end Rule
end PegScan
