import PegScan.Proofs.Session.Loops

/-! # Every parse ends

The behaviours of rules are those of their matchers, with loops that only make their own tests. A
behaviour may have no end, or several ones; that of a rule always has exactly one. -/

namespace PegScan

variable {σ : Type} {C : Context σ}

namespace Behaviour

open Matcher

/-! ## Combinators -/

inductive AndThen (F G : Behaviour σ) (s : Session σ) : Outcome × Session σ → Prop
  | second {t run} : F s (.matched, t) → G t run → AndThen F G s run
  | first {o t} : F s (o, t) → o ≠ .matched → AndThen F G s (o, t)

inductive OrElse (F G : Behaviour σ) (s : Session σ) : Outcome × Session σ → Prop
  | second {t run} : F s (.mismatched, t) → G t run → OrElse F G s run
  | first {o t} : F s (o, t) → o ≠ .mismatched → OrElse F G s (o, t)

/-- A behaviour that is run once, from a session that has been prepared. The combinator of
matchers says what is made of its end. -/
def Once (K : Matcher σ → Matcher σ) (prepare : Session σ → Session σ) (F : Behaviour σ) :
    Behaviour σ :=
  fun s run => ∃ inside, F (prepare s) inside ∧ K (fun _ => inside) s = run

/-- Nothing is run inside a rule that is refused. -/
def Enclosed (C : Context σ) (rule : String) (F : Behaviour σ) : Behaviour σ := fun s run =>
  if s.depth < C.maxDepth then Once (enclosed C rule) (·.opened rule) F s run
  else (.failed (.depthLimitExceeded rule C.maxDepth), s.note (.refused rule)) = run

def Looped (L : Loop σ) : Behaviour σ := fun s run => ∃ n, L.Ends n s run

def BracketBody (C : Context σ) (b : LongBracket) (opening : Opening) (contents : List Rule)
    (round : Behaviour σ) : Behaviour σ :=
  Once (required C b.contentName) id (Enclosed C b.contentName
    (Looped (.upTo (.of (consume 0 (b.delimiters.closes opening))) contents round)))

def LongBracket (C : Context σ) (b : LongBracket) (contents : List Rule) (round : Behaviour σ) :
    Behaviour σ := fun s run =>
  match b.delimiters.opening? s.cursor.rest with
  | none => (.mismatched, s) = run
  | some opening =>
    AndThen (BracketBody C b opening contents round)
      (.of fun t => (.matched, t.advance opening.width))
      ((s.advance opening.width).passLineBreak C).2 run

variable {ps : List Outline} {f g : Matcher σ}

theorem andThen_of (f g : Matcher σ) : AndThen (.of f) (.of g) = of (f.andThen g) := by
  funext s run
  refine propext ⟨fun h => ?_, fun h => ?_⟩
  · cases h with
    | second hf hg => rwa [of_iff, Matcher.andThen, of_iff.mp hf]
    | @first o t hf ho =>
        rw [of_iff, Matcher.andThen, of_iff.mp hf]
        cases o <;> simp_all
  · rw [of_iff, Matcher.andThen] at h
    rcases hf : f s with ⟨_ | _ | e, t⟩ <;> rw [hf] at h
    · exact .second hf h
    · exact h ▸ .first hf (by simp)
    · exact h ▸ .first hf (by simp)

theorem orElse_of (f g : Matcher σ) : OrElse (.of f) (.of g) = of (f.orElse g) := by
  funext s run
  refine propext ⟨fun h => ?_, fun h => ?_⟩
  · cases h with
    | second hf hg => rwa [of_iff, Matcher.orElse, of_iff.mp hf]
    | @first o t hf ho =>
        rw [of_iff, Matcher.orElse, of_iff.mp hf]
        cases o <;> simp_all
  · rw [of_iff, Matcher.orElse] at h
    rcases hf : f s with ⟨_ | _ | e, t⟩ <;> rw [hf] at h
    · exact h ▸ .first hf (by simp)
    · exact .second hf h
    · exact h ▸ .first hf (by simp)

theorem once_of {K : Matcher σ → Matcher σ} {prepare : Session σ → Session σ}
    (h : ∀ s, K (fun _ => f (prepare s)) s = K f s) : Once K prepare (.of f) = of (K f) := by
  funext s run
  simp [Once, of, h]

theorem enclosed_of (C : Context σ) (rule : String) (f : Matcher σ) :
    Enclosed C rule (.of f) = of (enclosed C rule f) := by
  funext s run
  by_cases hd : s.depth < C.maxDepth
  · have hsame : enclosed C rule (fun _ => f (s.opened rule)) s = enclosed C rule f s := by
      rw [enclosed_of_lt hd, enclosed_of_lt hd]
    simp [Enclosed, Once, of, hd, hsame]
  · simp [Enclosed, of, hd, enclosed_of_le (Nat.not_lt.mp hd)]

theorem looped_eq {L : Loop σ} (h : L.Implements C f) : Looped L = of f := by
  funext s run
  refine propext ⟨fun ⟨n, hn⟩ => h.eq_of_ends hn, ?_⟩
  rintro rfl
  exact h.exists_ends s

theorem bracketBody_of (b : PegScan.LongBracket) (opening : Opening) (contents : List Rule)
    (hg : Derives C ps g) :
    BracketBody C b opening contents (.of g) =
      of (required C b.contentName (enclosed C b.contentName
        (Matcher.upTo (consume 0 (b.delimiters.closes opening)) (Rule.roundOf contents g)))) := by
  rw [BracketBody, looped_eq (Loop.implements_body b.delimiters opening contents hg), enclosed_of,
    once_of fun _ => rfl]

theorem longBracket_of (b : PegScan.LongBracket) (contents : List Rule) (hg : Derives C ps g) :
    LongBracket C b contents (.of g) =
      of (Matcher.longBracket C b (Rule.roundOf contents g)) := by
  funext s run
  change LongBracket C b contents (.of g) s run =
    (Matcher.longBracket C b (Rule.roundOf contents g) s = run)
  unfold LongBracket Matcher.longBracket
  cases b.delimiters.opening? s.cursor.rest with
  | none => rfl
  | some opening =>
      simp only [bracketBody_of b opening contents hg]
      exact congrFun₂ (andThen_of _ _) _ run

end Behaviour

/-! ## Rules -/

namespace Rule

open Behaviour Matcher

mutual

def behaviour (C : Context σ) : Rule → Behaviour σ
  | seq rules => behaviourAll C rules
  | choice rules => behaviourFirst C rules
  | star rules => Looped (.repeated (behaviourAll C rules))
  | plus rules => AndThen (behaviourAll C rules) (Looped (.repeated (behaviourAll C rules)))
  | opt rules => Once Matcher.optional id (behaviourAll C rules)
  | ahead rule => Once Matcher.lookAhead (·.setMode .off) (Enclosed C rule.name (behaviour C rule))
  | notAhead rule =>
    Once Matcher.negate id
      (Once Matcher.lookAhead (·.setMode .off) (Enclosed C rule.name (behaviour C rule)))
  | must rule => Once (Matcher.required C rule.name) id (Enclosed C rule.name (behaviour C rule))
  | upTo stop body =>
    Looped (.upTo (Enclosed C stop.name (behaviour C stop)) body (behaviourAll C body))
  | named _ rule => Enclosed C rule.name (behaviour C rule)
  | longBracket bracket contents =>
    Behaviour.LongBracket C bracket contents (behaviourAll C contents)
  | rule => .of (rule.raw C)

def behaviourAll (C : Context σ) : List Rule → Behaviour σ
  | [] => .of succeed
  | rule :: rules => AndThen (Enclosed C rule.name (behaviour C rule)) (behaviourAll C rules)

def behaviourFirst (C : Context σ) : List Rule → Behaviour σ
  | [] => .of mismatch
  | rule :: rules => OrElse (Enclosed C rule.name (behaviour C rule)) (behaviourFirst C rules)

end

theorem behaviourAll_of {rules : List Rule} (h : ∀ r ∈ rules, r.behaviour C = of (r.raw C)) :
    behaviourAll C rules = of (rawAll C rules) := by
  induction rules with
  | nil => rfl
  | cons r rules ih =>
      rw [behaviourAll, h r (.head rules), ih fun r' hr => h r' (.tail r hr), enclosed_of,
        andThen_of, rawAll]

theorem behaviourFirst_of {rules : List Rule} (h : ∀ r ∈ rules, r.behaviour C = of (r.raw C)) :
    behaviourFirst C rules = of (rawFirst C rules) := by
  induction rules with
  | nil => rfl
  | cons r rules ih =>
      rw [behaviourFirst, h r (.head rules), ih fun r' hr => h r' (.tail r hr), enclosed_of,
        orElse_of, rawFirst]

theorem implements_repeated (C : Context σ) (rules : List Rule) :
    Loop.Implements C (.repeated (.of (rawAll C rules))) (repeated (rawAll C rules)) :=
  Loop.implements_repeated (derives_all C fun _ => mem_outlines)

theorem implements_upTo (C : Context σ) (stop : Rule) (body : List Rule) :
    Loop.Implements C (.upTo (.of (stop.run C)) body (.of (rawAll C body)))
      (Matcher.upTo (stop.run C) (roundOf body (rawAll C body))) := by
  have hstop : Derives C (outlines (stop :: body)) (stop.run C) :=
    derives_enclosed (derives_raw C stop) (mem_outlines (.head body))
  have hbody : Derives C (outlines (stop :: body)) (rawAll C body) :=
    derives_all C fun _ hr => mem_outlines (.tail stop hr)
  exact Loop.implements_upTo hstop (restores_enclosed _ _) hbody

theorem behaviour_of (C : Context σ) (rule : Rule) : behaviour C rule = of (rule.raw C) := by
  induction rule with
  | any | one _ | notOne _ | range _ _ | text _ | endOfText | lineBreak => rfl
  | seq rules ih => exact behaviourAll_of ih
  | choice rules ih => exact behaviourFirst_of ih
  | star rules ih =>
      rw [behaviour, behaviourAll_of ih]
      exact looped_eq (implements_repeated C rules)
  | plus rules ih =>
      rw [behaviour, behaviourAll_of ih, looped_eq (implements_repeated C rules), andThen_of, raw]
  | opt rules ih => rw [behaviour, behaviourAll_of ih, once_of fun _ => rfl, raw]
  | ahead rule ih => rw [behaviour, ih, enclosed_of, once_of fun _ => rfl, raw]
  | notAhead rule ih =>
      rw [behaviour, ih, enclosed_of, once_of fun _ => rfl, once_of fun _ => rfl, raw]
  | must rule ih => rw [behaviour, ih, enclosed_of, once_of fun _ => rfl, raw]
  | upTo stop body hstop hbody =>
      rw [behaviour, hstop, enclosed_of, behaviourAll_of hbody, raw]
      exact looped_eq (implements_upTo C stop body)
  | named name rule ih => rw [behaviour, ih, enclosed_of, raw]
  | longBracket bracket contents ih =>
      rw [behaviour, behaviourAll_of ih, raw]
      exact longBracket_of bracket contents (derives_all C fun _ => mem_outlines)

/-- The loops that a rule runs itself. -/
inductive HasLoop (C : Context σ) : Rule → Loop σ → Prop
  | star (rules) : HasLoop C (star rules) (.repeated (behaviourAll C rules))
  | plus (rules) : HasLoop C (plus rules) (.repeated (behaviourAll C rules))
  | upTo (stop body) : HasLoop C (upTo stop body)
      (.upTo (Enclosed C stop.name (behaviour C stop)) body (behaviourAll C body))
  | longBracket (bracket contents opening) : HasLoop C (longBracket bracket contents)
      (.upTo (.of (consume 0 (bracket.delimiters.closes opening))) contents
        (behaviourAll C contents))

theorem HasLoop.exists_implements {rule : Rule} {L : Loop σ} (h : rule.HasLoop C L) :
    ∃ f, L.Implements C f := by
  have hall (rules : List Rule) : behaviourAll C rules = of (rawAll C rules) :=
    behaviourAll_of fun r _ => behaviour_of C r
  cases h with
  | star rules | plus rules => exact ⟨_, hall rules ▸ implements_repeated C rules⟩
  | upTo stop body =>
      rw [behaviour_of, enclosed_of, hall]
      exact ⟨_, implements_upTo C stop body⟩
  | longBracket bracket contents opening =>
      rw [hall]
      exact ⟨_, Loop.implements_body bracket.delimiters opening contents
        (derives_all C fun _ => mem_outlines)⟩

end Rule

/-! ## Parses -/

/-- The rounds of a loop from a session: there is a last one, after no more rounds than there are
characters left and one more. All rounds before it take characters, and no round goes before its
start. -/
structure Loop.EndsFrom (C : Context σ) (L : Loop σ) (s : Session σ) : Prop where
  ends : ∃ n run, L.Ends n s run
  rounds : ∀ n run, L.Ends n s run → n ≤ s.cursor.left + 1
  takes : ∀ t, L.again s t → ∃ cs, cs ≠ [] ∧ s.cursor.Passes cs t.cursor
  forward : ∀ t, L.again s t → Forward C s t
  forward_last : ∀ run, L.last s run → Forward C s run.2

/-- Every parse ends: with loops that only make their own tests it has one end, which is the end
of the matcher. It never goes before its start, and every loop in it has a last round. -/
theorem Session.parse_ends (C : Context σ) (rule : Rule) (s : Session σ) :
    (∀ run, Behaviour.Enclosed C rule.name (rule.behaviour C) s run ↔ s.parse C rule = run) ∧
      Forward C s (s.parse C rule).2 ∧
      ∀ (r : Rule) (L : Loop σ), r.HasLoop C L → ∀ t, L.EndsFrom C t := by
  refine ⟨fun run => ?_, (Rule.derives_run C rule s).goesOn.forward, fun r L h t => ?_⟩
  · rw [Rule.behaviour_of, Behaviour.enclosed_of]
    rfl
  · obtain ⟨f, hf⟩ := h.exists_implements
    obtain ⟨n, hn⟩ := hf.exists_ends t
    exact ⟨⟨n, f t, hn⟩, fun _ _ => hf.rounds_le, fun _ => hf.takes, fun _ => hf.forward,
      fun _ => hf.forward_last⟩

end PegScan
