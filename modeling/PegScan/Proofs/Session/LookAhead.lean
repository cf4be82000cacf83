import PegScan.Proofs.Session.Shallower

/-! # Looking ahead

Hooks are off inside a look ahead, so that no hook has a say in how it ends. It leaves the cursor
where it was, and looking ahead for what is not missing is looking ahead for what is there. -/

namespace PegScan

variable {σ τ : Type}

def Context.withHooks (C : Context σ) (hooks : HookTable σ) : Context σ := { C with hooks }

/-- The contexts differ in their hooks only. What they raise for a required match depends on what
has been reported of rules, but not on the runs of hooks. -/
structure Context.SameButHooks (C : Context σ) (D : Context τ) : Prop where
  lineBreak : D.lineBreak = C.lineBreak
  maxDepth : D.maxDepth = C.maxDepth
  raise : ∀ j j', lifecycle j' = lifecycle j → D.raise j' = C.raise j

def Outcome.negated : Outcome → Outcome
  | .matched => .mismatched
  | .mismatched => .matched
  | .failed e => .failed e

inductive Rule.IsLookAhead (rule : Rule) : Rule → Prop
  | ahead : IsLookAhead rule (.ahead rule)
  | notAhead : IsLookAhead rule (.notAhead rule)

theorem Matcher.negate_fst (f : Matcher σ) (s : Session σ) : (f.negate s).1 = (f s).1.negated := by
  unfold Matcher.negate
  split <;> simp [*, Outcome.negated]

/-! ## Other hooks on the same session -/

section WithHooks

variable {C : Context σ} {hooks : HookTable σ} {s : Session σ} {look rule : Rule}

theorem Session.apply_withHooks {name : String} (start : Cursor) (s : Session σ)
    (h : hooks.get? name = C.hooks.get? name) :
    s.apply (C.withHooks hooks) name start = s.apply C name start := by
  simp only [apply, Context.withHooks, h]

theorem Matcher.enclosed_withHooks {name : String} {f g : Matcher σ}
    (h : hooks.get? name = C.hooks.get? name) (hfg : g (s.opened name) = f (s.opened name)) :
    enclosed (C.withHooks hooks) name g s = enclosed C name f s := by
  by_cases hd : s.depth < C.maxDepth
  · have hd' : s.depth < (C.withHooks hooks).maxDepth := hd
    rw [enclosed_of_lt hd, enclosed_of_lt hd', hfg]
    simp only [Session.apply_withHooks _ _ h]
  · have hd' : (C.withHooks hooks).maxDepth ≤ s.depth := Nat.not_lt.mp hd
    rw [enclosed_of_le (Nat.not_lt.mp hd), enclosed_of_le hd']
    rfl

/-- A look ahead only sees how its matcher runs with hooks off. -/
theorem Matcher.lookAhead_congr {f g : Matcher σ} (h : f (s.setMode .off) = g (s.setMode .off)) :
    f.lookAhead s = g.lookAhead s := by
  simp only [lookAhead, h]

theorem Rule.IsLookAhead.raw_withHooks (h : rule.IsLookAhead look) (hooks : HookTable σ)
    (s : Session σ) : look.raw (C.withHooks hooks) s = look.raw C s := by
  have hoff (D : Context σ) : Matcher.enclosed D rule.name (rule.raw D) (s.setMode .off) =
      Matcher.enclosed D.unhooked rule.name (rule.raw D.unhooked) (s.setMode .off) :=
    Session.parse_of_off D rule rfl
  have hsame := Matcher.lookAhead_congr ((hoff (C.withHooks hooks)).trans (hoff C).symm)
  cases h with
  | ahead => rw [raw, raw, hsame]
  | notAhead => rw [raw, raw, Matcher.negate, Matcher.negate, hsame]

end WithHooks

/-! ## Other hooks on another session -/

theorem lifecycle_append (log log' : List Entry) :
    lifecycle (log ++ log') = lifecycle log ++ lifecycle log' := by
  simp [lifecycle]

theorem Alike.lifecycle_eq {i j : Journal} {s : Session σ} {t : Session τ} (h : Alike i j s t)
    (hij : lifecycle j = lifecycle i) : lifecycle t.journal = lifecycle s.journal := by
  obtain ⟨log, log', hs, ht, hl⟩ := h.reports
  rw [hs, ht, lifecycle_append, lifecycle_append, hl, hij]

/-- With hooks off on both sides nothing else is looked at than what the contexts have in common,
not even the user's state. -/
def Simulation.muted {C : Context σ} {D : Context τ} (h : C.SameButHooks D) {i j : Journal}
    (hij : lifecycle j = lifecycle i) : Simulation C D where
  rel s t := Alike i j s t ∧ s.mode = .off ∧ t.mode = .off
  like := Eq
  fair := fun _ => True
  fair_of_suffix _ _ := trivial
  lineBreak_eq := h.lineBreak
  rest_eq hr := congrArg Cursor.rest hr.1.cursor
  advance n hr := ⟨⟨congrArg (Cursor.advance n) hr.1.cursor, hr.1.depth, hr.1.reports⟩, hr.2⟩
  passLineBreak hr := by
    refine ⟨⟨?_, hr.1.depth, hr.1.reports⟩, hr.2⟩
    simp [h.lineBreak, hr.1.cursor]
  rewind hr hr' := ⟨⟨hr.1.cursor, hr'.1.depth, hr'.1.reports⟩, hr'.2⟩
  hooksOff hr := ⟨⟨hr.1.cursor, hr.1.depth, hr.1.reports⟩, rfl, rfl⟩
  restore hr hr' := ⟨⟨hr'.1.cursor, hr'.1.depth, hr'.1.reports⟩, hr.2⟩
  raise {s t} rule hr := by
    have hnoted : Alike i j (s.note (.raise rule)) (t.note (.raise rule)) := hr.1.note rfl
    refine ⟨?_, hnoted, hr.2⟩
    simp only [Session.raise_eq, h.raise _ _ (hnoted.lifecycle_eq hij), Session.position_eq,
      hr.1.cursor]
  refuse rule hr hd _ := by
    refine ⟨?_, by rw [h.maxDepth], hr.1.note rfl, hr.2⟩
    rwa [h.maxDepth, hr.1.depth]
  enter rule hr hd := by
    refine ⟨?_, hr.1.opened rule, hr.2⟩
    rwa [h.maxDepth, hr.1.depth]
  close he hr := ⟨hr.1.closed (Event.isHook_of_isControl he), hr.2⟩
  apply rule _ hr _ := by
    rw [Session.apply_of_off hr.2.1, Session.apply_of_off hr.2.2]
    exact ⟨rfl, hr⟩

namespace RunsAlike

variable {C : Context σ} {D : Context τ} {s : Session σ} {t : Session τ} {look rule : Rule}

/-- Between the start of a look ahead and its end the hooks make no difference. -/
theorem raw_lookAhead (h : C.SameButHooks D) (hij : lifecycle t.journal = lifecycle s.journal)
    {s' : Session σ} {t' : Session τ} (hst : Alike s.journal t.journal s' t')
    (hlook : rule.IsLookAhead look) : RunsAlike s t (look.raw C s') (look.raw D t') := by
  have hoff : (Simulation.muted h hij).rel (s'.setMode .off) (t'.setMode .off) :=
    ⟨⟨hst.cursor, hst.depth, hst.reports⟩, rfl, rfl⟩
  have hsame : RunsAlike s t ((rule.run C).lookAhead s') ((rule.run D).lookAhead t') := by
    have hlike := (Simulation.muted h hij).simulates_parse rule hoff trivial
    unfold Session.parse at hlike
    unfold Matcher.lookAhead
    rcases hrun : rule.run C (s'.setMode .off) with ⟨_ | _ | e, u⟩ <;> rw [hrun] at hlike
    · obtain ⟨v, hv, hr, -⟩ := hlike.of_matched
      rw [hv]
      exact ⟨rfl, hst.cursor, hr.depth, hr.reports⟩
    · obtain ⟨v, hv, hr, -⟩ := hlike.of_mismatched
      rw [hv]
      exact ⟨rfl, hst.cursor, hr.depth, hr.reports⟩
    · obtain ⟨_, v, hv, rfl, hr, -⟩ := hlike.of_failed
      rw [hv]
      exact ⟨rfl, hr.cursor, hr.depth, hr.reports⟩
  cases hlook with
  | ahead => exact hsame
  | notAhead =>
      refine ⟨?_, ?_⟩
      · rw [Rule.raw, Rule.raw, Matcher.negate_fst, Matcher.negate_fst]
        exact congrArg Outcome.negated hsame.outcome
      · rw [Rule.raw, Rule.raw, Matcher.negate_snd, Matcher.negate_snd]
        exact hsame.session

/-- The reports of the start and the end add nothing of their own where no hook is run. -/
theorem enclosed {name : String} {f : Matcher σ} {g : Matcher τ} (h : C.SameButHooks D)
    (hc : t.cursor = s.cursor) (hd : t.depth = s.depth)
    (hrun : RunsAlike s t (f (s.opened name)) (g (t.opened name)))
    (hC : C.hasHook (f (s.opened name)).2.mode name = false)
    (hD : D.hasHook (g (t.opened name)).2.mode name = false) :
    RunsAlike s t (Matcher.enclosed C name f s) (Matcher.enclosed D name g t) := by
  obtain ⟨houtcome, halike⟩ := hrun
  by_cases hlt : s.depth < C.maxDepth
  · have hlt' : t.depth < D.maxDepth := by rwa [h.maxDepth, hd]
    rw [Matcher.enclosed_of_lt hlt, Matcher.enclosed_of_lt hlt']
    rcases hf : f (s.opened name) with ⟨o, u⟩
    rcases hg : g (t.opened name) with ⟨o', v⟩
    rw [hf, hg] at houtcome halike
    rw [hf] at hC
    rw [hg] at hD
    obtain rfl : o' = o := houtcome
    have hclosed (event : Event) (he : event.isHook = false) :
        Alike s.journal t.journal (u.closed event) (v.closed event) := halike.closed he
    cases o' with
    | matched =>
        have hu : C.hasHook (u.closed (.success name)).mode name = false := hC
        have hv : D.hasHook (v.closed (.success name)).mode name = false := hD
        simp only [Session.apply_of_hasHook_eq_false hu, Session.apply_of_hasHook_eq_false hv]
        exact ⟨rfl, hclosed _ rfl⟩
    | mismatched =>
        have hfailure := hclosed (.failure name) rfl
        exact ⟨rfl, hc, hfailure.depth, hfailure.reports⟩
    | failed e => exact ⟨rfl, hclosed _ rfl⟩
  · have hge : D.maxDepth ≤ t.depth := by rw [h.maxDepth, hd]; exact Nat.not_lt.mp hlt
    have hst : Alike s.journal t.journal s t := ⟨hc, hd, [], [], rfl, rfl, rfl⟩
    rw [Matcher.enclosed_of_le (Nat.not_lt.mp hlt), Matcher.enclosed_of_le hge, h.maxDepth]
    exact ⟨rfl, hst.note rfl⟩

theorem parse_lookAhead (h : C.SameButHooks D) (hc : t.cursor = s.cursor)
    (hd : t.depth = s.depth) (hij : lifecycle t.journal = lifecycle s.journal)
    (hlook : rule.IsLookAhead look) (hC : C.hasHook s.mode look.name = false)
    (hD : D.hasHook t.mode look.name = false) :
    RunsAlike s t (s.parse C look) (t.parse D look) := by
  have hst : Alike s.journal t.journal s t := ⟨hc, hd, [], [], rfl, rfl, rfl⟩
  have hmode : (look.raw C (s.opened look.name)).2.mode = s.mode :=
    (Rule.derives_raw C look _).mode_eq
  have hmode' : (look.raw D (t.opened look.name)).2.mode = t.mode :=
    (Rule.derives_raw D look _).mode_eq
  exact enclosed h hc hd (raw_lookAhead h hij (hst.opened look.name) hlook)
    (by rwa [hmode]) (by rwa [hmode'])

end RunsAlike

/-! ## What a look ahead does -/

/-- A run that ends as it is told, and of the session changes nothing but the journal. Only an
error leaves the cursor where it was born, which is where `t` stands. -/
structure LooksAhead (s : Session σ) (o : Outcome) (t : Session σ) (run : Outcome × Session σ) :
    Prop where
  outcome : run.1 = o
  back : (∀ e, o ≠ .failed e) → run.2.cursor = s.cursor
  stop : ∀ e, o = .failed e → run.2.cursor = t.cursor
  mode : run.2.mode = s.mode
  silent : Silent s run.2

theorem Outcome.negated_eq_failed_iff {o : Outcome} {e : Error} :
    o.negated = .failed e ↔ o = .failed e := by
  cases o <;> simp [negated]

theorem Outcome.negated_negated (o : Outcome) : o.negated.negated = o := by
  cases o <;> rfl

theorem LooksAhead.negate {f : Matcher σ} {s t : Session σ} {o : Outcome}
    (h : LooksAhead s o t (f s)) : LooksAhead s o.negated t (f.negate s) where
  outcome := by rw [Matcher.negate_fst, h.outcome]
  back := by
    intro ho
    rw [Matcher.negate_snd]
    exact h.back fun e he => ho e (Outcome.negated_eq_failed_iff.mpr he)
  stop := by
    intro e he
    rw [Matcher.negate_snd]
    exact h.stop e (Outcome.negated_eq_failed_iff.mp he)
  mode := by rw [Matcher.negate_snd, h.mode]
  silent := by
    rw [Matcher.negate_snd]
    exact h.silent

theorem Matcher.Derives.looksAhead {C : Context σ} {ps : List Outline} {f : Matcher σ}
    (hf : Derives C ps f) (s : Session σ) :
    LooksAhead s (f (s.setMode .off)).1 (f (s.setMode .off)).2 (f.lookAhead s) where
  outcome := by
    unfold Matcher.lookAhead
    split <;> simp [*]
  back := by
    intro ho
    unfold Matcher.lookAhead
    split
    · rename_i e t h
      exact (ho e (by rw [h])).elim
    · rfl
  stop := by
    intro e he
    unfold Matcher.lookAhead
    split
    · rename_i e t h
      rw [h]
      rfl
    · rename_i o t ho h
      exact (ho e (by simpa [h] using he)).elim
  mode := (hf.lookAhead s).mode_eq
  silent := hf.silent_lookAhead s

/-- Both look aheads end as the rule does with hooks off, or the other way round. -/
theorem Rule.looksAhead_raw (C : Context σ) (rule : Rule) (s : Session σ) :
    let inside := (s.setMode .off).parse C rule
    LooksAhead s inside.1 inside.2 ((ahead rule).raw C s) ∧
      LooksAhead s inside.1.negated inside.2 ((notAhead rule).raw C s) := by
  intro inside
  have h : LooksAhead s inside.1 inside.2 ((rule.run C).lookAhead s) :=
    (derives_run C rule).looksAhead s
  exact ⟨h, h.negate⟩

/-! ## Looking ahead for what is not missing -/

section DoubleNegation

variable {C : Context σ} {i : Journal} {s t : Session σ}

theorem Matcher.journal_lookAhead (f : Matcher σ) (s : Session σ) :
    (f.lookAhead s).2.journal = (f (s.setMode .off)).2.journal := by
  unfold Matcher.lookAhead
  split
  · rename_i h
    rw [h]
    rfl
  · rename_i h
    rw [h]
    rfl

/-- With hooks off a rule ends as its raw matcher does. -/
theorem Matcher.enclosed_of_off {g : Matcher σ} {ps : List Outline} (name : String)
    (hg : Derives C ps g) (hoff : s.mode = .off) (hd : s.depth < C.maxDepth) :
    (enclosed C name g s).1 = (g (s.opened name)).1 ∧
      ∀ e, (g (s.opened name)).1 = .failed e →
        (enclosed C name g s).2.cursor = (g (s.opened name)).2.cursor := by
  have hmode : (g (s.opened name)).2.mode = .off := (hg _).mode_eq.trans hoff
  rw [enclosed_of_lt hd]
  rcases hrun : g (s.opened name) with ⟨_ | _ | e, u⟩
  · have hu : (u.closed (.success name)).mode = .off := by simpa [hrun] using hmode
    simp [Session.apply_of_off hu]
  · simp
  · simp

/-- The look ahead inside is where the hooks are off already, so that its rule runs behind the
start of one look ahead more. -/
theorem Rule.looksAhead_raw_twice (rule : Rule) (hd : s.depth < C.maxDepth) :
    let inside := ((s.setMode .off).opened "not_at").parse C rule
    LooksAhead s inside.1 inside.2 ((notAhead (.notAhead rule)).raw C s) := by
  intro inside
  obtain ⟨-, houter⟩ := (Rule.notAhead rule).looksAhead_raw C s
  obtain ⟨-, hinner⟩ := rule.looksAhead_raw C ((s.setMode .off).opened "not_at")
  obtain ⟨hsame, hcursor⟩ := Matcher.enclosed_of_off "not_at" (derives_raw C (.notAhead rule))
    (rfl : (s.setMode .off).mode = .off) hd
  have hout : ((s.setMode .off).parse C (.notAhead rule)).1 = inside.1.negated :=
    hsame.trans hinner.outcome
  rw [hout, Outcome.negated_negated] at houter
  refine { houter with stop := fun e he => ?_ }
  have hnegated : inside.1.negated = .failed e := Outcome.negated_eq_failed_iff.mpr he
  rw [houter.stop e he]
  exact (hcursor e (hinner.outcome.trans hnegated)).trans (hinner.stop e hnegated)

/-- Look aheads from one place end in the same way if what they look for does. -/
theorem LooksAhead.sameEnd {o o' : Outcome} {a a' : Session σ} {run run' : Outcome × Session σ}
    (h : LooksAhead s o a run) (h' : LooksAhead t o' a' run') (hst : SamePlace s t)
    (ho : SameOutcome C o o') (ha : a'.cursor = a.cursor) : SameEnd C run run' where
  cursor := by
    cases o with
    | matched =>
        obtain rfl : o' = .matched := (ho.settled .matched (by simp)).mpr rfl
        rw [h'.back (by simp), h.back (by simp), hst.cursor]
    | mismatched =>
        obtain rfl : o' = .mismatched := (ho.settled .mismatched (by simp)).mpr rfl
        rw [h'.back (by simp), h.back (by simp), hst.cursor]
    | failed e =>
        obtain ⟨e', rfl⟩ := ho.exists_failed rfl
        rw [h'.stop e' rfl, h.stop e rfl, ha]
  mode := by rw [h'.mode, h.mode, hst.mode]
  state := by rw [h'.silent.state, h.silent.state, hst.state]
  outcome := by rwa [h.outcome, h'.outcome]

theorem sameEnd_raw (rule : Rule) (h : Shallower i s t)
    (hfair : (Simulation.shallower C i).fair
      ((Rule.notAhead (.notAhead rule)).raw C s).2.journal) :
    SameEnd C ((Rule.notAhead (.notAhead rule)).raw C s) ((Rule.ahead rule).raw C t) := by
  let S := Simulation.shallower C i
  let w : Session σ := s.setMode .off
  let u : Session σ := w.opened "not_at"
  have hjournal : ((Rule.notAhead (.notAhead rule)).raw C s).2.journal =
      (w.parse C (.notAhead rule)).2.journal := by
    rw [Rule.raw, Matcher.negate_snd, Matcher.journal_lookAhead]
    rfl
  have hinside : ((Rule.notAhead rule).raw C u).2.journal = (u.parse C rule).2.journal := by
    rw [Rule.raw, Matcher.negate_snd, Matcher.journal_lookAhead]
    rfl
  rw [hjournal] at hfair
  have hlt : w.depth < C.maxDepth := lt_maxDepth_of_fair "not_at" h.since hfair
  have hsuffix : (u.parse C rule).2.journal <:+ (w.parse C (.notAhead rule)).2.journal := by
    rw [← hinside]
    exact Matcher.suffix_enclosed _ _ hlt
  have hrel : Shallower i u (t.setMode .off) :=
    ⟨⟨h.cursor, rfl, h.state⟩, Nat.le_succ_of_le h.depth, h.since.trans (List.suffix_cons _ _)⟩
  have hlike : S.Like (u.parse C rule) ((t.setMode .off).parse C rule) :=
    S.simulates_parse rule hrel (S.fair_of_suffix hsuffix hfair)
  obtain ⟨houtcome, hend⟩ := hlike.sameOutcome
  obtain ⟨hsingle, -⟩ := rule.looksAhead_raw C t
  have hdouble := rule.looksAhead_raw_twice (s := s) hlt
  exact hdouble.sameEnd hsingle h.toSamePlace houtcome hend.cursor

theorem sameEnd_parse (rule : Rule)
    (hfair : Journal.Unrefused s.journal (s.parse C (.notAhead (.notAhead rule))).2.journal)
    (hhook : s.mode = .off ∨ C.hooks.get? "at" = C.hooks.get? "not_at") :
    SameEnd C (s.parse C (.notAhead (.notAhead rule))) (s.parse C (.ahead rule)) := by
  let S := Simulation.shallower C s.journal
  have hlt : s.depth < C.maxDepth :=
    lt_maxDepth_of_fair "not_at" List.suffix_rfl hfair.fair
  have hsuffix := Matcher.suffix_enclosed "not_at" ((Rule.notAhead (.notAhead rule)).raw C) hlt
  have hraw := sameEnd_raw rule ((Shallower.refl s).opened "not_at" "at")
    (S.fair_of_suffix hsuffix hfair.fair)
  have hmode : ((Rule.notAhead (.notAhead rule)).raw C (s.opened "not_at")).2.mode = s.mode :=
    (Rule.derives_raw C (.notAhead (.notAhead rule)) _).mode_eq
  exact hraw.enclosed hlt (hhook.imp_left hmode.trans)

end DoubleNegation

/-! ## Parses -/

/-- No hook has a say in a look ahead but its own: with other hooks, a session runs the same, and
so does one with another state and another mode as far as anything is reported. What is inside
is run with hooks off, and gives the outcome; and not to miss it is to find it. -/
theorem Session.parse_shieldsLookAhead (C : Context σ) (rule : Rule) (s : Session σ) :
    (∀ look, rule.IsLookAhead look →
      (∀ hooks : HookTable σ, hooks.get? look.name = C.hooks.get? look.name →
        s.parse (C.withHooks hooks) look = s.parse C look) ∧
      ∀ (τ : Type) (D : Context τ) (t : Session τ), C.SameButHooks D → t.cursor = s.cursor →
        t.depth = s.depth → lifecycle t.journal = lifecycle s.journal →
          RunsAlike s t (look.raw C s) (look.raw D t) ∧
            (C.hasHook s.mode look.name = false → D.hasHook t.mode look.name = false →
              RunsAlike s t (s.parse C look) (t.parse D look))) ∧
    (let inside := (s.setMode .off).parse C rule
     LooksAhead s inside.1 inside.2 ((Rule.ahead rule).raw C s) ∧
      LooksAhead s inside.1.negated inside.2 ((Rule.notAhead rule).raw C s)) ∧
    (Journal.Unrefused s.journal ((Rule.notAhead (.notAhead rule)).raw C s).2.journal →
      SameEnd C ((Rule.notAhead (.notAhead rule)).raw C s) ((Rule.ahead rule).raw C s)) ∧
    (Journal.Unrefused s.journal (s.parse C (.notAhead (.notAhead rule))).2.journal →
      s.mode = .off ∨ C.hooks.get? "at" = C.hooks.get? "not_at" →
        SameEnd C (s.parse C (.notAhead (.notAhead rule))) (s.parse C (.ahead rule))) := by
  refine ⟨fun look hlook => ⟨fun hooks hown => ?_, fun τ D t h hc hd hij => ⟨?_, ?_⟩⟩,
    rule.looksAhead_raw C s, fun h => sameEnd_raw rule (.refl s) h.fair, sameEnd_parse rule⟩
  · exact Matcher.enclosed_withHooks hown (hlook.raw_withHooks hooks _)
  · exact .raw_lookAhead h hij ⟨hc, hd, [], [], rfl, rfl, rfl⟩ hlook
  · exact .parse_lookAhead h hc hd hij hlook

/-- A check refuses what it is asked for and counts how often. Inside a look ahead it is not
asked, so that a context without any hook finds the same. -/
theorem Session.parse_shieldsLookAhead_from_check :
    let C : Context ℕ := { hooks := ⟨.on, [("any", .check fun n => (false, n + 1))]⟩ }
    let s := begin C "a" 0
    (s.parse C .any).1 = .mismatched ∧ (s.parse C .any).2.state = 1 ∧
      (s.parse C (.ahead .any)).1 = .matched ∧
      s.parse (C.withHooks .empty) (.ahead .any) = s.parse C (.ahead .any) := by
  intro C s
  obtain ⟨hlook, -⟩ := parse_shieldsLookAhead C .any s
  obtain ⟨hhooks, -⟩ := hlook _ .ahead
  exact ⟨by decide +kernel, by decide +kernel, by decide +kernel, hhooks .empty rfl⟩

end PegScan
