import PegScan.Proofs.Session.Padding
import PegScan.Proofs.Session.Totality

/-! # The first match of a rule

A loop up to a rule that has no body looks for the first place where the rule does not mismatch. It
is no other loop than the one whose body is the rule for any character, although that one enters a
rule for every character that it passes. -/

namespace PegScan

variable {σ : Type} {C : Context σ} {i : Journal} {cond : Rule} {s t u v : Session σ} {k : ℕ}

def Session.tryAt (C : Context σ) (rule : Rule) (s : Session σ) (k : ℕ) : Outcome × Session σ :=
  (s.rewind (s.cursor.advance k)).parse C rule

/-- Two runs that end alike, at the same place and with the same user's state. -/
structure EndsAlike (C : Context σ) (run run' : Outcome × Session σ) : Prop
    extends SamePlace run.2 run'.2 where
  outcome : OutcomesAlike C (fun _ _ => True) run.1 run'.1

/-- Where no rule is refused the depth is of no account, and errors are raised alike. -/
def Simulation.shallowerAlike (C : Context σ) (i : Journal) : Simulation C C :=
  { Simulation.shallower C i with
    like := RaisedAlike C fun _ _ => True
    raise := fun {s t} rule h => by
      refine ⟨?_, h.note _ _⟩
      simp only [Session.raise_eq, Session.position_eq, h.cursor]
      exact .raised rule s.cursor.position trivial
    refuse := fun {s t} rule h hd hfair => by
      have hrun : Matcher.enclosed C rule Matcher.succeed s = _ := Matcher.enclosed_of_le hd
      have hlt : s.depth < C.maxDepth :=
        lt_maxDepth_of_fair (f := Matcher.succeed) rule h.since (by rwa [hrun])
      omega }

theorem Simulation.Like.endsAlike {run run' : Outcome × Session σ}
    (h : (shallowerAlike C i).Like run run') : EndsAlike C run run' := by
  cases h with
  | matched hr => exact ⟨hr.toSamePlace, .refl _⟩
  | mismatched hr => exact ⟨hr.toSamePlace, .refl _⟩
  | failed he hr => exact ⟨hr.toSamePlace, .failed he⟩

/-! ## The search -/

theorem raw_search_of_ne (h : (u.parse C cond).1 ≠ .mismatched) :
    (Rule.upTo cond []).raw C u = u.parse C cond := by
  rcases hrun : u.parse C cond with ⟨_ | _ | e, w⟩
  · exact (Rule.implements_upTo C cond []).last (.found hrun)
  · simp [hrun] at h
  · exact (Rule.implements_upTo C cond []).last (.stopFailed hrun)

theorem raw_search_of_isEmpty (h : u.parse C cond = (.mismatched, v))
    (he : v.cursor.isEmpty = true) : (Rule.upTo cond []).raw C u = (.mismatched, v) :=
  (Rule.implements_upTo C cond []).last (.textEnded h he)

theorem raw_search_of_mismatched (h : u.parse C cond = (.mismatched, v))
    (he : v.cursor.isEmpty = false) :
    (Rule.upTo cond []).raw C u = (Rule.upTo cond []).raw C (v.advance 1) :=
  (Rule.implements_upTo C cond []).again (.character h he rfl)

/-- What the rule for the end writes stays in the journal of the loop. -/
theorem suffix_search (C : Context σ) (cond : Rule) (u : Session σ) :
    (u.parse C cond).2.journal <:+ ((Rule.upTo cond []).raw C u).2.journal :=
  Matcher.suffix_upTo (Rule.grows_run C cond) (Matcher.grows_roundOf [] (Rule.grows_rawAll C [])) u

/-- With hooks off a mismatch leaves nothing behind but entries in the journal. -/
theorem Shallower.of_mismatched (h : Shallower i u t) (hoff : u.mode = .off)
    (hrun : u.parse C cond = (.mismatched, v)) : Shallower i v t := by
  have hv : Derivation C [cond.outline] u .mismatched v := (Rule.derives_run C cond).of_eq hrun
  refine ⟨⟨?_, h.mode.trans hv.mode_eq.symm, h.state.trans (hv.silent hoff).state.symm⟩,
    hv.depth_eq ▸ h.depth, h.since.trans hv.suffix⟩
  rw [h.cursor, Matcher.restores_enclosed _ _ hrun]

/-- What the loop tries ends as a try outside of the loop does. -/
theorem Shallower.endsAlike_parse (h : Shallower i u t)
    (hfair : (Simulation.shallowerAlike C i).fair ((Rule.upTo cond []).raw C u).2.journal) :
    EndsAlike C (u.parse C cond) (t.parse C cond) :=
  ((Simulation.shallowerAlike C i).simulates_parse cond h
    (Simulation.fair_of_suffix _ (suffix_search C cond u) hfair)).endsAlike

/-- After a mismatch both are one character further on. -/
theorem Shallower.search_step (h : Shallower i u t) (hoff : u.mode = .off)
    (hrun : u.parse C cond = (.mismatched, v)) (he : t.cursor.isEmpty = false) :
    (Rule.upTo cond []).raw C u = (Rule.upTo cond []).raw C (v.advance 1) ∧
      Shallower i (v.advance 1) (t.rewind (t.cursor.advance 1)) := by
  have hv := h.of_mismatched hoff hrun
  have hleft : 1 ≤ v.cursor.left := by
    rw [← hv.cursor]
    exact Nat.lt_of_le_of_lt (Nat.zero_le _) (Cursor.left_next_lt he)
  refine ⟨raw_search_of_mismatched hrun (by rw [← hv.cursor, he]), ?_⟩
  rw [Session.advance_of_le hleft]
  exact ⟨⟨congrArg (Cursor.advance 1) hv.cursor, hv.mode, hv.state⟩, hv.depth, hv.since⟩

/-- While the tries mismatch, the loop goes on to the next character. -/
theorem exists_search_at (hu : Shallower i u t) (hoff : t.mode = .off)
    (hfair : (Simulation.shallowerAlike C i).fair ((Rule.upTo cond []).raw C u).2.journal)
    (hk : k ≤ t.cursor.left) (htries : ∀ m < k, (t.tryAt C cond m).1 = .mismatched) :
    ∃ v, (Rule.upTo cond []).raw C u = (Rule.upTo cond []).raw C v ∧
      Shallower i v (t.rewind (t.cursor.advance k)) := by
  -- On the number of tries. The loop stands deeper than the tries and has written more, but else
  -- it is where the next try begins.
  induction k with
  | zero => exact ⟨u, rfl, hu⟩
  | succ k ih =>
      obtain ⟨v, hraw, hv⟩ := ih (by omega) fun m hm => htries m (by omega)
      have htry : (v.parse C cond).1 = .mismatched :=
        ((hv.endsAlike_parse (hraw ▸ hfair)).outcome.settled .mismatched (by simp)).mp
          (htries k (by omega))
      have he : (t.cursor.advance k).isEmpty = false := by
        simpa [Cursor.isEmpty, ← Cursor.left_eq] using Nat.lt_of_succ_le hk
      obtain ⟨hstep, hnext⟩ := hv.search_step (hv.mode.symm.trans hoff) (Prod.ext htry rfl) he
      rw [Cursor.advance_succ]
      exact ⟨_, hraw.trans hstep, hnext⟩

/-! ## Behind the report of the loop -/

theorem EndsAlike.enclosed_of_off {f : Matcher σ} {name : String} {run : Outcome × Session σ}
    (h : EndsAlike C (f (s.opened name)) run) (hd : s.depth < C.maxDepth)
    (hoff : (f (s.opened name)).2.mode = .off) (hne : run.1 ≠ .mismatched) :
    EndsAlike C (Matcher.enclosed C name f s) run := by
  rw [Matcher.enclosed_of_lt hd]
  rcases hf : f (s.opened name) with ⟨_ | _ | e, u⟩ <;> rw [hf] at h hoff
  · have hu : (u.closed (.success name)).mode = .off := hoff
    simp only [Session.apply_of_off hu]
    exact ⟨⟨h.cursor, h.mode, h.state⟩, h.outcome⟩
  · exact (hne ((h.outcome.settled .mismatched (by simp)).mpr rfl)).elim
  · exact ⟨⟨h.cursor, h.mode, h.state⟩, h.outcome⟩

/-- A loop without a body ends as the first try does that does not mismatch. -/
structure FindsFirst (C : Context σ) (cond : Rule) (s : Session σ) (run : Outcome × Session σ) :
    Prop where
  none : (∀ k ≤ s.cursor.left, (s.tryAt C cond k).1 = .mismatched) →
    run.1 = .mismatched ∧ run.2.cursor = s.cursor
  some : ∀ k ≤ s.cursor.left, (∀ m < k, (s.tryAt C cond m).1 = .mismatched) →
    (s.tryAt C cond k).1 ≠ .mismatched → EndsAlike C run (s.tryAt C cond k)

theorem findsFirst_search (hoff : s.mode = .off)
    (h : Journal.Unrefused s.journal (s.parse C (.upTo cond [])).2.journal) :
    FindsFirst C cond s (s.parse C (.upTo cond [])) := by
  let S := Simulation.shallowerAlike C s.journal
  let u := s.opened "until"
  have hlt : s.depth < C.maxDepth := lt_maxDepth_of_fair "until" List.suffix_rfl h.fair
  have hfair : S.fair ((Rule.upTo cond []).raw C u).2.journal :=
    S.fair_of_suffix (Matcher.suffix_enclosed "until" _ hlt) (h.fair (C := C))
  have hu : Shallower s.journal u s :=
    ⟨⟨rfl, rfl, rfl⟩, Nat.le_succ _, List.suffix_cons _ _⟩
  have hmode : ((Rule.upTo cond []).raw C u).2.mode = .off :=
    (Rule.derives_raw C (.upTo cond []) u).mode_eq.trans hoff
  refine ⟨fun htries => ?_, fun k hk htries hne => ?_⟩
  · obtain ⟨v, hraw, hv⟩ := exists_search_at hu hoff hfair le_rfl fun m hm => htries m hm.le
    have htry : (v.parse C cond).1 = .mismatched :=
      ((hv.endsAlike_parse (hraw ▸ hfair)).outcome.settled .mismatched (by simp)).mp
        (htries _ le_rfl)
    have hrun : v.parse C cond = (.mismatched, (v.parse C cond).2) := Prod.ext htry rfl
    have hend : (v.parse C cond).2.cursor.isEmpty = true := by
      rw [Matcher.restores_enclosed _ _ hrun, ← hv.cursor]
      simp [Cursor.isEmpty, ← Cursor.left_eq]
    have hmis : (s.parse C (.upTo cond [])).1 = .mismatched := by
      have hraw' : (Rule.upTo cond []).raw C (s.opened (Rule.upTo cond []).name) = _ :=
        hraw.trans (raw_search_of_isEmpty hrun hend)
      rw [Session.parse, Rule.run, Matcher.enclosed_of_lt hlt, hraw']
    exact ⟨hmis, Matcher.restores_enclosed _ _ (Prod.ext hmis rfl)⟩
  · obtain ⟨v, hraw, hv⟩ := exists_search_at hu hoff hfair hk htries
    have hends := hv.endsAlike_parse (hraw ▸ hfair)
    have hne' : (v.parse C cond).1 ≠ .mismatched := fun hmis =>
      hne ((hends.outcome.settled .mismatched (by simp)).mpr hmis)
    rw [← raw_search_of_ne hne', ← hraw] at hends
    exact hends.enclosed_of_off hlt hmode hne

/-! ## The same loop with a body -/

theorem Matcher.lt_maxDepth_of_mismatched {name : String} {f : Matcher σ}
    (h : enclosed C name f u = (.mismatched, v)) : u.depth < C.maxDepth := by
  by_contra hge
  simp [enclosed_of_le (Nat.not_lt.mp hge)] at h

/-- The rule for the end has been let in where a round begins, so that the one for a character is
let in as well. -/
theorem simulates_search {P : Entry → Prop} (hany : C.hooks.get? "any" = none) (cond : Rule) :
    (Simulation.padding C P i).Simulates ((Rule.upTo cond [.any]).raw C)
      ((Rule.upTo cond []).raw C) := by
  have hcond : Matcher.Derives C (Rule.outlines [cond, .any]) (cond.run C) :=
    Rule.derives_enclosed (Rule.derives_raw C cond) (Rule.mem_outlines (.head _))
  have hany' : Matcher.Derives C (Rule.outlines [cond, .any]) (Rule.rawAll C [.any]) :=
    Rule.derives_all C fun _ hr => Rule.mem_outlines (.tail cond hr)
  refine ((Simulation.simulates_raw _ cond).enclosed cond.name).upTo hcond
    (Matcher.restores_enclosed _ _) ?_ (Matcher.derives_roundOf hany')
  intro r u t hrun hrel he _
  have hdepth : u.depth < C.maxDepth := by
    rw [(hcond.of_eq hrun).depth_eq]
    exact Matcher.lt_maxDepth_of_mismatched hrun
  exact Simulation.like_roundOf_any hany hdepth hrel he

theorem runsAlikeButAny_search (hany : C.hooks.get? "any" = none) (cond : Rule) (s : Session σ) :
    RunsAlikeButAny C s (s.parse C (.upTo cond [])) (s.parse C (.upTo cond [.any])) :=
  ((simulates_search (P := fun _ => True) hany cond).enclosed "until" s s (.refl s)
    fun _ _ _ _ => trivial).runsAlikeButAny

/-! ## Parses -/

/-- With hooks off and no rule refused, a loop without a body ends as the first try of its rule
that does not mismatch. In every mode and under every limit it is the loop whose body is the rule
for any character, but for what is reported of this rule. -/
theorem Session.parse_findsFirst (C : Context σ) (cond : Rule) (s : Session σ) :
    (s.mode = .off → Journal.Unrefused s.journal (s.parse C (.upTo cond [])).2.journal →
      FindsFirst C cond s (s.parse C (.upTo cond []))) ∧
    (C.hooks.get? "any" = none →
      RunsAlikeButAny C s (s.parse C (.upTo cond [])) (s.parse C (.upTo cond [.any]))) :=
  ⟨findsFirst_search, fun hany => runsAlikeButAny_search hany cond s⟩

/-- The second try raises an error, which is that of both loops. -/
theorem Session.parse_findsFirst_raising :
    let C : Context ℕ := { hooks := .empty }
    let cond : Rule := .seq [.text ['b'], .must (.one ['c'])]
    let s := begin C "äbd" 0
    (s.parse C (.upTo cond [])).1 = .failed (.requiredMatch "one" ⟨2, 3, 1, 3⟩) ∧
      EndsAlike C (s.parse C (.upTo cond [])) (s.tryAt C cond 1) ∧
      RunsAlikeButAny C s (s.parse C (.upTo cond [])) (s.parse C (.upTo cond [.any])) := by
  intro C cond s
  obtain ⟨hfirst, hany⟩ := parse_findsFirst C cond s
  have hfinds := hfirst rfl ⟨_, (List.append_nil _).symm, by decide +kernel⟩
  have hends := hfinds.some 1 (by decide) (by decide +kernel) (by decide +kernel)
  have htry : (s.tryAt C cond 1).1 = .failed (.requiredMatch "one" ⟨2, 3, 1, 3⟩) := by
    decide +kernel
  exact ⟨(hends.outcome.same fun _ _ _ => rfl).symm.trans htry, hends, hany rfl⟩

end PegScan
