import PegScan.Proofs.Session.Padding

/-! # Literals inside a grammar

The body of a literal is made of single characters where nothing else is said. It is the same to
say so by the rule for any character, whatever the grammar around the literal does. -/

namespace PegScan

variable {σ τ : Type}

/-! ## Grammars with open places -/

/-- A grammar with open places, as what becomes of it when a rule is put in them. -/
inductive Rule.Surrounds : (Rule → Rule) → Prop
  | here : Surrounds fun x => x
  | fixed (rule) : Surrounds fun _ => rule
  | seq {gs : List (Rule → Rule)} : (∀ g ∈ gs, Surrounds g) →
      Surrounds fun x => .seq (gs.map fun g => g x)
  | choice {gs : List (Rule → Rule)} : (∀ g ∈ gs, Surrounds g) →
      Surrounds fun x => .choice (gs.map fun g => g x)
  | star {gs : List (Rule → Rule)} : (∀ g ∈ gs, Surrounds g) →
      Surrounds fun x => .star (gs.map fun g => g x)
  | plus {gs : List (Rule → Rule)} : (∀ g ∈ gs, Surrounds g) →
      Surrounds fun x => .plus (gs.map fun g => g x)
  | opt {gs : List (Rule → Rule)} : (∀ g ∈ gs, Surrounds g) →
      Surrounds fun x => .opt (gs.map fun g => g x)
  | ahead {g : Rule → Rule} : Surrounds g → Surrounds fun x => .ahead (g x)
  | notAhead {g : Rule → Rule} : Surrounds g → Surrounds fun x => .notAhead (g x)
  | must {g : Rule → Rule} : Surrounds g → Surrounds fun x => .must (g x)
  | upTo {g : Rule → Rule} {gs : List (Rule → Rule)} : Surrounds g → (∀ g ∈ gs, Surrounds g) →
      Surrounds fun x => .upTo (g x) (gs.map fun g => g x)
  | named {g : Rule → Rule} (name) : Surrounds g → Surrounds fun x => .named name (g x)
  | longBracket {gs : List (Rule → Rule)} (bracket) : (∀ g ∈ gs, Surrounds g) →
      Surrounds fun x => .longBracket bracket (gs.map fun g => g x)

namespace Rule.Surrounds

variable {C : Context σ} {D : Context τ} {S : Simulation C D} {x y : Rule} {G : Rule → Rule}
  {gs : List (Rule → Rule)}

open Matcher

/-- Rules of one name are put into a grammar without a change to its name. -/
theorem name_eq (hG : Surrounds G) (hname : y.name = x.name) : (G y).name = (G x).name := by
  cases hG with
  | here => exact hname
  | _ => rfl

theorem simulates_run (hG : Surrounds G) (hname : y.name = x.name)
    (h : S.Simulates ((G x).raw C) ((G y).raw D)) : S.Simulates ((G x).run C) ((G y).run D) := by
  unfold Rule.run
  rw [hG.name_eq hname]
  exact h.enclosed _

theorem simulates_runs (hgs : ∀ g ∈ gs, Surrounds g) (hname : y.name = x.name)
    (h : ∀ g ∈ gs, S.Simulates ((g x).raw C) ((g y).raw D)) :
    List.Forall₂ (fun r r' => S.Simulates (r.run C) (r'.run D)) (gs.map fun g => g x)
      (gs.map fun g => g y) := by
  rw [List.forall₂_map_left_iff, List.forall₂_map_right_iff, List.forall₂_same]
  exact fun g hg => (hgs g hg).simulates_run hname (h g hg)

/-- What runs alike does so in every place of a grammar. -/
theorem simulates_raw (hG : Surrounds G) (hname : y.name = x.name)
    (h : S.Simulates (x.raw C) (y.raw D)) : S.Simulates ((G x).raw C) ((G y).raw D) := by
  have hall (rules : List Rule) : Derives C (outlines rules) (rawAll C rules) :=
    derives_all C fun _ => mem_outlines
  induction hG with
  | here => exact h
  | fixed rule => exact S.simulates_raw rule
  | seq hgs ih => exact Simulation.simulates_rawAll (simulates_runs hgs hname ih)
  | choice hgs ih => exact Simulation.simulates_rawFirst (simulates_runs hgs hname ih)
  | star hgs ih =>
      exact (Simulation.simulates_rawAll (simulates_runs hgs hname ih)).repeated (hall _)
  | plus hgs ih =>
      have hround := Simulation.simulates_rawAll (simulates_runs hgs hname ih)
      exact hround.andThen (hround.repeated (hall _)) (hall _).repeated
  | opt hgs ih => exact (Simulation.simulates_rawAll (simulates_runs hgs hname ih)).optional
  | ahead hg ih => exact (simulates_run hg hname ih).lookAhead
  | notAhead hg ih => exact (simulates_run hg hname ih).lookAhead.negate
  | must hg ih =>
      rw [raw, raw, hg.name_eq hname]
      exact (ih.enclosed _).required _
  | @upTo g gs hg hgs ih ihs =>
      have hround : Derives C (outlines (g x :: gs.map fun g => g x))
          (rawAll C (gs.map fun g => g x)) :=
        derives_all C fun _ hr => mem_outlines (.tail (g x) hr)
      have hend : Derives C (outlines (g x :: gs.map fun g => g x)) ((g x).run C) :=
        derives_enclosed (derives_raw C (g x)) (mem_outlines (.head _))
      have hbody := Simulation.simulates_rawAll (simulates_runs hgs hname ihs)
      exact (simulates_run hg hname ih).upTo hend (restores_enclosed _ _)
        (fun _ s t _ => Simulation.simulates_roundOf (by simp) hbody s t) (derives_roundOf hround)
  | named name hg ih => exact simulates_run hg hname ih
  | longBracket bracket hgs ih =>
      have hbody := Simulation.simulates_rawAll (simulates_runs hgs hname ih)
      exact Simulation.simulates_longBracket (Simulation.simulates_roundOf (by simp) hbody)
        (derives_roundOf (hall _))

end Rule.Surrounds

/-! ## Single characters for a body -/

section DefaultContents

variable {C : Context σ} {i : Journal} {G : Rule → Rule} {s t : Session σ}

/-- While no rule is refused, both kinds of a body run alike. -/
theorem simulates_anyContents (hany : C.hooks.get? "any" = none) (b : LongBracket) :
    (Simulation.padding C (fun x => x.event.isRefusal = false) i).Simulates
      ((Rule.longBracket b [.any]).raw C) ((Rule.longBracket b []).raw C) := by
  refine Simulation.simulates_longBracket (fun s t hst he hfair => ?_)
    (Matcher.derives_roundOf (Rule.derives_all C fun _ => Rule.mem_outlines))
  have hround : (Rule.rawAll C [.any] s).2 = (Rule.run C .any s).2 := by
    rw [Rule.rawAll, Rule.rawAll, Matcher.andThen, Rule.run]
    rcases Matcher.enclosed C Rule.any.name (Rule.raw C .any) s with ⟨_ | _ | e, u⟩ <;> rfl
  have hlt : s.depth < C.maxDepth :=
    lt_maxDepth_of_fair "any" hst.journal.suffix (congrArg Session.journal hround ▸ hfair)
  exact Simulation.like_roundOf_any hany hlt hst he

/-- A literal whose body is not described is the literal whose body is described by the rule for
any character, alone or inside any grammar, but for what is reported of this rule. -/
theorem Session.parse_anyContents (C : Context σ) (b : LongBracket) (hG : Rule.Surrounds G)
    (s : Session σ) (hany : C.hooks.get? "any" = none)
    (h : Journal.Unrefused s.journal (s.parse C (G (.longBracket b [.any]))).2.journal) :
    RunsAlikeButAny C s (s.parse C (G (.longBracket b [])))
      (s.parse C (G (.longBracket b [.any]))) := by
  have hname : (Rule.longBracket b []).name = (Rule.longBracket b [.any]).name := rfl
  have hraw := hG.simulates_raw hname (simulates_anyContents (i := s.journal) hany b)
  have hrun := hG.simulates_run hname hraw s s (.refl s)
  exact (hrun (h.fair (C := C))).runsAlikeButAny

/-- Behind a complete literal and a bracket too many stands a literal that is not closed. -/
theorem Session.parse_anyContents_unterminated :
    let keep : Hook (List String) := .action fun matched found => matched.text :: found
    let C : Context (List String) := { hooks := ⟨.on, [("raw_string.content", keep)]⟩ }
    let G : Rule → Rule := fun x => .star [.choice [x, .any]]
    let s := begin C "[[\nä]]]a[=[b" []
    let run := s.parse C (G (.longBracket {} []))
    run.1 = .failed (.requiredMatch "raw_string.content" ⟨11, 12, 2, 9⟩) ∧ run.2.state = ["ä"] ∧
      RunsAlikeButAny C s run (s.parse C (G (.longBracket {} [.any]))) := by
  intro keep C G s run
  have hchoice : Rule.Surrounds fun x => .choice [x, .any] :=
    @Rule.Surrounds.choice [fun x => x, fun _ => .any]
      (List.forall_mem_cons.mpr ⟨.here, List.forall_mem_singleton.mpr (.fixed .any)⟩)
  have hG : Rule.Surrounds G :=
    @Rule.Surrounds.star [fun x => .choice [x, .any]] (List.forall_mem_singleton.mpr hchoice)
  have hrun := parse_anyContents C {} hG s rfl
    ⟨_, (List.append_nil _).symm, by decide +kernel⟩
  exact ⟨by decide +kernel, by decide +kernel, hrun⟩

end DefaultContents

end PegScan
