import PegScan.Proofs.Session.Failure
import PegScan.Proofs.Session.Simulation

/-! # Runs under a higher limit

A run and the same run under a higher limit take the same turns until the lower limit refuses a
rule. What had been written down by then stands at the beginning of both. -/

namespace PegScan

variable {σ : Type} {C : Context σ}

def Context.withLimit (C : Context σ) (limit : ℕ) : Context σ := { C with maxDepth := limit }

def Event.isRefusal : Event → Bool
  | .refused _ => true
  | _ => false

theorem Event.isFatal_of_isRefusal {event : Event} (h : event.isRefusal = true) :
    event.isFatal = true := by
  cases event <;> simp_all [isRefusal, isFatal]

/-! ## Runs cut short -/

/-- The first run has ended in a refusal. Up to there, the second one has written the same behind
the journal `j`. -/
structure CutShort (j : Journal) (run run' : Outcome × Session σ) : Prop where
  failed : ∃ e, run.1 = .failed e
  common : ∃ later x earlier, run.2.journal = later ++ x :: earlier ∧ x.event.isRefusal = true ∧
    j <:+ earlier ∧ earlier <:+ run'.2.journal

namespace CutShort

variable {i j : Journal} {run run' run'' : Outcome × Session σ} {t u : Session σ} {e e' : Error}

theorem of_suffix (h : CutShort j run run') (hi : i <:+ j) : CutShort i run run' := by
  obtain ⟨later, x, earlier, hj, hx, hearlier, hsame⟩ := h.common
  exact ⟨h.failed, later, x, earlier, hj, hx, hi.trans hearlier, hsame⟩

/-- After the refusal both runs may go on, the first one in failure. -/
theorem goesOn (h : CutShort j (.failed e, t) run') (ht : t.journal <:+ u.journal)
    (hr : run'.2.journal <:+ run''.2.journal) : CutShort j (.failed e', u) run'' := by
  obtain ⟨later, x, earlier, hj, hx, hearlier, hsame⟩ := h.common
  obtain ⟨more, hmore⟩ := ht
  refine ⟨⟨e', rfl⟩, more ++ later, x, earlier, ?_, hx, hearlier, hsame.trans hr⟩
  rw [List.append_assoc, ← hj, hmore]

/-- The first run has one refusal only, so that any other way to find it is this one. -/
theorem suffix_of_eq {ps : List Outline} {s : Session σ} {later earlier : Journal} {x : Entry}
    (h : CutShort s.journal run run') (hderived : Derivation C ps s run.1 run.2)
    (hj : run.2.journal = later ++ x :: (earlier ++ s.journal)) (hx : x.event.isRefusal = true) :
    earlier ++ s.journal <:+ run'.2.journal := by
  obtain ⟨e, he⟩ := h.failed
  obtain ⟨later', x', _, hj', hx', ⟨earlier', rfl⟩, hsame⟩ := h.common
  rw [he] at hderived
  obtain ⟨later₀, x₀, earlier₀, rules, ha⟩ := hderived.runJournal.of_failed
  have hunique {later earlier : Journal} {x : Entry}
      (hj : run.2.journal = later ++ x :: (earlier ++ s.journal))
      (hx : x.event.isRefusal = true) : earlier = earlier₀ := by
    have hsplit : (later ++ x :: earlier) ++ s.journal =
        (later₀ ++ x₀ :: earlier₀) ++ s.journal := by
      simpa using hj.symm.trans ha.journal
    exact (Journal.split_eq (List.append_cancel_right hsplit) (Event.isFatal_of_isRefusal hx)
      ha.unwinds.quiet ha.quiet).2.2
  rwa [hunique hj hx, ← hunique hj' hx']

end CutShort

/-! ## Journals grow -/

namespace Matcher

variable {f f' g g' : Matcher σ}

def Grows (f : Matcher σ) : Prop := ∀ s, s.journal <:+ (f s).2.journal

theorem Grows.of_eq {s t : Session σ} {o : Outcome} (hf : Grows f) (h : f s = (o, t)) :
    s.journal <:+ t.journal := by
  simpa only [h] using hf s

theorem suffix_advance (n : ℕ) (s : Session σ) : s.journal <:+ (s.advance n).journal := by
  unfold Session.advance Session.asking
  split
  · exact List.suffix_rfl
  · exact List.suffix_cons _ _

theorem grows_consume (n : ℕ) (test : List Char → Bool) : Grows (consume n test : Matcher σ) := by
  intro s
  unfold consume
  split
  · exact suffix_advance n s
  · exact List.suffix_rfl

theorem Derives.grows {ps : List Outline} (h : Derives C ps f) : Grows f := fun s => (h s).suffix

theorem grows_roundOf (rules : List Rule) (hf : Grows f) : Grows (Rule.roundOf rules f) := by
  intro s
  unfold Rule.roundOf
  split
  · exact suffix_advance 1 s
  · exact hf s

theorem Grows.required (rule : String) (hf : Grows f) : Grows (f.required C rule) := by
  intro s
  unfold Matcher.required
  rcases h : f s with ⟨_ | _ | e, t⟩
  · exact hf.of_eq h
  · exact (hf.of_eq h).trans (List.suffix_cons _ _)
  · exact hf.of_eq h

/-- What a rule has written inside is followed by its end. -/
theorem suffix_enclosed (rule : String) (f : Matcher σ) {s : Session σ}
    (hd : s.depth < C.maxDepth) :
    (f (s.opened rule)).2.journal <:+ (enclosed C rule f s).2.journal := by
  rw [enclosed_of_lt hd]
  rcases f (s.opened rule) with ⟨_ | _ | e, t⟩
  · have happly := (t.closed (.success rule)).suffix_apply C rule s.cursor
    dsimp only
    rcases ha : (t.closed (.success rule)).apply C rule s.cursor with ⟨_ | _, u⟩ <;>
      rw [ha] at happly
    · exact (List.suffix_cons _ _).trans happly
    · exact (List.suffix_cons _ _).trans happly
  · exact List.suffix_cons _ _
  · exact List.suffix_cons _ _

theorem Grows.enclosed (rule : String) (hf : Grows f) : Grows (enclosed C rule f) := by
  intro s
  rcases Nat.lt_or_ge s.depth C.maxDepth with hd | hd
  · have hopened : s.journal <:+ (s.opened rule).journal := List.suffix_cons _ _
    exact (hopened.trans (hf _)).trans (suffix_enclosed rule f hd)
  · rw [enclosed_of_le hd]
    exact List.suffix_cons _ _

theorem Grows.repeated (hf : Grows f) : Grows (repeated f) := by
  intro s
  fun_induction Matcher.repeated f s with
  | case1 s e t h => exact hf.of_eq h
  | case2 s t h =>
      have hround : s.journal <:+ t.journal := hf.of_eq h
      exact hround
  | case3 s t h _ ih => exact (hf.of_eq h).trans ih
  | case4 s t h _ => exact hf.of_eq h

theorem suffix_repeated (hf : Grows f) (s : Session σ) :
    (f s).2.journal <:+ (repeated f s).2.journal := by
  rw [Matcher.repeated]
  rcases f s with ⟨_ | _ | e, t⟩
  · dsimp only
    split
    · exact hf.repeated t
    · exact List.suffix_rfl
  · exact List.suffix_rfl
  · exact List.suffix_rfl

theorem Grows.upTo (hf : Grows f) (hg : Grows g) : Grows (upTo f g) := by
  intro s
  fun_induction Matcher.upTo f g s with
  | case1 s e t h => exact hf.of_eq h
  | case2 s t h => exact hf.of_eq h
  | case3 s t h _ => exact hf.of_eq h
  | case4 s t h _ e u hu => exact (hf.of_eq h).trans (hg.of_eq hu)
  | case5 s t h _ u hu => exact (hf.of_eq h).trans (hg.of_eq hu)
  | case6 s t h _ u hu _ ih => exact ((hf.of_eq h).trans (hg.of_eq hu)).trans ih
  | case7 s t h _ u hu _ => exact (hf.of_eq h).trans (hg.of_eq hu)

theorem suffix_upTo_of_mismatched (hf : Grows f) (hg : Grows g) {s t : Session σ}
    (h : f s = (.mismatched, t)) (hne : ¬ t.cursor.isEmpty = true) :
    (g t).2.journal <:+ (upTo f g s).2.journal := by
  rw [Matcher.upTo, h]
  simp only [hne, Bool.false_eq_true, ite_false]
  rcases g t with ⟨_ | _ | e, u⟩
  · dsimp only
    split
    · exact hf.upTo hg u
    · exact List.suffix_rfl
  · exact List.suffix_rfl
  · exact List.suffix_rfl

theorem suffix_upTo (hf : Grows f) (hg : Grows g) (s : Session σ) :
    (f s).2.journal <:+ (upTo f g s).2.journal := by
  rcases h : f s with ⟨_ | _ | e, t⟩
  · rw [Matcher.upTo, h]
  · by_cases hne : t.cursor.isEmpty = true
    · rw [Matcher.upTo, h]
      simp only [hne, ite_true]
      exact List.suffix_rfl
    · exact (hg t).trans (suffix_upTo_of_mismatched hf hg h hne)
  · rw [Matcher.upTo, h]

/-! ## Following a matcher -/

/-- The second matcher runs as the first one, unless the first one is cut short. -/
def Follows (f f' : Matcher σ) : Prop :=
  ∀ s, f' s = f s ∨ CutShort s.journal (f s) (f' s)

namespace Follows

variable {s t : Session σ} {e : Error} {limit : ℕ}

theorem refl (f : Matcher σ) : Follows f f := fun _ => .inl rfl

theorem of_matched (h : Follows f f') (hs : f s = (.matched, t)) : f' s = (.matched, t) := by
  rcases h s with heq | hcut
  · rw [heq, hs]
  · obtain ⟨e, he⟩ := hcut.failed
    simp [hs] at he

theorem of_mismatched (h : Follows f f') (hs : f s = (.mismatched, t)) :
    f' s = (.mismatched, t) := by
  rcases h s with heq | hcut
  · rw [heq, hs]
  · obtain ⟨e, he⟩ := hcut.failed
    simp [hs] at he

/-- What fails because a matcher inside it has failed is followed as that matcher is. -/
theorem fails {run' : Outcome × Session σ} {e' : Error} {u : Session σ} (h : Follows f f')
    (hs : f s = (.failed e, t)) (ht : t.journal <:+ u.journal)
    (hrun : f' s = (.failed e, t) → run' = (.failed e', u))
    (hgrow : (f' s).2.journal <:+ run'.2.journal) :
    run' = (.failed e', u) ∨ CutShort s.journal (.failed e', u) run' := by
  have hs' := h s
  rw [hs] at hs'
  exact hs'.imp hrun fun hcut => hcut.goesOn ht hgrow

/-! ## Combinators -/

theorem andThen (hf : Follows f f') (hg : Follows g g') (hgrow : Grows f) (hgrow' : Grows g') :
    Follows (f.andThen g) (f'.andThen g') := by
  intro s
  unfold Matcher.andThen
  rcases hs : f s with ⟨_ | _ | e, t⟩
  · rw [hf.of_matched hs]
    exact (hg t).imp_right fun hcut => hcut.of_suffix (hgrow.of_eq hs)
  · rw [hf.of_mismatched hs]
    exact .inl rfl
  · refine hf.fails hs List.suffix_rfl (fun heq => by rw [heq]) ?_
    rcases f' s with ⟨_ | _ | _, t'⟩
    · exact hgrow' t'
    · exact List.suffix_rfl
    · exact List.suffix_rfl

theorem orElse (hf : Follows f f') (hg : Follows g g') (hgrow : Grows f) (hgrow' : Grows g') :
    Follows (f.orElse g) (f'.orElse g') := by
  intro s
  unfold Matcher.orElse
  rcases hs : f s with ⟨_ | _ | e, t⟩
  · rw [hf.of_matched hs]
    exact .inl rfl
  · rw [hf.of_mismatched hs]
    exact (hg t).imp_right fun hcut => hcut.of_suffix (hgrow.of_eq hs)
  · refine hf.fails hs List.suffix_rfl (fun heq => by rw [heq]) ?_
    rcases f' s with ⟨_ | _ | _, t'⟩
    · exact List.suffix_rfl
    · exact hgrow' t'
    · exact List.suffix_rfl

theorem optional (hf : Follows f f') : Follows f.optional f'.optional := by
  intro s
  unfold Matcher.optional
  rcases hs : f s with ⟨_ | _ | e, t⟩
  · rw [hf.of_matched hs]
    exact .inl rfl
  · rw [hf.of_mismatched hs]
    exact .inl rfl
  · refine hf.fails hs List.suffix_rfl (fun heq => by rw [heq]) ?_
    rcases f' s with ⟨_ | _ | _, t'⟩ <;> exact List.suffix_rfl

theorem lookAhead (hf : Follows f f') : Follows f.lookAhead f'.lookAhead := by
  intro s
  unfold Matcher.lookAhead
  rcases hs : f (s.setMode .off) with ⟨_ | _ | e, t⟩
  · rw [hf.of_matched hs]
    exact .inl rfl
  · rw [hf.of_mismatched hs]
    exact .inl rfl
  · change _ ∨ CutShort (s.setMode .off).journal _ _
    refine hf.fails hs List.suffix_rfl (fun heq => by rw [heq]) ?_
    rcases f' (s.setMode .off) with ⟨_ | _ | _, t'⟩ <;> exact List.suffix_rfl

theorem negate (hf : Follows f f') : Follows f.negate f'.negate := by
  intro s
  unfold Matcher.negate
  rcases hs : f s with ⟨_ | _ | e, t⟩
  · rw [hf.of_matched hs]
    exact .inl rfl
  · rw [hf.of_mismatched hs]
    exact .inl rfl
  · refine hf.fails hs List.suffix_rfl (fun heq => by rw [heq]) ?_
    rcases f' s with ⟨_ | _ | _, t'⟩ <;> exact List.suffix_rfl

theorem required {C : Context σ} (limit : ℕ) (rule : String) (hf : Follows f f') :
    Follows (f.required C rule) (f'.required (C.withLimit limit) rule) := by
  intro s
  unfold Matcher.required
  rcases hs : f s with ⟨_ | _ | e, t⟩
  · rw [hf.of_matched hs]
    exact .inl rfl
  · rw [hf.of_mismatched hs]
    exact .inl rfl
  · refine hf.fails hs List.suffix_rfl (fun heq => by rw [heq]) ?_
    rcases f' s with ⟨_ | _ | _, t'⟩
    · exact List.suffix_rfl
    · exact List.suffix_cons _ _
    · exact List.suffix_rfl

/-- A rule that is refused has written nothing yet. -/
theorem enclosed (rule : String) (hle : C.maxDepth ≤ limit) (hf : Follows f f')
    (hgrow' : Grows f') :
    Follows (enclosed C rule f) (enclosed (C.withLimit limit) rule f') := by
  intro s
  rcases Nat.lt_or_ge s.depth C.maxDepth with hd | hd
  · have hd' : s.depth < (C.withLimit limit).maxDepth := Nat.lt_of_lt_of_le hd hle
    have hsuffix := suffix_enclosed rule f' hd'
    rw [enclosed_of_lt hd'] at hsuffix
    rw [enclosed_of_lt hd, enclosed_of_lt hd']
    rcases hs : f (s.opened rule) with ⟨_ | _ | e, t⟩
    · rw [hf.of_matched hs]
      exact .inl rfl
    · rw [hf.of_mismatched hs]
      exact .inl rfl
    · refine (hf.fails hs (List.suffix_cons _ _) (fun heq => ?_) hsuffix).imp_right fun hcut =>
        hcut.of_suffix (List.suffix_cons _ _)
      rw [heq]
  · rw [enclosed_of_le hd]
    refine .inr ⟨⟨_, rfl⟩, [], s.moment.entry (.refused rule), s.journal, rfl, rfl, ?_,
      hgrow'.enclosed rule s⟩
    exact List.suffix_rfl

theorem repeated (hf : Follows f f') (hgrow : Grows f) (hgrow' : Grows f') :
    Follows (repeated f) (repeated f') := by
  intro s
  fun_induction Matcher.repeated f s with
  | case1 s e t h =>
      refine hf.fails h List.suffix_rfl (fun heq => ?_) (suffix_repeated hgrow' s)
      rw [Matcher.repeated, heq]
  | case2 s t h =>
      rw [Matcher.repeated, hf.of_mismatched h]
      exact .inl rfl
  | case3 s t h hlt ih =>
      have hstep : Matcher.repeated f' s = Matcher.repeated f' t := by
        rw [Matcher.repeated, hf.of_matched h]
        exact if_pos hlt
      rw [hstep]
      exact ih.imp_right fun hcut => hcut.of_suffix (hgrow.of_eq h)
  | case4 s t h hle =>
      rw [Matcher.repeated, hf.of_matched h]
      exact .inl (if_neg hle)

theorem upTo (hf : Follows f f') (hg : Follows g g') (hstop : Grows f) (hstop' : Grows f')
    (hround : Grows g) (hround' : Grows g') :
    Follows (upTo f g) (upTo f' g') := by
  intro s
  fun_induction Matcher.upTo f g s with
  | case1 s e t h =>
      refine hf.fails h List.suffix_rfl (fun heq => ?_) (suffix_upTo hstop' hround' s)
      rw [Matcher.upTo, heq]
  | case2 s t h =>
      rw [Matcher.upTo, hf.of_matched h]
      exact .inl rfl
  | case3 s t h he =>
      rw [Matcher.upTo, hf.of_mismatched h]
      exact .inl (if_pos he)
  | case4 s t h hne e u hu =>
      have hsuffix := suffix_upTo_of_mismatched hstop' hround' (hf.of_mismatched h) hne
      refine (hg.fails hu List.suffix_rfl (fun heq => ?_) hsuffix).imp_right fun hcut =>
        hcut.of_suffix (hstop.of_eq h)
      rw [Matcher.upTo, hf.of_mismatched h]
      simp [hne, heq]
  | case5 s t h hne u hu =>
      rw [Matcher.upTo, hf.of_mismatched h]
      simp [hne, hg.of_mismatched hu]
  | case6 s t h hne u hu hlt ih =>
      have hstep : Matcher.upTo f' g' s = Matcher.upTo f' g' u := by
        rw [Matcher.upTo, hf.of_mismatched h]
        simp [hne, hg.of_matched hu, hlt]
      have hsuffix : s.journal <:+ u.journal := (hstop.of_eq h).trans (hround.of_eq hu)
      rw [hstep]
      exact ih.imp_right fun hcut => hcut.of_suffix hsuffix
  | case7 s t h hne u hu hle =>
      rw [Matcher.upTo, hf.of_mismatched h]
      simp [hne, hg.of_matched hu, hle]

theorem roundOf (rules : List Rule) (hf : Follows f f') :
    Follows (Rule.roundOf rules f) (Rule.roundOf rules f') := by
  unfold Rule.roundOf
  split
  · exact .refl _
  · exact hf

/-- The opening bracket and the line break behind it are passed in the same way. -/
theorem longBracket {b : LongBracket} (hle : C.maxDepth ≤ limit) (hg : Follows g g')
    (hround : Grows g) (hround' : Grows g') :
    Follows (longBracket C b g) (longBracket (C.withLimit limit) b g') := by
  intro s
  unfold Matcher.longBracket
  cases b.delimiters.opening? s.cursor.rest with
  | none => exact .inl rfl
  | some o =>
      let closing : Matcher σ := consume 0 (b.delimiters.closes o)
      let last : Matcher σ := fun t => (.matched, t.advance o.width)
      have hclosing : Grows closing := grows_consume 0 _
      have hloop : Follows (Matcher.upTo closing g) (Matcher.upTo closing g') :=
        (refl closing).upTo hg hclosing hclosing hround hround'
      have hbody : Follows
          (Matcher.required C b.contentName (Matcher.enclosed C b.contentName
            (Matcher.upTo closing g)))
          (Matcher.required (C.withLimit limit) b.contentName
            (Matcher.enclosed (C.withLimit limit) b.contentName (Matcher.upTo closing g'))) :=
        (hloop.enclosed b.contentName hle (hclosing.upTo hround')).required limit b.contentName
      have hgrow := ((hclosing.upTo hround).enclosed (C := C) b.contentName).required (C := C)
        b.contentName
      have hall := hbody.andThen (refl last) hgrow (suffix_advance o.width)
      have hopened : s.journal <:+ ((s.advance o.width).passLineBreak C).2.journal := by
        simpa [Session.passLineBreak_eq] using suffix_advance o.width s
      exact (hall _).imp_right fun hcut => hcut.of_suffix hopened

end Follows
end Matcher

/-! ## Rules -/

namespace Rule

open Matcher

variable {limit : ℕ}

theorem grows_raw (C : Context σ) (rule : Rule) : Grows (rule.raw C) := (derives_raw C rule).grows

theorem grows_run (C : Context σ) (rule : Rule) : Grows (rule.run C) := (derives_run C rule).grows

theorem grows_rawAll (C : Context σ) (rules : List Rule) : Grows (rawAll C rules) := by
  simpa only [raw] using grows_raw C (seq rules)

theorem grows_rawFirst (C : Context σ) (rules : List Rule) : Grows (rawFirst C rules) := by
  simpa only [raw] using grows_raw C (choice rules)

theorem follows_run_of_raw {rule : Rule} (hle : C.maxDepth ≤ limit)
    (h : Follows (rule.raw C) (rule.raw (C.withLimit limit))) :
    Follows (rule.run C) (rule.run (C.withLimit limit)) :=
  h.enclosed rule.name hle (grows_raw _ rule)

theorem follows_rawAll {rules : List Rule} (hle : C.maxDepth ≤ limit)
    (h : ∀ r ∈ rules, Follows (r.raw C) (r.raw (C.withLimit limit))) :
    Follows (rawAll C rules) (rawAll (C.withLimit limit) rules) := by
  induction rules with
  | nil => exact .refl succeed
  | cons r rules ih =>
      rw [rawAll, rawAll]
      exact (follows_run_of_raw hle (h r (.head rules))).andThen
        (ih fun r' hr => h r' (.tail r hr)) (grows_run C r) (grows_rawAll _ rules)

theorem follows_rawFirst {rules : List Rule} (hle : C.maxDepth ≤ limit)
    (h : ∀ r ∈ rules, Follows (r.raw C) (r.raw (C.withLimit limit))) :
    Follows (rawFirst C rules) (rawFirst (C.withLimit limit) rules) := by
  induction rules with
  | nil => exact .refl mismatch
  | cons r rules ih =>
      rw [rawFirst, rawFirst]
      exact (follows_run_of_raw hle (h r (.head rules))).orElse
        (ih fun r' hr => h r' (.tail r hr)) (grows_run C r) (grows_rawFirst _ rules)

theorem follows_raw (rule : Rule) (hle : C.maxDepth ≤ limit) :
    Follows (rule.raw C) (rule.raw (C.withLimit limit)) := by
  induction rule with
  | any | one _ | notOne _ | range _ _ | text _ | endOfText | lineBreak => exact .refl _
  | seq rules ih => exact follows_rawAll hle ih
  | choice rules ih => exact follows_rawFirst hle ih
  | star rules ih =>
      exact (follows_rawAll hle ih).repeated (grows_rawAll C rules) (grows_rawAll _ rules)
  | plus rules ih =>
      have hall := follows_rawAll hle ih
      have hgrow := grows_rawAll C rules
      have hgrow' := grows_rawAll (C.withLimit limit) rules
      exact hall.andThen (hall.repeated hgrow hgrow') hgrow hgrow'.repeated
  | opt rules ih => exact (follows_rawAll hle ih).optional
  | ahead rule ih => exact (follows_run_of_raw hle ih).lookAhead
  | notAhead rule ih => exact (follows_run_of_raw hle ih).lookAhead.negate
  | must rule ih => exact (follows_run_of_raw hle ih).required limit rule.name
  | upTo stop body hstop hbody =>
      exact (follows_run_of_raw hle hstop).upTo ((follows_rawAll hle hbody).roundOf body)
        (grows_run C stop) (grows_run _ stop) (grows_roundOf body (grows_rawAll C body))
        (grows_roundOf body (grows_rawAll _ body))
  | named name rule ih => exact follows_run_of_raw hle ih
  | longBracket bracket contents ih =>
      exact ((follows_rawAll hle ih).roundOf contents).longBracket hle
        (grows_roundOf contents (grows_rawAll C contents))
        (grows_roundOf contents (grows_rawAll _ contents))

end Rule

/-! ## Parses -/

namespace Session

open Matcher

theorem parse_follows (rule : Rule) {limit : ℕ} (hle : C.maxDepth ≤ limit) :
    Follows (parse C rule) (parse (C.withLimit limit) rule) :=
  Rule.follows_run_of_raw hle (Rule.follows_raw rule hle)

theorem parseAll_follows (rule : Rule) {limit : ℕ} (hle : C.maxDepth ≤ limit) :
    Follows (parseAll C rule) (parseAll (C.withLimit limit) rule) := by
  have h := parse_follows rule hle
  intro s
  unfold parseAll
  rcases hs : s.parse C rule with ⟨_ | _ | e, t⟩
  · rw [h.of_matched hs]
    exact .inl rfl
  · rw [h.of_mismatched hs]
    exact .inl rfl
  · refine h.fails hs List.suffix_rfl (fun heq => by rw [heq]) ?_
    rcases s.parse (C.withLimit limit) rule with ⟨_ | _ | _, t'⟩
    · dsimp only
      split <;> exact List.suffix_rfl
    · exact List.suffix_rfl
    · exact List.suffix_rfl

end Session
end PegScan
