import PegScan.Proofs.Rule.Height
import PegScan.Proofs.Session.HigherLimit
import PegScan.Proofs.Session.History

/-! # The depth limit

The limit holds at every moment of a parse. Where the height of an outline fits under it, it never
matters; and a higher limit changes nothing that happens before the lower one refuses a rule. -/

namespace PegScan

variable {σ : Type} {C : Context σ}

/-! ## Journals without a refusal -/

/-- From one journal to the other, which continues it, no rule has been refused. -/
def Journal.Unrefused (i j : Journal) : Prop :=
  ∃ log : List Entry, j = log ++ i ∧ ∀ x ∈ log, x.event.isRefusal = false

namespace Journal.Unrefused

variable {i j k : Journal} {x : Entry}

theorem refl (j : Journal) : Unrefused j j := ⟨[], rfl, by simp⟩

theorem trans (h : Unrefused i j) (h' : Unrefused j k) : Unrefused i k := by
  obtain ⟨log, rfl, hlog⟩ := h
  obtain ⟨log', rfl, hlog'⟩ := h'
  refine ⟨log' ++ log, (List.append_assoc ..).symm, fun x hx => ?_⟩
  rcases List.mem_append.mp hx with hx | hx
  · exact hlog' x hx
  · exact hlog x hx

theorem cons (h : Unrefused i j) (hx : x.event.isRefusal = false) : Unrefused i (x :: j) :=
  h.trans ⟨[x], rfl, by simpa using hx⟩

/-- Wherever the new entries are split, there is no refusal. -/
theorem isRefusal_eq_false {later earlier : Journal} (h : Unrefused i j)
    (hj : j = later ++ x :: (earlier ++ i)) : x.event.isRefusal = false := by
  obtain ⟨log, hlog, hx⟩ := h
  have hsplit : log ++ i = (later ++ x :: earlier) ++ i := by rw [← hlog, hj]; simp
  rw [List.append_cancel_right hsplit] at hx
  exact hx x (by simp)

end Journal.Unrefused

/-! ## Where the limit never matters -/

/-- The parts are reported, and started at this depth they do not reach above the limit. -/
def Fits (limit depth : ℕ) (ps : List Outline) : Prop :=
  ∀ p ∈ ps, p.exempt = false ∧ depth + p.height ≤ limit

namespace Fits

variable {limit depth : ℕ} {ps : List Outline} {p : Outline}

theorem lt (h : Fits limit depth ps) (hp : p ∈ ps) : depth < limit := by
  obtain ⟨ho, hle⟩ := h p hp
  have hpos := p.height_pos ho
  omega

theorem inside (h : Fits limit depth ps) (hp : p ∈ ps) : Fits limit (depth + 1) p.parts := by
  obtain ⟨ho, hle⟩ := h p hp
  intro part hpart
  have hlower := Outline.height_lt_of_mem_parts hpart ho
  exact ⟨Outline.exempt_of_mem_parts hpart, by omega⟩

end Fits

/-- The start of a part and its end are no refusals. -/
theorem Journal.Unrefused.closed {s t : Session σ} {rule : String} {event : Event}
    (h : Unrefused (s.opened rule).journal t.journal) (he : event.isRefusal = false) :
    Unrefused s.journal (t.closed event).journal := by
  have hopened : Unrefused s.journal (s.opened rule).journal :=
    (Unrefused.refl s.journal).cons (x := ⟨.start rule, s.position, s.mode, s.depth + 1⟩) rfl
  exact (hopened.trans h).cons he

theorem Session.unrefused_apply (C : Context σ) (rule : String) (start : Cursor) (s : Session σ) :
    Journal.Unrefused s.journal (s.apply C rule start).2.journal := by
  rcases apply_cases C rule start s with h | ⟨matched, accepted, state, h⟩
  · rw [h]
    exact .refl s.journal
  · rw [h]
    exact (Journal.Unrefused.refl s.journal).cons rfl

theorem Derivation.unrefused {ps : List Outline} {s t : Session σ} {o : Outcome}
    (h : Derivation C ps s o t) (hfits : Fits C.maxDepth s.depth ps) :
    Journal.Unrefused s.journal t.journal := by
  induction h with
  | succeed s | mismatch s | passLineBreak s => exact .refl s.journal
  | @advance _ s _ _ => exact .refl s.journal
  | andThen h _ ih ih' => exact (ih hfits).trans (ih' (h.depth_eq ▸ hfits))
  | orElse h _ _ ih ih' => exact (ih hfits).trans (ih' (h.depth_eq ▸ hfits))
  | giveUp _ ih => exact ih hfits
  | goBack _ ih => exact ih hfits
  | required _ _ ih => exact (ih hfits).cons rfl
  | lookAhead _ _ _ ih => exact ih hfits
  | lookAheadFailed _ ih => exact ih hfits
  | refused hp hd => exact (Nat.not_lt.mpr hd (hfits.lt hp)).elim
  | unwound hp _ _ ih => exact (ih (hfits.inside hp)).closed rfl
  | missed hp _ _ ih => exact (ih (hfits.inside hp)).closed rfl
  | @accepted _ s t _ p hp _ _ ha ih =>
      have happly := (t.closed (.success p.name)).unrefused_apply C p.name s.cursor
      rw [ha] at happly
      exact ((ih (hfits.inside hp)).closed rfl).trans happly
  | @vetoed _ s t _ p hp _ _ ha ih =>
      have happly := (t.closed (.success p.name)).unrefused_apply C p.name s.cursor
      rw [ha] at happly
      exact ((ih (hfits.inside hp)).closed rfl).trans happly

/-- An error that is not from the limit was raised for a required match. -/
theorem Context.eq_raise_of_fault? {x : Entry} {earlier : Journal} {e : Error}
    (h : C.fault? (x :: earlier) = some e) (hx : x.event.isRefusal = false) :
    ∃ rule, x.event = .raise rule ∧ e = C.raise (x :: earlier) rule x.position := by
  obtain ⟨event, position, mode, depth⟩ := x
  cases event with
  | raise rule => exact ⟨rule, rfl, (Option.some.inj h).symm⟩
  | refused rule => simp [Event.isRefusal] at hx
  | _ => simp [Context.fault?] at h

/-- The limit never matters: no rule is refused, and an error is one that was raised. -/
structure Unlimited (C : Context σ) (s : Session σ) (run : Outcome × Session σ) : Prop where
  unrefused : Journal.Unrefused s.journal run.2.journal
  raised : ∀ e, run.1 = .failed e → ∃ later x earlier rule,
    run.2.journal = later ++ x :: (earlier ++ s.journal) ∧ x.event = .raise rule ∧
      e = C.raise (x :: (earlier ++ s.journal)) rule x.position

theorem Derivation.unlimited {ps : List Outline} {s t : Session σ} {o : Outcome}
    (h : Derivation C ps s o t) (hfits : Fits C.maxDepth s.depth ps) : Unlimited C s (o, t) where
  unrefused := h.unrefused hfits
  raised := by
    intro e he
    obtain ⟨new, hj, -, hfailed⟩ := h.failsAtOnce
    obtain ⟨later, x, earlier, rfl, hfault⟩ := hfailed e he
    have hjournal : t.journal = later ++ x :: (earlier ++ s.journal) := by simpa using hj
    have hx := (h.unrefused hfits).isRefusal_eq_false hjournal
    obtain ⟨rule, hraise, heq⟩ := Context.eq_raise_of_fault? hfault hx
    exact ⟨later, x, earlier, rule, hjournal, hraise, heq⟩

/-! ## Parses -/

/-- What the limit of a context means for the run of a matcher, given the height of what the
matcher starts. -/
structure GuardsDepth (f : Context σ → Matcher σ) (height : ℕ) (C : Context σ) (s : Session σ) :
    Prop where
  /-- The run is a history that writes its entries at moments of its own, and no history goes
  above the limit. -/
  history : ∃ (past : List (Session σ)) (log : List Entry), History C s ((f C s).2 :: past) ∧
    (f C s).2.journal = log.reverse ++ s.journal ∧
      ∀ x ∈ log, ∃ u ∈ (f C s).2 :: past, x = u.moment.entry x.event
  bounded : ∀ been, History C s been → ∀ u ∈ been, u.depth ≤ C.maxDepth
  /-- Under a limit that is high enough it never matters. -/
  unlimited : s.depth + height ≤ C.maxDepth → Unlimited C s (f C s)
  /-- Without a refusal, the run under a higher limit is the same in all. -/
  same : ∀ limit, C.maxDepth ≤ limit → Journal.Unrefused s.journal (f C s).2.journal →
    f (C.withLimit limit) s = f C s
  /-- All that was written before a refusal is also written under a higher limit; and the limit
  has not been high enough. -/
  common : ∀ limit, C.maxDepth ≤ limit → ∀ later x earlier,
    (f C s).2.journal = later ++ x :: (earlier ++ s.journal) → x.event.isRefusal = true →
      earlier ++ s.journal <:+ (f (C.withLimit limit) s).2.journal ∧
        C.maxDepth < s.depth + height

theorem Matcher.guardsDepth {f : Context σ → Matcher σ} {o : Outline} (ho : o.exempt = false)
    (hf : Derives C [o] (f C))
    (hfollows : ∀ limit, C.maxDepth ≤ limit → Follows (f C) (f (C.withLimit limit)))
    {s : Session σ} (hs : s.depth ≤ C.maxDepth) : GuardsDepth f o.height C s where
  history := by
    obtain ⟨past, h, -⟩ := (hf s).goesOn (.start : History C s [s])
    obtain ⟨log, hj, hlog⟩ := h.exists_log
    exact ⟨past, log, h, hj, fun x hx => (hlog x hx).moment⟩
  bounded _ h := h.depth_le hs
  unlimited hle := (hf s).unlimited (by simpa [Fits] using ⟨ho, hle⟩)
  same limit hle h := by
    rcases hfollows limit hle s with heq | hcut
    · exact heq
    · obtain ⟨later, x, _, hj, hx, ⟨earlier, rfl⟩, -⟩ := hcut.common
      simp [h.isRefusal_eq_false hj] at hx
  common limit hle later x earlier hj hx := by
    constructor
    · rcases hfollows limit hle s with heq | hcut
      · rw [heq, hj]
        exact (List.suffix_cons _ _).trans (List.suffix_append _ _)
      · exact hcut.suffix_of_eq (hf s) hj hx
    · by_contra hge
      have hfits : Fits C.maxDepth s.depth [o] := by
        simpa [Fits] using ⟨ho, Nat.not_lt.mp hge⟩
      simp [((hf s).unrefused hfits).isRefusal_eq_false hj] at hx

namespace Session

/-- A parse of all the rest runs by the rules of derivation as well. -/
theorem derives_parseAll (C : Context σ) (rule : Rule) :
    Matcher.Derives C [rule.outline] (parseAll C rule) := by
  intro s
  have h : Derivation C [rule.outline] s (s.parse C rule).1 (s.parse C rule).2 :=
    Rule.derives_run C rule s
  rw [parseAll_eq]
  split
  · rename_i hm
    rw [hm.1] at h
    exact .giveUp (.goBack (.giveUp h))
  · exact h

/-- The depth limit guards both ways to parse: it is never passed, the height of the outline is
enough for it, and no more than the parse itself depends on it. -/
theorem parse_guardsDepth (C : Context σ) (rule : Rule) (s : Session σ)
    (hs : s.depth ≤ C.maxDepth) :
    IsGreatest {n | ∃ path, rule.outline.Way path ∧ (Outline.reported path).length = n}
      rule.outline.height ∧
    GuardsDepth (fun C => parse C rule) rule.outline.height C s ∧
    GuardsDepth (fun C => parseAll C rule) rule.outline.height C s := by
  have ho := rule.exempt_outline
  refine ⟨rule.outline.isGreatest_height, Matcher.guardsDepth ho (Rule.derives_run C rule) ?_ hs,
    Matcher.guardsDepth ho (derives_parseAll C rule) ?_ hs⟩
  · exact fun limit hle => parse_follows rule hle
  · exact fun limit hle => parseAll_follows rule hle

/-- A literal inside a sequence is of height four: what matches its delimiters is exempt. With a
limit of three its characters are refused. -/
theorem parse_guardsDepth_literal :
    let rule : Rule := .seq [.longBracket { name := "quote" } [.any]]
    let C : Context ℕ := { hooks := .empty, maxDepth := 3 }
    let s := begin C "[[a]]" 0
    let run := s.parse C rule
    let refused : Entry := ⟨.refused "any", ⟨2, 2, 1, 3⟩, .off, 3⟩
    rule.outline.height = 4 ∧
      run.2.journal = run.2.journal.take 3 ++ refused :: run.2.journal.drop 4 ∧
      run.2.journal.drop 4 <:+ (s.parse (C.withLimit 4) rule).2.journal ∧
      (s.parse (C.withLimit 4) rule).1 = .matched := by
  intro rule C s run refused
  have hnone : run.2.journal.drop 4 ++ s.journal = run.2.journal.drop 4 := List.append_nil _
  have hj : run.2.journal = run.2.journal.take 3 ++ refused :: run.2.journal.drop 4 := by
    decide +kernel
  obtain ⟨-, hparse, -⟩ := parse_guardsDepth C rule s (Nat.zero_le _)
  obtain ⟨hcommon, -⟩ := hparse.common 4 (by decide) _ refused _ (by rwa [hnone]) rfl
  exact ⟨by decide +kernel, hj, hnone ▸ hcommon, by decide +kernel⟩

end Session
end PegScan
