import PegScan.Proofs.Rule.Consuming
import PegScan.Proofs.Session.Frame

/-! # Progress

Where the outline of a rule says that it consumes, a match ends behind the place where it began.
Loops up to a stop are the exception: their shape is that of a sequence, but a body that is
declared as a part of it may be passed over. -/

namespace PegScan

variable {σ : Type} {C : Context σ} {ps : List Outline} {f g : Matcher σ} {s t : Session σ}

namespace Matcher

def Advances (f : Matcher σ) : Prop :=
  ∀ ⦃s t⦄, f s = (.matched, t) → s.position.offset < t.position.offset

def MatchesInPlace (f : Matcher σ) (s : Session σ) : Prop :=
  (f s).1 = .matched ∧ (f s).2.position.offset = s.position.offset

theorem Derives.offset_le (hf : Derives C ps f) (h : f s = (.matched, t)) :
    s.position.offset ≤ t.position.offset := by
  obtain ⟨cs, hp⟩ := (hf.of_eq h).passes rfl
  simp only [Session.position_eq, hp.offset]
  omega

/-! ## Characters and line breaks -/

theorem offset_advance {n : ℕ} (h : n ≤ s.cursor.left) :
    (s.rewind (s.cursor.advance n)).position.offset = s.position.offset + n := by
  rw [Session.position_eq, Session.cursor_rewind, (Cursor.passes_advance n s.cursor).offset,
    List.length_take, ← s.cursor.left_eq, Nat.min_eq_left h]
  rfl

theorem advances_consume {n : ℕ} {test : List Char → Bool} (hn : 0 < n)
    (h : ∀ cs, test cs = true → n ≤ cs.length) :
    Advances (consume n test : Matcher σ) := by
  intro s t ht
  unfold consume at ht
  split at ht
  · rename_i htest
    have hleft : n ≤ s.cursor.left := s.cursor.left_eq ▸ h _ htest
    obtain ⟨-, rfl⟩ := Prod.mk.inj ht
    rw [Session.advance_of_le hleft, offset_advance hleft]
    omega
  · simp at ht

theorem advances_character (test : Char → Bool) : Advances (character test : Matcher σ) := by
  refine advances_consume Nat.one_pos fun cs h => ?_
  cases cs with
  | nil => simp at h
  | cons c cs => simp

theorem advances_lineBreak (C : Context σ) : Advances (Matcher.lineBreak C) := by
  intro s t ht
  have hp := s.cursor.passes_passLineBreak C.lineBreak
  simp only [Matcher.lineBreak, Session.passLineBreak_eq] at ht
  obtain ⟨hconsumed, rfl⟩ := Prod.mk.inj ht
  have hwidth : C.lineBreak.width s.cursor.rest ≠ 0 := by
    intro hzero
    simp [Cursor.passLineBreak, hzero] at hconsumed
  have hle := C.lineBreak.width_le s.cursor.rest
  simp only [Session.position_eq, Session.cursor_rewind, hp.offset, List.length_take]
  omega

/-! ## Combinators -/

theorem Advances.andThen_left (hf : Advances f) (hg : Derives C ps g) :
    Advances (f.andThen g) := by
  intro s t ht
  unfold Matcher.andThen at ht
  split at ht
  · rename_i u hu
    exact (hf hu).trans_le (hg.offset_le ht)
  · rename_i hne hrun
    obtain ⟨rfl, rfl⟩ := Prod.mk.inj ht
    exact (hne rfl).elim

theorem Advances.andThen_right (hf : Derives C ps f) (hg : Advances g) :
    Advances (f.andThen g) := by
  intro s t ht
  unfold Matcher.andThen at ht
  split at ht
  · rename_i u hu
    exact (hf.offset_le hu).trans_lt (hg ht)
  · rename_i hne hrun
    obtain ⟨rfl, rfl⟩ := Prod.mk.inj ht
    exact (hne rfl).elim

theorem Advances.orElse (hf : Advances f) (hback : Restores f) (hg : Advances g) :
    Advances (f.orElse g) := by
  intro s t ht
  unfold Matcher.orElse at ht
  split at ht
  · rename_i u hu
    have hu' : u.position = s.position := by rw [Session.position_eq, hback hu]; rfl
    exact hu' ▸ hg ht
  · rename_i hrun
    exact hf (hrun.trans ht)

theorem Advances.required (rule : String) (hf : Advances f) : Advances (f.required C rule) :=
  fun _ _ ht => hf (matched_of_required_eq ht)

theorem Advances.enclosed (rule : String) (hf : Advances f) : Advances (enclosed C rule f) := by
  intro s t ht
  obtain ⟨u, hu, hcursor⟩ := matched_of_enclosed_eq ht
  have hlt : (s.opened rule).position.offset < u.position.offset := hf hu
  rwa [Session.position_eq t, hcursor]

/-- A loop that matches has taken a round, which takes characters, or its stop has matched at
once and the body was passed over. -/
theorem matched_of_upTo (hf : Derives C ps f) (hback : Restores f)
    (hg : ∀ s, s.cursor.isEmpty = false → Derivation C ps s (g s).1 (g s).2)
    (h : Matcher.upTo f g s = (.matched, t)) :
    f s = (.matched, t) ∨ s.position.offset < t.position.offset := by
  fun_induction Matcher.upTo f g s with
  | case2 s u hu =>
      obtain rfl := (Prod.mk.inj h).2
      exact .inl hu
  | case6 s u hu hne v hv hlt ih =>
      have hround : Derivation C ps u .matched v := by
        simpa [hv] using hg u (by simpa using hne)
      obtain ⟨cs, hp⟩ := hround.passes rfl
      have hleft := hp.left
      have hoffset := hp.offset
      rw [hback hu] at hleft hoffset
      have hvt : v.position.offset ≤ t.position.offset := by
        rcases ih h with hstop | hfurther
        · exact hf.offset_le hstop
        · exact hfurther.le
      simp only [Session.position_eq] at hvt ⊢
      exact .inr (by omega)
  | _ => simp at h

/-- A literal begins with an opening bracket of at least two characters. -/
theorem advances_longBracket {b : LongBracket} {body : Outline} {unit : Matcher σ}
    (hp : body ∈ ps) (hname : body.name = b.contentName)
    (hunit : ∀ s, s.cursor.isEmpty = false → Derivation C body.parts s (unit s).1 (unit s).2) :
    Advances (Matcher.longBracket C b unit) := by
  intro s t ht
  unfold Matcher.longBracket at ht
  cases ho : b.delimiters.opening? s.cursor.rest with
  | none => simp [ho] at ht
  | some o =>
      obtain ⟨n, rfl, hn, -⟩ := Delimiters.opening?_eq_some_iff.mp ho
      have hl : n + 2 ≤ s.cursor.left := by
        simpa [s.cursor.left_eq] using hn.length_le
      have hbody := derives_bracketBody (C := C) ⟨n + 2⟩ hp hname hunit
      have hopening := offset_advance hl
      have hbreak := ((s.cursor.advance (n + 2)).passes_passLineBreak C.lineBreak).offset
      simp only [ho, Session.advance_of_le hl, Session.passLineBreak_eq] at ht
      split at ht
      · rename_i u hu
        have hw : n + 2 ≤ u.cursor.left := by
          simpa [u.cursor.left_eq] using (closing_of_body hu).length_le
        have hle := hbody.offset_le hu
        obtain ⟨-, rfl⟩ := Prod.mk.inj ht
        rw [Session.advance_of_le hw, offset_advance hw]
        simp only [Session.position_eq, Session.cursor_rewind] at hopening hle ⊢
        omega
      · rename_i hne hrun
        obtain ⟨rfl, rfl⟩ := Prod.mk.inj ht
        exact (hne rfl).elim

end Matcher

/-! ## Rules -/

namespace Rule

open Matcher

variable {rules : List Rule}

theorem advances_rawAll (h : ∃ r ∈ rules, Advances (r.raw C)) : Advances (rawAll C rules) := by
  induction rules with
  | nil => simp at h
  | cons r rules ih =>
      rw [rawAll]
      obtain ⟨r', hmem, hr'⟩ := h
      rcases List.mem_cons.mp hmem with rfl | hmem
      · exact (hr'.enclosed _).andThen_left (derives_all C fun _ => mem_outlines)
      · exact .andThen_right (derives_run C r) (ih ⟨r', hmem, hr'⟩)

theorem advances_rawFirst (h : ∀ r ∈ rules, Advances (r.raw C)) : Advances (rawFirst C rules) := by
  induction rules with
  | nil =>
      intro s t ht
      simp [rawFirst, mismatch] at ht
  | cons r rules ih =>
      rw [rawFirst]
      exact ((h r (.head rules)).enclosed _).orElse (restores_enclosed _ _)
        (ih fun r' hr => h r' (.tail r hr))

/-- A loop that matches where it began has only matched its stop. -/
theorem matched_of_raw_upTo {stop : Rule} {body : List Rule}
    (h : (upTo stop body).raw C s = (.matched, t)) :
    s.parse C stop = (.matched, t) ∨ s.position.offset < t.position.offset := by
  have hstop : Derives C (outlines (stop :: body)) (Matcher.enclosed C stop.name (stop.raw C)) :=
    derives_enclosed (derives_raw C stop) (mem_outlines (.head body))
  have hround : Derives C (outlines (stop :: body)) (rawAll C body) :=
    derives_all C fun _ hr => mem_outlines (.tail stop hr)
  rw [raw] at h
  exact matched_of_upTo hstop (restores_enclosed _ _) (derives_roundOf hround) h

theorem matchesInPlace_upTo (C : Context σ) (stop : Rule) (s : Session σ) (body : List Rule) :
    MatchesInPlace ((upTo stop body).raw C) s ↔ MatchesInPlace (Session.parse C stop) s := by
  constructor
  · rintro ⟨hmatched, hstays⟩
    rcases matched_of_raw_upTo (Prod.ext hmatched rfl) with hstop | hlt
    · exact ⟨congrArg Prod.fst hstop, by rw [hstop, hstays]⟩
    · exact (hlt.ne' hstays).elim
  · rintro ⟨hmatched, hstays⟩
    have hstop : Matcher.enclosed C stop.name (stop.raw C) s = (.matched, (s.parse C stop).2) :=
      Prod.ext hmatched rfl
    have hloop : (upTo stop body).raw C s = (.matched, (s.parse C stop).2) := by
      rw [raw, Matcher.upTo, hstop]
    exact ⟨congrArg Prod.fst hloop, by rw [hloop, hstays]⟩

/-- What consumes by its outline advances. -/
theorem advances_raw (C : Context σ) {rule : Rule} (h : rule.StopsConsume)
    (hc : rule.outline.consumes = true) : Advances (rule.raw C) := by
  induction rule with
  | any | one | notOne | range => exact advances_character _
  | text chars =>
      cases chars with
      | nil => simp [outline, shape, Outline.consumes] at hc
      | cons c chars =>
          refine advances_consume (Nat.succ_pos _) fun cs hcs => ?_
          exact (List.isPrefixOf_iff_prefix.mp hcs).length_le
  | lineBreak => exact advances_lineBreak C
  | endOfText | star | opt | ahead | notAhead => simp [outline, shape, Outline.consumes] at hc
  | seq rules ih =>
      obtain ⟨r, hr, hconsumes⟩ := consumesAny_outlines.mp hc
      exact advances_rawAll ⟨r, hr, ih r hr (h.of_mem hr) hconsumes⟩
  | choice rules ih =>
      have hconsume := consumesAll_outlines.mp hc
      exact advances_rawFirst fun r hr => ih r hr (h.of_mem hr) (hconsume r hr)
  | plus rules ih =>
      obtain ⟨r, hr, hconsumes⟩ := consumesAny_outlines.mp hc
      have hround := advances_rawAll (C := C) ⟨r, hr, ih r hr (h.of_mem hr) hconsumes⟩
      have hall : Derives C (outlines rules) (rawAll C rules) := derives_all C fun _ => mem_outlines
      exact hround.andThen_left hall.repeated
  | must rule ih =>
      have hrule : rule.outline.consumes = true := by
        simpa [outline, Outline.consumes, Outline.consumesAny] using hc
      exact ((ih (h.of_mem (.head [])) hrule).enclosed _).required _
  | upTo stop body hstop _ =>
      have hconsumes : stop.outline.consumes = true := by
        rcases h stop body (.refl _) with hs | hbody
        · exact hs
        · have hany : stop.outline.consumes = true ∨ ∃ r ∈ body, r.outline.consumes = true := by
            rwa [outline, Outline.consumes, Outline.consumesAny, Bool.or_eq_true,
              consumesAny_outlines] at hc
          refine hany.resolve_right ?_
          rintro ⟨r, hr, hconsumes⟩
          simp [hbody r hr] at hconsumes
      intro s t ht
      rcases matched_of_raw_upTo ht with hparse | hlt
      · exact (hstop (h.of_mem (.head body)) hconsumes).enclosed _ hparse
      · exact hlt
  | named name rule ih =>
      rw [consumes_named] at hc
      exact (ih (h.of_mem (.head [])) hc).enclosed _
  | longBracket bracket contents _ =>
      exact advances_longBracket (bodyOutline_mem_parts bracket contents) rfl
        (derives_roundOf (derives_all C (outline_mem_parts_bodyOutline bracket)))

end Rule

namespace Session

/-- Where every loop that consumes has a stop that consumes, a rule with a consuming outline ends
behind the place where it began whenever it matches. Any loop matches in place exactly where its
stop does, whatever its body. -/
theorem parse_advances (C : Context σ) (rule : Rule) (s : Session σ) :
    (rule.StopsConsume → rule.outline.consumes = true → (s.parse C rule).1 = .matched →
      s.position.offset < (s.parse C rule).2.position.offset) ∧
    ∀ body, Matcher.MatchesInPlace ((Rule.upTo rule body).raw C) s ↔
      Matcher.MatchesInPlace (parse C rule) s :=
  ⟨fun h hc hm => (Rule.advances_raw C h hc).enclosed rule.name (Prod.ext hm rfl),
    Rule.matchesInPlace_upTo C rule s⟩

/-- A loop up to a semicolon takes at least the semicolon. -/
theorem parse_advances_to_stop :
    let C : Context Unit := { hooks := .empty }
    let rule : Rule := .upTo (.text [';']) [.any]
    let s := begin C ";" ()
    rule.StopsConsume ∧ rule.outline.consumes = true ∧ (s.parse C rule).1 = .matched ∧
      s.position.offset < (s.parse C rule).2.position.offset := by
  intro C rule s
  have hstops : rule.StopsConsume := by
    intro stop body hloop
    dsimp only [rule] at hloop
    rcases hloop with _ | ⟨hchild, hinside⟩
    · exact .inl rfl
    · simp only [Rule.children, List.mem_cons, List.not_mem_nil, or_false] at hchild
      rcases hchild with rfl | rfl <;> rcases hinside with _ | ⟨hnone, -⟩ <;>
        simp [Rule.children] at hnone
  have hm : (s.parse C rule).1 = .matched := by decide +kernel
  exact ⟨hstops, rfl, hm, (parse_advances C rule s).1 hstops rfl hm⟩

/-- A loop up to the end of the text has the outline of a sequence that consumes, but at the end
of the text it matches where it stands. -/
theorem parse_not_advances : ¬ ∀ (C : Context Unit) (rule : Rule) (s : Session Unit),
    rule.outline.consumes = true → (s.parse C rule).1 = .matched →
      s.position.offset < (s.parse C rule).2.position.offset := by
  intro h
  let C : Context Unit := { hooks := .empty }
  let rule : Rule := .upTo .endOfText [.any]
  have hlt := h C rule (begin C "" ()) rfl (by decide +kernel)
  have hstays : ((begin C "" ()).parse C rule).2.position.offset = 0 := by decide +kernel
  simp [hstays] at hlt

end Session
end PegScan
