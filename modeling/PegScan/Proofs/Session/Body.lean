import Mathlib.Logic.Relation
import Mathlib.Order.Bounds.Basic
import PegScan.Proofs.Scan.Literal
import PegScan.Proofs.Session.Loops

/-! # The body of a literal

Any rules may make up the units of a body. It ends where a unit has ended in front of the closing
bracket, and nowhere else: brackets inside a unit do not count, and neither do those behind a unit
that takes nothing. -/

namespace PegScan

variable {σ : Type} {C : Context σ} {d : Delimiters} {b : LongBracket} {contents : List Rule}
  {n : ℕ} {s t u : Session σ}

/-! ## Units -/

/-- What one unit of a body takes: the content rules in sequence, or any one character. -/
def bodyUnit (C : Context σ) (contents : List Rule) : Matcher σ :=
  Rule.roundOf contents (Rule.rawAll C contents)

/-- A unit begins where there are characters left, but no closing bracket. -/
structure UnitBegins (closing : List Char) (t : Session σ) : Prop where
  left : t.cursor.isEmpty = false
  unclosed : ¬ closing <+: t.cursor.rest

/-- A unit that is followed by another one or by the closing bracket. It takes characters. -/
structure UnitStep (C : Context σ) (closing : List Char) (contents : List Rule)
    (t u : Session σ) : Prop where
  begins : UnitBegins closing t
  matched : bodyUnit C contents t = (.matched, u)
  takes : ∃ cs, cs ≠ [] ∧ t.cursor.Passes cs u.cursor

/-- A body of units ends in front of a closing bracket. -/
structure BodyCloses (C : Context σ) (closing : List Char) (contents : List Rule)
    (s t : Session σ) : Prop where
  units : Relation.ReflTransGen (UnitStep C closing contents) s t
  closing : closing <+: t.cursor.rest

/-- A body ends with the error of a unit. -/
def BodyFails (C : Context σ) (closing : List Char) (contents : List Rule) (s : Session σ)
    (e : Error) (u : Session σ) : Prop :=
  ∃ t, Relation.ReflTransGen (UnitStep C closing contents) s t ∧ UnitBegins closing t ∧
    bodyUnit C contents t = (.failed e, u)

/-- Units in a row are a run of their own. -/
theorem derivation_of_units {closing : List Char}
    (h : Relation.ReflTransGen (UnitStep C closing contents) s t) :
    Derivation C (Rule.outlines contents) s .matched t := by
  have hall : Matcher.Derives C (Rule.outlines contents) (Rule.rawAll C contents) :=
    Rule.derives_all C fun _ => Rule.mem_outlines
  induction h with
  | refl => exact .succeed s
  | tail _ hstep ih =>
      exact ih.andThen (Loop.derivation_of_roundOf hall hstep.begins.left hstep.matched)

/-! ## The loop over the units -/

section BodyLoop

open Matcher

/-- The loop that looks for the closing bracket of a level before each unit. -/
def bodyLoop (C : Context σ) (d : Delimiters) (n : ℕ) (contents : List Rule) : Matcher σ :=
  upTo (consume 0 (d.closes ⟨n + 2⟩)) (bodyUnit C contents)

theorem consume_closes_of_closing (h : d.closing n <+: t.cursor.rest) :
    consume 0 (d.closes ⟨n + 2⟩) t = (.matched, t) := by
  rw [consume_zero, Delimiters.closes_iff.mpr h, if_pos rfl]

theorem UnitBegins.consume_closes (h : UnitBegins (d.closing n) t) :
    consume 0 (d.closes ⟨n + 2⟩) t = (.mismatched, t) := by
  rw [consume_zero, closes_eq_false h.unclosed, if_neg Bool.false_ne_true]

theorem closing_of_consume (h : consume 0 (d.closes ⟨n + 2⟩) t = (.matched, u)) :
    d.closing n <+: t.cursor.rest ∧ u = t := by
  by_cases hc : d.closing n <+: t.cursor.rest
  · rw [consume_closes_of_closing hc] at h
    exact ⟨hc, (Prod.mk.inj h).2.symm⟩
  · simp [consume_zero, closes_eq_false hc] at h

theorem unclosed_of_consume (h : consume 0 (d.closes ⟨n + 2⟩) t = (.mismatched, u)) :
    ¬ d.closing n <+: t.cursor.rest ∧ u = t := by
  by_cases hc : d.closing n <+: t.cursor.rest
  · simp [consume_closes_of_closing hc] at h
  · rw [consume_zero, closes_eq_false hc] at h
    exact ⟨hc, (Prod.mk.inj h).2.symm⟩

abbrev bodyRounds (C : Context σ) (d : Delimiters) (n : ℕ) (contents : List Rule) : Loop σ :=
  Loop.upTo (.of (consume 0 (d.closes ⟨n + 2⟩))) contents (.of (Rule.rawAll C contents))

theorem implements_bodyLoop (C : Context σ) (d : Delimiters) (n : ℕ) (contents : List Rule) :
    (bodyRounds C d n contents).Implements C (bodyLoop C d n contents) :=
  Loop.implements_body d ⟨n + 2⟩ contents (Rule.derives_all C fun _ => Rule.mem_outlines)

/-- The rounds that are followed by another one are the units. -/
theorem again_bodyRounds_iff :
    (bodyRounds C d n contents).again s u ↔ UnitStep C (d.closing n) contents s u := by
  have hall : Derives C (Rule.outlines contents) (Rule.rawAll C contents) :=
    Rule.derives_all C fun _ => Rule.mem_outlines
  constructor
  · intro h
    obtain ⟨t, hstop, he, hround, -⟩ := Loop.UpToAgain.exists_round hall h
    obtain ⟨hc, rfl⟩ := unclosed_of_consume hstop
    exact ⟨⟨he, hc⟩, hround, (implements_bodyLoop C d n contents).takes h⟩
  · rintro ⟨hbegins, hmatched, cs, hcs, hp⟩
    by_cases hnone : contents = []
    · subst hnone
      obtain rfl : s.advance 1 = u := (Prod.mk.inj hmatched).2
      exact .character hbegins.consume_closes hbegins.left rfl
    · rw [bodyUnit, Loop.roundOf_of_ne_nil hnone] at hmatched
      refine .body hbegins.consume_closes hbegins.left hnone hmatched ?_
      have hpos := List.length_pos_iff.mpr hcs
      rw [Session.position_eq, Session.position_eq, hp.offset]
      omega

theorem bodyLoop_of_units
    (h : Relation.ReflTransGen (UnitStep C (d.closing n) contents) s t) :
    bodyLoop C d n contents s = bodyLoop C d n contents t := by
  induction h with
  | refl => rfl
  | tail _ hstep ih =>
      exact ih.trans ((implements_bodyLoop C d n contents).again (again_bodyRounds_iff.mpr hstep))

/-- Behind some units stands the last round. -/
theorem exists_last_bodyRounds (C : Context σ) (d : Delimiters) (n : ℕ) (contents : List Rule)
    (s : Session σ) : ∃ t, Relation.ReflTransGen (UnitStep C (d.closing n) contents) s t ∧
      (bodyRounds C d n contents).last t (bodyLoop C d n contents s) := by
  obtain ⟨rounds, hends⟩ := (implements_bodyLoop C d n contents).exists_ends s
  generalize bodyLoop C d n contents s = run at hends
  induction hends with
  | last hlast => exact ⟨_, .refl, hlast⟩
  | again hagain _ ih =>
      obtain ⟨t, hunits, hlast⟩ := ih
      exact ⟨t, .head (again_bodyRounds_iff.mp hagain) hunits, hlast⟩

theorem bodyLoop_eq_matched_iff :
    bodyLoop C d n contents s = (.matched, t) ↔ BodyCloses C (d.closing n) contents s t := by
  constructor
  · intro h
    obtain ⟨v, hunits, hlast⟩ := exists_last_bodyRounds C d n contents s
    rw [h] at hlast
    cases hlast with
    | found hstop =>
        obtain ⟨hc, rfl⟩ := closing_of_consume hstop
        exact ⟨hunits, hc⟩
  · rintro ⟨hunits, hc⟩
    rw [bodyLoop_of_units hunits, bodyLoop, upTo, consume_closes_of_closing hc]

theorem bodyLoop_eq_failed_iff {e : Error} :
    bodyLoop C d n contents s = (.failed e, u) ↔ BodyFails C (d.closing n) contents s e u := by
  constructor
  · intro h
    obtain ⟨v, hunits, hlast⟩ := exists_last_bodyRounds C d n contents s
    rw [h] at hlast
    cases hlast with
    | stopFailed hstop =>
        rw [Behaviour.of_iff, consume_zero] at hstop
        split at hstop <;> simp at hstop
    | failed hstop he hne hround =>
        obtain ⟨hc, rfl⟩ := unclosed_of_consume hstop
        refine ⟨_, hunits, ⟨he, hc⟩, ?_⟩
        rw [bodyUnit, Loop.roundOf_of_ne_nil hne]
        exact hround
  · rintro ⟨v, hunits, hbegins, hfailed⟩
    rw [bodyLoop_of_units hunits, bodyLoop,
      Loop.upTo_of_mismatched hbegins.consume_closes hbegins.left, hfailed]

end BodyLoop

/-! ## Behind the opening bracket -/

/-- The session behind the opening bracket of a level, and behind the line break that follows on
it. -/
def bodyStart (C : Context σ) (n : ℕ) (s : Session σ) : Session σ :=
  s.rewind (s.cursor.behindOpening C.lineBreak n)

/-- The session in which the first unit of the body begins. -/
abbrev inBody (C : Context σ) (b : LongBracket) (n : ℕ) (s : Session σ) : Session σ :=
  (bodyStart C n s).opened b.contentName

def acceptBody (C : Context σ) (b : LongBracket) (n : ℕ) (s t : Session σ) : Bool × Session σ :=
  (t.closed (.success b.contentName)).apply C b.contentName (bodyStart C n s).cursor

def literalText (C : Context σ) (b : LongBracket) (n : ℕ) (s : Session σ) (body : List Char) :
    List Char :=
  b.delimiters.opening n ++ C.lineBreak.longest (s.cursor.rest.drop (n + 2)) ++ body ++
    b.delimiters.closing n

theorem passes_bodyStart (h : d.opening n <+: s.cursor.rest) :
    s.cursor.Passes (d.opening n ++ C.lineBreak.longest (s.cursor.rest.drop (n + 2)))
      (bodyStart C n s).cursor := by
  have hopening : d.opening n = s.cursor.rest.take (n + 2) := by
    simpa using List.prefix_iff_eq_take.mp h
  have hbreak := (s.cursor.advance (n + 2)).passes_longest C.lineBreak
  rw [Cursor.rest_advance] at hbreak
  rw [hopening]
  exact (Cursor.passes_advance (n + 2) s.cursor).trans hbreak

theorem passes_closing (h : d.closing n <+: t.cursor.rest) :
    t.cursor.Passes (d.closing n) (t.cursor.advance (n + 2)) := by
  have hclosing : d.closing n = t.cursor.rest.take (n + 2) := by
    simpa using List.prefix_iff_eq_take.mp h
  rw [hclosing]
  exact Cursor.passes_advance (n + 2) t.cursor

theorem raw_longBracket_eq (hn : IsLeast {m | b.delimiters.opening m <+: s.cursor.rest} n) :
    (Rule.longBracket b contents).raw C s =
      ((Matcher.required C b.contentName (Matcher.enclosed C b.contentName
          (bodyLoop C b.delimiters n contents))).andThen
        fun t => (.matched, t.advance (n + 2))) (bodyStart C n s) := by
  refine longBracket_of_opening? (Delimiters.opening?_eq_some_iff.mpr ⟨n, rfl, hn.1, ?_⟩)
  intro m hlt hm
  exact Nat.not_le_of_lt hlt (hn.2 hm)

section Raw

variable (hn : IsLeast {m | b.delimiters.opening m <+: s.cursor.rest} n) (hd : s.depth < C.maxDepth)

include hn hd

/-- An accepted body is followed by its closing bracket. -/
theorem raw_of_accepted
    (h : BodyCloses C (b.delimiters.closing n) contents (inBody C b n s) t)
    (ha : (acceptBody C b n s t).1 = true) :
    (Rule.longBracket b contents).raw C s =
      (.matched, (acceptBody C b n s t).2.rewind (t.cursor.advance (n + 2))) := by
  have hstart : (bodyStart C n s).depth < C.maxDepth := hd
  have haccept : (t.closed (.success b.contentName)).apply C b.contentName
      (bodyStart C n s).cursor = (true, (acceptBody C b n s t).2) := Prod.ext ha rfl
  have hcursor : (acceptBody C b n s t).2.cursor = t.cursor := Session.cursor_apply ..
  have hleft : n + 2 ≤ (acceptBody C b n s t).2.cursor.left := by
    rw [hcursor, t.cursor.left_eq, ← b.delimiters.length_closing n]
    exact h.closing.length_le
  rw [raw_longBracket_eq hn, Matcher.andThen, Matcher.required, Matcher.enclosed_of_lt hstart,
    bodyLoop_eq_matched_iff.mpr h]
  simp only [haccept]
  rw [Session.advance_of_le hleft, hcursor]

theorem raw_of_fails {e : Error}
    (h : BodyFails C (b.delimiters.closing n) contents
      (inBody C b n s) e u) :
    (Rule.longBracket b contents).raw C s = (.failed e, u.closed (.unwind b.contentName)) := by
  have hstart : (bodyStart C n s).depth < C.maxDepth := hd
  rw [raw_longBracket_eq hn, Matcher.andThen, Matcher.required, Matcher.enclosed_of_lt hstart,
    bodyLoop_eq_failed_iff.mpr h]

/-- Where no body is accepted and no unit fails, the body has been required. -/
theorem raw_of_required
    (hno : ∀ t, BodyCloses C (b.delimiters.closing n) contents
      (inBody C b n s) t → (acceptBody C b n s t).1 = false)
    (hunfailed : ∀ e u, ¬ BodyFails C (b.delimiters.closing n) contents
      (inBody C b n s) e u) :
    ((Rule.longBracket b contents).raw C s).1 =
      .failed (C.raise ((Rule.longBracket b contents).raw C s).2.journal b.contentName
        (bodyStart C n s).position) := by
  have hstart : (bodyStart C n s).depth < C.maxDepth := hd
  obtain ⟨v, hv⟩ : ∃ v, Matcher.enclosed C b.contentName (bodyLoop C b.delimiters n contents)
      (bodyStart C n s) = (.mismatched, v) := by
    rw [Matcher.enclosed_of_lt hstart]
    rcases hloop : bodyLoop C b.delimiters n contents (inBody C b n s)
      with ⟨_ | _ | e, t⟩
    · have haccept : (t.closed (.success b.contentName)).apply C b.contentName
          (bodyStart C n s).cursor = (false, (acceptBody C b n s t).2) :=
        Prod.ext (hno t (bodyLoop_eq_matched_iff.mp hloop)) rfl
      simp only [haccept]
      exact ⟨_, rfl⟩
    · exact ⟨_, rfl⟩
    · exact (hunfailed e t (bodyLoop_eq_failed_iff.mp hloop)).elim
  have hposition : v.position = (bodyStart C n s).position :=
    congrArg Cursor.position (Matcher.restores_enclosed _ _ hv)
  rw [raw_longBracket_eq hn, Matcher.andThen, Matcher.required, hv, ← hposition]
  rfl

end Raw

/-! ## What the hooks are told -/

def Session.tell (hook : Hook σ) (rule : String) (matched : Matched) (s : Session σ) :
    Bool × Session σ :=
  let answer := hook.invoke matched s.state
  (answer.1, ({ s with state := answer.2 } : Session σ).note (.hook rule matched answer.1))

theorem Session.apply_of_passes {rule : String} {start : Cursor} {hook : Hook σ} {cs : List Char}
    (hon : s.mode = .on) (hget : C.hooks.get? rule = some hook)
    (hp : start.Passes cs s.cursor) :
    s.apply C rule start = s.tell hook rule ⟨String.ofList cs, start.position⟩ := by
  rw [Session.apply_of_hook hon hget, hp.since_eq]
  rfl

theorem passes_literalText {body : List Char}
    (hn : b.delimiters.opening n <+: s.cursor.rest)
    (hbody : (bodyStart C n s).cursor.Passes body t.cursor)
    (hclosing : b.delimiters.closing n <+: t.cursor.rest) :
    s.cursor.Passes (literalText C b n s body) (t.cursor.advance (n + 2)) :=
  ((passes_bodyStart hn).trans hbody).trans (passes_closing hclosing)

/-! ## Literals -/

/-- How a raw match of a literal comes out that begins with the opening bracket of a level. -/
structure ReadsLiteral (C : Context σ) (b : LongBracket) (contents : List Rule) (n : ℕ)
    (s : Session σ) : Prop where
  matched_iff : ((Rule.longBracket b contents).raw C s).1 = .matched ↔
    ∃ t, BodyCloses C (b.delimiters.closing n) contents (inBody C b n s) t ∧
      (acceptBody C b n s t).1 = true
  /-- The match ends behind the closing bracket. -/
  matched : ∀ t, BodyCloses C (b.delimiters.closing n) contents (inBody C b n s) t →
    (acceptBody C b n s t).1 = true → (Rule.longBracket b contents).raw C s =
      (.matched, (acceptBody C b n s t).2.rewind (t.cursor.advance (n + 2)))
  /-- The hook on the body sees the body, with its place behind the opening bracket and the line
  break. -/
  told : ∀ t, BodyCloses C (b.delimiters.closing n) contents (inBody C b n s) t →
    ∃ body, (bodyStart C n s).cursor.Passes body t.cursor ∧
      s.cursor.Passes (literalText C b n s body) (t.cursor.advance (n + 2)) ∧
      ∀ hook, s.mode = .on → C.hooks.get? b.contentName = some hook →
        acceptBody C b n s t = (t.closed (.success b.contentName)).tell hook b.contentName
          ⟨String.ofList body, (bodyStart C n s).position⟩
  failed : ∀ e u, BodyFails C (b.delimiters.closing n) contents (inBody C b n s) e u →
    (Rule.longBracket b contents).raw C s = (.failed e, u.closed (.unwind b.contentName))
  /-- All else is an error at the place where the body begins. -/
  required : (∀ t, BodyCloses C (b.delimiters.closing n) contents (inBody C b n s) t →
      (acceptBody C b n s t).1 = false) →
    (∀ e u, ¬ BodyFails C (b.delimiters.closing n) contents (inBody C b n s) e u) →
      ((Rule.longBracket b contents).raw C s).1 =
        .failed (C.raise ((Rule.longBracket b contents).raw C s).2.journal b.contentName
          (bodyStart C n s).position)

/-- The hook on a literal sees all of it, brackets and line break included. -/
def TellsLiteral (C : Context σ) (b : LongBracket) (contents : List Rule) (n : ℕ) (hook : Hook σ)
    (s : Session σ) : Prop :=
  ∀ t, BodyCloses C (b.delimiters.closing n) contents (inBody C b n (s.opened b.name)) t →
    (acceptBody C b n (s.opened b.name) t).1 = true →
    ∃ body u, (bodyStart C n s).cursor.Passes body t.cursor ∧
      (Rule.longBracket b contents).raw C (s.opened b.name) = (.matched, u) ∧
      s.parse C (.longBracket b contents) =
        match (u.closed (.success b.name)).tell hook b.name
          ⟨String.ofList (literalText C b n s body), s.position⟩ with
        | (true, v) => (.matched, v)
        | (false, v) => (.mismatched, v.rewind s.cursor)

theorem readsLiteral (hn : IsLeast {m | b.delimiters.opening m <+: s.cursor.rest} n)
    (hd : s.depth < C.maxDepth) : ReadsLiteral C b contents n s where
  matched_iff := by
    constructor
    · intro hmatched
      by_contra hno
      by_cases hfails : ∃ e u, BodyFails C (b.delimiters.closing n) contents (inBody C b n s) e u
      · obtain ⟨e, u, h⟩ := hfails
        simp [raw_of_fails hn hd h] at hmatched
      · have hrequired := raw_of_required hn hd
          (fun t ht => by simpa using fun ha => hno ⟨t, ht, ha⟩) fun e u h => hfails ⟨e, u, h⟩
        simp [hrequired] at hmatched
    · rintro ⟨t, ht, ha⟩
      rw [raw_of_accepted hn hd ht ha]
  matched t ht ha := raw_of_accepted hn hd ht ha
  told := by
    intro t ht
    have hderived := derivation_of_units ht.units
    obtain ⟨body, hp⟩ := hderived.passes rfl
    refine ⟨body, hp, passes_literalText hn.1 hp ht.closing, fun hook hon hget => ?_⟩
    exact Session.apply_of_passes (hderived.mode_eq.trans hon) hget hp
  failed e u h := raw_of_fails hn hd h
  required := raw_of_required hn hd

theorem tellsLiteral (hn : IsLeast {m | b.delimiters.opening m <+: s.cursor.rest} n)
    (hd : s.depth + 1 < C.maxDepth) {hook : Hook σ} (hon : s.mode = .on)
    (hget : C.hooks.get? b.name = some hook) : TellsLiteral C b contents n hook s := by
  intro t ht ha
  have hreads : ReadsLiteral C b contents n (s.opened b.name) := readsLiteral hn hd
  have hraw := hreads.matched t ht ha
  obtain ⟨body, hbody, hp, -⟩ := hreads.told t ht
  refine ⟨body, _, hbody, hraw, ?_⟩
  have haccept : (acceptBody C b n (s.opened b.name) t).2.mode = s.mode := by
    rw [acceptBody, Session.mode_apply]
    exact (derivation_of_units ht.units).mode_eq
  have hlt : s.depth < C.maxDepth := Nat.lt_of_succ_lt hd
  have happly : (((acceptBody C b n (s.opened b.name) t).2.rewind
      (t.cursor.advance (n + 2))).closed (.success b.name)).apply C b.name s.cursor = _ :=
    Session.apply_of_passes (haccept.trans hon) hget hp
  have hrun : s.parse C (.longBracket b contents) =
      Matcher.enclosed C b.name ((Rule.longBracket b contents).raw C) s := rfl
  rw [hrun, Matcher.enclosed_of_lt hlt, hraw]
  dsimp only
  rw [happly]
  rfl

/-! ## Parses -/

/-- A literal whose opening bracket is missing is a mismatch. From the opening bracket with the
fewest markers on, a literal is read or an error is raised, and hooks see the parts of the text
that they are named for. -/
theorem Session.parse_readsLiteral (C : Context σ) (b : LongBracket) (contents : List Rule)
    (s : Session σ) :
    ((∀ n, ¬ b.delimiters.opening n <+: s.cursor.rest) →
      (Rule.longBracket b contents).raw C s = (.mismatched, s)) ∧
    ∀ n, IsLeast {m | b.delimiters.opening m <+: s.cursor.rest} n →
      (s.depth < C.maxDepth → ReadsLiteral C b contents n s) ∧
      (s.depth + 1 < C.maxDepth → s.mode = .on → ∀ hook, C.hooks.get? b.name = some hook →
        TellsLiteral C b contents n hook s) := by
  refine ⟨fun hno => ?_, fun n hn => ⟨readsLiteral hn, fun hd hon hook => tellsLiteral hn hd hon⟩⟩
  rw [Rule.raw, Matcher.longBracket, Delimiters.opening?_eq_none_iff.mpr hno]

/-- Units of two characters step over the first closing bracket. -/
theorem Session.parse_readsLiteral_pairs :
    let keep : Hook (List String) := .action fun matched found => matched.text :: found
    let C : Context (List String) :=
      { hooks := ⟨.on, [("raw_string", keep), ("raw_string.content", keep)]⟩ }
    let s := begin C "[[\nabc]]]]" []
    let run := s.parse C (.longBracket {} [.any, .any])
    ReadsLiteral C {} [.any, .any] 0 s ∧ TellsLiteral C {} [.any, .any] 0 keep s ∧
      run.1 = .matched ∧ run.2.state = ["[[\nabc]]]", "abc]"] := by
  intro keep C s run
  have hleast : IsLeast {m | Delimiters.opening {} m <+: s.cursor.rest} 0 :=
    ⟨by decide, fun _ _ => Nat.zero_le _⟩
  obtain ⟨hreads, htells⟩ := (parse_readsLiteral C {} [.any, .any] s).2 0 hleast
  exact ⟨hreads (by decide), htells (by decide) rfl keep rfl, by decide +kernel, by decide +kernel⟩

end PegScan
