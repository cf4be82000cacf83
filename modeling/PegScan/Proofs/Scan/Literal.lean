import PegScan.Proofs.Scan.Reading
import PegScan.Proofs.Session.Ends

/-! # Matching one literal

The opening bracket fixes a level, a line break is dropped, and the body is searched character
by character for the first closing bracket of that level. -/

namespace PegScan

open Matcher

/-! ## The search for the closing bracket -/

section Search

variable {σ : Type} {d : Delimiters} {n : ℕ} {f : Matcher σ} {s : Session σ}

theorem closes_eq_false {cs : List Char} (h : ¬ d.closing n <+: cs) :
    d.closes ⟨n + 2⟩ cs = false := by
  rw [← Bool.not_eq_true, Delimiters.closes_iff]
  exact h

theorem upTo_of_closing (h : d.closing n <+: s.cursor.rest) :
    Matcher.upTo (consume 0 (d.closes ⟨n + 2⟩)) (Rule.roundOf [] f) s = (.matched, s) := by
  rw [Matcher.upTo, consume_zero, Delimiters.closes_iff.mpr h]
  rfl

/-- Where no closing bracket stands, one character is passed. -/
theorem upTo_step {x : Char} {rest : List Char} (hrest : s.cursor.rest = x :: rest)
    (h : ¬ d.closing n <+: x :: rest) :
    Matcher.upTo (consume 0 (d.closes ⟨n + 2⟩)) (Rule.roundOf [] f) s =
      Matcher.upTo (consume 0 (d.closes ⟨n + 2⟩)) (Rule.roundOf [] f)
        (s.rewind s.cursor.next) := by
  have he : s.cursor.isEmpty = false := by simp [Cursor.isEmpty, hrest]
  have hlt := Cursor.left_next_lt he
  conv_lhs => rw [Matcher.upTo, consume_zero, hrest, closes_eq_false h]
  simp [he, Rule.roundOf, Session.advance_one_of_cons hrest, hlt]

theorem upTo_of_stopsFirst {body rest : List Char}
    (hrest : s.cursor.rest = body ++ (d.closing n ++ rest))
    (hfirst : StopsFirst (d.closing n) body rest) :
    Matcher.upTo (consume 0 (d.closes ⟨n + 2⟩)) (Rule.roundOf [] f) s =
      (.matched, s.rewind (s.cursor.advance body.length)) := by
  induction body generalizing s with
  | nil => exact upTo_of_closing ⟨rest, hrest.symm⟩
  | cons x body ih =>
      obtain ⟨hno, hb⟩ := StopsFirst.cons_iff.mp hfirst
      obtain ⟨-, hnext, -⟩ := Cursor.next_of_cons hrest
      rw [upTo_step hrest hno, ih hnext hb, List.length_cons,
        Cursor.advance_succ_of_cons hrest]
      rfl

theorem upTo_of_not_occurs {cs : List Char} (hrest : s.cursor.rest = cs)
    (h : ¬ d.closing n <:+: cs) :
    ∃ c, Matcher.upTo (consume 0 (d.closes ⟨n + 2⟩)) (Rule.roundOf [] f) s =
      (.mismatched, s.rewind c) := by
  induction cs generalizing s with
  | nil =>
      have hc : ¬ d.closing n <+: [] := fun hp => h hp.isInfix
      refine ⟨s.cursor, ?_⟩
      rw [Matcher.upTo, consume_zero, hrest, closes_eq_false hc]
      simp [Cursor.isEmpty, hrest]
  | cons x cs ih =>
      rw [List.infix_cons_iff, not_or] at h
      obtain ⟨-, hnext, -⟩ := Cursor.next_of_cons hrest
      rw [upTo_step hrest h.1]
      exact ih hnext h.2

end Search

/-! ## Behind the opening bracket -/

def Cursor.behindOpening (c : Cursor) (b : LineBreak) (n : ℕ) : Cursor :=
  ((c.advance (n + 2)).passLineBreak b).2

namespace Cursor

variable {c : Cursor} {b : LineBreak} {d : Delimiters} {n : ℕ} {dropped after : List Char}

theorem passes_behindOpening (hrest : c.rest = d.opening n ++ (dropped ++ after))
    (hdropped : dropped = b.longest (dropped ++ after)) :
    c.Passes (d.opening n ++ dropped) (c.behindOpening b n) := by
  have h := (passes_advance (n + 2) c).trans ((c.advance (n + 2)).passes_longest b)
  rw [rest_advance, hrest, ← d.length_opening n, List.take_left, List.drop_left,
    ← hdropped, d.length_opening] at h
  exact h

theorem position_behindOpening (hrest : c.rest = d.opening n ++ (dropped ++ after))
    (hdropped : dropped = b.longest (dropped ++ after)) :
    (c.behindOpening b n).position = c.position.behindOpening (d.opening n) dropped := by
  obtain ⟨hr, hp⟩ := advance_of_append hrest
  rw [d.length_opening] at hr hp
  rw [behindOpening, position_passLineBreak, hr, hp, ← hdropped]
  rfl

theorem rest_behindOpening (hrest : c.rest = d.opening n ++ (dropped ++ after))
    (hdropped : dropped = b.longest (dropped ++ after)) :
    (c.behindOpening b n).rest = after := by
  rw [(passes_behindOpening hrest hdropped).rest_eq_drop, hrest, ← List.append_assoc,
    List.drop_left]

def behindLiteral (c : Cursor) (b : LineBreak) (n k : ℕ) : Cursor :=
  ((c.behindOpening b n).advance k).advance (n + 2)

variable {body rest : List Char}

theorem passes_behindLiteral
    (hrest : c.rest = d.opening n ++ (dropped ++ (body ++ (d.closing n ++ rest))))
    (hdropped : dropped = b.longest (dropped ++ (body ++ (d.closing n ++ rest)))) :
    c.Passes (d.opening n ++ dropped ++ body ++ d.closing n)
      (c.behindLiteral b n body.length) := by
  have hr := rest_behindOpening hrest hdropped
  have hbody := passes_advance body.length (c.behindOpening b n)
  have hclosing := passes_advance (n + 2) ((c.behindOpening b n).advance body.length)
  rw [hr, List.take_left] at hbody
  rw [rest_advance, hr, List.drop_left, ← d.length_closing n, List.take_left,
    d.length_closing] at hclosing
  exact ((passes_behindOpening hrest hdropped).trans hbody).trans hclosing

theorem rest_behindLiteral
    (hrest : c.rest = d.opening n ++ (dropped ++ (body ++ (d.closing n ++ rest))))
    (hdropped : dropped = b.longest (dropped ++ (body ++ (d.closing n ++ rest)))) :
    (c.behindLiteral b n body.length).rest = rest := by
  have h := (passes_behindLiteral hrest hdropped).rest
  rw [hrest] at h
  simpa using h.symm

theorem position_behindLiteral
    (hrest : c.rest = d.opening n ++ (dropped ++ (body ++ (d.closing n ++ rest))))
    (hdropped : dropped = b.longest (dropped ++ (body ++ (d.closing n ++ rest)))) :
    (c.behindLiteral b n body.length).position =
      ((c.position.behindOpening (d.opening n) dropped).past body).past (d.closing n) := by
  obtain ⟨hr, hp⟩ := advance_of_append (rest_behindOpening hrest hdropped)
  obtain ⟨-, hq⟩ := advance_of_append hr
  rw [d.length_closing] at hq
  rw [behindLiteral, hq, hp, position_behindOpening hrest hdropped]

end Cursor

/-- Behind the opening bracket and a line break the body is matched, and the closing bracket is
passed where it has been accepted. -/
theorem longBracket_of_opening? {σ : Type} {C : Context σ} {b : LongBracket} {unit : Matcher σ}
    {s : Session σ} {n : ℕ} (ho : b.delimiters.opening? s.cursor.rest = some ⟨n + 2⟩) :
    Matcher.longBracket C b unit s =
      ((Matcher.required C b.contentName (Matcher.enclosed C b.contentName
          (Matcher.upTo (consume 0 (b.delimiters.closes ⟨n + 2⟩)) unit))).andThen
        fun t => (.matched, t.advance (n + 2)))
        (s.rewind (s.cursor.behindOpening C.lineBreak n)) := by
  obtain ⟨m, hm, hopen, -⟩ := Delimiters.opening?_eq_some_iff.mp ho
  obtain rfl : n = m := by simpa using hm
  have hl : n + 2 ≤ s.cursor.left := by simpa [s.cursor.left_eq] using hopen.length_le
  simp only [Matcher.longBracket, ho, Session.advance_of_le hl, Session.passLineBreak_eq]
  rfl

/-! ## Literals in a scan -/

/-- A context with the usual error and with actions on a literal and on its body, in which no
other rule of the grammar has a hook. The marker is not a bracket. -/
structure ScanContext (C : Context Findings) (b : LongBracket) : Prop where
  raise : C.raise = fun _ rule p => .requiredMatch rule p
  name : b.contentName = "literal.content"
  content : C.hooks.get? b.contentName = some (.action Findings.keepContent)
  literal : C.hooks.get? b.name = some (.action (Findings.keepLiteral b.delimiters.marker))
  others : ∀ rule ∈ ["star", "sor", "any"], C.hooks.get? rule = none
  marker : b.delimiters.marker ≠ b.delimiters.opener

section Literals

variable {C : Context Findings} {b : LongBracket} {s : Session Findings} {n : ℕ}
  {f : Matcher Findings} {dropped body rest : List Char}

def contentMatcher (C : Context Findings) (b : LongBracket) (n : ℕ) (f : Matcher Findings) :
    Matcher Findings :=
  Matcher.required C b.contentName (Matcher.enclosed C b.contentName
    (Matcher.upTo (consume 0 (b.delimiters.closes ⟨n + 2⟩)) (Rule.roundOf [] f)))

theorem ends_content (h : ScanContext C b) (hon : s.mode = .on) (hd : s.depth < C.maxDepth)
    (hrest : s.cursor.rest = body ++ (b.delimiters.closing n ++ rest))
    (hfirst : StopsFirst (b.delimiters.closing n) body rest) :
    Ends (contentMatcher C b n f) s .matched (s.cursor.advance body.length)
      (s.state.keepContent ⟨String.ofList body, s.position⟩) := by
  have hraw := upTo_of_stopsFirst (f := f) (s := s.opened b.contentName) hrest hfirst
  have hp : s.cursor.Passes body (s.cursor.advance body.length) := by
    simpa [hrest] using Cursor.passes_advance body.length s.cursor
  have henclosed := (Ends.of_eq hraw rfl rfl).enclosed_action hp hd hon h.content
  exact henclosed.required_of_ne (by simp)

theorem ends_content_unterminated (h : ScanContext C b) (hd : s.depth < C.maxDepth)
    (hrest : ¬ b.delimiters.closing n <:+: s.cursor.rest) :
    Ends (contentMatcher C b n f) s (.failed (.requiredMatch b.contentName s.position))
      s.cursor s.state := by
  obtain ⟨c, hraw⟩ := upTo_of_not_occurs (f := f) (s := s.opened b.contentName) rfl hrest
  exact ((Ends.of_eq hraw rfl rfl).enclosed_mismatched hd).required_failed h.raise

theorem longBracket_eq (h : ScanContext C b)
    (hrest : s.cursor.rest = b.delimiters.opening n ++ (dropped ++ rest)) :
    Matcher.longBracket C b (Rule.roundOf [] f) s =
      ((contentMatcher C b n f).andThen fun t => (.matched, t.advance (n + 2)))
        (s.rewind (s.cursor.behindOpening C.lineBreak n)) :=
  longBracket_of_opening? (Delimiters.opening?_eq_of_marker_ne h.marker ⟨_, hrest.symm⟩)

theorem keepLiteral_eq {p : Position} {found : Findings} {cs : List Char}
    (h : b.delimiters.marker ≠ b.delimiters.opener) (hcs : b.delimiters.opening n <+: cs) :
    Findings.keepLiteral b.delimiters.marker ⟨String.ofList cs, p⟩ found =
      { content := none
        literals := ⟨p, n, found.content.getD "", cs.length⟩ :: found.literals } := by
  simp [Findings.keepLiteral, Delimiters.length_takeWhile_marker h hcs]

/-- Behind the opening bracket the body is matched and kept, and the closing bracket passed. -/
theorem ends_longBracket (h : ScanContext C b) (hon : s.mode = .on) (hd : s.depth < C.maxDepth)
    (hrest : s.cursor.rest =
      b.delimiters.opening n ++ (dropped ++ (body ++ (b.delimiters.closing n ++ rest))))
    (hdropped : dropped =
      C.lineBreak.longest (dropped ++ (body ++ (b.delimiters.closing n ++ rest))))
    (hfirst : StopsFirst (b.delimiters.closing n) body rest) :
    ∃ m, Ends (Matcher.longBracket C b (Rule.roundOf [] f)) s .matched
      (s.cursor.behindLiteral C.lineBreak n body.length)
      (s.state.keepContent ⟨String.ofList body, m⟩) := by
  let t := s.rewind (s.cursor.behindOpening C.lineBreak n)
  have hr : t.cursor.rest = body ++ (b.delimiters.closing n ++ rest) :=
    Cursor.rest_behindOpening hrest hdropped
  have hl : n + 2 ≤ (t.cursor.advance body.length).left := by
    rw [Cursor.left_eq, Cursor.rest_advance, hr]
    simp
  have hclosing (j : Journal) :
      Ends (fun t => (.matched, t.advance (n + 2)))
        { t with
          cursor := t.cursor.advance body.length
          state := t.state.keepContent ⟨String.ofList body, t.position⟩
          journal := j }
        .matched (s.cursor.behindLiteral C.lineBreak n body.length)
        (s.state.keepContent ⟨String.ofList body, t.position⟩) :=
    ⟨j, congrArg _ (Session.advance_of_le hl)⟩
  obtain ⟨j, hj⟩ := (ends_content (s := t) h hon hd hr hfirst).andThen hclosing
  exact ⟨t.position, j, (longBracket_eq h hrest).trans hj⟩

theorem ends_literal (h : ScanContext C b) (hon : s.mode = .on) (hd : s.depth + 1 < C.maxDepth)
    (hrest : s.cursor.rest =
      b.delimiters.opening n ++ (dropped ++ (body ++ (b.delimiters.closing n ++ rest))))
    (hdropped : dropped =
      C.lineBreak.longest (dropped ++ (body ++ (b.delimiters.closing n ++ rest))))
    (hfirst : StopsFirst (b.delimiters.closing n) body rest) :
    Ends (Matcher.enclosed C b.name (Matcher.longBracket C b (Rule.roundOf [] f))) s .matched
      (s.cursor.behindLiteral C.lineBreak n body.length)
      { content := none
        literals := literalAt s.position b.delimiters n dropped body :: s.state.literals } := by
  obtain ⟨m, hbracket⟩ := ends_longBracket (f := f) (s := s.opened b.name) h hon hd hrest
    hdropped hfirst
  have hpass := Cursor.passes_behindLiteral hrest hdropped
  have hlevel : b.delimiters.opening n <+:
      b.delimiters.opening n ++ dropped ++ body ++ b.delimiters.closing n := by
    simp only [List.append_assoc]
    exact List.prefix_append _ _
  have hends := hbracket.enclosed_action hpass (by omega) hon h.literal
  rw [keepLiteral_eq h.marker hlevel] at hends
  exact hends

theorem ends_literal_unterminated (h : ScanContext C b) (hd : s.depth + 1 < C.maxDepth)
    (hrest : s.cursor.rest = b.delimiters.opening n ++ (dropped ++ rest))
    (hdropped : dropped = C.lineBreak.longest (dropped ++ rest))
    (hclosing : ¬ b.delimiters.closing n <:+: rest) :
    ∃ c a, Ends (Matcher.enclosed C b.name (Matcher.longBracket C b (Rule.roundOf [] f))) s
      (.failed (.requiredMatch b.contentName
        (s.position.behindOpening (b.delimiters.opening n) dropped))) c a := by
  let t := (s.opened b.name).rewind (s.cursor.behindOpening C.lineBreak n)
  have hr : t.cursor.rest = rest := Cursor.rest_behindOpening hrest hdropped
  have hp : t.position = s.position.behindOpening (b.delimiters.opening n) dropped :=
    Cursor.position_behindOpening hrest hdropped
  have hcontent := ends_content_unterminated (f := f) (s := t) h hd (hr ▸ hclosing)
  rw [hp] at hcontent
  obtain ⟨j, hj⟩ := hcontent.andThen_of_ne (g := fun t => (.matched, t.advance (n + 2))) (by simp)
  have hraw := (longBracket_eq (s := s.opened b.name) h hrest).trans hj
  exact ⟨_, _, (Ends.of_eq hraw rfl rfl).enclosed_failed (by omega)⟩

end Literals

end PegScan
