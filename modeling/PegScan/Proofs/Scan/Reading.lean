import PegScan.Proofs.LongBracket
import PegScan.Proofs.Text.LineBreak
import PegScan.Scan

/-! # Reading a text from left to right

What a scan should find is said here of the text alone, without a grammar and without a
session. Positions are carried along, since a line break that is dropped behind an opening
bracket counts as one line whatever it consists of. -/

namespace PegScan

/-- `body` stands before the first occurrence of `word` in a text that goes on with `rest`. -/
def StopsFirst (word body rest : List Char) : Prop :=
  ∀ k < body.length, ¬ word <+: (body ++ (word ++ rest)).drop k

namespace StopsFirst

variable {word body rest : List Char} {c : Char}

theorem nil (word rest : List Char) : StopsFirst word [] rest := by
  intro k hk
  simp at hk

theorem cons_iff :
    StopsFirst word (c :: body) rest ↔
      ¬ word <+: c :: (body ++ (word ++ rest)) ∧ StopsFirst word body rest := by
  constructor
  · intro h
    exact ⟨h 0 (by simp), fun k hk => h (k + 1) (by simpa using hk)⟩
  · rintro ⟨h, hb⟩ (_ | k) hk
    · exact h
    · exact hb k (by simpa using hk)

/-- Where a word occurs at all, it has a first occurrence. -/
theorem exists_of_occurs {cs : List Char} (h : word <:+: cs) :
    ∃ body rest, cs = body ++ (word ++ rest) ∧ StopsFirst word body rest := by
  induction cs with
  | nil =>
      obtain rfl := List.infix_nil.mp h
      exact ⟨[], [], rfl, nil [] []⟩
  | cons c cs ih =>
      by_cases hp : word <+: c :: cs
      · obtain ⟨rest, hrest⟩ := hp
        exact ⟨[], rest, hrest.symm, nil word rest⟩
      · have hcs : word <:+: cs := (List.infix_cons_iff.mp h).resolve_left hp
        obtain ⟨body, rest, rfl, hb⟩ := ih hcs
        exact ⟨c :: body, rest, rfl, cons_iff.mpr ⟨hp, hb⟩⟩

end StopsFirst

/-- The position behind an opening bracket and the line break that is dropped there. -/
def Position.behindOpening (p : Position) (opening dropped : List Char) : Position :=
  (p.past opening).acrossBreak dropped

/-- The record of a literal whose first character stands at `p`. -/
def literalAt (p : Position) (d : Delimiters) (n : ℕ) (dropped body : List Char) : Literal where
  start := p
  level := n
  content := String.ofList body
  length := (d.opening n ++ dropped ++ body ++ d.closing n).length

/-- What is read in a text from a position on: all the literals, or the error that ends the
reading. -/
inductive Reads (d : Delimiters) (b : LineBreak) :
    Position → List Char → Except Error (List Literal) → Prop where
  | done (p) : Reads d b p [] (.ok [])
  | skip {p c cs r} : (∀ n, ¬ d.opening n <+: c :: cs) → Reads d b (p.next c) cs r →
      Reads d b p (c :: cs) r
  | literal {p n dropped body rest r} :
      dropped = b.longest (dropped ++ (body ++ (d.closing n ++ rest))) →
      StopsFirst (d.closing n) body rest →
      Reads d b (((p.behindOpening (d.opening n) dropped).past body).past (d.closing n)) rest r →
      Reads d b p (d.opening n ++ (dropped ++ (body ++ (d.closing n ++ rest))))
        (r.map (literalAt p d n dropped body :: ·))
  | unterminated {p n dropped rest} :
      dropped = b.longest (dropped ++ rest) → ¬ d.closing n <:+: rest →
      Reads d b p (d.opening n ++ (dropped ++ rest))
        (.error (.requiredMatch "literal.content" (p.behindOpening (d.opening n) dropped)))

/-- Every text can be read. -/
theorem exists_reads (d : Delimiters) (b : LineBreak) (p : Position) (cs : List Char) :
    ∃ r, Reads d b p cs r := by
  -- A literal may take any number of characters, so the induction is on the length of the text.
  induction hl : cs.length using Nat.strong_induction_on generalizing p cs with
  | _ l ih =>
      cases cs with
      | nil => exact ⟨_, .done p⟩
      | cons c cs =>
          by_cases ho : ∃ n, d.opening n <+: c :: cs
          · obtain ⟨n, after, hn⟩ := ho
            obtain ⟨rest, hrest⟩ := b.longest_isPrefix after
            generalize hdropped : b.longest after = dropped at hrest
            subst hrest
            rw [← hn]
            by_cases hc : d.closing n <:+: rest
            · obtain ⟨body, rest, rfl, hfirst⟩ := StopsFirst.exists_of_occurs hc
              have hlt : rest.length < l := by
                rw [← hl, ← hn]
                simp
                omega
              obtain ⟨r, hr⟩ := ih _ hlt _ rest rfl
              exact ⟨_, .literal hdropped.symm hfirst hr⟩
            · exact ⟨_, .unterminated hdropped.symm hc⟩
          · have hlt : cs.length < l := by simp [← hl]
            obtain ⟨r, hr⟩ := ih _ hlt (p.next c) cs rfl
            exact ⟨r, .skip (not_exists.mp ho) hr⟩

end PegScan
