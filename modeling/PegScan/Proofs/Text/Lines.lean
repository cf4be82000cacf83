import PegScan.Proofs.Text.Course

/-! # Lines of a text

The line breaks of a text are read off the text alone here, one after the other and each as long
as it can be. A position that is moved along the text counts some of them: which ones depends on
where a line break was passed as one. -/

namespace PegScan

/-! ## Line breaks in a text -/

structure LineEnd where
  offset : ℕ
  chars : List Char
  deriving DecidableEq, Repr

def LineEnd.stop (x : LineEnd) : ℕ := x.offset + x.chars.length

namespace LineBreak

/-- The longest terminator at the front of a text. A line feed ends a line under every policy. -/
def ending (b : LineBreak) (cs : List Char) : List Char :=
  (((['\n'] :: b.terminators).filter (·.isPrefixOf cs)).argmax List.length).getD []

/-- The line breaks of a text that begins at an offset, from left to right. -/
def endingsFrom (b : LineBreak) (i : ℕ) : List Char → List LineEnd
  | [] => []
  | c :: cs =>
      if b.ending (c :: cs) = [] then b.endingsFrom (i + 1) cs
      else
        let chars := b.ending (c :: cs)
        ⟨i, chars⟩ :: b.endingsFrom (i + chars.length) ((c :: cs).drop chars.length)
termination_by cs => cs.length
decreasing_by
  · simp
  · rename_i h
    have hpos := List.length_pos_of_ne_nil h
    simp only [List.length_drop, List.length_cons]
    omega

/-- The line of an offset: one, and one more for each line break before it that counts. -/
def lineAt (b : LineBreak) (counts : LineEnd → Bool) (text : List Char) (k : ℕ) : ℕ :=
  1 + (b.endingsFrom 0 text).countP fun x => decide (x.stop ≤ k) && counts x

/-- A line break counts that has a line feed, and any that stands behind an opening bracket. -/
def countsBehind (openings : List ℕ) (x : LineEnd) : Bool :=
  x.chars.contains '\n' || openings.contains x.offset

/-! ### The front of a text -/

variable {b : LineBreak} {c : Char} {cs : List Char}

theorem ending_feed (b : LineBreak) (cs : List Char) : b.ending ('\n' :: cs) = ['\n'] := by
  cases b <;> simp [ending, terminators, List.argmax_cons]

theorem ending_of_ne (h : c ≠ '\n') : b.ending (c :: cs) = b.longest (c :: cs) := by
  simp [ending, longest, Ne.symm h]

theorem longest_cases (b : LineBreak) (cs : List Char) :
    b.longest cs = [] ∨ b.longest cs = ['\n'] ∨ b.longest cs = ['\r'] ∨
      b.longest cs = ['\r', '\n'] := by
  have hall : ∀ t ∈ b.terminators, t = ['\n'] ∨ t = ['\r'] ∨ t = ['\r', '\n'] := by
    cases b <;> decide
  exact (b.longest_mem cs).imp id (hall _)

end LineBreak

/-! ## Character by character -/

/-- The number of characters before the offset `k` that end a line: the line feeds, and a carriage
return that is all of the line break behind an opening bracket. The text begins at `i`. -/
def linesEnded (b : LineBreak) (openings : List ℕ) (k i : ℕ) : List Char → ℕ
  | [] => 0
  | c :: cs =>
      (if i < k ∧ (c = '\n' ∨ i ∈ openings ∧ b.longest (c :: cs) = ['\r']) then 1 else 0) +
        linesEnded b openings k (i + 1) cs

theorem linesEnded_of_le {b : LineBreak} {openings : List ℕ} {k i : ℕ} (h : k ≤ i)
    (cs : List Char) : linesEnded b openings k i cs = 0 := by
  induction cs generalizing i with
  | nil => rfl
  | cons c cs ih => simp [linesEnded, Nat.not_lt.mpr h, ih (Nat.le_succ_of_le h)]

theorem linesEnded_cons_of_lt {b : LineBreak} {openings : List ℕ} {o k i : ℕ} (h : o < i)
    (cs : List Char) : linesEnded b (o :: openings) k i cs = linesEnded b openings k i cs := by
  induction cs generalizing i with
  | nil => rfl
  | cons c cs ih => simp [linesEnded, Nat.ne_of_gt h, ih (Nat.lt_succ_of_lt h)]

/-- Each line break that counts has one character that ends a line, its last one. -/
theorem LineBreak.countP_endingsFrom (b : LineBreak) (openings : List ℕ) (k i : ℕ)
    (cs : List Char) :
    ((b.endingsFrom i cs).countP fun x => decide (x.stop ≤ k) && countsBehind openings x) =
      linesEnded b openings k i cs := by
  fun_induction endingsFrom b i cs with
  | case1 i => rfl
  | case2 i c cs hnone ih =>
      have hfeed : c ≠ '\n' := by
        rintro rfl
        simp [ending_feed] at hnone
      rw [ending_of_ne hfeed] at hnone
      simp [linesEnded, hfeed, hnone, ih]
  | case3 i c cs hne chars ih =>
      have hsingle (e : Char) : (⟨i, [e]⟩ : LineEnd).stop ≤ k ↔ i < k := Iff.rfl
      rw [List.countP_cons, ih, Nat.add_comm]
      by_cases hfeed : c = '\n'
      · subst c
        simp [chars, ending_feed, hsingle, countsBehind, linesEnded]
      · have hchars : chars = b.longest (c :: cs) := ending_of_ne hfeed
        have hprefix : chars <+: c :: cs := hchars ▸ b.longest_isPrefix _
        rcases b.longest_cases (c :: cs) with h | h | h | h <;> rw [h] at hchars
        · exact (hne hchars).elim
        · simp [hchars, Ne.symm hfeed] at hprefix
        · simp [hchars, h, hsingle, countsBehind, linesEnded, hfeed]
        · obtain ⟨rest, hrest⟩ := hprefix
          obtain ⟨-, rfl⟩ : '\r' = c ∧ '\n' :: rest = cs := by simpa [hchars] using hrest
          have hstop : i + 1 < k ↔ i + 2 ≤ k := Iff.rfl
          simp [hchars, h, LineEnd.stop, countsBehind, linesEnded, hfeed, hstop, Nat.add_assoc]

/-! ## Positions that count lines -/

namespace Position

/-- The line of the offset `k`, counted on from a position with the text behind it. -/
def lineOnTo (p : Position) (b : LineBreak) (openings : List ℕ) (k : ℕ) (cs : List Char) : ℕ :=
  p.line + linesEnded b openings k p.offset cs

variable {p : Position} {b : LineBreak} {openings : List ℕ} {k : ℕ} {cs : List Char}

theorem lineOnTo_start (b : LineBreak) (openings : List ℕ) (k : ℕ) (cs : List Char) :
    start.lineOnTo b openings k cs = b.lineAt (LineBreak.countsBehind openings) cs k := by
  rw [LineBreak.lineAt, LineBreak.countP_endingsFrom]
  rfl

theorem lineOnTo_of_le (h : k ≤ p.offset) : p.lineOnTo b openings k cs = p.line := by
  rw [lineOnTo, linesEnded_of_le h, Nat.add_zero]

/-- A character that is passed by itself counts if it is a line feed. -/
theorem lineOnTo_cons {c : Char} (ho : p.offset ∉ openings) (hk : p.offset < k) :
    p.lineOnTo b openings k (c :: cs) = (p.next c).lineOnTo b openings k cs := by
  by_cases hfeed : c = '\n'
  · simp [lineOnTo, linesEnded, next, hfeed, hk, Nat.add_assoc]
  · simp [lineOnTo, linesEnded, next, hfeed, ho]

theorem lineOnTo_append {xs : List Char}
    (ho : ∀ o ∈ openings, p.offset ≤ o → p.offset + xs.length ≤ o)
    (hk : p.offset + xs.length ≤ k) :
    p.lineOnTo b openings k (xs ++ cs) = (p.past xs).lineOnTo b openings k cs := by
  induction xs generalizing p with
  | nil => rfl
  | cons x xs ih =>
      rw [List.length_cons] at ho hk
      have hout : p.offset ∉ openings := fun h => by
        have hle := ho _ h le_rfl
        omega
      rw [List.cons_append, lineOnTo_cons hout (by omega), past_cons, ih]
      · intro o hmem hfrom
        rw [next_offset] at hfrom ⊢
        have hle := ho o hmem (by omega)
        omega
      · rw [next_offset]
        omega

/-- A line break that is dropped behind an opening bracket counts once. -/
theorem lineOnTo_longest {dropped : List Char} (hdropped : dropped = b.longest (dropped ++ cs))
    (hk : p.offset + dropped.length ≤ k) :
    p.lineOnTo b (p.offset :: openings) k (dropped ++ cs) =
      (p.acrossBreak dropped).lineOnTo b openings k cs := by
  have hcases := b.longest_cases (dropped ++ cs)
  rw [← hdropped] at hcases
  rcases hcases with rfl | rfl | rfl | rfl
  · cases cs with
    | nil => rfl
    | cons c cs =>
        have hnone : b.longest (c :: cs) = [] := hdropped.symm
        simp [lineOnTo, linesEnded, linesEnded_cons_of_lt, acrossBreak, hnone]
  · have hlt : p.offset < k := hk
    simp [lineOnTo, linesEnded, linesEnded_cons_of_lt, acrossBreak, acrossLine, hlt, Nat.add_assoc]
  · have hlt : p.offset < k := hk
    have hreturn : b.longest ('\r' :: cs) = ['\r'] := hdropped.symm
    simp [lineOnTo, linesEnded, linesEnded_cons_of_lt, acrossBreak, acrossLine, hlt, hreturn,
      Nat.add_assoc]
  · have hlt : p.offset + 1 < k := hk
    have hboth : b.longest ('\r' :: '\n' :: cs) = ['\r', '\n'] := hdropped.symm
    simp [lineOnTo, linesEnded, linesEnded_cons_of_lt, acrossBreak, acrossLine, hlt, hboth,
      Nat.add_assoc]

end Position
end PegScan
