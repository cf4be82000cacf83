import PegScan.LongBracket
import PegScan.Proofs.Text.Passage

/-! # Levels of long brackets

The opening bracket is read character by character, and the closing one is compared at the
width that was read. Both are stated here in terms of the brackets as character sequences. -/

namespace PegScan.Delimiters

variable {d : Delimiters}

@[simp] theorem length_opening (d : Delimiters) (n : ℕ) : (d.opening n).length = n + 2 := by
  simp [opening]

@[simp] theorem length_closing (d : Delimiters) (n : ℕ) : (d.closing n).length = n + 2 := by
  simp [closing]

theorem closes_iff {n : ℕ} {cs : List Char} :
    d.closes ⟨n + 2⟩ cs = true ↔ d.closing n <+: cs := by
  simp [closes]

/-! ## The level of an opening bracket -/

/-- What is left of an opening bracket behind its first character. -/
def openingTail (d : Delimiters) (n : ℕ) : List Char := List.replicate n d.marker ++ [d.opener]

theorem opening_eq_cons (n : ℕ) : d.opening n = d.opener :: d.openingTail n := rfl

theorem openingTail_zero_prefix_iff {c : Char} {cs : List Char} :
    d.openingTail 0 <+: c :: cs ↔ d.opener = c := by
  simp [openingTail]

theorem openingTail_succ_prefix_iff {n : ℕ} {c : Char} {cs : List Char} :
    d.openingTail (n + 1) <+: c :: cs ↔ d.marker = c ∧ d.openingTail n <+: cs := by
  simp [openingTail, List.replicate_succ]

theorem markers?_eq_some_iff {n : ℕ} {cs : List Char} :
    d.markers? cs = some n ↔
      d.openingTail n <+: cs ∧ ∀ m < n, ¬ d.openingTail m <+: cs := by
  induction cs generalizing n with
  | nil => simp [markers?, openingTail]
  | cons c cs ih =>
      by_cases ho : c = d.opener
      · have hz : d.openingTail 0 <+: c :: cs := openingTail_zero_prefix_iff.mpr ho.symm
        cases n with
        | zero => simp [markers?, ho, openingTail_zero_prefix_iff]
        | succ n =>
            simp only [markers?, ho, ite_true, Option.some.injEq, Nat.zero_ne_add_one, false_iff]
            exact fun h => h.2 0 n.succ_pos (ho ▸ hz)
      · have hz : ¬ d.openingTail 0 <+: c :: cs :=
          fun h => ho (openingTail_zero_prefix_iff.mp h).symm
        by_cases hm : c = d.marker
        · subst hm
          cases n with
          | zero => simp [markers?, ho, hz]
          | succ n =>
              simp only [markers?, ite_true, if_neg ho, Option.map_eq_some_iff,
                Nat.add_right_cancel_iff, exists_eq_right, ih, openingTail_succ_prefix_iff,
                true_and, Nat.forall_lt_succ_left, hz, not_false_eq_true]
        · cases n with
          | zero => simp [markers?, ho, hm, hz]
          | succ n => simp [markers?, ho, hm, openingTail_succ_prefix_iff, Ne.symm hm]

theorem opening_prefix_cons {n : ℕ} {c : Char} {cs : List Char} :
    d.opening n <+: c :: cs ↔ d.opener = c ∧ d.openingTail n <+: cs := by
  rw [opening_eq_cons, List.cons_prefix_cons]

/-- With a marker of its own, the level of an opening bracket is the number of markers behind
its first character. -/
theorem length_takeWhile_marker (h : d.marker ≠ d.opener) {n : ℕ} {cs : List Char}
    (hn : d.opening n <+: cs) : (cs.tail.takeWhile (· = d.marker)).length = n := by
  obtain ⟨rest, rfl⟩ := hn
  have hmarkers : ∀ c ∈ List.replicate n d.marker, decide (c = d.marker) = true := by
    simp +contextual [List.mem_replicate]
  simp [opening, List.takeWhile_append_of_pos hmarkers, Ne.symm h]

/-- The opening bracket that is read is the one with the fewest markers. -/
theorem opening?_eq_some_iff {o : Opening} {cs : List Char} :
    d.opening? cs = some o ↔
      ∃ n, o = ⟨n + 2⟩ ∧ d.opening n <+: cs ∧ ∀ m < n, ¬ d.opening m <+: cs := by
  cases cs with
  | nil => simp [opening?, opening]
  | cons c cs =>
      by_cases ho : c = d.opener
      · simp only [opening?, ho, ite_true, Option.map_eq_some_iff, markers?_eq_some_iff,
          opening_prefix_cons, true_and]
        exact exists_congr fun n => by rw [and_comm, eq_comm]
      · simp [opening?, ho, opening_prefix_cons, Ne.symm ho]

theorem opening?_eq_none_iff {cs : List Char} :
    d.opening? cs = none ↔ ∀ n, ¬ d.opening n <+: cs := by
  constructor
  · intro h n hn
    induction n using Nat.strong_induction_on with
    | _ n ih =>
        have hs : d.opening? cs = some ⟨n + 2⟩ :=
          opening?_eq_some_iff.mpr ⟨n, rfl, hn, fun m hm hp => ih m hm hp⟩
        simp [h] at hs
  · intro h
    cases ho : d.opening? cs with
    | none => rfl
    | some o =>
        obtain ⟨n, _, hn, _⟩ := opening?_eq_some_iff.mp ho
        exact (h n hn).elim

/-- With a marker of its own, no other level is read than the one that stands there. -/
theorem opening?_eq_of_marker_ne (h : d.marker ≠ d.opener) {n : ℕ} {cs : List Char}
    (hn : d.opening n <+: cs) : d.opening? cs = some ⟨n + 2⟩ := by
  refine opening?_eq_some_iff.mpr ⟨n, rfl, hn, fun m hlt hm => ?_⟩
  have hnm : n = m := (length_takeWhile_marker h hn).symm.trans (length_takeWhile_marker h hm)
  omega

end PegScan.Delimiters
