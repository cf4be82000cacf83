import PegScan.Text.Number
import Mathlib.Data.List.Induction

/-! # Numbers written in digits

The digits of a number stand for this number. There is no superfluous zero in front of them. -/

namespace PegScan

theorem digit?_digitChar {base n : Nat} (hn : n < base) (hbase : base ≤ 16) :
    digit? base (Nat.digitChar n) = some n := by
  have hex : ∀ n < 16, digit? 16 (Nat.digitChar n) = some n := by decide
  have hvalue := Option.filter_eq_some_iff.mp (hex n (by omega))
  exact Option.filter_eq_some_iff.mpr ⟨hvalue.1, by simpa using hn⟩

theorem digit?_toUpper_digitChar {n : Nat} (hn : n < 16) :
    digit? 16 (Nat.digitChar n).toUpper = some n := by
  revert n
  decide

theorem ofDigits?_concat (base : Nat) (cs : List Char) (c : Char) :
    ofDigits? base (cs ++ [c]) =
      (ofDigits? base cs).bind fun n => (digit? base c).map (base * n + ·) := by
  rw [ofDigits?, List.foldlM_append]
  exact Option.bind_congr fun n _ => by simp

theorem isDigit_of_ofDigits? {b n : Nat} {cs : List Char} (h : ofDigits? b cs = some n) :
    ∀ c ∈ cs, isDigit b c := by
  induction cs using List.reverseRecOn generalizing n with
  | nil => simp
  | append_singleton cs last ih =>
      rw [ofDigits?_concat] at h
      obtain ⟨front, hfront, hlast⟩ := Option.bind_eq_some_iff.mp h
      obtain ⟨digit, hdigit, -⟩ := Option.map_eq_some_iff.mp hlast
      refine List.forall_mem_append.mpr ⟨ih hfront, ?_⟩
      simp [isDigit, hdigit]

theorem ofDigits?_toDigits_base {base : Nat} (hone : 1 < base) (hbase : base ≤ 16) (n : Nat) :
    ofDigits? base (Nat.toDigits base n) = some n := by
  induction n using Nat.base_induction base hone with
  | single n hn =>
      rw [Nat.toDigits_of_lt_base hn, ← List.nil_append [n.digitChar], ofDigits?_concat,
        digit?_digitChar hn hbase]
      simp [ofDigits?]
  | digit front last hlast hfront ih =>
      rw [← Nat.toDigits_append_toDigits hone hfront hlast, Nat.toDigits_of_lt_base hlast,
        ofDigits?_concat, ih, digit?_digitChar hlast hbase]
      rfl

theorem ofDigits?_toDigits (n : Nat) : ofDigits? 10 (Nat.toDigits 10 n) = some n :=
  ofDigits?_toDigits_base (by decide) (by decide) n

theorem isDigit_of_mem_toDigits (n : Nat) : ∀ c ∈ Nat.toDigits 10 n, isDigit 10 c :=
  isDigit_of_ofDigits? (ofDigits?_toDigits n)

theorem head?_toDigits {n : Nat} (hn : 0 < n) : (Nat.toDigits 10 n).head? ≠ some '0' := by
  induction n using Nat.base_induction 10 (by decide) with
  | single n hlt =>
      rw [Nat.toDigits_of_lt_base hlt]
      simpa using Nat.ne_of_gt hn
  | digit front last hlast hfront ih =>
      rw [← Nat.toDigits_append_toDigits (by decide) hfront hlast]
      obtain ⟨c, cs, hcs⟩ := List.exists_cons_of_ne_nil (Nat.toDigits_ne_nil (n := front) (b := 10))
      rw [hcs] at ih ⊢
      exact ih hfront

/-- Only zero is written with a zero in front. -/
theorem toDigits_eq_zero_or_head? (n : Nat) :
    Nat.toDigits 10 n = ['0'] ∨ (Nat.toDigits 10 n).head? ≠ some '0' := by
  rcases Nat.eq_zero_or_pos n with rfl | hn
  · exact .inl (Nat.toDigits_zero 10)
  · exact .inr (head?_toDigits hn)

/-- Four digits, of which only two count. -/
theorem ofDigits?_byte {n : Nat} {high low : Char} (hhigh : digit? 16 high = some (n / 16))
    (hlow : digit? 16 low = some (n % 16)) : ofDigits? 16 ['0', '0', high, low] = some n := by
  have hzero : digit? 16 '0' = some 0 := by decide
  simp only [ofDigits?, List.foldlM_cons, List.foldlM_nil, hzero, hhigh, hlow, Option.map_some,
    Option.bind_eq_bind, Option.bind_some]
  exact congrArg some (by omega)

theorem charOfNat?_toNat (c : Char) : charOfNat? c.toNat = some c := by
  have hvalid : c.toNat.isValidChar := c.valid
  rw [charOfNat?, if_pos hvalid, Char.ofNat_toNat]

end PegScan
