import PegScan.Proofs.Text.LineBreak
import PegScan.Proofs.LongBracket
import PegScan.Rule

/-! # Rules as functions on characters

A rule is read here from its meaning alone. What it does depends on the characters that follow,
and on the policy for line breaks; there is no cursor, and nothing is ever taken back. -/

namespace PegScan

namespace Peg

/-- What a rule does to the characters that follow. Lengths and distances count characters. -/
inductive Verdict where
  | mismatch
  | success (length : ℕ)
  | fatal (rule : String) (distance : ℕ)
  deriving DecidableEq, Repr

/-- A verdict on what follows `k` characters further on, told from here. -/
def Verdict.shift (k : ℕ) : Verdict → Verdict
  | mismatch => mismatch
  | success n => success (k + n)
  | fatal rule n => fatal rule (k + n)

abbrev Evaluator := List Char → Verdict

namespace Evaluator

def character (test : Char → Bool) : Evaluator
  | [] => .mismatch
  | c :: _ => if test c then .success 1 else .mismatch

def text (chars : List Char) : Evaluator := fun cs =>
  if chars.isPrefixOf cs then .success chars.length else .mismatch

def endOfText : Evaluator := fun cs => if cs = [] then .success 0 else .mismatch

def lineBreak (b : LineBreak) : Evaluator := fun cs =>
  if b.longest cs = [] then .mismatch else .success (b.longest cs).length

def andThen (f g : Evaluator) : Evaluator := fun cs =>
  match f cs with
  | .success k => (g (cs.drop k)).shift k
  | v => v

def orElse (f g : Evaluator) : Evaluator := fun cs =>
  match f cs with
  | .mismatch => g cs
  | v => v

def optional (f : Evaluator) : Evaluator := f.orElse fun _ => .success 0

def ahead (f : Evaluator) : Evaluator := fun cs =>
  match f cs with
  | .success _ => .success 0
  | v => v

def notAhead (f : Evaluator) : Evaluator := fun cs =>
  match f cs with
  | .success _ => .mismatch
  | .mismatch => .success 0
  | v => v

def required (rule : String) (f : Evaluator) : Evaluator := f.orElse fun _ => .fatal rule 0

/-- As many rounds as there are, up to the first one that mismatches or takes no character. -/
def repeated (round : Evaluator) (cs : List Char) : Verdict :=
  match round cs with
  | .mismatch => .success 0
  | .fatal rule k => .fatal rule k
  | .success k =>
    if 0 < k ∧ cs ≠ [] then (repeated round (cs.drop k)).shift k else .success k
termination_by cs.length
decreasing_by
  rename_i h
  have := List.length_pos_iff.mpr h.2
  simp only [List.length_drop]
  omega

/-- Rounds, each of which takes characters, up to the first place where `stop` does not
mismatch. -/
def upTo (stop round : Evaluator) (cs : List Char) : Verdict :=
  match stop cs with
  | .success k => .success k
  | .fatal rule k => .fatal rule k
  | .mismatch =>
    if cs = [] then .mismatch
    else
      match round cs with
      | .mismatch => .mismatch
      | .fatal rule k => .fatal rule k
      | .success k =>
        if 0 < k ∧ cs ≠ [] then (upTo stop round (cs.drop k)).shift k else .mismatch
termination_by cs.length
decreasing_by
  rename_i h
  have := List.length_pos_iff.mpr h.2
  simp only [List.length_drop]
  omega

/-- The least level whose opening bracket a text begins with. -/
def level? (d : Delimiters) (cs : List Char) : Option ℕ :=
  (List.range cs.length).find? fun n => (d.opening n).isPrefixOf cs

theorem level?_eq_some_iff {d : Delimiters} {cs : List Char} {n : ℕ} :
    level? d cs = some n ↔ d.opening n <+: cs ∧ ∀ m < n, ¬ d.opening m <+: cs := by
  have hl (h : d.opening n <+: cs) : n < cs.length := by
    have := h.length_le
    rw [Delimiters.length_opening] at this
    omega
  simp only [level?, List.find?_range_eq_some, List.isPrefixOf_iff_prefix, List.mem_range,
    Bool.not_eq_true', ← Bool.not_eq_true]
  exact ⟨fun ⟨h, _, hmin⟩ => ⟨h, hmin⟩, fun ⟨h, hmin⟩ => ⟨h, hl h, hmin⟩⟩

/-- An opening bracket, a line break that may be missing, a required body up to the place where
the closing bracket of the same level follows, and that bracket. -/
def longBracket (b : LineBreak) (bracket : LongBracket) (unit : Evaluator) : Evaluator := fun cs =>
  match level? bracket.delimiters cs with
  | none => .mismatch
  | some n =>
    let closing := text (bracket.delimiters.closing n)
    let body := required bracket.contentName (upTo (ahead closing) unit)
    let k := n + 2 + (b.longest (cs.drop (n + 2))).length
    (andThen body closing (cs.drop k)).shift k

end Evaluator

end Peg

namespace Rule

open Peg Evaluator

def roundVerdict (rules : List Rule) (all : Evaluator) : Evaluator :=
  if rules.isEmpty then character fun _ => true else all

mutual

/-- What a rule does to the characters that follow. -/
def verdict (b : LineBreak) : Rule → Evaluator
  | any => character fun _ => true
  | one chars => character chars.contains
  | notOne chars => character fun c => !chars.contains c
  | range low high => character fun c => low ≤ c && c ≤ high
  | text chars => Evaluator.text chars
  | endOfText => Evaluator.endOfText
  | lineBreak => Evaluator.lineBreak b
  | seq rules => verdictAll b rules
  | choice rules => verdictFirst b rules
  | star rules => repeated (verdictAll b rules)
  | plus rules => (verdictAll b rules).andThen (repeated (verdictAll b rules))
  | opt rules => (verdictAll b rules).optional
  | ahead rule => (verdict b rule).ahead
  | notAhead rule => (verdict b rule).notAhead
  | must rule => (verdict b rule).required rule.name
  | upTo stop body => Evaluator.upTo (verdict b stop) (roundVerdict body (verdictAll b body))
  | named _ rule => verdict b rule
  | longBracket bracket contents =>
    Evaluator.longBracket b bracket (roundVerdict contents (verdictAll b contents))

def verdictAll (b : LineBreak) : List Rule → Evaluator
  | [] => fun _ => .success 0
  | rule :: rules => (verdict b rule).andThen (verdictAll b rules)

def verdictFirst (b : LineBreak) : List Rule → Evaluator
  | [] => fun _ => .mismatch
  | rule :: rules => (verdict b rule).orElse (verdictFirst b rules)

end

end Rule
end PegScan
