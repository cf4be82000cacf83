import PegScan.Rule
import Mathlib.Tactic.TypeStar

/-! # Induction over rules -/

namespace PegScan.Rule

/-- Induction over the syntax of rules. For a construct with a list of rules there is one
hypothesis for all of its members. -/
@[elab_as_elim, induction_eliminator]
theorem induct {P : Rule → Prop}
    (any : P any) (one : ∀ chars, P (one chars)) (notOne : ∀ chars, P (notOne chars))
    (range : ∀ low high, P (range low high)) (text : ∀ chars, P (text chars))
    (endOfText : P endOfText) (lineBreak : P lineBreak)
    (seq : ∀ rules, (∀ r ∈ rules, P r) → P (seq rules))
    (choice : ∀ rules, (∀ r ∈ rules, P r) → P (choice rules))
    (star : ∀ rules, (∀ r ∈ rules, P r) → P (star rules))
    (plus : ∀ rules, (∀ r ∈ rules, P r) → P (plus rules))
    (opt : ∀ rules, (∀ r ∈ rules, P r) → P (opt rules))
    (ahead : ∀ rule, P rule → P (ahead rule))
    (notAhead : ∀ rule, P rule → P (notAhead rule))
    (must : ∀ rule, P rule → P (must rule))
    (upTo : ∀ stop body, P stop → (∀ r ∈ body, P r) → P (upTo stop body))
    (named : ∀ name rule, P rule → P (named name rule))
    (longBracket : ∀ bracket contents, (∀ r ∈ contents, P r) → P (longBracket bracket contents))
    (rule : Rule) : P rule := by
  refine @Rule.rec P (fun rules => ∀ r ∈ rules, P r) any one notOne range text endOfText
    lineBreak seq choice star plus opt ahead notAhead must upTo named longBracket ?_ ?_ rule
  · simp
  · intro first rest hfirst hrest r hr
    rcases List.mem_cons.mp hr with rfl | hr
    · exact hfirst
    · exact hrest r hr

end PegScan.Rule
