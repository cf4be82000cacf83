import PegScan.Proofs.Rule.Parts

/-! # Consuming outlines

Shapes tell which rules take at least one character whenever they match. A sequence does if one
of its children does, since all of them have to match; a choice does if all of its children do. -/

namespace PegScan

namespace Outline

mutual

/-- Whether a match takes at least one character, as far as the shapes tell. -/
def consumes : Outline → Bool
  | node _ .consuming _ _ => true
  | node _ .sequence _ children => consumesAny children
  | node _ .choice _ children => consumesAll children
  | node _ .optional _ _ | node _ .repetition _ _ => false

def consumesAny : List Outline → Bool
  | [] => false
  | o :: os => o.consumes || consumesAny os

def consumesAll : List Outline → Bool
  | [] => true
  | o :: os => o.consumes && consumesAll os

end

theorem consumesAny_eq_any (os : List Outline) : consumesAny os = os.any consumes := by
  induction os with
  | nil => rfl
  | cons o os ih => rw [consumesAny, ih, List.any_cons]

theorem consumesAll_eq_all (os : List Outline) : consumesAll os = os.all consumes := by
  induction os with
  | nil => rfl
  | cons o os ih => rw [consumesAll, ih, List.all_cons]

end Outline

namespace Rule

theorem consumesAny_outlines {rules : List Rule} :
    Outline.consumesAny (outlines rules) = true ↔ ∃ r ∈ rules, r.outline.consumes = true := by
  simp [Outline.consumesAny_eq_any, outlines_eq_map]

theorem consumesAll_outlines {rules : List Rule} :
    Outline.consumesAll (outlines rules) = true ↔ ∀ r ∈ rules, r.outline.consumes = true := by
  simp [Outline.consumesAll_eq_all, outlines_eq_map]

theorem shape_outline (rule : Rule) : rule.outline.shape = rule.shape := by
  cases rule <;> rfl

/-- A name does not change what is consumed. -/
theorem consumes_named (name : String) (rule : Rule) :
    (named name rule).outline.consumes = rule.outline.consumes := by
  have hshape := rule.shape_outline
  rw [outline, ← hshape]
  rcases rule.outline with ⟨_, shape, _, children⟩
  cases shape <;> simp [Outline.consumes, Outline.consumesAny, Outline.consumesAll, Outline.shape]

/-! ## Rules inside rules -/

def children : Rule → List Rule
  | seq rules | choice rules | star rules | plus rules | opt rules | longBracket _ rules => rules
  | ahead rule | notAhead rule | must rule | named _ rule => [rule]
  | upTo stop body => stop :: body
  | any | one _ | notOne _ | range _ _ | text _ | endOfText | lineBreak => []

inductive Contains : Rule → Rule → Prop
  | refl (rule) : Contains rule rule
  | inside {rule child r} : child ∈ rule.children → Contains child r → Contains rule r

/-- Where a body is repeated up to a stop, the stop consumes, or else nothing in the body does.
The body may be passed over, so that only the stop counts. -/
def StopsConsume (rule : Rule) : Prop :=
  ∀ stop body, rule.Contains (upTo stop body) →
    stop.outline.consumes = true ∨ ∀ r ∈ body, r.outline.consumes = false

theorem StopsConsume.of_mem {rule child : Rule} (h : rule.StopsConsume)
    (hc : child ∈ rule.children) : child.StopsConsume :=
  fun stop body hloop => h stop body (.inside hc hloop)

end Rule
end PegScan
