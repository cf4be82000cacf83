import PegScan.Proofs.Rule.Induction
import PegScan.Rule.Outline

/-! # Parts of a rule

The outline of a rule names what may be started inside it. Its exempt children are not started:
they are tried without a report. -/

namespace PegScan

/-- The children that are reported when they are tried. -/
def Outline.parts (o : Outline) : List Outline := o.children.filter fun child => !child.exempt

theorem Outline.exempt_of_mem_parts {o part : Outline} (h : part ∈ o.parts) :
    part.exempt = false := by
  simpa using (List.mem_filter.mp h).2

/-- The body of a literal, as the outline of the literal has it. -/
def LongBracket.bodyOutline (b : LongBracket) (contents : List Rule) : Outline :=
  .node b.contentName .sequence false
    (.node "at_raw_string_close" .optional true [] :: Rule.outlines contents)

namespace Rule

theorem name_outline (rule : Rule) : rule.outline.name = rule.name := by
  cases rule <;> rfl

/-- A rule of the grammar is never exempt. -/
theorem exempt_outline (rule : Rule) : rule.outline.exempt = false := by
  cases rule <;> rfl

theorem outlines_eq_map (rules : List Rule) : outlines rules = rules.map outline := by
  induction rules with
  | nil => rfl
  | cons rule rules ih => rw [outlines, ih, List.map_cons]

theorem mem_outlines {r : Rule} {rules : List Rule} (h : r ∈ rules) :
    r.outline ∈ outlines rules := by
  rw [outlines_eq_map]
  exact List.mem_map_of_mem h

theorem outline_mem_parts {o : Outline} {rules : List Rule} (h : o.children = outlines rules) :
    ∀ r ∈ rules, r.outline ∈ o.parts := by
  intro r hr
  rw [Outline.parts, h, List.mem_filter]
  exact ⟨mem_outlines hr, by rw [exempt_outline, Bool.not_false]⟩

theorem bodyOutline_mem_parts (b : LongBracket) (contents : List Rule) :
    b.bodyOutline contents ∈ (longBracket b contents).outline.parts := by
  rw [Outline.parts, List.mem_filter]
  exact ⟨.tail _ (.head _), rfl⟩

theorem outline_mem_parts_bodyOutline (b : LongBracket) {contents : List Rule} :
    ∀ r ∈ contents, r.outline ∈ (b.bodyOutline contents).parts := by
  intro r hr
  rw [Outline.parts, List.mem_filter]
  exact ⟨.tail _ (mem_outlines hr), by rw [exempt_outline, Bool.not_false]⟩

end Rule
end PegScan
