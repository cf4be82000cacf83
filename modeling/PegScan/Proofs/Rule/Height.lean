import PegScan.Proofs.Rule.Parts
import Mathlib.Order.Bounds.Defs
import Mathlib.Order.Lattice

/-! # The height of an outline

The height counts the nodes on a way down from the root, without those that are exempt. Of all
ways to a leaf it takes the longest. -/

namespace PegScan.Outline

/-- Induction over outlines, with one hypothesis for all children. -/
@[elab_as_elim, induction_eliminator]
theorem induct {P : Outline → Prop}
    (node : ∀ name shape exempt children, (∀ child ∈ children, P child) →
      P (node name shape exempt children)) (o : Outline) : P o := by
  refine @Outline.rec P (fun children => ∀ child ∈ children, P child) node ?_ ?_ o
  · simp
  · intro first rest hfirst hrest child hc
    rcases List.mem_cons.mp hc with rfl | hc
    · exact hfirst
    · exact hrest child hc

def weight (o : Outline) : ℕ := if o.exempt then 0 else 1

mutual

def height : Outline → ℕ
  | node name shape exempt children =>
    (node name shape exempt children).weight + heightAll children

def heightAll : List Outline → ℕ
  | [] => 0
  | o :: os => max o.height (heightAll os)

end

theorem height_eq (o : Outline) : o.height = o.weight + heightAll o.children := by
  obtain ⟨name, shape, exempt, children⟩ := o
  rw [height]
  rfl

theorem height_le_heightAll {o : Outline} {os : List Outline} (h : o ∈ os) :
    o.height ≤ heightAll os := by
  induction os with
  | nil => simp at h
  | cons o' os ih =>
      rw [heightAll]
      rcases List.mem_cons.mp h with rfl | h
      · exact le_max_left _ _
      · exact (ih h).trans (le_max_right _ _)

theorem exists_height_eq_heightAll {os : List Outline} (h : os ≠ []) :
    ∃ o ∈ os, o.height = heightAll os := by
  induction os with
  | nil => exact (h rfl).elim
  | cons o os ih =>
      rw [heightAll]
      by_cases hos : os = []
      · exact ⟨o, .head os, by simp [hos, heightAll]⟩
      · obtain ⟨highest, hmem, heq⟩ := ih hos
        rcases le_total (heightAll os) o.height with hle | hle
        · exact ⟨o, .head os, (max_eq_left hle).symm⟩
        · exact ⟨highest, .tail o hmem, heq.trans (max_eq_right hle).symm⟩

/-- What is reported takes part in the height, and what may be started inside it is lower. -/
theorem height_lt_of_mem_parts {o part : Outline} (h : part ∈ o.parts) (ho : o.exempt = false) :
    part.height < o.height := by
  have hle : part.height ≤ heightAll o.children := height_le_heightAll (List.mem_filter.mp h).1
  rw [o.height_eq, weight, ho]
  exact Nat.lt_one_add_iff.mpr hle

theorem height_pos {o : Outline} (ho : o.exempt = false) : 0 < o.height := by
  rw [o.height_eq, weight, ho]
  exact Nat.add_pos_left Nat.one_pos _

/-! ## Ways to a leaf -/

/-- A way from the root of an outline down to a leaf. -/
inductive Way : Outline → List Outline → Prop
  | leaf {o} : o.children = [] → Way o [o]
  | down {o child path} : child ∈ o.children → Way child path → Way o (o :: path)

def reported (path : List Outline) : List Outline := path.filter fun o => !o.exempt

theorem length_reported_cons (o : Outline) (path : List Outline) :
    (reported (o :: path)).length = o.weight + (reported path).length := by
  cases h : o.exempt <;> simp [reported, weight, h, Nat.add_comm]

theorem Way.length_reported_le {o : Outline} {path : List Outline} (h : Way o path) :
    (reported path).length ≤ o.height := by
  induction h with
  | @leaf o _ =>
      rw [length_reported_cons, o.height_eq]
      exact Nat.add_le_add_left (Nat.zero_le _) _
  | @down o _ _ hc _ ih =>
      rw [length_reported_cons, o.height_eq]
      exact Nat.add_le_add_left (ih.trans (height_le_heightAll hc)) _

theorem exists_way (o : Outline) : ∃ path, Way o path ∧ (reported path).length = o.height := by
  induction o with
  | node name shape exempt children ih =>
      let o := node name shape exempt children
      by_cases hc : children = []
      · refine ⟨[o], .leaf hc, ?_⟩
        rw [length_reported_cons, o.height_eq, show o.children = [] from hc]
        rfl
      · obtain ⟨child, hmem, hheight⟩ := exists_height_eq_heightAll hc
        obtain ⟨path, hway, hpath⟩ := ih child hmem
        refine ⟨o :: path, .down hmem hway, ?_⟩
        rw [length_reported_cons, hpath, hheight, o.height_eq]
        rfl

/-- The height is the largest number of reported nodes on a way from the root to a leaf. -/
theorem isGreatest_height (o : Outline) :
    IsGreatest {n | ∃ path, Way o path ∧ (reported path).length = n} o.height := by
  refine ⟨o.exists_way, ?_⟩
  rintro n ⟨path, hway, rfl⟩
  exact hway.length_reported_le

end PegScan.Outline
