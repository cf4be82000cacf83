import PegScan.Proofs.Text.Passage
import Mathlib.Data.List.MinMax

/-! # Longest line breaks

A policy is read here as a list of terminators. What a policy takes at the front of a text is
the longest terminator that stands there. -/

namespace PegScan

namespace LineBreak

def terminators : LineBreak → List (List Char)
  | lf => [['\n']]
  | cr => [['\r']]
  | crlf => [['\r', '\n']]
  | lfOrCrlf => [['\n'], ['\r', '\n']]
  | any => [['\r', '\n'], ['\r'], ['\n']]

/-- The longest terminator at the front of a text, and no character at all when there is none. -/
def longest (b : LineBreak) (cs : List Char) : List Char :=
  ((b.terminators.filter (·.isPrefixOf cs)).argmax List.length).getD []

theorem width_eq_length_longest (b : LineBreak) (cs : List Char) :
    b.width cs = (b.longest cs).length := by
  rcases cs with _ | ⟨x, cs⟩
  · cases b <;> simp [width, longest, terminators]
  by_cases hn : x = '\n'
  · subst x
    cases b <;> simp [width, longest, terminators]
  by_cases hr : x = '\r'
  · subst x
    rcases cs with _ | ⟨y, cs⟩
    · cases b <;> simp [width, longest, terminators]
    by_cases hy : y = '\n'
    · subst y
      cases b <;> simp [width, longest, terminators, List.argmax_cons]
    · cases b <;> simp [width, longest, terminators, hy, Ne.symm hy]
  · cases b <;> simp [width, longest, terminators, hn, hr, Ne.symm hn, Ne.symm hr]

theorem longest_isPrefix (b : LineBreak) (cs : List Char) : b.longest cs <+: cs := by
  unfold longest
  cases h : (b.terminators.filter (·.isPrefixOf cs)).argmax List.length with
  | none => simp
  | some t =>
      have ht := List.argmax_mem h
      simpa using (List.mem_filter.mp ht).2

theorem take_width (b : LineBreak) (cs : List Char) : cs.take (b.width cs) = b.longest cs := by
  rw [width_eq_length_longest]
  exact (List.prefix_iff_eq_take.mp (b.longest_isPrefix cs)).symm

end LineBreak

namespace Cursor

theorem passes_longest (c : Cursor) (b : LineBreak) :
    c.Passes (b.longest c.rest) (c.passLineBreak b).2 := by
  simpa only [b.take_width] using c.passes_passLineBreak b

theorem position_passLineBreak (c : Cursor) (b : LineBreak) :
    (c.passLineBreak b).2.position = c.position.acrossBreak (b.longest c.rest) := by
  have hw : b.width c.rest = 0 ↔ b.longest c.rest = [] := by
    rw [b.width_eq_length_longest, List.length_eq_zero_iff]
  unfold passLineBreak Position.acrossBreak
  by_cases h : b.longest c.rest = []
  · simp [hw.mpr h, h]
  · simp [mt hw.mp h, h, advanceAcrossLine, b.take_width]

end Cursor
end PegScan
