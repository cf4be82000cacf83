import PegScan.Text.LineBreak
import Mathlib.Data.List.Infix

/-! # Passing over characters

Two movements carry a cursor forward, one of which looks at every character and one of which
does not. Both are related here to the characters that they pass. -/

namespace PegScan

@[simp] theorem byteCount_append (cs ds : List Char) :
    byteCount (cs ++ ds) = byteCount cs + byteCount ds := by
  induction cs with
  | nil => simp [byteCount]
  | cons c cs ih => simp [byteCount, ih, Nat.add_assoc]

/-! ## Positions -/

namespace Position

/-- The position behind characters that are passed one by one. -/
def past (p : Position) (cs : List Char) : Position := cs.foldl next p

@[simp] theorem past_nil (p : Position) : p.past [] = p := rfl

@[simp] theorem past_cons (p : Position) (c : Char) (cs : List Char) :
    p.past (c :: cs) = (p.next c).past cs := rfl

@[simp] theorem offset_past (p : Position) (cs : List Char) :
    (p.past cs).offset = p.offset + cs.length := by
  induction cs generalizing p with
  | nil => rfl
  | cons c cs ih =>
      rw [past_cons, ih, next_offset, List.length_cons]
      omega

@[simp] theorem byte_past (p : Position) (cs : List Char) :
    (p.past cs).byte = p.byte + byteCount cs := by
  induction cs generalizing p with
  | nil => rfl
  | cons c cs ih => rw [past_cons, ih, next_byte, byteCount, Nat.add_assoc]

/-- The position behind a line break that may be missing. -/
def acrossBreak (p : Position) (cs : List Char) : Position :=
  if cs = [] then p else p.acrossLine cs

end Position

/-! ## Cursors -/

namespace Cursor

theorem isEmpty_iff {c : Cursor} : c.isEmpty = true ↔ c.rest = [] := by
  simp [isEmpty]

theorem next_of_cons {c : Cursor} {x : Char} {rest : List Char} (h : c.rest = x :: rest) :
    c.next.text = c.text ∧ c.next.rest = rest ∧ c.next.position = c.position.next x := by
  unfold next
  split
  · simp_all
  · rename_i y rest' hr
    obtain ⟨rfl, rfl⟩ := List.cons.inj (h.symm.trans hr)
    exact ⟨rfl, rfl, rfl⟩

theorem advance_spec (n : Nat) (c : Cursor) :
    (c.advance n).text = c.text ∧ (c.advance n).rest = c.rest.drop n ∧
      (c.advance n).position = c.position.past (c.rest.take n) := by
  induction n generalizing c with
  | zero => simp [advance]
  | succ n ih =>
      cases h : c.rest with
      | nil => simp [advance, isEmpty, h]
      | cons x rest =>
          obtain ⟨ht, hr, hp⟩ := next_of_cons h
          simpa [advance, isEmpty, h, ht, hr, hp] using ih c.next

@[simp] theorem text_advance (n : Nat) (c : Cursor) : (c.advance n).text = c.text :=
  (advance_spec n c).1

@[simp] theorem rest_advance (n : Nat) (c : Cursor) : (c.advance n).rest = c.rest.drop n :=
  (advance_spec n c).2.1

@[simp] theorem position_advance (n : Nat) (c : Cursor) :
    (c.advance n).position = c.position.past (c.rest.take n) :=
  (advance_spec n c).2.2

/-- A known front of what follows is passed character by character. -/
theorem advance_of_append {c : Cursor} {cs ds : List Char} (h : c.rest = cs ++ ds) :
    (c.advance cs.length).rest = ds ∧ (c.advance cs.length).position = c.position.past cs := by
  simp [h]

theorem advance_succ_of_cons {c : Cursor} {x : Char} {rest : List Char} (h : c.rest = x :: rest)
    (n : Nat) : c.advance (n + 1) = c.next.advance n := by
  simp [advance, isEmpty, h]

@[simp] theorem advance_zero (c : Cursor) : c.advance 0 = c := rfl

theorem advance_succ (n : Nat) (c : Cursor) : c.advance (n + 1) = (c.advance n).advance 1 := by
  induction n generalizing c with
  | zero => rfl
  | succ n ih =>
      by_cases he : c.isEmpty = true
      · simp [advance, he]
      · have hstep (m : Nat) : c.advance (m + 1) = c.next.advance m := if_neg he
        rw [hstep (n + 1), ih c.next, hstep n]

/-! ## Passages -/

/-- The second cursor stands behind the first one in the same text, and `cs` lies between
them. Lines and columns are left out, since they depend on how the characters were passed. -/
structure Passes (c : Cursor) (cs : List Char) (d : Cursor) : Prop where
  text : d.text = c.text
  rest : c.rest = cs ++ d.rest
  offset : d.position.offset = c.position.offset + cs.length
  byte : d.position.byte = c.position.byte + byteCount cs

theorem Passes.refl (c : Cursor) : c.Passes [] c := ⟨rfl, rfl, rfl, rfl⟩

theorem Passes.trans {c d e : Cursor} {cs ds : List Char} (h : c.Passes cs d)
    (h' : d.Passes ds e) : c.Passes (cs ++ ds) e where
  text := h'.text.trans h.text
  rest := by rw [h.rest, h'.rest, List.append_assoc]
  offset := by rw [h'.offset, h.offset, List.length_append, Nat.add_assoc]
  byte := by rw [h'.byte, h.byte, byteCount_append, Nat.add_assoc]

theorem Passes.left {c d : Cursor} {cs : List Char} (h : c.Passes cs d) :
    c.left = cs.length + d.left := by
  rw [c.left_eq, d.left_eq, h.rest, List.length_append]

theorem Passes.rest_eq_drop {c d : Cursor} {cs : List Char} (h : c.Passes cs d) :
    d.rest = c.rest.drop cs.length := by
  simp [h.rest]

/-- Fewer characters are left exactly when some have been passed. -/
theorem Passes.left_lt_iff {c d : Cursor} {cs : List Char} (h : c.Passes cs d) :
    d.left < c.left ↔ 0 < cs.length ∧ c.rest ≠ [] := by
  rw [h.left, h.rest]
  cases cs with
  | nil => simp
  | cons x cs => simp

theorem Passes.since_eq {c d : Cursor} {cs : List Char} (h : c.Passes cs d) : c.since d = cs := by
  rw [since, h.offset, h.rest]
  simp

/-- What follows the cursor is what follows its offset in the text. -/
def Coherent (c : Cursor) : Prop := c.rest = c.text.drop c.position.offset

theorem coherent_ofList (text : List Char) : (ofList text).Coherent := rfl

theorem Coherent.since_eq {c : Cursor} (h : c.Coherent) (d : Cursor) :
    c.since d =
      (c.text.drop c.position.offset).take (d.position.offset - c.position.offset) := by
  rw [since, h]

theorem Passes.coherent {c d : Cursor} {cs : List Char} (h : c.Passes cs d) (hc : c.Coherent) :
    d.Coherent := by
  rw [Coherent, h.rest_eq_drop, hc, h.text, h.offset, List.drop_drop]

theorem passes_advance (n : Nat) (c : Cursor) : c.Passes (c.rest.take n) (c.advance n) :=
  ⟨by simp, by simp, by simp, by simp⟩

theorem passes_advanceAcrossLine (n : Nat) (c : Cursor) :
    c.Passes (c.rest.take n) (c.advanceAcrossLine n) :=
  ⟨by simp [advanceAcrossLine], by simp [advanceAcrossLine], rfl, rfl⟩

theorem passes_passLineBreak (c : Cursor) (b : LineBreak) :
    c.Passes (c.rest.take (b.width c.rest)) (c.passLineBreak b).2 := by
  dsimp only [passLineBreak]
  split
  · rename_i h
    simpa [h] using Passes.refl c
  · exact passes_advanceAcrossLine _ c

end Cursor
end PegScan
