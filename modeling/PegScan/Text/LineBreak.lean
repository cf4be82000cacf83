import PegScan.Text.Cursor

/-!
# Line breaks
A policy says which character sequences end a line. The longest one that a text begins
with counts.
-/

namespace PegScan

inductive LineBreak
  | lf
  | cr
  | crlf
  | lfOrCrlf
  | any
  deriving DecidableEq, Repr

namespace LineBreak

instance : Inhabited LineBreak := ⟨lfOrCrlf⟩

/-- The length of the line break at the front of a text, `0` when there is none. -/
def width : LineBreak → List Char → Nat
  | .lf, '\n' :: _ => 1
  | .cr, '\r' :: _ => 1
  | .crlf, '\r' :: '\n' :: _ => 2
  | .lfOrCrlf, '\n' :: _ => 1
  | .lfOrCrlf, '\r' :: '\n' :: _ => 2
  | .any, '\r' :: '\n' :: _ => 2
  | .any, '\r' :: _ => 1
  | .any, '\n' :: _ => 1
  | _, _ => 0

theorem width_le (b : LineBreak) (cs : List Char) : b.width cs ≤ cs.length := by
  unfold width; split <;> simp

end LineBreak

/-- What a look for a line break found: whether there was one, and how many of the two
characters that it may need were there to look at. -/
structure LineBreakProbe where
  consumed : Bool
  available : Nat
  deriving DecidableEq, Repr

/-- Passes the line break at the cursor, if there is one. -/
def Cursor.passLineBreak (b : LineBreak) (c : Cursor) : LineBreakProbe × Cursor :=
  let width := b.width c.rest
  let available := min c.left 2
  if width = 0 then (⟨false, available⟩, c)
  else (⟨true, available⟩, c.advanceAcrossLine width)

end PegScan
