import PegScan.Text.Position

/-!
# Cursors
A cursor is a place in a text together with what follows it. It is a value: going back
means using an earlier cursor again.
-/

namespace PegScan

structure Cursor where
  text : List Char
  rest : List Char
  left : Nat
  position : Position
  left_eq : left = rest.length
  deriving DecidableEq

namespace Cursor

def ofList (text : List Char) : Cursor where
  text := text
  rest := text
  left := text.length
  position := .start
  left_eq := rfl

def ofString (text : String) : Cursor := ofList text.toList

def isEmpty (c : Cursor) : Bool := c.rest.isEmpty

/-- The text has `n` more characters from here; looks no further than that. -/
def hasAtLeast (c : Cursor) (n : Nat) : Bool := n ≤ c.left

def peek? (c : Cursor) (n : Nat) : Option Char := c.rest[n]?

/-- One character further; a cursor at the end stays there. -/
def next (c : Cursor) : Cursor :=
  match h : c.rest with
  | [] => c
  | x :: rest =>
    { text := c.text
      rest := rest
      left := c.left - 1
      position := c.position.next x
      left_eq := by simp [c.left_eq, h] }

/-- `n` characters further, or to the end when fewer are left. -/
def advance : Nat → Cursor → Cursor
  | 0, c => c
  | n + 1, c => if c.isEmpty then c else advance n c.next

/-- Like `advance`, over characters that together end one line. -/
def advanceAcrossLine (n : Nat) (c : Cursor) : Cursor :=
  { c.advance n with position := c.position.acrossLine (c.rest.take n) }

/-- The characters between an earlier cursor and this one. -/
def since (start c : Cursor) : List Char :=
  start.rest.take (c.position.offset - start.position.offset)

theorem left_next_lt {c : Cursor} (h : c.isEmpty = false) : c.next.left < c.left := by
  have hl := c.left_eq
  unfold next
  split
  · next hr => simp [isEmpty, hr] at h
  · next hr => simp only [hr, List.length_cons] at hl; simp only; omega

end Cursor
end PegScan
