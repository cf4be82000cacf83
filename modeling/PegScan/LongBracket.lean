/-!
# Long brackets
An opening bracket of level `n` is the opener, `n` markers and the opener again; a closing
bracket is built in the same way from the closer.
-/

namespace PegScan

structure Delimiters where
  opener : Char := '['
  marker : Char := '='
  closer : Char := ']'
  deriving DecidableEq, Repr

/-- The opening bracket that a literal was entered through. Its width counts all of its
characters; it is `0` as long as none has been read. -/
structure Opening where
  width : Nat := 0
  deriving DecidableEq, Repr

namespace Delimiters

def opening (d : Delimiters) (level : Nat) : List Char :=
  d.opener :: (List.replicate level d.marker ++ [d.opener])

def closing (d : Delimiters) (level : Nat) : List Char :=
  d.closer :: (List.replicate level d.marker ++ [d.closer])

/-- The number of markers before the opener that ends an opening bracket. -/
def markers? (d : Delimiters) : List Char → Option Nat
  | [] => none
  | c :: cs =>
    if c = d.opener then some 0
    else if c = d.marker then (d.markers? cs).map (· + 1)
    else none

/-- The opening bracket at the front of a text. -/
def opening? (d : Delimiters) : List Char → Option Opening
  | [] => none
  | c :: cs => if c = d.opener then (d.markers? cs).map fun n => ⟨n + 2⟩ else none

/-- A closing bracket as wide as the opening one stands at the front of the text. -/
def closes (d : Delimiters) (o : Opening) (cs : List Char) : Bool :=
  2 ≤ o.width && (d.closing (o.width - 2)).isPrefixOf cs

end Delimiters

/-- The name of a long bracket literal and its delimiters. -/
structure LongBracket where
  delimiters : Delimiters := {}
  name : String := "raw_string"
  deriving DecidableEq, Repr

/-- The name that the body of the literal goes by. -/
def LongBracket.contentName (b : LongBracket) : String := s!"{b.name}.content"

end PegScan
