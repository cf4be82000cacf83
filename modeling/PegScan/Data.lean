/-!
# Structured data
What a file in a data format holds: scalars, lists, and tables whose members keep their order.
-/

namespace PegScan

/-- A text is missing where what was written names no sequence of characters. Scalars of kinds
that nothing here reads are kept as they are written. What is written as a number but has no
value, such as one that is too large, is unreadable: it does no harm where nobody asks for it. -/
inductive Data
  | null
  | bool (value : Bool)
  | natural (value : Nat)
  | text (value : Option String)
  | scalar (lexeme : List Char)
  | unreadable
  | list (items : List Data)
  | table (members : List (Option String × Data))

namespace Data

/-- A table with members of well-formed names. -/
def record (members : List (String × Data)) : Data :=
  table (members.map fun (key, value) => (some key, value))

/-- The only value of a name among members; a second one is refused. -/
def only? (name : String) (members : List (Option String × Data)) : Option (Option Data) :=
  match members.filter fun (key, _) => key = some name with
  | [] => some none
  | [(_, value)] => some (some value)
  | _ => none

mutual

/-- All that is in it can be read. -/
def isReadable : Data → Bool
  | unreadable => false
  | list items => areReadable items
  | table members => haveReadableValues members
  | _ => true

def areReadable : List Data → Bool
  | [] => true
  | item :: items => item.isReadable && areReadable items

def haveReadableValues : List (Option String × Data) → Bool
  | [] => true
  | (_, value) :: members => value.isReadable && haveReadableValues members

end

def bool? : Data → Option Bool
  | bool value => some value
  | _ => none

/-- Naturals that fit into 64 bits. -/
def word? : Data → Option UInt64
  | natural value => if value < UInt64.size then some (.ofNat value) else none
  | _ => none

/-- A text of exactly one character. -/
def character? : Data → Option Char
  | text (some value) =>
    match value.toList with
    | [c] => some c
    | _ => none
  | _ => none

/-- The value of a field, or its default. -/
def orDefault {α : Type} (read : Data → Option α) (default : α) : Option Data → Option α
  | none => some default
  | some d => read d

end Data
end PegScan
