/-!
# Positions in a text
Characters and UTF-8 bytes are counted from zero, lines and columns from one.
-/

namespace PegScan

/-- The number of bytes that characters take up in UTF-8. -/
def byteCount : List Char → Nat
  | [] => 0
  | c :: cs => c.utf8Size + byteCount cs

structure Position where
  offset : Nat
  byte : Nat
  line : Nat
  column : Nat
  deriving DecidableEq, Repr

namespace Position

/-- Where the first character of a text stands. -/
def start : Position := ⟨0, 0, 1, 1⟩

instance : Inhabited Position := ⟨start⟩

/-- The position behind one character. Only a line feed begins a new line. -/
def next (p : Position) (c : Char) : Position :=
  if c = '\n' then
    { offset := p.offset + 1, byte := p.byte + c.utf8Size, line := p.line + 1, column := 1 }
  else
    { p with offset := p.offset + 1, byte := p.byte + c.utf8Size, column := p.column + 1 }

/-- The position behind characters that together end one line, whatever they are. -/
def acrossLine (p : Position) (cs : List Char) : Position where
  offset := p.offset + cs.length
  byte := p.byte + byteCount cs
  line := p.line + 1
  column := 1

/-- The short form for readers, `line:column`. -/
def brief (p : Position) : String := s!"{p.line}:{p.column}"

theorem next_offset (p : Position) (c : Char) : (p.next c).offset = p.offset + 1 := by
  unfold next; split <;> rfl

theorem next_byte (p : Position) (c : Char) : (p.next c).byte = p.byte + c.utf8Size := by
  unfold next; split <;> rfl

end Position
end PegScan
