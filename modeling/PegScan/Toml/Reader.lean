import PegScan.Toml.Scalar
import PegScan.Toml.Table
import PegScan.Toml.Token

/-!
# Reading TOML
Tokens are read one after the other. The document, the section that is open, and the lists
and tables that are open within a value make up the state.
-/

namespace PegScan.Toml

/-- The tables read so far, and the path of the section that keys belong to. -/
structure Document where
  root : Table := []
  path : List String := []

/-- A list, latest item first, or an inline table and the key whose value is being read. -/
inductive Frame
  | list (items : List Data)
  | table (members : Table) (key : List String)

/-- An entry of a section: its key, and what is open within its value. -/
structure Entry where
  key : List String
  frames : List Frame

/-- What a key is read for. -/
inductive KeyUse
  | header
  | rowHeader
  | entry
  | member (entry : Entry) (members : Table)

/-- What has been read last. The parts of keys are gathered with the latest part first. -/
inductive State
  | line
  | bracket
  | keyStart (use : KeyUse) (parts : List String)
  | keyEnd (use : KeyUse) (parts : List String)
  | keyBreak (entry : Entry) (members : Table) (key : List String)
  | closing (parts : List String)
  | lineEnd
  | value (entry : Entry)
  | item (entry : Entry) (items : List Data)
  | member (entry : Entry) (members : Table)
  | scalar (entry : Entry) (lexeme : List Char)
  | date (entry : Entry) (lexeme : List Char)
  | after (entry : Entry) (data : Data)

/-- Lists and inline tables are nested at most this deep. -/
def maxNesting : Nat := 80

/-- A key has at most this many parts. -/
def maxKeyParts : Nat := 80

def Entry.push? (e : Entry) (frame : Frame) : Option Entry :=
  if e.frames.length < maxNesting then some { e with frames := frame :: e.frames } else none

/-- The part of a key that a token is. -/
def keyPart? : Token → Option String
  | .bare chars => if chars.all isKeyChar then some (String.ofList chars) else none
  | .text chars false => some (String.ofList chars)
  | _ => none

abbrev Step := Option (Document × State)

namespace State

/-- Reads a key part, for whatever use. -/
def readKey (d : Document) (use : KeyUse) (parts : List String) (token : Token) : Step := do
  if parts.length < maxKeyParts then return (d, keyEnd use ((← keyPart? token) :: parts)) else none

/-- After a key part. The lines of an inline table may break before the equals sign, which then
has to come next. -/
def afterKey (d : Document) (use : KeyUse) (parts : List String) (token : Token) : Step :=
  match token, use with
  | .blank _, _ => some (d, keyEnd use parts)
  | .dot, _ => some (d, keyStart use parts)
  | .equals, .entry => some (d, value ⟨parts.reverse, []⟩)
  | .equals, .member e members => do
    return (d, value (← e.push? (.table members parts.reverse)))
  | .newline, .member e members => some (d, keyBreak e members parts.reverse)
  | .closeBracket, .header => do
    let path := parts.reverse
    return (⟨← d.root.openTable? path, path⟩, lineEnd)
  | .closeBracket, .rowHeader => some (d, closing parts)
  | _, _ => none

/-- The first token of a value. -/
def beginValue (d : Document) (e : Entry) : Token → Step
  | .openBracket => if e.frames.length < maxNesting then some (d, item e []) else none
  | .openBrace => if e.frames.length < maxNesting then some (d, member e []) else none
  | .text chars _ => some (d, after e (.text (String.ofList chars)))
  | .bare chars => some (d, scalar e chars)
  | _ => none

/-- After a whole value. -/
def afterValue (d : Document) (e : Entry) (data : Data) (token : Token) : Step :=
  match e.frames, token with
  | [], .blank _ => some (d, after e data)
  | [], .newline => do
    return (⟨← Table.within? (Table.assign? data e.key) d.path d.root, d.path⟩, line)
  | .list _ :: _, .blank _ | .list _ :: _, .newline => some (d, after e data)
  | .list items :: frames, .comma => some (d, item { e with frames } (data :: items))
  | .list items :: frames, .closeBracket =>
    some (d, after { e with frames } (.list (data :: items).reverse))
  | .table _ _ :: _, .blank _ | .table _ _ :: _, .newline => some (d, after e data)
  | .table members key :: frames, .comma => do
    return (d, member { e with frames } (← Table.assign? data key members))
  | .table members key :: frames, .closeBrace => do
    return (d, after { e with frames } (Table.toData (← Table.assign? data key members)))
  | _, _ => none

/-- One token further. -/
def next : Document × State → Token → Step
  | (d, line), .blank _ => some (d, line)
  | (d, line), .newline => some (d, line)
  | (d, line), .openBracket => some (d, bracket)
  | (d, line), token => readKey d .entry [] token
  | (d, bracket), .openBracket => some (d, keyStart .rowHeader [])
  | (d, bracket), .blank _ => some (d, keyStart .header [])
  | (d, bracket), token => readKey d .header [] token
  | (d, keyStart use parts), .blank _ => some (d, keyStart use parts)
  | (d, keyStart use parts), token => readKey d use parts token
  | (d, keyEnd use parts), token => afterKey d use parts token
  | (d, keyBreak e members key), .blank _ => some (d, keyBreak e members key)
  | (d, keyBreak e members key), .newline => some (d, keyBreak e members key)
  | (d, keyBreak e members key), .equals => do
    return (d, value (← e.push? (.table members key)))
  | (_, keyBreak ..), _ => none
  | (d, closing parts), .closeBracket => do
    let path := parts.reverse
    return (⟨← d.root.openRow? path, path⟩, lineEnd)
  | (_, closing _), _ => none
  | (d, lineEnd), .blank _ => some (d, lineEnd)
  | (d, lineEnd), .newline => some (d, line)
  | (_, lineEnd), _ => none
  | (d, value e), .blank _ => some (d, value e)
  | (d, value e), .newline => if e.frames.isEmpty then none else some (d, value e)
  | (d, value e), token => beginValue d e token
  | (d, item e items), .blank _ => some (d, item e items)
  | (d, item e items), .newline => some (d, item e items)
  | (d, item e items), .closeBracket => some (d, after e (.list items.reverse))
  | (d, item e items), token => do beginValue d (← e.push? (.list items)) token
  | (d, member e members), .blank _ => some (d, member e members)
  | (d, member e members), .newline => some (d, member e members)
  | (d, member e members), .closeBrace => some (d, after e (Table.toData members))
  | (d, member e members), token => readKey d (.member e members) [] token
  | (d, scalar e lexeme), .bare chars => some (d, scalar e (lexeme ++ chars))
  | (d, scalar e lexeme), .dot => some (d, scalar e (lexeme ++ ['.']))
  | (d, scalar e lexeme), .blank [' '] =>
    if isDate lexeme then some (d, date e lexeme)
    else do afterValue d e (← scalar? lexeme) (.blank [' '])
  | (d, scalar e lexeme), token => do afterValue d e (← scalar? lexeme) token
  | (d, date e lexeme), .bare chars => some (d, scalar e (lexeme ++ ' ' :: chars))
  | (d, date e lexeme), token => do afterValue d e (← scalar? lexeme) token
  | (d, after e data), token => afterValue d e data token

end State

/-- The byte order mark, which may stand in front of a document. -/
def dropMark : List Char → List Char
  | '\uFEFF' :: rest => rest
  | cs => cs

/-- The table that a whole document stands for. -/
def read? (cs : List Char) : Option Data := do
  let tokens ← Token.readAll? (dropMark cs)
  match ← (tokens ++ [Token.newline]).foldlM State.next (({} : Document), State.line) with
  | (d, .line) => some (Table.toData d.root)
  | _ => none

end PegScan.Toml
