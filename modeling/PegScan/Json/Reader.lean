import PegScan.Data
import PegScan.Json.Token

/-!
# Reading JSON
Tokens are read one after the other. The lists and tables that are open are kept on a stack,
so that nesting has no limit.
-/

namespace PegScan.Json

/-- A list or table that is open, with what it holds so far, the latest first. -/
inductive Frame
  | list (items : List Data)
  | table (members : List (Option String × Data)) (key : Option String)

/-- What may come next. -/
inductive State
  | value (frames : List Frame)
  | itemOrEnd (frames : List Frame)
  | keyOrEnd (frames : List Frame)
  | key (members : List (Option String × Data)) (frames : List Frame)
  | colon (members : List (Option String × Data)) (key : Option String) (frames : List Frame)
  | after (value : Data) (frames : List Frame)

/-- A number that is written with digits alone, or another one. -/
def ofNumber (lexeme : List Char) : Data :=
  match ofDigits? 10 lexeme with
  | some n => .natural n
  | none => .scalar lexeme

def State.begin (frames : List Frame) : Token → Option State
  | .openBrace => some (.keyOrEnd frames)
  | .openBracket => some (.itemOrEnd frames)
  | .null => some (.after .null frames)
  | .bool b => some (.after (.bool b) frames)
  | .number lexeme => some (.after (ofNumber lexeme) frames)
  | .text t => some (.after (.text t) frames)
  | _ => none

def State.next : State → Token → Option State
  | value frames, token => begin frames token
  | itemOrEnd frames, .closeBracket => some (after (.list []) frames)
  | itemOrEnd frames, token => begin (.list [] :: frames) token
  | keyOrEnd frames, .closeBrace => some (after (.table []) frames)
  | keyOrEnd frames, .text k => some (colon [] k frames)
  | key members frames, .text k => some (colon members k frames)
  | colon members k frames, .colon => some (value (.table members k :: frames))
  | after v (.list items :: frames), .comma => some (value (.list (v :: items) :: frames))
  | after v (.list items :: frames), .closeBracket =>
    some (after (.list (v :: items).reverse) frames)
  | after v (.table members k :: frames), .comma => some (key ((k, v) :: members) frames)
  | after v (.table members k :: frames), .closeBrace =>
    some (after (.table ((k, v) :: members).reverse) frames)
  | _, _ => none

/-- The value that a whole text stands for. -/
def read? (cs : List Char) : Option Data := do
  match ← (← Token.readAll? cs).foldlM State.next (.value []) with
  | .after value [] => some value
  | _ => none

end PegScan.Json
