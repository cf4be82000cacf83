import PegScan.LongBracket

/-!
# Rules
The syntax of parsing expressions. A list of rules stands for their sequence.
-/

namespace PegScan

inductive Rule
  | any
  | one (chars : List Char)
  | notOne (chars : List Char)
  | range (low high : Char)
  | text (chars : List Char)
  | endOfText
  | lineBreak
  | seq (rules : List Rule)
  | choice (rules : List Rule)
  | star (rules : List Rule)
  | plus (rules : List Rule)
  | opt (rules : List Rule)
  | ahead (rule : Rule)
  | notAhead (rule : Rule)
  | must (rule : Rule)
  | upTo (stop : Rule) (body : List Rule)
  | named (name : String) (rule : Rule)
  | longBracket (bracket : LongBracket) (contents : List Rule)

namespace Rule

/-- The name by which hooks and messages refer to a rule. -/
def name : Rule → String
  | any => "any"
  | one _ => "one"
  | notOne _ => "not_one"
  | range _ _ => "range"
  | text _ => "string"
  | endOfText => "eof"
  | lineBreak => "eol"
  | seq _ => "seq"
  | choice _ => "sor"
  | star _ => "star"
  | plus _ => "plus"
  | opt _ => "opt"
  | ahead _ => "at"
  | notAhead _ => "not_at"
  | must _ => "must"
  | upTo _ _ => "until"
  | named name _ => name
  | longBracket bracket _ => bracket.name

end Rule
end PegScan
