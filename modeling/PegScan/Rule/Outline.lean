import PegScan.Rule

/-!
# Outlines
An outline describes a rule to those who analyse a grammar without running it.
-/

namespace PegScan

/-- A consuming rule takes at least one character whenever it matches; an optional one may
match without any. -/
inductive Shape
  | consuming
  | optional
  | sequence
  | choice
  | repetition
  deriving DecidableEq, Repr

/-- Exempt rules are never reported and never carry a hook. -/
inductive Outline
  | node (name : String) (shape : Shape) (exempt : Bool) (children : List Outline)

namespace Outline

def name : Outline → String
  | node name _ _ _ => name

def shape : Outline → Shape
  | node _ shape _ _ => shape

def exempt : Outline → Bool
  | node _ _ exempt _ => exempt

def children : Outline → List Outline
  | node _ _ _ children => children

mutual

/-- The outline and all below it, parents before children and children in order. -/
def walk : Outline → List Outline
  | node name shape exempt children => node name shape exempt children :: walkAll children

def walkAll : List Outline → List Outline
  | [] => []
  | o :: os => walk o ++ walkAll os

end

end Outline

namespace Rule

def shape : Rule → Shape
  | any | one _ | notOne _ | range _ _ | lineBreak => .consuming
  | text [] => .optional
  | text (_ :: _) => .consuming
  | endOfText | opt _ | ahead _ | notAhead _ => .optional
  | seq _ | plus _ | must _ | upTo _ _ | longBracket _ _ => .sequence
  | choice _ => .choice
  | star _ => .repetition
  | named _ rule => rule.shape

mutual

def outline : Rule → Outline
  | seq rules => .node "seq" .sequence false (outlines rules)
  | choice rules => .node "sor" .choice false (outlines rules)
  | star rules => .node "star" .repetition false (outlines rules)
  | plus rules => .node "plus" .sequence false (outlines rules)
  | opt rules => .node "opt" .optional false (outlines rules)
  | ahead rule => .node "at" .optional false [rule.outline]
  | notAhead rule => .node "not_at" .optional false [rule.outline]
  | must rule => .node "must" .sequence false [rule.outline]
  | upTo stop body => .node "until" .sequence false (stop.outline :: outlines body)
  | named name rule => .node name rule.shape false [rule.outline]
  | longBracket bracket contents =>
    .node bracket.name .sequence false
      [.node "raw_string_open" .consuming true [],
        .node bracket.contentName .sequence false
          (.node "at_raw_string_close" .optional true [] :: outlines contents)]
  | rule => .node rule.name rule.shape false []

def outlines : List Rule → List Outline
  | [] => []
  | rule :: rules => rule.outline :: outlines rules

end

end Rule
end PegScan
