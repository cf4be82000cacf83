/-!
# Styled text
-/

namespace PegScan.CommandLine

inductive Style
  | bold
  | dimmed
  | cyan
  | green
  | red
  | redBold
  deriving DecidableEq, Repr

namespace Style

def code : Style → String
  | bold => "1"
  | dimmed => "2"
  | cyan => "36"
  | green => "32"
  | red => "31"
  | redBold => "1;31"

def reset : String := "\x1b[0m"

def begin (s : Style) : String := "\x1b[" ++ s.code ++ "m"

/-- Text in a style, if styles are wanted. A reset inside the text does not end the style. -/
def paint (colors : Bool) (s : Style) (text : String) : String :=
  if colors then s.begin ++ text.replace reset (reset ++ s.begin) ++ reset else text

end Style
end PegScan.CommandLine
