import PegScan.Error
import PegScan.LongBracket
import PegScan.Session

/-!
# Configurations
How deep rules may nest, what ends a line, and the characters of long brackets.
-/

namespace PegScan

def libraryName : String := "strata-core"

def version : String := "0.1.0"

/-- How rules are matched. Tracing only concerns what is logged. -/
structure MatchingOptions where
  maxDepth : UInt64 := .ofNat defaultMaxDepth
  lineBreak : LineBreak := default
  trace : Bool := false
  deriving DecidableEq, Repr

structure Config where
  matching : MatchingOptions := {}
  delimiters : Delimiters := {}
  deriving DecidableEq, Repr

/-- Refuses settings that the matcher cannot work with. The depth is looked at first. -/
def Config.validate (c : Config) : Except Error Unit :=
  if c.matching.maxDepth = 0 then .error (.config .zeroDepth)
  else if c.delimiters.marker = c.delimiters.opener ||
      c.delimiters.marker = c.delimiters.closer then
    .error (.config (.markerIsBracket c.delimiters.marker))
  else .ok ()

end PegScan
