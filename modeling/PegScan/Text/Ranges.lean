/-!
# Sets of characters given by ranges
-/

namespace PegScan.Text

/-- The character lies in one of the ranges, whose ends belong to them. -/
def inRanges (ranges : Array (Nat × Nat)) (c : Char) : Bool :=
  ranges.any fun (low, high) => low ≤ c.toNat && c.toNat ≤ high

end PegScan.Text
