/-!
# Configuration formats
-/

namespace PegScan

inductive ConfigFormat
  | toml
  | json
  deriving DecidableEq, Repr

def ConfigFormat.name : ConfigFormat → String
  | .toml => "TOML"
  | .json => "JSON"

end PegScan
