import PegScan.Config.Text
import PegScan.Files.Path
import PegScan.Files.System

/-!
# Loading configurations
A configuration comes from a file that is named, or from the first one that is found from
some place upward. Without any file the defaults hold.
-/

namespace PegScan

/-- Only the extension `json` stands for JSON. -/
def ConfigFormat.ofPath (path : String) : ConfigFormat :=
  if Path.extension? path = some "json" then .json else .toml

namespace Config

variable {m : Type → Type} [Monad m]

/-- The names of configuration files. Of those in one directory the first one counts. -/
def fileNames : List String := ["strata.toml", ".stratarc.toml", ".stratarc.json"]

/-- The file names in every directory from a place upward. -/
def candidates (place : List String) : List String :=
  (Path.upward place.reverse).flatMap fun dir =>
    fileNames.map fun name => Path.join (Path.absolute dir) name

def firstFile? (fs : FileSystem m) : List String → m (Option String)
  | [] => return none
  | path :: paths => do
    if (← fs.kind? path) = some .file then return some path else firstFile? fs paths

/-- The configuration file that counts at a place. -/
def discover? (fs : FileSystem m) (start : String) : ExceptT Error m (Option String) := do
  match ← fs.locate start with
  | .error fault => throw (.config (.invalidStart fault))
  | .ok place => monadLift (firstFile? fs (candidates place))

/-- A valid configuration from a file. -/
def read (fs : FileSystem m) (path : String) : ExceptT Error m Config := do
  match ← fs.readText path with
  | .error fault => throw (.file path fault)
  | .ok text =>
    let config ← parse (.ofPath path) text
    config.validate
    return config

/-- Any fault of a configuration file is told together with its path. -/
def blame (path : String) : Error → Error
  | .file _ fault => .config (.unreadable path fault)
  | .config fault => .config (.rejected path fault)
  | e => e

def readNamed (fs : FileSystem m) (path : String) : ExceptT Error m Config :=
  (read fs path).adapt (blame path)

/-- The configuration found from `start` upward, or the defaults. -/
def find (fs : FileSystem m) (start : String) : ExceptT Error m Config := do
  match ← discover? fs start with
  | some path => readNamed fs path
  | none => return {}

/-- The configuration from a named file, which has to exist, or else the one found. -/
def load (fs : FileSystem m) (path? start? : Option String) : ExceptT Error m Config := do
  match path? with
  | some path =>
    if (← fs.kind? path).isNone then throw (.config (.missing path))
    readNamed fs path
  | none => find fs (start?.getD ".")

end Config
end PegScan
