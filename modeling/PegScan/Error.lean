import PegScan.Text.Position
import PegScan.Files.Fault
import PegScan.Config.Format

/-!
# Errors
An ordinary mismatch is not an error. An error either rejects what was declared before any
text is read, or ends the work on one text.
-/

namespace PegScan

/-- What is wrong with a configuration, or with the way to it. -/
inductive ConfigFault
  | zeroDepth
  | markerIsBracket (marker : Char)
  | malformed (format : ConfigFormat)
  | missing (path : String)
  | invalidStart (fault : FileFault)
  | unreadable (path : String) (fault : FileFault)
  | rejected (path : String) (fault : ConfigFault)
  | other (text : String)
  deriving DecidableEq, Repr

inductive Error
  | ambiguousHook (rule : String) (forms : Nat)
  | missingHook (rule : String)
  | hookOnExemptRule (rule : String)
  | requiredMatch (rule : String) (position : Position)
  | depthLimitExceeded (rule : String) (limit : Nat)
  | config (fault : ConfigFault)
  | file (path : String) (fault : FileFault)
  deriving DecidableEq, Repr

/-- Contract errors come from hook declarations, match errors from a text. -/
inductive ErrorKind
  | contract
  | matching
  | config
  | file
  deriving DecidableEq, Repr

/-- The text for a file error, also where it stands inside another one. -/
def FileFault.describe (path : String) (fault : FileFault) : String :=
  s!"IO error for path '{path}': {fault.message}"

def ConfigFault.message : ConfigFault → String
  | .zeroDepth => "matching.maxDepth must be at least 1"
  | .markerIsBracket marker =>
    s!"rawString.marker '{marker}' must differ from the bracket characters"
  | .malformed format => s!"Invalid {format.name}"
  | .missing path => s!"Config file not found: {path}"
  | .invalidStart fault => s!"Invalid path: {fault.message}"
  | .unreadable path fault => s!"Failed to load config from '{path}': {fault.describe path}"
  | .rejected path fault =>
    s!"Failed to load config from '{path}': Configuration error: {fault.message}"
  | .other text => text

namespace Error

def message : Error → String
  | ambiguousHook rule forms =>
    s!"Ambiguous hook for rule '{rule}': {forms} hook forms declared, expected exactly one"
  | missingHook rule => s!"Hooks enabled but no hook found for rule '{rule}'"
  | hookOnExemptRule rule => s!"Rule '{rule}' is hook-exempt and cannot carry a hook"
  | requiredMatch rule position =>
    s!"Required match failed for '{rule}' at line {position.line}, column {position.column}"
  | depthLimitExceeded rule limit => s!"Match depth limit of {limit} exceeded in rule '{rule}'"
  | config fault => s!"Configuration error: {fault.message}"
  | file path fault => fault.describe path

def kind : Error → ErrorKind
  | ambiguousHook .. | missingHook .. | hookOnExemptRule .. => .contract
  | requiredMatch .. | depthLimitExceeded .. => .matching
  | config .. => .config
  | file .. => .file

/-- An error that concerns a single text leaves the others to be worked on. -/
def isRecoverable (e : Error) : Bool :=
  match e.kind with
  | .matching | .file => true
  | .contract | .config => false

/-- An error of a file operation whose path is not known. -/
def ofFault (fault : FileFault) : Error := file "" fault

/-- Puts a value in the place of a recoverable error; any other error stays. -/
def recover {α : Type} (f : Error → α) : Except Error α → Except Error α
  | .error e => if e.isRecoverable then .ok (f e) else .error e
  | .ok a => .ok a

end Error
end PegScan
