import PegScan.CommandLine.Help
import PegScan.CommandLine.Report
import PegScan.Config.Loading

/-!
# Commands
What each command does with the files it is given, what it writes, and how it ends.
-/

namespace PegScan.CommandLine

open Text

inductive Failure
  | library (error : Error)
  | pathNotFound (path : String)
  | unlistable (path : String) (fault : FileFault)
  | checkFailed (failures files : Nat)
  | configExists (name : String)
  | unwritable (name : String) (fault : FileFault)
  deriving DecidableEq, Repr

def Failure.message : Failure → String
  | library error => error.message
  | pathNotFound path => s!"Path not found: {path}"
  | unlistable path fault =>
    s!"Failed to walk {path}: IO error for operation on {path}: {fault.message}"
  | checkFailed failures files => s!"{failures} of {files} file(s) failed the check"
  | configExists name =>
    s!"Configuration file '{name}' already exists. Use --force to overwrite."
  | unwritable name fault => s!"Failed to write '{name}': {fault.message}"

/-- How a command ends: what it has written, and whether it failed. Arguments that make no
sense end with code 2. -/
structure Completion where
  code : Nat
  output : String := ""
  failure : Option Failure := none

namespace Completion

def success (output : String) : Completion := { code := 0, output }

def failed (output : String) (failure : Failure) : Completion :=
  { code := 1, output, failure := some failure }

end Completion

variable {m : Type → Type} [Monad m]

abbrev CommandM (m : Type → Type) := ExceptT Failure m

def ofLibrary {α : Type} (x : ExceptT Error m α) : CommandM m α := x.adapt .library

/-- The configuration in a named file, or the one that counts where the first path leads, or
in the working directory when it leads nowhere. -/
def configFor (fs : FileSystem m) (path? : Option String) (paths : List String) :
    ExceptT Error m Config := do
  match path?, paths with
  | some path, _ => Config.readNamed fs path
  | none, path :: _ =>
    Config.find fs (if (← fs.kind? path).isSome then path else ".")
  | none, [] => Config.find fs "."

/-- The files that a path stands for. A directory stands for the files below it that have one
of the extensions. -/
def collectAt (fs : FileSystem m) (extensions : List String) (path : String) :
    CommandM m (List String) := do
  match ← fs.kind? path with
  | some .file => return [path]
  | some .directory =>
    match ← fs.filesBelow path with
    | .ok files => return files.filter fun file => (Path.extension? file).any extensions.contains
    | .error fault => throw (.unlistable path fault)
  | none => throw (.pathNotFound path)

def collect (fs : FileSystem m) (extensions : List String) :
    List String → CommandM m (List String)
  | [] => return []
  | path :: paths => do
    let files ← collectAt fs extensions path
    return files ++ (← collect fs extensions paths)

/-- The report on one file. An error that concerns only this file becomes part of it. -/
def reportOn (scanner : Scanner) (path : String) (text : Except FileFault String) :
    Except Error FileReport :=
  Error.recover (fun e => { path, error := some e.message }) do
    let text ← text.mapError (Error.file path)
    return { path, literals := ← scanner.scan text }

/-- One report for each file, in the same order. -/
def scanFiles (fs : FileSystem m) (scanner : Scanner) :
    List String → ExceptT Error m (List FileReport)
  | [] => return []
  | path :: paths => do
    let report ← reportOn scanner path (← fs.readText path)
    return report :: (← scanFiles fs scanner paths)

/-- Loads the configuration, collects the files and scans them. -/
def reports (fs : FileSystem m) (config? : Option String) (paths extensions : List String) :
    CommandM m (List FileReport) := do
  let config ← ofLibrary (configFor fs config? paths)
  let files ← collect fs extensions paths
  ofLibrary do scanFiles fs (← Scanner.ofConfig config) files

def runScan (fs : FileSystem m) (colors : Bool) (config? : Option String) (paths : List String)
    (format : ReportFormat) (extensions : List String) : CommandM m Completion := do
  let found ← reports fs config? paths extensions
  match format with
  | .human => return .success (scanText colors found)
  | .json => return .success (scanJson found)

def runCheck (fs : FileSystem m) (colors : Bool) (config? : Option String)
    (paths extensions : List String) : CommandM m Completion := do
  let found ← reports fs config? paths extensions
  let summary := Summary.ofReports found
  let output := checkText colors found
  if summary.failures = 0 then return .success output
  else return .failed output (.checkFailed summary.failures summary.files)

def runInit (fs : FileSystem m) (json force : Bool) : CommandM m Completion := do
  let (name, format) : String × ConfigFormat :=
    if json then (".stratarc.json", .json) else ("strata.toml", .toml)
  if (← fs.kind? name).isSome && !force then throw (.configExists name)
  match ← fs.write name (Config.render format {}) with
  | .ok () => return .success s!"✅ Created configuration file: {name}\n"
  | .error fault => throw (.unwritable name fault)

def runShow (fs : FileSystem m) (config? : Option String) : CommandM m Completion := do
  let config ← ofLibrary (Config.load fs config? none)
  return .success (config.render .json ++ "\n")

def versionText (detailed : Bool) : String :=
  if detailed then
    unlines [s!"strata {version}", "Build information:", s!"  Default max depth: {defaultMaxDepth}"]
  else unlines [version]

def execute (fs : FileSystem m) (colors : Bool) (config? : Option String) :
    Command → CommandM m Completion
  | .scan paths format extensions => runScan fs colors config? paths format extensions
  | .check paths extensions => runCheck fs colors config? paths extensions
  | .initConfig json force => runInit fs json force
  | .showConfig => runShow fs config?
  | .version detailed => return .success (versionText detailed)
  | .programVersion => return .success s!"strata {version}\n"
  | .help level => return .success (helpText level)

/-- Runs the program. Colors are used unless an option or the environment forbids them. -/
def run (fs : FileSystem m) (colorsForbidden : Bool) (args : List String) : m Completion := do
  match parse? args with
  | none => return { code := 2 }
  | some invocation =>
    let colors := !(invocation.noColor || colorsForbidden)
    match ← (execute fs colors invocation.config invocation.command).run with
    | .ok completion => return completion
    | .error failure => return .failed "" failure

end PegScan.CommandLine
