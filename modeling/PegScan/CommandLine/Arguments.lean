import PegScan.Text.Number

/-!
# Arguments
The commands, their options, and how they are read from a list of arguments.
-/

namespace PegScan.CommandLine

inductive ReportFormat
  | human
  | json
  deriving DecidableEq, Repr

/-- The commands by name, those that only lead to others included. -/
inductive Level
  | root
  | scan
  | check
  | config
  | configInit
  | configShow
  | configHelp
  | version
  | help
  deriving DecidableEq, Repr

inductive Command
  | scan (paths : List String) (format : ReportFormat) (extensions : List String)
  | check (paths : List String) (extensions : List String)
  | initConfig (json force : Bool)
  | showConfig
  | version (detailed : Bool)
  | programVersion
  | help (level : Level)
  deriving DecidableEq, Repr

/-- A command with the options that all commands share. -/
structure Invocation where
  command : Command
  config : Option String := none
  noColor : Bool := false
  deriving DecidableEq, Repr

inductive Flag
  | config
  | verbose
  | noColor
  | threads
  | format
  | extension
  | force
  | detailed
  | version
  | help
  deriving DecidableEq, Repr

namespace Flag

def long : Flag → String
  | config => "config"
  | verbose => "verbose"
  | noColor => "no-color"
  | threads => "threads"
  | format => "format"
  | extension => "ext"
  | force => "force"
  | detailed => "detailed"
  | version => "version"
  | help => "help"

def short? : Flag → Option Char
  | config => some 'c'
  | verbose => some 'v'
  | threads => some 'j'
  | format => some 'f'
  | extension => some 'e'
  | version => some 'V'
  | help => some 'h'
  | noColor | force | detailed => none

def takesValue : Flag → Bool
  | config | threads | format | extension => true
  | _ => false

def mayRepeat : Flag → Bool
  | verbose | extension => true
  | _ => false

end Flag

namespace Level

def commands : Level → List (String × Level)
  | root =>
    [("scan", scan), ("check", check), ("config", config), ("version", version), ("help", help)]
  | config => [("init", configInit), ("show", configShow), ("help", configHelp)]
  | _ => []

/-- Help on other commands, which are named after it. -/
def isHelp : Level → Bool
  | help | configHelp => true
  | _ => false

/-- Paths follow only where a command works on files. -/
def takesPaths : Level → Bool
  | scan | check => true
  | _ => false

/-- The flags of one command only. -/
def ownFlags : Level → List Flag
  | scan => [.format, .extension]
  | check => [.extension]
  | configInit => [.format, .force]
  | version => [.detailed]
  | _ => []

/-- All flags of a command, in the order in which help shows them. -/
def flags (level : Level) : List Flag :=
  if level.isHelp then []
  else
    level.ownFlags ++ [.config, .verbose, .noColor, .threads, .help] ++
      if level = .root then [.version] else []

def long? (level : Level) (name : String) : Option Flag := level.flags.find? (·.long = name)

def short? (level : Level) (c : Char) : Option Flag := level.flags.find? (·.short? = some c)

/-- The values of the format flag, the default one first. -/
def formats : Level → List String
  | configInit => ["toml", "json"]
  | _ => ["human", "json"]

/-- A number of threads. -/
def isCount (value : String) : Bool :=
  let digits := match value.toList with
    | '+' :: rest => rest
    | cs => cs
  digits ≠ [] && (ofDigits? 10 digits).any (· < UInt64.size)

/-- The values that a flag accepts. -/
def accepts (level : Level) (value : String) : Flag → Bool
  | .config => value ≠ ""
  | .threads => isCount value
  | .format => level.formats.contains value
  | _ => true

end Level

/-- What has been read for the command whose turn it is. The shared options of the commands
before it are kept apart: those given last count. A value that was an argument of its own is
pending until the next flag or path settles it, or the end; if one that was left over to the
next command is refused, so is the whole command, though its help is not. -/
structure Reading where
  level : Level := .root
  given : List (Flag × String) := []
  pending : Option (Flag × String) := none
  refused : Bool := false
  paths : List String := []
  config : Option String := none
  noColor : Bool := false

namespace Reading

def value? (r : Reading) (flag : Flag) : Option String := r.given.lookup flag

def has (r : Reading) (flag : Flag) : Bool := (r.value? flag).isSome

/-- A flag with its value, unless the value is refused or the flag may not be repeated. -/
def accept? (r : Reading) (flag : Flag) (value : String) : Option Reading :=
  if (r.has flag && !flag.mayRepeat) || !r.level.accepts value flag then none
  else some { r with given := r.given ++ [(flag, value)] }

/-- Takes up the value that is pending. -/
def settle? (r : Reading) : Option Reading :=
  match r.pending with
  | none => some r
  | some (flag, value) => { r with pending := none }.accept? flag value

/-- A flag that is complete in one argument. -/
def give? (r : Reading) (flag : Flag) (value : String) : Option Reading := do
  (← r.settle?).accept? flag value

/-- A flag whose value is the next argument. -/
def postpone? (r : Reading) (flag : Flag) (value : String) : Option Reading := do
  return { ← r.settle? with pending := some (flag, value) }

def addPath? (r : Reading) (path : String) : Option Reading := do
  let r ← r.settle?
  if r.level.takesPaths && path ≠ "" then some { r with paths := r.paths ++ [path] } else none

/-- The shared options, those of this command before those of the ones before it. -/
def shared (r : Reading) : Option String × Bool :=
  (r.value? .config <|> r.config, r.has .noColor || r.noColor)

def descend (r : Reading) (level : Level) : Reading :=
  let settled := r.settle?.getD r
  { level
    refused := r.refused || r.settle?.isNone
    config := settled.shared.1
    noColor := settled.shared.2 }

def invoke (r : Reading) (command : Command) : Invocation where
  command := command
  config := r.shared.1
  noColor := r.shared.2

def extensions (r : Reading) : List String :=
  match (r.given.filter (·.1 = .extension)).map (·.2) with
  | [] => ["lua"]
  | given => given

/-- The paths given, or the working directory. -/
def pathsOrHere (r : Reading) : List String := if r.paths.isEmpty then ["."] else r.paths

def finish? (r : Reading) : Option Invocation := do
  let r ← r.settle?
  if r.refused then none
  let json := r.value? .format = some "json"
  match r.level with
  | .root => some (r.invoke (.help .root))
  | .scan => some (r.invoke (.scan r.pathsOrHere (if json then .json else .human) r.extensions))
  | .check => some (r.invoke (.check r.pathsOrHere r.extensions))
  | .config | .help | .configHelp => none
  | .configInit => some (r.invoke (.initConfig json (r.has .force)))
  | .configShow => some (r.invoke .showConfig)
  | .version => some (r.invoke (.version (r.has .detailed)))

/-- The command that a flag stands for by itself, so that nothing after it is read. -/
def final? (r : Reading) : Flag → Option Command
  | .version => some .programVersion
  | .help => some (.help r.level)
  | _ => none

/-- Help for the command that a row of names leads to. Nothing that is pending matters to it. -/
def helpFor? (r : Reading) (level : Level) : List String → Option Invocation
  | [] => some (r.invoke (.help level))
  | name :: names => do helpFor? r (← level.commands.lookup name) names

/-- What a group of short flags comes to. -/
inductive Short
  | done (r : Reading)
  | open (r : Reading) (flag : Flag)
  | final (r : Reading) (command : Command)

/-- Reads short flags that stand together. All after one with a value is its value, with or
without an equals sign. -/
def shorts? (r : Reading) : List Char → Option Short
  | [] => some (.done r)
  | c :: cs => do
    let flag ← r.level.short? c
    if let some command := r.final? flag then return .final (← r.settle?) command
    if flag.takesValue then
      match cs with
      | [] => return .open r flag
      | '=' :: value => return .done (← r.give? flag (String.ofList value))
      | value => return .done (← r.give? flag (String.ofList value))
    else shorts? (← r.give? flag "") cs

/-- Reads the arguments that are left. After `only` paths no flags and no commands are read. -/
def run? (r : Reading) (only : Bool) : List String → Option Invocation
  | [] => r.finish?
  | arg :: args =>
    if only then do run? (← r.addPath? arg) only args
    else
      match r.level.commands.lookup arg with
      | some level =>
        if level.isHelp then r.helpFor? r.level args else run? (r.descend level) only args
      | none =>
        match arg.toList with
        | ['-', '-'] => run? r true args
        | '-' :: '-' :: long => do
          let (name, value) := long.span (· ≠ '=')
          let flag ← r.level.long? (String.ofList name)
          match value with
          | [] =>
            if let some command := r.final? flag then return (← r.settle?).invoke command
            if flag.takesValue then
              match args with
              | value :: args =>
                if isValue value then run? (← r.postpone? flag value) only args else none
              | [] => none
            else run? (← r.give? flag "") only args
          | _ :: value =>
            if flag.takesValue then run? (← r.give? flag (String.ofList value)) only args else none
        | '-' :: c :: cs => do
          match ← r.shorts? (c :: cs) with
          | .done r => run? r only args
          | .final r command => return r.invoke command
          | .open r flag =>
            match args with
            | value :: args =>
              if isValue value then run? (← r.postpone? flag value) only args else none
            | [] => none
        | _ => do run? (← r.addPath? arg) only args
where
  /-- An argument that may be the value of the flag before it. -/
  isValue (arg : String) : Bool :=
    match arg.toList with
    | '-' :: _ :: _ => false
    | _ => true

end Reading

/-- The command that the arguments ask for, if they ask for one in the proper way. -/
def parse? (args : List String) : Option Invocation := Reading.run? {} false args

end PegScan.CommandLine
