import PegScan.CommandLine.Arguments
import PegScan.Text.Layout

/-!
# Help
What a command is for, how it is called, and what may follow it.
-/

namespace PegScan.CommandLine

open Text

namespace Level

def title : Level → String
  | root => "strata"
  | scan => "strata scan"
  | check => "strata check"
  | config => "strata config"
  | configInit => "strata config init"
  | configShow => "strata config show"
  | configHelp => "strata config help"
  | version => "strata version"
  | help => "strata help"

def about : Level → String
  | root => "Strata: find and check long bracket literals"
  | scan => "Report every long bracket literal in the given files"
  | check => "Check that every long bracket literal is terminated"
  | config => "Configuration management"
  | configInit => "Write a configuration file with the default settings"
  | configShow => "Print the configuration in effect"
  | version => "Show version information"
  | configHelp | help => "Print this message or the help of the given subcommand(s)"

def usage (level : Level) : String :=
  s!"Usage: {level.title}" ++ (if level.flags.isEmpty then "" else " [OPTIONS]") ++
    match level with
    | root => " [COMMAND]"
    | config => " <COMMAND>"
    | scan | check => " [PATHS]..."
    | configHelp | help => " [COMMAND]..."
    | configInit | configShow | version => ""

/-- What follows the flags, other than a single command. -/
def positionals : Level → List (String × String)
  | scan | check =>
    [("[PATHS]...", "Files or directories to process (default: current directory)")]
  | configHelp | help => [("[COMMAND]...", "Print help for the subcommand(s)")]
  | _ => []

/-- Some commands have more to say than fits on a line for each flag. -/
def hasLongHelp : Level → Bool
  | root | scan => true
  | _ => false

/-- The values that a flag with a choice offers. -/
def choices (level : Level) : String :=
  "[default: " ++ level.formats.headD "" ++ "] [possible values: " ++
    ", ".intercalate level.formats ++ "]"

def describe (level : Level) : Flag → String
  | .config => "Path to configuration file (strata.toml/.stratarc.json)"
  | .verbose => "Verbose output (can be used multiple times for increased verbosity)"
  | .noColor => "Disable colored output"
  | .threads => "Number of threads (default: number of CPU cores)"
  | .format =>
    (if level = configInit then "Configuration file format " else "Output format ") ++ level.choices
  | .extension =>
    (if level = check then "File extension to check" else "File extension to scan") ++
      " in directories (can be used multiple times) [default: lua]"
  | .force => "Overwrite an existing file"
  | .detailed => "Show detailed version information"
  | .version => "Print version"
  | .help => if level.hasLongHelp then "Print help (see more with '--help')" else "Print help"

end Level

/-- A flag as it is written, with what follows it. -/
def Flag.pattern (flag : Flag) : String :=
  (match flag.short? with
    | some c => s!"-{c}, "
    | none => "    ") ++ "--" ++ flag.long ++
    match flag with
    | .config => " <CONFIG>"
    | .verbose => "..."
    | .threads => " <THREADS>"
    | .format => " <FORMAT>"
    | .extension => " <EXTENSIONS>"
    | _ => ""

/-- A part of the help with a heading, unless there is nothing under it. -/
def helpSection (heading : String) (rows : List (String × String)) : List String :=
  let width := (rows.map (·.1.length)).foldl max 0
  if rows.isEmpty then []
  else ["", heading] ++ rows.map fun (name, text) => "  " ++ padRight width name ++ "  " ++ text

def helpText (level : Level) : String :=
  unlines ([level.about, "", level.usage] ++
    helpSection "Commands:" (level.commands.map fun (name, command) => (name, command.about)) ++
    helpSection "Arguments:" level.positionals ++
    helpSection "Options:" (level.flags.map fun flag => (flag.pattern, level.describe flag)))

end PegScan.CommandLine
