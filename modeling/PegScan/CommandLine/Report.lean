import PegScan.CommandLine.Style
import PegScan.Json.Printer
import PegScan.Scan
import PegScan.Text.Escape
import PegScan.Text.Layout

/-!
# Reports
What has been found in each file, summed up and shown.
-/

namespace PegScan.CommandLine

open Text

/-- The literals of a file, or why there are none. -/
structure FileReport where
  path : String
  literals : List Literal := []
  error : Option String := none
  deriving DecidableEq, Repr

structure Summary where
  files : Nat
  literals : Nat
  failures : Nat
  deriving DecidableEq, Repr

namespace Summary

def ofReports (reports : List FileReport) : Summary where
  files := reports.length
  literals := (reports.flatMap (·.literals)).length
  failures := (reports.filter (·.error.isSome)).length

end Summary

/-- The longest preview, in characters after escaping. -/
def previewLength : Nat := 40

/-- The content of a literal on one line, cut off where it is too long. -/
def preview (content : String) : String :=
  let escaped := escape content.toList
  if escaped.length ≤ previewLength then "\"" ++ String.ofList escaped ++ "\""
  else "\"" ++ String.ofList (escaped.take previewLength) ++ "\"…"

def Summary.lines (colors : Bool) (s : Summary) : List String :=
  ["", Style.bold.paint colors "Summary:", s!"  Files scanned: {s.files}",
    s!"  Literals found: {s.literals}"] ++
  if s.failures = 0 then []
  else ["  Files with errors: " ++ Style.red.paint colors (toString s.failures)]

def literalLine (colors : Bool) (l : Literal) : String :=
  "  " ++ Style.cyan.paint colors (padLeft 8 l.start.brief) ++ "  " ++
    Style.dimmed.paint colors s!"level {l.level}" ++ "  " ++ preview l.content

namespace FileReport

/-- Files in which nothing was found are left out. -/
def lines (colors : Bool) (r : FileReport) : List String :=
  if r.literals.isEmpty && r.error.isNone then []
  else
    Style.bold.paint colors r.path :: r.literals.map (literalLine colors) ++
      (r.error.map fun e => "  " ++ Style.redBold.paint colors "error:" ++ " " ++ e).toList

def checkLine (colors : Bool) (r : FileReport) : String :=
  match r.error with
  | none => Style.green.paint colors "✓" ++ " " ++ r.path
  | some e => Style.red.paint colors "✗" ++ " " ++ r.path ++ ": " ++ e

def toData (r : FileReport) : Data :=
  .record ([("path", .text r.path), ("literals", .list (r.literals.map literalData))] ++
    (r.error.map fun e => ("error", Data.text e)).toList)
where
  positionData (p : Position) : Data :=
    .record [("offset", .natural p.offset), ("byte", .natural p.byte), ("line", .natural p.line),
      ("column", .natural p.column)]
  literalData (l : Literal) : Data :=
    .record [("start", positionData l.start), ("level", .natural l.level),
      ("content", .text l.content), ("length", .natural l.length)]

end FileReport

def Summary.toData (s : Summary) : Data :=
  .record [("filesScanned", .natural s.files), ("literals", .natural s.literals),
    ("failures", .natural s.failures)]

/-- All that was found, for readers. -/
def scanText (colors : Bool) (reports : List FileReport) : String :=
  unlines (reports.flatMap (·.lines colors) ++ (Summary.ofReports reports).lines colors)

/-- All that was found, for programs. -/
def scanJson (reports : List FileReport) : String :=
  String.ofList (Json.print 0 (.record [("files", .list (reports.map FileReport.toData)),
    ("summary", (Summary.ofReports reports).toData)])) ++ "\n"

def checkText (colors : Bool) (reports : List FileReport) : String :=
  unlines (reports.map (·.checkLine colors) ++ (Summary.ofReports reports).lines colors)

end PegScan.CommandLine
