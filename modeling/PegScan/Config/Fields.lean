import PegScan.Config
import PegScan.Data

/-!
# The fields of a configuration
A configuration as data, and back. A field that is not given keeps its default.
-/

namespace PegScan

/-- The fields of a record, in the order of the names. Members of other names are skipped, though
they have to be readable, and a list stands for its items in that order. Only TOML passes over
items beyond the last field, whatever they are. -/
def Data.fields? (format : ConfigFormat) (names : List String) :
    Data → Option (List (Option Data))
  | table members =>
    if members.all fun (key, value) => key.any fun name => names.contains name || value.isReadable
    then names.mapM fun name => only? name members
    else none
  | list items =>
    if format = .toml || items.length ≤ names.length then
      some ((items.take names.length).map some ++
        List.replicate (names.length - items.length) none)
    else none
  | _ => none

namespace LineBreak

def name : LineBreak → String
  | lf => "lf"
  | cr => "cr"
  | crlf => "crlf"
  | lfOrCrlf => "lf_crlf"
  | any => "cr_lf_crlf"

def ofName? : String → Option LineBreak
  | "lf" => some lf
  | "cr" => some cr
  | "crlf" => some crlf
  | "lf_crlf" => some lfOrCrlf
  | "cr_lf_crlf" => some any
  | _ => none

theorem ofName?_name (b : LineBreak) : ofName? b.name = some b := by cases b <;> rfl

/-- What a format writes beside a name that has no value of its own. -/
def isFiller : ConfigFormat → Data → Bool
  | .json, .null => true
  | .toml, .list [] => true
  | .toml, .table [] => true
  | _, _ => false

/-- A policy is given by its name, alone or as the only member of a table. -/
def ofData? (format : ConfigFormat) : Data → Option LineBreak
  | .text (some name) => ofName? name
  | .table [(some name, value)] => if isFiller format value then ofName? name else none
  | _ => none

end LineBreak

namespace MatchingOptions

def toData (m : MatchingOptions) : Data :=
  .record [("maxDepth", .natural m.maxDepth.toNat), ("eol", .text m.lineBreak.name),
    ("trace", .bool m.trace)]

def ofData? (format : ConfigFormat) (d : Data) : Option MatchingOptions := do
  let default : MatchingOptions := {}
  match ← d.fields? format ["maxDepth", "eol", "trace"] with
  | [maxDepth, lineBreak, trace] =>
    return {
      maxDepth := ← Data.orDefault Data.word? default.maxDepth maxDepth
      lineBreak := ← Data.orDefault (LineBreak.ofData? format) default.lineBreak lineBreak
      trace := ← Data.orDefault Data.bool? default.trace trace }
  | _ => none

end MatchingOptions

namespace Delimiters

def toData (d : Delimiters) : Data :=
  .record [("open", .text d.opener.toString), ("marker", .text d.marker.toString),
    ("close", .text d.closer.toString)]

def ofData? (format : ConfigFormat) (d : Data) : Option Delimiters := do
  let default : Delimiters := {}
  match ← d.fields? format ["open", "marker", "close"] with
  | [opener, marker, closer] =>
    return {
      opener := ← Data.orDefault Data.character? default.opener opener
      marker := ← Data.orDefault Data.character? default.marker marker
      closer := ← Data.orDefault Data.character? default.closer closer }
  | _ => none

end Delimiters

namespace Config

def toData (c : Config) : Data :=
  .record [("matching", c.matching.toData), ("rawString", c.delimiters.toData)]

def ofData? (format : ConfigFormat) (d : Data) : Option Config := do
  match ← d.fields? format ["matching", "rawString"] with
  | [matching, delimiters] =>
    return {
      matching := ← Data.orDefault (MatchingOptions.ofData? format) {} matching
      delimiters := ← Data.orDefault (Delimiters.ofData? format) {} delimiters }
  | _ => none

end Config
end PegScan
