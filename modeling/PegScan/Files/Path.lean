/-!
# Paths
Paths are texts whose parts stand between slashes.
-/

namespace PegScan.Path

/-- No name in a directory is longer than this in UTF-8. -/
def maxNameSize : Nat := 255

/-- A path that is to be read or written may be this long in UTF-8. -/
def maxSize : Nat := 4095

/-- What stands between the slashes, empty parts included. -/
def split : List Char → List (List Char)
  | [] => [[]]
  | c :: cs =>
    if c = '/' then [] :: split cs
    else
      match split cs with
      | [] => [[c]]
      | part :: parts => (c :: part) :: parts

def parts (path : String) : List String := (split path.toList).map String.ofList

/-- A part that stays where it is. -/
def isIdle (part : String) : Bool := part = "" || part = "."

/-- The last part that leads anywhere, unless it leads up. -/
def fileName? (path : String) : Option String :=
  ((parts path).filter (!isIdle ·)).getLast?.filter (· ≠ "..")

/-- What follows the last point of a file name. A point in front begins no extension. -/
def extension? (path : String) : Option String := do
  let name ← fileName? path
  let (after, before) := name.toList.reverse.span (· ≠ '.')
  match before with
  | [] | [_] => none
  | _ => some (String.ofList after.reverse)

def join (dir name : String) : String :=
  if dir.endsWith '/' || dir = "" then dir ++ name else dir ++ "/" ++ name

/-- The path from the root through directories of these names. -/
def absolute (names : List String) : String := "/" ++ "/".intercalate names

/-- A place and all places above it, up to the root. The names come innermost first. -/
def upward : List String → List (List String)
  | [] => [[]]
  | name :: outer => (name :: outer).reverse :: upward outer

end PegScan.Path
