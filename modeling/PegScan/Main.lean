import PegScan.CommandLine.Commands

/-!
# The program
The commands on the files of the machine.
-/

namespace PegScan

def FileFault.ofError : IO.Error → FileFault
  | .noFileOrDirectory .. => .notFound
  | .inappropriateType _ 20 _ => .notADirectory
  | .inappropriateType _ 21 _ => .isADirectory
  | .invalidArgument _ 36 _ => .nameTooLong
  | e => .other (toString e)

/-- What an action returns, or why it has failed. -/
def attempt {α : Type} (action : IO α) : IO (Except FileFault α) := do
  try
    return .ok (← action)
  catch e =>
    return .error (.ofError e)

namespace Machine

def locate (path : String) : IO (List String) := do
  return (Path.parts (← IO.FS.realPath path).toString).filter (!Path.isIdle ·)

def kind? (path : String) : IO (Option FileKind) := do
  try
    match (← (← IO.FS.realPath path).metadata).type with
    | .dir => return some .directory
    | .file => return some .file
    | _ => return none
  catch _ =>
    return none

def readText (path : String) : IO (Except FileFault String) := do
  match ← attempt (IO.FS.readBinFile path) with
  | .error fault => return .error fault
  | .ok bytes =>
    match String.fromUTF8? bytes with
    | some text => return .ok text
    | none => return .error .notUtf8

/-- Links to directories are not followed. -/
partial def filesBelow (path : String) : IO (List String) := do
  let entries ← (← IO.FS.realPath path).readDir
  let mut files := []
  for entry in entries.toList.mergeSort fun a b => !(b.fileName < a.fileName) do
    let below := Path.join path entry.fileName
    if (← entry.path.symlinkMetadata).type == .dir then
      files := files ++ (← filesBelow below)
    else if (← kind? below) = some .file then
      files := files ++ [below]
  return files

def fileSystem : FileSystem IO where
  kind? := kind?
  readText := readText
  locate path := attempt (locate path)
  filesBelow path := attempt (filesBelow path)
  write path text := attempt (IO.FS.writeFile path text)

end Machine
end PegScan

open PegScan in
def main (args : List String) : IO UInt32 := do
  let colorsForbidden := (← IO.getEnv "NO_COLOR").isSome
  let done ← CommandLine.run Machine.fileSystem colorsForbidden args
  IO.print done.output
  match done.failure with
  | some failure => IO.eprintln s!"error: {failure.message}"
  | none => if done.code = 2 then IO.eprintln "error: invalid arguments, try '--help'"
  return done.code.toUInt32
