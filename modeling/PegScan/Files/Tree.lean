import PegScan.Files.Path
import PegScan.Files.System

/-!
# File trees
A file system as a value: a tree of directories and a directory to work in.
-/

namespace PegScan

inductive FileNode
  | file (content : ByteArray)
  | directory (entries : List (String × FileNode))

structure FileTree where
  root : List (String × FileNode) := []
  workingDir : List String := []

namespace FileNode

def kind : FileNode → FileKind
  | file _ => .file
  | directory _ => .directory

/-- The node that names lead to. -/
def descend? : List String → FileNode → Option FileNode
  | [], node => some node
  | name :: names, directory entries => do descend? names (← entries.lookup name)
  | _ :: _, file _ => none

mutual

/-- The files at and below a node that a path leads to. -/
def filesAt (path : String) : FileNode → List String
  | file _ => [path]
  | directory entries =>
    ((filesIn path entries).mergeSort fun a b => !(b.1 < a.1)).flatMap (·.2)

def filesIn (path : String) : List (String × FileNode) → List (String × List String)
  | [] => []
  | (name, node) :: entries => (name, filesAt (Path.join path name) node) :: filesIn path entries

end

end FileNode

namespace FileTree

/-- Puts a node at the end of a row of names; directories on the way are made. -/
def put (node : FileNode) : List String → List (String × FileNode) → List (String × FileNode)
  | [], entries => entries
  | [name], entries =>
    if (entries.lookup name).isSome then
      entries.map fun (n, old) => if n = name then (n, node) else (n, old)
    else entries ++ [(name, node)]
  | name :: names, entries =>
    match entries.lookup name with
    | some (.directory inner) =>
      let inner := put node names inner
      entries.map fun (n, old) => if n = name then (n, .directory inner) else (n, old)
    | _ => entries ++ [(name, .directory (put node names []))]

def node? (t : FileTree) (names : List String) : Option FileNode :=
  (FileNode.directory t.root).descend? names

/-- One part of a path further, from the place that names lead to. -/
def step (t : FileTree) (names : List String) (part : String) : Except FileFault (List String) :=
  match t.node? names with
  | none => .error .notFound
  | some (.file _) => .error .notADirectory
  | some (.directory entries) =>
    if Path.isIdle part then .ok names
    else if part = ".." then .ok names.dropLast
    else if Path.maxNameSize < part.utf8ByteSize then .error .nameTooLong
    else if (entries.lookup part).isSome then .ok (names ++ [part])
    else .error .notFound

/-- Where parts of a path lead. -/
def follow (t : FileTree) (path : String) (parts : List String) :
    Except FileFault (List String) :=
  parts.foldlM t.step (if path.startsWith "/" then [] else t.workingDir)

/-- Where a path leads. -/
def locate (t : FileTree) (path : String) : Except FileFault (List String) :=
  if path = "" then .error .notFound
  else if path.toList.contains '\x00' then .error .nulInPath
  else t.follow path (Path.parts path)

/-- Where a path leads that is about to be used. -/
def reach (t : FileTree) (path : String) : Except FileFault (List String) :=
  if Path.maxSize < path.utf8ByteSize then .error .nameTooLong else t.locate path

def look (t : FileTree) (path : String) : Except FileFault FileNode := do
  match t.node? (← t.reach path) with
  | some node => .ok node
  | none => .error .notFound

def kind? (t : FileTree) (path : String) : Option FileKind :=
  match t.look path with
  | .ok node => some node.kind
  | .error _ => none

def readText (t : FileTree) (path : String) : Except FileFault String := do
  match ← t.look path with
  | .directory _ => .error .isADirectory
  | .file content =>
    match String.fromUTF8? content with
    | some text => .ok text
    | none => .error .notUtf8

def filesBelow (t : FileTree) (path : String) : Except FileFault (List String) := do
  return (← t.look path).filesAt path

/-- Writes a file that is there or that can be made in a directory that is there. -/
def write (t : FileTree) (path text : String) : Except FileFault FileTree := do
  let place ← match t.reach path with
    | .error .notFound => do
      let parts := Path.parts path
      match parts.getLast? with
      | some name =>
        if Path.isIdle name || name = ".." then .error .notFound
        else .ok ((← t.follow path parts.dropLast) ++ [name])
      | none => .error .notFound
    | found => found
  match t.node? place with
  | some (.directory _) => .error .isADirectory
  | _ => .ok { t with root := put (.file text.toUTF8) place t.root }

/-- The tree as a file system of programs that may change it. -/
def fileSystem : FileSystem (StateM FileTree) where
  kind? path := do return (← get).kind? path
  readText path := do return (← get).readText path
  locate path := do return (← get).locate path
  filesBelow path := do return (← get).filesBelow path
  write path text := do
    match (← get).write path text with
    | .ok t => set t; return .ok ()
    | .error fault => return .error fault

end FileTree
end PegScan
