import PegScan.Files.Fault

/-!
# File systems
What the program asks of a file system, in whatever monad it is provided.
-/

namespace PegScan

inductive FileKind
  | file
  | directory
  deriving DecidableEq, Repr

structure FileSystem (m : Type → Type) where
  /-- What a path leads to, if it leads anywhere. -/
  kind? : String → m (Option FileKind)
  readText : String → m (Except FileFault String)
  /-- The names on the way from the root to where a path leads. -/
  locate : String → m (Except FileFault (List String))
  /-- The files in a directory and in all directories below it, ordered by name at each
  level, as paths that begin with the given one. -/
  filesBelow : String → m (Except FileFault (List String))
  write : String → String → m (Except FileFault Unit)

end PegScan
