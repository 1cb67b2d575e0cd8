import Disasm.System

/-!
# Stores

A store is a system that keeps its files in memory: files by their names, and directories, which
paths pass through. There are no links, and everything may be read and written.
-/

namespace Disasm

/-- Files and directories by name. A name is the directories on the way from the root and its own,
and of two files of one name the first one counts. -/
structure Store where
  files : List (List String × List UInt8)
  /-- Directories that exist even if no file is in them. -/
  directories : List (List String) := []
  /-- Where paths start that do not start at the root. -/
  workingDirectory : List String := []
  deriving DecidableEq

namespace Store

/-- The parts of a path between its slashes. -/
def parts (path : String) : List String :=
  (path.toList.splitOn '/').map String.ofList

/-- Whether a name is the name of a directory. The directories on the way to a file or to another
directory exist, and the root does. -/
def isDirectory (store : Store) (name : List String) : Bool :=
  name.isEmpty || (store.workingDirectory :: store.directories).any name.isPrefixOf ||
    store.files.any fun (file, _) => name.isPrefixOf file && name ≠ file

/-- The name that the parts of a path lead to from a directory. Empty parts and single dots stay
in the directory, double dots leave it unless it is the root, other parts enter the one of that
name. The last part names a file. -/
def follow (store : Store) : (directory parts : List String) → Option (List String)
  | _, [] => none
  | directory, [part] => if part ∈ ["", ".", ".."] then none else some (directory ++ [part])
  | directory, part :: rest =>
    if part = "" || part = "." then store.follow directory rest
    else if part = ".." then store.follow directory.dropLast rest
    else if store.isDirectory (directory ++ [part]) then store.follow (directory ++ [part]) rest
    else none

/-- The number of bytes of the longest path. -/
def maxPathSize : Nat := 4095

/-- The number of bytes of the longest part of a path. -/
def maxPartSize : Nat := 255

/-- Whether a text is a path: it has no null character, and is not too long. -/
def isPath (path : String) : Bool :=
  path.toList.all (· ≠ '\x00') && path.utf8ByteSize ≤ maxPathSize &&
    (parts path).all (·.utf8ByteSize ≤ maxPartSize)

/-- The directory where a path starts. -/
def start (store : Store) (path : String) : List String :=
  if path.toList.head? = some '/' then [] else store.workingDirectory

/-- The name of the file at a path, which may exist or not. -/
def locate? (store : Store) (path : String) : Option (List String) :=
  if isPath path then store.follow (store.start path) (parts path) else none

def read (store : Store) (path : String) : Option (List UInt8) :=
  (store.locate? path).bind fun name => store.files.lookup name

/-- The store in which a file has these contents. -/
def insert (store : Store) (name : List String) (contents : List UInt8) : Store :=
  { store with files := (name, contents) :: store.files.filter fun (file, _) => file ≠ name }

/-- Writes the file at a path, unless a directory is there. -/
def write? (store : Store) (path : String) (contents : List UInt8) : Option Store :=
  match store.locate? path with
  | none => none
  | some name => if store.isDirectory name then none else some (store.insert name contents)

/-- The system of stores. A write that fails changes nothing, and everything can be printed. -/
def system : System Store where
  read := read
  write store path contents :=
    match store.write? path contents with
    | none => (false, store)
    | some after => (true, after)
  print _ text := (true, text)

end Store

end Disasm
