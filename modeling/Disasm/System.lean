/-!
# Systems

A run asks three things of the system it runs on: to read a file, to write a file, and to print. How
paths lead to files, and why one of the three fails, is the system's own matter.
-/

namespace Disasm

/-- A system whose files are in one of several states. The standard output is none of the files. -/
structure System (State : Type) where
  /-- The contents of the file at a path, if it can be read. -/
  read : State → String → Option (List UInt8)
  /-- Writes the file at a path. The state behind it comes with the word whether this succeeded. -/
  write : State → String → List UInt8 → Bool × State
  /-- Prints a text. What has been printed comes with the word whether this succeeded. -/
  print : State → String → Bool × String

/-- The files that are seen in a state of a system. A file may have several paths, and keeps its
identity from one state to the next. Devices and pipes are no files. -/
structure FileView (State File : Type) where
  /-- The file that a path leads to. -/
  file? : State → String → Option File
  /-- What a file holds, if it exists. -/
  contents : State → File → Option (List UInt8)

namespace FileView

variable {State File : Type} (view : FileView State File)

/-- The file at a path holds these bytes. -/
def Holds (state : State) (path : String) (bytes : List UInt8) : Prop :=
  ∃ file, view.file? state path = some file ∧ view.contents state file = some bytes

/-- Between two states, the file at a path has got these contents, and no other file has changed. -/
structure Overwrites (before : State) (path : String) (bytes : List UInt8) (after : State) : Prop where
  holds : view.Holds after path bytes
  /-- No file is put aside for another one. -/
  paths : ∀ other file, view.file? before other = some file → view.file? after other = some file
  others : ∀ file, view.file? after path ≠ some file →
    view.contents after file = view.contents before file

end FileView

/-- What a run may expect of a system: reading gives what a file holds, writing creates one file or
replaces all that it holds, and printing puts out the whole text. -/
structure System.Lawful {State File : Type} (system : System State) (view : FileView State File) :
    Prop where
  read_holds : ∀ state path bytes, system.read state path = some bytes → view.Holds state path bytes
  write_overwrites : ∀ state path bytes after, system.write state path bytes = (true, after) →
    view.Overwrites state path bytes after
  print_whole : ∀ state text printed, system.print state text = (true, printed) → printed = text

end Disasm
