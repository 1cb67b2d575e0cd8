import Disasm.Run

/-!
# The command line program

Reads the files that the arguments name, lets the pure part produce the text, and writes it.
-/

namespace Disasm

/-- The contents of a file, if it can be read. -/
def readFile? (path : String) : IO (Option (List UInt8)) := do
  try
    return some (← IO.FS.readBinFile path).data.toList
  catch _ =>
    return none

/-- The files that a run may read. -/
def loadFiles (arguments : Arguments) : IO (List (String × List UInt8)) := do
  let mut files := []
  for path in arguments.config.toList ++ [arguments.filePath] do
    if let some contents ← readFile? path then
      files := (path, contents) :: files
  return files

/-- Writes the text, and gives the reason if that is not possible. -/
def writeOutput (arguments : Arguments) (text : String) : IO (Option RunError) := do
  match arguments.output with
  | none =>
    try
      let stdout ← IO.getStdout
      stdout.putStr text
      stdout.flush
      return none
    catch _ =>
      return some .unwritableStdout
  | some path =>
    try
      IO.FS.writeFile path text
      return none
    catch _ =>
      return some (.unwritableOutput path)

def reportFailure (error : RunError) : IO UInt32 := do
  IO.eprintln ("Error: " ++ error.message)
  return 1

/-- How the program is called. -/
def usage : String :=
  "Usage: disasm --file-path <FILE> [--arch <z80|8080|8085>] [--origin <ADDRESS>]\n" ++
    "    [--format <listing|source|json|ihex>] [--output <FILE>] [--config <FILE>]\n" ++
    "    [--no-comments] [--no-references]"

def execute (arguments : Arguments) : IO UInt32 := do
  let files ← loadFiles arguments
  match arguments.produce Config.parse? (fun path => files.lookup path) with
  | .error error => reportFailure error
  | .ok text =>
    match ← writeOutput arguments text with
    | none => return 0
    | some error => reportFailure error

def start (arguments : List String) : IO UInt32 := do
  match Arguments.parse arguments with
  | .ok arguments => execute arguments
  | .error .help | .error .version =>
    IO.println usage
    return 0
  | .error _ =>
    IO.eprintln usage
    return 2

end Disasm

def main (arguments : List String) : IO UInt32 :=
  Disasm.start arguments
