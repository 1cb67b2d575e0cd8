import Disasm.CommandLine
import Disasm.Settings
import Disasm.System

/-!
# Runs

A run reads the configuration file, if its arguments name one, and the image; it renders the image,
and writes the text to a file or prints it. The first step that fails ends the run. The files are read
by the system that the program runs on, and the configuration by a parser that is given to it.
-/

namespace Disasm

/-- Why a run fails. -/
inductive RunError where
  | unreadableConfig (path : String)
  | invalidConfig (path : String)
  | unreadableImage (path : String)
  | rendering (cause : RenderError)
  | unwritableOutput (path : String)
  | unwritableStdout
  deriving DecidableEq

def RunError.message : RunError → String
  | .unreadableConfig path => "Unable to read config file '" ++ path ++ "'"
  | .invalidConfig path => "Unable to parse config file '" ++ path ++ "'"
  | .unreadableImage path => "Unable to read '" ++ path ++ "'"
  | .rendering cause => cause.message
  | .unwritableOutput path => "Unable to write output to '" ++ path ++ "'"
  | .unwritableStdout => "Unable to write to stdout"

/-- The text that bytes stand for. -/
def decodeText (bytes : List UInt8) : Option String :=
  String.fromUTF8? ⟨bytes.toArray⟩

def encodeText (text : String) : List UInt8 :=
  text.toUTF8.data.toList

namespace Arguments

/-- The configuration, from files that can be read or not and a parser that accepts them or not. -/
def loadConfig (arguments : Arguments) (parse : String → Option Config)
    (read : String → Option (List UInt8)) : Except RunError Config :=
  match arguments.config with
  | none => .ok {}
  | some path =>
    match (read path).bind decodeText with
    | none => .error (.unreadableConfig path)
    | some text =>
      match parse text with
      | none => .error (.invalidConfig path)
      | some config => .ok config

/-- The text that a run produces. -/
def produce (arguments : Arguments) (parse : String → Option Config)
    (read : String → Option (List UInt8)) : Except RunError String :=
  match arguments.loadConfig parse read with
  | .error error => .error error
  | .ok config =>
    match read arguments.filePath with
    | none => .error (.unreadableImage arguments.filePath)
    | some image =>
      match (arguments.settings config).render image with
      | .error cause => .error (.rendering cause)
      | .ok text => .ok text

end Arguments

/-- What a run leaves behind. -/
structure RunResult (State : Type) where
  failure : Option RunError := none
  /-- What has been printed. -/
  stdout : String := ""
  state : State
  deriving DecidableEq

/-- Runs the program on a system. -/
def System.run {State : Type} (system : System State) (parse : String → Option Config)
    (state : State) (arguments : Arguments) : RunResult State :=
  match arguments.produce parse (system.read state) with
  | .error error => { failure := some error, state }
  | .ok text =>
    match arguments.output with
    | none =>
      match system.print state text with
      | (true, stdout) => { stdout, state }
      | (false, stdout) => { failure := some .unwritableStdout, stdout, state }
    | some path =>
      match system.write state path (encodeText text) with
      | (true, state) => { state }
      | (false, state) => { failure := some (.unwritableOutput path), state }

end Disasm
