import Disasm.Origin
import Disasm.Settings

/-!
# Command lines

An argument is an option by its long name, an option by its letter, or plain text. A long name may be
followed by an equals sign and a value; a letter by a value, with or without an equals sign.

Arguments are read from left to right. A parameter takes a value, which may be an argument of its
own; such a value is judged only when the next option or the end of the arguments is reached.
Arguments that nobody knows are reported at once.
-/

namespace Disasm

namespace CommandLine

/-! ## Words -/

/-- One argument of a command line. -/
inductive Word where
  | long (name : String) (value : Option String)
  | short (letter : Char) (value : Option String)
  | plain (text : String)
  deriving DecidableEq

namespace Word

/-- The value behind a letter. -/
def attached : List Char → Option String
  | [] => none
  | '=' :: value => some (String.ofList value)
  | value => some (String.ofList value)

/-- The value behind a long name. -/
def assigned : List Char → Option String
  | [] => none
  | _ :: value => some (String.ofList value)

/-- The word of an argument. A single hyphen is plain text. -/
def ofString (argument : String) : Word :=
  match argument.toList with
  | '-' :: '-' :: rest =>
    .long (String.ofList (rest.takeWhile (· ≠ '='))) (assigned (rest.dropWhile (· ≠ '=')))
  | '-' :: letter :: rest => .short letter (attached rest)
  | _ => .plain argument

end Word

end CommandLine

/-- What a command line asks for. -/
structure Arguments where
  filePath : String
  architecture : Option Architecture := none
  origin : Option Address := none
  format : Option Format := none
  output : Option String := none
  config : Option String := none
  noComments : Bool := false
  noReferences : Bool := false
  deriving DecidableEq

namespace CommandLine

/-! ## Options -/

/-- An option that takes a value. -/
inductive Parameter where
  | filePath
  | architecture
  | origin
  | format
  | output
  | config
  deriving DecidableEq

/-- An option that takes no value. -/
inductive Switch where
  | noComments
  | noReferences
  deriving DecidableEq

/-- What the name of an option stands for. -/
inductive Meaning where
  | parameter (parameter : Parameter)
  | switch (switch : Switch)
  | help
  | version
  deriving DecidableEq

/-- The option with a long name. Names are not abbreviated. -/
def ofName? : String → Option Meaning
  | "file-path" => some (.parameter .filePath)
  | "arch" => some (.parameter .architecture)
  | "origin" => some (.parameter .origin)
  | "format" => some (.parameter .format)
  | "output" => some (.parameter .output)
  | "config" => some (.parameter .config)
  | "no-comments" => some (.switch .noComments)
  | "no-references" => some (.switch .noReferences)
  | "help" => some .help
  | "version" => some .version
  | _ => none

/-- The option with a letter. -/
def ofLetter? : Char → Option Meaning
  | 'f' => some (.parameter .filePath)
  | 'a' => some (.parameter .architecture)
  | 'o' => some (.parameter .origin)
  | 'h' => some .help
  | 'V' => some .version
  | _ => none

/-- The architecture with a name, of which each has one spelling. -/
def architecture? : String → Option Architecture
  | "z80" => some .z80
  | "8080" | "i8080" => some .i8080
  | "8085" | "i8085" => some .i8085
  | _ => none

/-- The format with a name. -/
def format? : String → Option Format
  | "listing" => some .listing
  | "source" => some .source
  | "json" => some .json
  | "ihex" => some .intelHex
  | _ => none

/-- Why arguments lead to no run: a fault, or a request to tell about the program. -/
inductive UsageError where
  | unknown (argument : String)
  | missingValue (parameter : Parameter)
  | invalidValue (parameter : Parameter) (value : String)
  | rejectedOrigin (cause : Origin.Error)
  | repeatedParameter (parameter : Parameter)
  | repeatedSwitch (switch : Switch)
  | unexpectedValue (argument : String)
  | missingFilePath
  | help
  | version
  deriving DecidableEq

/-! ## State -/

/-- The options that have been read. -/
structure Draft where
  filePath : Option String := none
  architecture : Option Architecture := none
  origin : Option Address := none
  format : Option Format := none
  output : Option String := none
  config : Option String := none
  noComments : Bool := false
  noReferences : Bool := false
  deriving DecidableEq

namespace Draft

def has (draft : Draft) : Parameter → Bool
  | .filePath => draft.filePath.isSome
  | .architecture => draft.architecture.isSome
  | .origin => draft.origin.isSome
  | .format => draft.format.isSome
  | .output => draft.output.isSome
  | .config => draft.config.isSome

/-- A path, which is not empty. -/
def path (parameter : Parameter) (value : String) : Except UsageError (Option String) :=
  if value.isEmpty then .error (.invalidValue parameter value) else .ok (some value)

def set (draft : Draft) (parameter : Parameter) (value : String) : Except UsageError Draft :=
  if draft.has parameter then .error (.repeatedParameter parameter)
  else
    match parameter with
    | .filePath => do return { draft with filePath := ← path parameter value }
    | .output => do return { draft with output := ← path parameter value }
    | .config => do return { draft with config := ← path parameter value }
    | .architecture =>
      match architecture? value with
      | some architecture => .ok { draft with architecture := some architecture }
      | none => .error (.invalidValue parameter value)
    | .format =>
      match format? value with
      | some format => .ok { draft with format := some format }
      | none => .error (.invalidValue parameter value)
    | .origin =>
      match Origin.parse value with
      | .ok origin => .ok { draft with origin := some origin }
      | .error cause => .error (.rejectedOrigin cause)

def turnOn (draft : Draft) : Switch → Except UsageError Draft
  | .noComments =>
    if draft.noComments then .error (.repeatedSwitch .noComments)
    else .ok { draft with noComments := true }
  | .noReferences =>
    if draft.noReferences then .error (.repeatedSwitch .noReferences)
    else .ok { draft with noReferences := true }

/-- The arguments, if nothing is missing. -/
def finish (draft : Draft) : Except UsageError Arguments :=
  match draft.filePath with
  | none => .error .missingFilePath
  | some filePath =>
    .ok
      { filePath, architecture := draft.architecture, origin := draft.origin
        format := draft.format, output := draft.output, config := draft.config
        noComments := draft.noComments, noReferences := draft.noReferences }

end Draft

/-- A parameter whose value has not been judged. -/
inductive Pending where
  | nothing
  | awaiting (parameter : Parameter)
  | holding (parameter : Parameter) (value : String)
  deriving DecidableEq

/-- What has been read. -/
structure State where
  draft : Draft := {}
  pending : Pending := .nothing
  deriving DecidableEq

namespace State

/-- Judges the value of the pending parameter. -/
def settle (state : State) : Except UsageError Draft :=
  match state.pending with
  | .nothing => .ok state.draft
  | .awaiting parameter => .error (.missingValue parameter)
  | .holding parameter value => state.draft.set parameter value

/-- Reads a parameter with its value, or one whose value is yet to come. -/
def give (state : State) (parameter : Parameter) (value : Option String) :
    Except UsageError State := do
  let draft ← state.settle
  match value with
  | some value => return { draft := ← draft.set parameter value }
  | none => return { draft, pending := .awaiting parameter }

/-- Reads an option. Only parameters take values. -/
def apply (state : State) (argument : String) (value : Option String) :
    Meaning → Except UsageError State
  | .parameter parameter => state.give parameter value
  | .switch switch =>
    if value.isSome then .error (.unexpectedValue argument)
    else do return { draft := ← (← state.settle).turnOn switch }
  | .help =>
    if value.isSome then .error (.unexpectedValue argument)
    else do let _ ← state.settle; .error .help
  | .version =>
    if value.isSome then .error (.unexpectedValue argument)
    else do let _ ← state.settle; .error .version

/-- Reads plain text, which is the value of a parameter that awaits one. -/
def take (state : State) (text : String) : Except UsageError State :=
  match state.pending with
  | .awaiting parameter => .ok { state with pending := .holding parameter text }
  | _ => .error (.unknown text)

/-- Reads one argument. What follows a letter without a parameter is a letter of its own. -/
def read (state : State) (argument : String) : Except UsageError State :=
  match Word.ofString argument with
  | .long name value =>
    match ofName? name with
    | some meaning => state.apply argument value meaning
    | none => .error (.unknown argument)
  | .short letter value =>
    match ofLetter? letter with
    | some (.parameter parameter) => state.give parameter value
    | some meaning => state.apply argument none meaning
    | none => .error (.unknown argument)
  | .plain text => state.take text

end State

/-- Reads arguments. Nothing may follow a double hyphen. -/
def readAll : State → List String → Except UsageError State
  | state, [] => .ok state
  | state, argument :: rest =>
    if argument = "--" then
      match rest with
      | [] => .ok state
      | extra :: _ => .error (.unknown extra)
    else
      match state.read argument with
      | .ok state => readAll state rest
      | .error error => .error error

end CommandLine

namespace Arguments

open CommandLine

/-- Reads a command line without the name of the program. -/
def parse (arguments : List String) : Except UsageError Arguments := do
  let state ← readAll {} arguments
  (← state.settle).finish

/-- The settings of a run. What the arguments say counts before what the configuration says. -/
def settings (arguments : Arguments) (config : Config) : Settings :=
  let format := arguments.format.getD (.ofStyle config.listing.style)
  { architecture := arguments.architecture.getD config.architecture
    origin := arguments.origin.getD config.origin
    format
    listing :=
      { style := format.style?.getD config.listing.style
        comments := config.listing.comments && !arguments.noComments
        references := config.listing.references && !arguments.noReferences } }

end Arguments

end Disasm
