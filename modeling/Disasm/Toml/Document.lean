import Disasm.Toml.Scalar
import Disasm.Toml.Table
import Disasm.Toml.Token

/-!
# TOML documents

A document is a sequence of assignments and headers, each on lines of its own. Values may be
composed of others, down to a fixed depth.
-/

namespace Disasm.Toml

/-- The number of parts of a key, and of composed values that may stand inside each other. -/
def maxDepth : Nat := 80

/-! ## Keys -/

/-- A part of a dotted key, or the dot between two parts. -/
inductive KeyPart where
  | name (text : String)
  | dot

def isKeyChar (char : Char) : Bool :=
  char.isAlphanum || char = '_' || char = '-'

/-- The parts of a run of characters in a key. -/
def barePart (text : List Char) : List KeyPart :=
  (((text.splitOn '.').map fun name =>
    if name.isEmpty then [] else [KeyPart.name (String.ofList name)]).intersperse [.dot]).flatten

/-- The parts that a token contributes to a key. -/
def keyParts : Token → Option (List KeyPart)
  | .blank _ => some []
  | .quoted text => some [.name text]
  | .bare text =>
    if text.toList.all fun char => isKeyChar char || char = '.' then some (barePart text.toList)
    else none
  | _ => none

/-- The names of a key, of which any two have one dot between them. -/
def keyNames? : List KeyPart → Option (List String)
  | [.name text] => some [text]
  | .name text :: .dot :: rest => (keyNames? rest).map (text :: ·)
  | _ => none

def isKeyToken : Token → Bool
  | .blank _ | .quoted _ | .bare _ => true
  | _ => false

/-- Reads a key on one line, and returns what follows it. -/
def key? (tokens : List Token) : Option (List String × List Token) := do
  let parts ← (tokens.takeWhile isKeyToken).mapM keyParts
  let names ← keyNames? parts.flatten
  if names.length ≤ maxDepth then some (names, tokens.dropWhile isKeyToken) else none

/-! ## Values -/

def skipBlanks (tokens : List Token) : List Token :=
  tokens.dropWhile Token.isBlank

/-- Drops leading blanks and line ends. -/
def skipLines (tokens : List Token) : List Token :=
  tokens.dropWhile fun token => token.isBlank || token = .newLine

/-- Continues a text with the runs behind it and the blanks before each of them, and returns what
follows the last one. -/
def joinRuns (text blanks : String) : List Token → String × List Token
  | .blank char :: rest => joinRuns text (blanks.push char) rest
  | .bare run :: rest => joinRuns (text ++ blanks ++ run) "" rest
  | rest => (text, rest)

/-- Reads the key of a member of an inline table with its equals sign, on lines of their own or
not, and returns what follows them. -/
def memberKey? (tokens : List Token) : Option (List String × List Token) :=
  match key? tokens with
  | none => none
  | some (path, rest) =>
    match skipLines rest with
    | .mark '=' :: rest => some (path, skipLines rest)
    | _ => none

mutual

/-- Reads a value, and returns what follows it. The fuel bounds the number of tokens, the depth
the number of composed values inside each other. -/
def value? (fuel depth : Nat) (tokens : List Token) : Option (Value × List Token) :=
  match fuel with
  | 0 => none
  | fuel + 1 =>
    match skipBlanks tokens, depth with
    | .quoted text :: rest, _ => some (.string text, rest)
    | .bare text :: rest, _ =>
      let (text, rest) := joinRuns text "" rest
      (Scalar.read? text).map (·, rest)
    | .mark '[' :: rest, depth + 1 => items? fuel depth rest []
    | .mark '\x7b' :: rest, depth + 1 => members? fuel depth rest []
    | _, _ => none

/-- Reads the rest of an array behind the items that are done, of which the last one stands
first. -/
def items? (fuel depth : Nat) (tokens : List Token) (done : List Value) :
    Option (Value × List Token) :=
  match fuel with
  | 0 => none
  | fuel + 1 =>
    match skipLines tokens with
    | .mark ']' :: rest => some (.array done.reverse, rest)
    | tokens =>
      match value? fuel depth tokens with
      | none => none
      | some (value, rest) =>
        match skipLines rest with
        | .mark ',' :: rest => items? fuel depth rest (value :: done)
        | .mark ']' :: rest => some (.array (value :: done).reverse, rest)
        | _ => none

/-- Reads the rest of an inline table behind the members that are done. -/
def members? (fuel depth : Nat) (tokens : List Token) (done : Table) :
    Option (Value × List Token) :=
  match fuel with
  | 0 => none
  | fuel + 1 =>
    match skipLines tokens with
    | .mark '\x7d' :: rest => some (.table .inline done, rest)
    | tokens =>
      match memberKey? tokens with
      | none => none
      | some (path, rest) =>
        match value? fuel depth rest with
        | none => none
        | some (value, rest) =>
          match Table.assignPath value path done, skipLines rest with
          | some done, .mark ',' :: rest => members? fuel depth rest done
          | some done, .mark '\x7d' :: rest => some (.table .inline done, rest)
          | _, _ => none

end

/-! ## Documents -/

/-- One assignment or header. -/
inductive Statement where
  | assign (path : List String) (value : Value)
  | table (path : List String)
  | tables (path : List String)

/-- Reads a statement, and returns what follows it. The brackets of a double bracket touch. -/
def statement? (tokens : List Token) : Option (Statement × List Token) :=
  match tokens with
  | .mark '[' :: .mark '[' :: rest =>
    match key? rest with
    | some (path, .mark ']' :: .mark ']' :: rest) => some (.tables path, rest)
    | _ => none
  | .mark '[' :: rest =>
    match key? rest with
    | some (path, .mark ']' :: rest) => some (.table path, rest)
    | _ => none
  | tokens =>
    match key? tokens with
    | some (path, .mark '=' :: rest) =>
      (value? (2 * rest.length + 2) maxDepth rest).map fun (value, rest) =>
        (.assign path value, rest)
    | _ => none

/-- Reads the statements of a document, with fuel for each line. -/
def statements? : (fuel : Nat) → List Token → Option (List Statement)
  | 0, _ => none
  | fuel + 1, tokens =>
    match skipLines tokens with
    | [] => some []
    | tokens =>
      match statement? tokens with
      | none => none
      | some (statement, rest) =>
        match skipBlanks rest with
        | [] => some [statement]
        | .newLine :: rest => (statements? fuel rest).map (statement :: ·)
        | _ => none

/-- Carries out the statements, of which assignments concern the table at `current`. -/
def run? : (current : List String) → List Statement → Table → Option Table
  | _, [], table => some table
  | current, .assign path value :: rest, table =>
    (table.within (Table.assignPath value path) current).bind (run? current rest)
  | _, .table path :: rest, table => (table.define path).bind (run? path rest)
  | _, .tables path :: rest, table => (table.append path).bind (run? path rest)

def parse? (text : String) : Option Table := do
  let tokens ← Token.scan text
  let statements ← statements? (tokens.length + 1) tokens
  run? [] statements []

end Disasm.Toml
