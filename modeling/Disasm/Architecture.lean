/-!
# Architectures

The instruction sets that images are decoded for, the set of architectures on which a single
instruction is legal, and the warning for one that is not.
-/

namespace Disasm

/-- An instruction set. Instructions are decoded in the syntax of the Z80, which extends the 8080
and alone has opcode prefixes; the 8085 adds two instructions to the 8080. -/
inductive Architecture where
  | z80
  | i8080
  | i8085
  deriving DecidableEq

namespace Architecture

/-- Whether decoded instructions keep the syntax in which they are decoded. -/
def isPrimary (architecture : Architecture) : Bool :=
  architecture = .z80

/-- The name that is shown to the reader. -/
def name : Architecture → String
  | .z80 => "Z80"
  | .i8080 => "8080"
  | .i8085 => "8085"

/-- A text that names no architecture. -/
structure Unrecognized where
  text : String
  deriving DecidableEq

def Unrecognized.message (error : Unrecognized) : String :=
  "unrecognized architecture '" ++ error.text ++ "', expected one of Z80 / 8080 / 8085"

/-- Reads a name, with or without the maker's letter, in either case. -/
def parse (text : String) : Except Unrecognized Architecture :=
  match String.ofList (text.toList.map Char.toLower) with
  | "z80" => .ok .z80
  | "8080" | "i8080" => .ok .i8080
  | "8085" | "i8085" => .ok .i8085
  | _ => .error ⟨text⟩

end Architecture

/-! ## Legality -/

/-- The architectures on which an instruction is legal. -/
structure Support where
  z80 : Bool
  i8080 : Bool
  i8085 : Bool
  deriving DecidableEq

namespace Support

def all : Support := ⟨true, true, true⟩

def z80Only : Support := ⟨true, false, false⟩

def i8085Only : Support := ⟨false, false, true⟩

/-- Legal nowhere, as data is. -/
def none : Support := ⟨false, false, false⟩

/-- Whether the instruction is legal on an architecture. -/
def supports (support : Support) : Architecture → Bool
  | .z80 => support.z80
  | .i8080 => support.i8080
  | .i8085 => support.i8085

end Support

/-- What is wrong with an instruction on the architecture at hand. -/
inductive Warning where
  | z80Only
  | i8085Only
  | unsupported (architecture : Architecture)
  deriving DecidableEq

def Warning.text : Warning → String
  | .z80Only => "WARNING: Z80 ONLY"
  | .i8085Only => "WARNING: 8085 ONLY"
  | .unsupported architecture => "WARNING: NOT SUPPORTED ON " ++ architecture.name

/-- The warning for an instruction with this support. Data carries none: its own comment says
why it is data. -/
def Support.warning? (support : Support) (architecture : Architecture) : Option Warning :=
  if support = .none ∨ support.supports architecture then Option.none
  else if architecture ≠ .z80 ∧ support = .z80Only then some .z80Only
  else if architecture = .i8080 ∧ support.i8085 then some .i8085Only
  else some (.unsupported architecture)

end Disasm
