import Disasm.Address
import Disasm.Architecture
import Disasm.Text

/-!
# Instructions

A decoded instruction keeps the bytes it was read from, its operands in symbolic form, and the
address that it refers to. Its text is rendered on demand, so that a label which is found later
replaces the bare target address.
-/

namespace Disasm

/-- The place that an instruction refers to. -/
inductive Target where
  /-- Counted from the first byte of the image, which may be loaded anywhere. -/
  | offset (distance : Address)
  | absolute (address : Address)
  deriving DecidableEq

/-- The number by which a target is written, whichever way it is counted. -/
def Target.value : Target → Address
  | .offset distance => distance
  | .absolute address => address

/-- An operand in symbolic form. -/
inductive Operand where
  /-- A register, a condition or any other fixed text. -/
  | text (fixed : String)
  | imm8 (value : UInt8)
  | imm16 (value : UInt16)
  /-- An input or output port. -/
  | port (value : UInt8)
  /-- The contents of a memory cell. -/
  | direct (address : Address)
  /-- The target of the instruction. -/
  | target
  /-- The target of the instruction, which is a restart vector. -/
  | vector
  deriving DecidableEq

def maxInstructionLength : Nat := 4

/-- A decoded instruction or a declaration of data. -/
structure Instruction where
  mnemonic : String
  operands : List Operand
  bytes : List UInt8
  comment : Option String := none
  target : Option Target := none
  targetLabel : Option String := none
  /-- Whether it performs input or output. -/
  io : Bool := false
  support : Support := .all
  /-- The mnemonic in Z80 syntax, if the instruction is spelled otherwise. -/
  z80Mnemonic : Option String := none
  deriving DecidableEq

namespace Instruction

/-- A number of bytes that no instruction has. -/
structure InvalidLength where
  length : Nat
  deriving DecidableEq

/-- An instruction that is legal everywhere, if it has an admissible number of bytes. -/
def ofBytes (mnemonic : String) (operands : List Operand) (bytes : List UInt8) :
    Except InvalidLength Instruction :=
  if 0 < bytes.length ∧ bytes.length ≤ maxInstructionLength then .ok { mnemonic, operands, bytes }
  else .error ⟨bytes.length⟩

def size (instruction : Instruction) : Nat :=
  instruction.bytes.length

/-- Adds to the comment. What it says already is kept and stands first. -/
def addComment (instruction : Instruction) (text : String) : Instruction :=
  { instruction with
    comment := match instruction.comment with
      | some comment => some (comment ++ "; " ++ text)
      | none => some text }

/-- Declares bytes as data. Data is legal on no architecture. -/
def data (bytes : List UInt8) (comment : String) : Instruction :=
  { mnemonic := "DB", operands := bytes.map .imm8, bytes, comment := some comment,
    support := .none }

/-- Declares one byte as data. -/
def dataByte (byte : UInt8) (comment : String) : Instruction :=
  data [byte] comment

/-- The address that the instruction refers to, once it is known. -/
def destination? (instruction : Instruction) : Option Address :=
  match instruction.target with
  | some (.absolute address) => some address
  | _ => none

/-! ## Text -/

/-- The text of an operand of this instruction. -/
def renderOperand (instruction : Instruction) : Operand → String
  | .text fixed => fixed
  | .imm8 value => "$" ++ Hex.byte value
  | .imm16 value => "$" ++ Hex.word value
  | .port value => "($" ++ Hex.byte value ++ ")"
  | .direct address => "($" ++ Hex.word address ++ ")"
  | .target =>
    match instruction.targetLabel, instruction.target with
    | some label, _ => label
    | none, some target => "$" ++ Hex.word target.value
    | none, none => "$????"
  | .vector =>
    match instruction.targetLabel, instruction.target with
    | some label, _ => label
    | none, some target => "$" ++ Hex.byte target.value.toUInt8
    | none, none => "$??"

/-- The operands, divided by commas. -/
def operandText (instruction : Instruction) : String :=
  String.intercalate ", " (instruction.operands.map instruction.renderOperand)

/-- The mnemonic and the operands. -/
def text (instruction : Instruction) : String :=
  if instruction.operands.isEmpty then instruction.mnemonic
  else instruction.mnemonic ++ " " ++ instruction.operandText

/-- The bytes in hexadecimal, divided by spaces. -/
def hexBytes (instruction : Instruction) : String :=
  String.intercalate " " (instruction.bytes.map Hex.byte)

end Instruction

end Disasm
