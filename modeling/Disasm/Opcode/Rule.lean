import Disasm.Instruction

/-!
# Opcode rules

A rule says how the bytes that follow an opcode are read: one slot after another, each taking a
fixed number of bytes, sixteen-bit values with the low byte first.
-/

namespace Disasm

/-- One operand position of a rule. -/
inductive Slot where
  /-- Fixed text, which takes no byte. -/
  | text (fixed : String)
  | imm8
  | imm16
  | port
  | direct
  /-- The address of a jump or call. -/
  | absolute
  /-- The signed displacement of a relative branch. -/
  | relative
  /-- A restart vector, which is part of the opcode. -/
  | vector (address : UInt8)
  deriving DecidableEq

namespace Slot

def length : Slot → Nat
  | .text _ | .vector _ => 0
  | .imm8 | .port | .relative => 1
  | .imm16 | .direct | .absolute => 2

def totalLength : List Slot → Nat
  | [] => 0
  | slot :: slots => slot.length + totalLength slots

/-- The word whose low byte stands first. -/
def littleEndian (low high : UInt8) : UInt16 :=
  low.toUInt16 + high.toUInt16 * 0x100

/-- Reads one slot of an instruction that starts `offset` bytes into the image: the operand, the
target that it names, and the bytes behind it. -/
def read (offset : Address) : Slot → List UInt8 → Option (Operand × Option Target × List UInt8)
  | .text fixed, rest => some (.text fixed, none, rest)
  | .vector address, rest => some (.vector, some (.absolute address.toUInt16), rest)
  | .imm8, value :: rest => some (.imm8 value, none, rest)
  | .port, value :: rest => some (.port value, none, rest)
  | .relative, value :: rest => some (.target, some (.offset (relativeTarget offset value)), rest)
  | .imm16, low :: high :: rest => some (.imm16 (littleEndian low high), none, rest)
  | .direct, low :: high :: rest => some (.direct (littleEndian low high), none, rest)
  | .absolute, low :: high :: rest =>
    some (.target, some (.absolute (littleEndian low high)), rest)
  | _, _ => none

/-- Reads all slots: the operands, and the last target among them. -/
def readAll (offset : Address) : List Slot → List UInt8 → Option (List Operand × Option Target)
  | [], _ => some ([], none)
  | slot :: slots, bytes =>
    match slot.read offset bytes with
    | none => none
    | some (operand, target, rest) =>
      match readAll offset slots rest with
      | none => none
      | some (operands, later) => some (operand :: operands, later.or target)

end Slot

/-- What the bytes at some place decode to. -/
inductive Outcome where
  | instruction (instruction : Instruction)
  /-- A known family of instructions that is left as data. -/
  | undecoded (instruction : Instruction)
  /-- The opcode has no rule. -/
  | absent
  /-- The bytes end before the instruction does. -/
  | truncated
  deriving DecidableEq

/-- The shape of the instructions with one opcode. -/
structure Rule where
  mnemonic : String
  slots : List Slot
  support : Support := .all
  io : Bool := false
  deriving DecidableEq

namespace Rule

/-- The number of bytes of an instruction whose opcode has `opcodeLength` bytes. -/
def encodedLength (rule : Rule) (opcodeLength : Nat) : Nat :=
  opcodeLength + Slot.totalLength rule.slots

/-- Reads an instruction from the bytes that start with its opcode, `offset` bytes into the
image. -/
def decode (rule : Rule) (opcodeLength offset : Nat) (bytes : List UInt8) : Outcome :=
  match Slot.readAll offset.toUInt16 rule.slots (bytes.drop opcodeLength) with
  | none => .truncated
  | some (operands, target) =>
    .instruction
      { mnemonic := rule.mnemonic, operands, bytes := bytes.take (rule.encodedLength opcodeLength),
        target, io := rule.io, support := rule.support }

end Rule

end Disasm
