import Disasm.Instruction
import Disasm.Label.Basic

/-!
# Entries

An entry is an instruction at its address. An instruction is decoded without knowledge of where
the image is loaded; placing it settles its target and adds what is to be said about it on the
architecture at hand.
-/

namespace Disasm

/-- An instruction at its address. -/
structure Entry where
  address : Address
  instruction : Instruction
  /-- The label of the address, if anything refers to it. -/
  label : Option Label := none
  deriving DecidableEq

/-- The target of an image that is loaded at `origin`. -/
def Target.rebase (origin : Address) : Target → Target
  | .offset distance => .absolute (origin + distance)
  | .absolute address => .absolute address

namespace Instruction

/-- Adds the warning for an instruction that is not legal on the architecture. -/
def warn (instruction : Instruction) (architecture : Architecture) : Instruction :=
  match instruction.support.warning? architecture with
  | some warning => instruction.addComment warning.text
  | none => instruction

/-- The entry of an instruction that was decoded `offset` bytes into an image at `origin`. -/
def place (instruction : Instruction) (offset origin : Address) (architecture : Architecture) :
    Entry :=
  { address := origin + offset
    instruction :=
      { instruction with target := instruction.target.map (.rebase origin) }.warn architecture }

end Instruction

end Disasm
