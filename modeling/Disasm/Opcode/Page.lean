import Disasm.Opcode.Rule

/-!
# Opcode pages

A page assigns a rule to some of the 256 opcodes. Pages are built from layers of assignments, of
which a later one wins. The opcode that selects the rule may have bytes before it.
-/

namespace Disasm

/-- Rules by opcode. -/
structure Page where
  /-- The number of bytes before the opcode. -/
  lead : Nat
  rules : Vector (Option Rule) 256

namespace Page

/-- Assignments of rules to opcodes, of which the last one wins. -/
abbrev Layer := List (UInt8 × Rule)

/-- The page in which each layer overrides the layers before it. -/
def ofLayers (lead : Nat) (layers : List Layer) : Page :=
  let assignments := layers.flatten.reverse
  { lead, rules := Vector.ofFn fun opcode => assignments.lookup opcode.val.toUInt8 }

def rule? (page : Page) (opcode : UInt8) : Option Rule :=
  have : opcode.toNat < 256 := opcode.toNat_lt
  page.rules[opcode.toNat]

/-- The number of opcodes that have a rule. -/
def size (page : Page) : Nat :=
  page.rules.toList.countP Option.isSome

/-- The number of bytes up to the opcode, the opcode included. -/
def opcodeLength (page : Page) : Nat :=
  page.lead + 1

/-- Decodes the first instruction of `bytes`, which stand `offset` bytes into the image. -/
def decode (page : Page) (offset : Nat) (bytes : List UInt8) : Outcome :=
  match bytes[page.lead]? with
  | none => .truncated
  | some opcode =>
    match page.rule? opcode with
    | none => .absent
    | some rule => rule.decode page.opcodeLength offset bytes

/-- Decodes the instruction of an image at an offset, which may lie past the end. -/
def decodeAt (page : Page) (image : List UInt8) (offset : Nat) : Outcome :=
  page.decode offset (image.drop offset)

@[simp]
theorem rule?_ofLayers (lead : Nat) (layers : List Layer) (opcode : UInt8) :
    (ofLayers lead layers).rule? opcode = layers.flatten.reverse.lookup opcode := by
  simp [ofLayers, rule?]

end Page

end Disasm
