import Disasm.Disassembly
import Disasm.Json.Value

/-!
# Reports

A disassembly as a JSON value, for other programs to read. What an entry does not have is left
out of it.
-/

namespace Disasm.Json

def architectureWord : Architecture → String
  | .z80 => "Z80"
  | .i8080 => "I8080"
  | .i8085 => "I8085"

def addresses (addresses : List Address) : Value :=
  .array (addresses.map fun address => .number address.toNat)

/-- A member that may be missing. -/
def textMember (key : String) (text : Option String) : List (String × Value) :=
  (text.map fun text => (key, Value.string text)).toList

/-- The members that tell how an entry is labelled. -/
def labelMembers (label : Label) : List (String × Value) :=
  ("label", .string label.name) ::
    if label.sources.isEmpty then [] else [("references", addresses label.sources)]

def ofEntry (entry : Entry) : Value :=
  let instruction := entry.instruction
  .object <|
    [("address", .number entry.address.toNat),
      ("bytes", .array (instruction.bytes.map fun byte => .number byte.toNat)),
      ("mnemonic", .string instruction.mnemonic),
      ("operands", .string instruction.operandText)] ++
    textMember "z80_mnemonic" instruction.z80Mnemonic ++
    textMember "comment" instruction.comment ++
    entry.label.toList.flatMap labelMembers

def ofLabel (image : Span) (address : Address) (label : Label) : Value :=
  .object
    [("address", .number address.toNat), ("label", .string label.name),
      ("in_image", .bool (image.contains address))]

/-- The report of a disassembly. -/
def ofDisassembly (disassembly : Disassembly) : Value :=
  .object
    [("architecture", .string (architectureWord disassembly.architecture)),
      ("origin", .number disassembly.image.origin.toNat),
      ("length", .number disassembly.image.length),
      ("entries", .array (disassembly.entries.toList.map ofEntry)),
      ("labels", .array (disassembly.labels.toList.map fun (address, label) =>
        ofLabel disassembly.image address label))]

end Disasm.Json
