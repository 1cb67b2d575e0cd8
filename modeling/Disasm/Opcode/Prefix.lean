import Disasm.Opcode.Tables

/-!
# Opcode prefixes

A prefix of the Z80 switches to another page for the byte behind it. The prefixes of the index
registers are recognised, but what follows them is not decoded: they count as one byte of data.
-/

namespace Disasm

/-- A byte that changes the meaning of the opcode behind it. -/
inductive Prefix where
  | cb
  | dd
  | ed
  | fd
  deriving DecidableEq

namespace Prefix

def ofByte? : UInt8 → Option Prefix
  | 0xCB => some .cb
  | 0xDD => some .dd
  | 0xED => some .ed
  | 0xFD => some .fd
  | _ => none

def byte : Prefix → UInt8
  | .cb => 0xCB
  | .dd => 0xDD
  | .ed => 0xED
  | .fd => 0xFD

theorem ofByte?_byte (lead : Prefix) : ofByte? lead.byte = some lead := by
  cases lead <;> rfl

/-- A prefix in front of an instruction that uses an index register. -/
def indexed (lead : Prefix) (register : String) : Outcome :=
  .undecoded (.dataByte lead.byte (register ++ " extended instruction, not decoded"))

/-- A prefix and an opcode without a rule, declared together so that decoding stays in step. -/
def unrecognized (lead : Prefix) (opcode : UInt8) : Instruction :=
  .data [lead.byte, opcode] ("Unrecognized " ++ Hex.byte lead.byte ++ "-prefixed opcode")

/-- Decodes the first instruction of `bytes` on the page behind the prefix. -/
def decodePage (lead : Prefix) (page : Page) (offset : Nat) (bytes : List UInt8) : Outcome :=
  match page.decode offset bytes with
  | .absent =>
    match bytes[page.lead]? with
    | none => .truncated
    | some opcode => .instruction (lead.unrecognized opcode)
  | outcome => outcome

/-- Decodes the first instruction of `bytes`, which starts with the prefix, `offset` bytes into
the image. -/
def decode (lead : Prefix) (offset : Nat) (bytes : List UInt8) : Outcome :=
  match lead with
  | .cb => lead.decodePage .bits offset bytes
  | .dd => lead.indexed "IX"
  | .ed => lead.decodePage .extended offset bytes
  | .fd => lead.indexed "IY"

/-- Decodes the prefixed instruction of an image at an offset, which may lie past the end. -/
def decodeAt (lead : Prefix) (image : List UInt8) (offset : Nat) : Outcome :=
  lead.decode offset (image.drop offset)

end Prefix

end Disasm
