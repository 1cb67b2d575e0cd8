import Disasm.Intel
import Disasm.Label.Resolution
import Disasm.Opcode.Prefix

/-!
# Disassembly

An image is decoded from its first byte to its last, one instruction after another. Bytes that
cannot be decoded become data, so decoding never fails; an image is refused only if it does not
fit into the address space.
-/

namespace Disasm

/-! ## Decoding -/

/-- Decodes the bytes at `offset`, of which `first` is the first. Prefixes belong to the Z80. -/
def decodeOutcome (architecture : Architecture) (offset : Nat) (first : UInt8)
    (rest : List UInt8) : Outcome :=
  match Prefix.ofByte? first with
  | some lead =>
    if architecture.isPrimary then lead.decode offset (first :: rest)
    else (Page.base architecture).decode offset (first :: rest)
  | none => (Page.base architecture).decode offset (first :: rest)

/-- The instruction that starts with `first`, or the declaration of `first` as data. -/
def decodeFirst (architecture : Architecture) (offset : Nat) (first : UInt8)
    (rest : List UInt8) : Instruction :=
  match decodeOutcome architecture offset first rest with
  | .instruction instruction | .undecoded instruction => instruction
  | .absent => .dataByte first ("Unknown opcode, not supported on " ++ architecture.name)
  | .truncated => .dataByte first "Incomplete instruction at end of image"

/-- Appends to `done` the entries of the bytes that remain from `offset` on. The first `pending`
of these bytes belong to an instruction that is done already. -/
def sweep (architecture : Architecture) (origin : Address) :
    (pending offset : Nat) → List UInt8 → (done : Array Entry) → Array Entry
  | _, _, [], done => done
  | pending + 1, offset, _ :: rest, done => sweep architecture origin pending (offset + 1) rest done
  | 0, offset, first :: rest, done =>
    let instruction := decodeFirst architecture offset first rest
    sweep architecture origin (instruction.size - 1) (offset + 1) rest
      (done.push (instruction.place offset.toUInt16 origin architecture))

/-! ## The result -/

/-- A decoded image. -/
structure Disassembly where
  image : Span
  architecture : Architecture
  /-- The instructions in ascending order of their addresses. -/
  entries : Array Entry
  /-- The labels of all targets, inside the image or not. -/
  labels : LabelMap

/-- An image that does not fit into the address space. -/
structure ImageTooLarge where
  image : Span
  deriving DecidableEq

def ImageTooLarge.message (error : ImageTooLarge) : String :=
  error.image.length.repr ++ "-byte image at origin $" ++ Hex.word error.image.origin ++
    " extends past the end of the 16-bit address space"

/-- Disassembles an image that is loaded at `origin`. -/
def disassemble (image : List UInt8) (origin : Address) (architecture : Architecture) :
    Except ImageTooLarge Disassembly :=
  let span : Span := ⟨origin, image.length⟩
  if span.Fits then
    let (entries, labels) := resolve span (sweep architecture origin 0 0 image #[]).toList
    let spelled :=
      if architecture.isPrimary then entries
      else entries.map fun entry => { entry with instruction := entry.instruction.toIntel }
    .ok { image := span, architecture, entries := spelled.toArray, labels }
  else .error ⟨span⟩

namespace Disassembly

/-- Searches the entries whose index is at least `low` and below `high`. -/
def searchEntry (entries : Array Entry) (address : Address) (low high : Nat)
    (bound : high ≤ entries.size) : Option Entry :=
  if _ : low < high then
    let middle := (low + high) / 2
    have : middle < entries.size := by omega
    if entries[middle].address = address then some entries[middle]
    else if entries[middle].address < address then
      searchEntry entries address (middle + 1) high bound
    else searchEntry entries address low middle (by omega)
  else none
termination_by high - low

/-- The entry that starts at an address. -/
def entryAt? (disassembly : Disassembly) (address : Address) : Option Entry :=
  searchEntry disassembly.entries address 0 disassembly.entries.size (Nat.le_refl _)

end Disassembly

end Disasm
