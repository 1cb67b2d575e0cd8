import Disasm.IntelHex.Record
import Disasm.Text

/-!
# Intel HEX images

An image is written as data records of sixteen bytes, of which the last may be shorter, and the
end-of-file record. Reading takes data records of any length as long as each one continues the
image where the one before ends. What follows the end-of-file record is not read.
-/

namespace Disasm.IntelHex

/-- Bytes from a base address on. -/
structure Image where
  base : Address
  data : List UInt8
  deriving DecidableEq

namespace Image

def empty : Image := ⟨0, []⟩

/-- The addresses of the image. -/
def span (image : Image) : Span :=
  ⟨image.base, image.data.length⟩

end Image

/-- Why an image cannot be written, or a text is no image. Lines are numbered from 1. -/
inductive Error where
  | imageTooLarge (image : Span)
  | malformedRecord (line : Nat) (reason : Record.Malformed)
  | checksumMismatch (line : Nat) (expected actual : UInt8)
  | unsupportedType (line : Nat) (type : UInt8)
  | missingEndOfFile
  | notContiguous (line : Nat) (address : Address) (expected : Nat)
  deriving DecidableEq

def Error.message : Error → String
  | .imageTooLarge image =>
    image.length.repr ++ "-byte image at $" ++ Hex.word image.origin ++
      " does not fit in a 16-bit address space"
  | .malformedRecord line reason =>
    "line " ++ line.repr ++ ": malformed record: " ++ reason.reason
  | .checksumMismatch line expected actual =>
    "line " ++ line.repr ++ ": checksum mismatch, expected " ++ Hex.byte expected ++
      " but record has " ++ Hex.byte actual
  | .unsupportedType line type =>
    "line " ++ line.repr ++ ": unsupported record type " ++ Hex.byte type
  | .missingEndOfFile => "missing end-of-file record"
  | .notContiguous line address expected =>
    "line " ++ line.repr ++ ": record at $" ++ Hex.word address ++
      " does not continue the image at $" ++ Hex.padded 4 expected

/-- The error of a record at its line. -/
def Error.ofRecord (line : Nat) : Record.Error → Error
  | .malformed reason => .malformedRecord line reason
  | .checksumMismatch expected actual => .checksumMismatch line expected actual

/-! ## Writing -/

/-- The number of bytes in a full data record. -/
def recordLength : Nat := 16

/-- The first `count` data records of the bytes from `address` on. -/
def dataRecords : (count : Nat) → (address : Address) → List UInt8 → List Record
  | 0, _, _ => []
  | count + 1, address, data =>
    ⟨address, Record.dataType, data.take recordLength⟩ ::
      dataRecords count (address + recordLength.toUInt16) (data.drop recordLength)

def Image.records (image : Image) : List Record :=
  let count := (image.data.length + recordLength - 1) / recordLength
  dataRecords count image.base image.data ++ [.endOfFile]

/-- Writes an image. Every line ends with a line feed. -/
def encode (image : Image) : Except Error String :=
  if image.span.Fits then
    .ok (String.join (image.records.map fun record => record.text ++ "\n"))
  else .error (.imageTooLarge image.span)

/-! ## Reading -/

/-- The part of an image that is read already. -/
structure Block where
  base : Address
  data : Array UInt8

/-- The image of a part. -/
def Block.image (block : Block) : Image :=
  ⟨block.base, block.data.toList⟩

/-- Adds a data record, which may be the first one. -/
def extend (line : Nat) (block : Option Block) (record : Record) : Except Error Block :=
  let bound := record.address.toNat + record.payload.length
  let current := block.getD ⟨record.address, #[]⟩
  let expected := current.base.toNat + current.data.size
  if addressSpace < bound then
    .error (.imageTooLarge ⟨current.base, bound - current.base.toNat⟩)
  else if record.address.toNat = expected then
    .ok { current with data := current.data ++ record.payload }
  else .error (.notContiguous line record.address expected)

/-- Reads the lines from number `line` on, behind the part that is read already. -/
def decodeLines : (line : Nat) → (block : Option Block) → List (List Char) → Except Error Image
  | _, _, [] => .error .missingEndOfFile
  | line, block, text :: rest =>
    match Text.trim text with
    | [] => decodeLines (line + 1) block rest
    | first :: more =>
      match Record.parse (first :: more) with
      | .error error => .error (.ofRecord line error)
      | .ok record =>
        if record.type = Record.dataType then
          match extend line block record with
          | .error error => .error error
          | .ok block => decodeLines (line + 1) (some block) rest
        else if record.type = Record.endType then .ok ((block.map Block.image).getD .empty)
        else .error (.unsupportedType line record.type)

/-- Reads an image. Blanks around a record and blank lines do not count. -/
def decode (text : String) : Except Error Image :=
  decodeLines 1 none (text.toList.splitOn '\n')

end Disasm.IntelHex
