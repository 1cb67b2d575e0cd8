import Disasm.Address
import Disasm.Text

/-!
# Intel HEX records

A record is one line of text: a colon, then pairs of digits for the number of payload bytes, the
address with its high byte first, the type, the payload and the checksum. All bytes of a record
sum to zero.
-/

namespace Disasm.IntelHex

/-- The byte that makes the sum zero. -/
def checksum (bytes : List UInt8) : UInt8 :=
  -(bytes.foldl (· + ·) 0)

/-- A record without what can be computed from the rest. -/
structure Record where
  address : Address
  type : UInt8
  payload : List UInt8
  deriving DecidableEq

namespace Record

/-- The type of records that hold a part of the image. -/
def dataType : UInt8 := 0x00

/-- The type of the last record. -/
def endType : UInt8 := 0x01

def endOfFile : Record := ⟨0, endType, []⟩

/-! ## Writing -/

/-- The bytes before the checksum. -/
def body (record : Record) : List UInt8 :=
  record.payload.length.toUInt8 :: (record.address >>> 8).toUInt8 :: record.address.toUInt8 ::
    record.type :: record.payload

/-- The line of a record. -/
def text (record : Record) : String :=
  ":" ++ String.join ((record.body ++ [checksum record.body]).map Hex.byte)

/-! ## Reading -/

/-- Why a line is no record. -/
inductive Malformed where
  | missingColon
  | notBytePairs
  | invalidDigit
  | tooShort
  | countMismatch
  deriving DecidableEq

def Malformed.reason : Malformed → String
  | .missingColon => "record does not start with ':'"
  | .notBytePairs => "record is not a sequence of hex byte pairs"
  | .invalidDigit => "invalid hex digit"
  | .tooShort => "record is too short"
  | .countMismatch => "byte count does not match record length"

/-- Why a line is refused. -/
inductive Error where
  | malformed (reason : Malformed)
  | checksumMismatch (expected actual : UInt8)
  deriving DecidableEq

/-- Reads pairs of characters as hexadecimal numerals, behind the bytes that are done. A numeral
may have a plus sign, so `+F` is a byte too. -/
def readPairs : List Char → (done : Array UInt8) → Option (List UInt8)
  | [], done => some done.toList
  | [_], _ => none
  | high :: low :: rest, done =>
    match Numeral.parse 16 0x100 [high, low] with
    | .ok value => readPairs rest (done.push value.toUInt8)
    | .error _ => none

/-- Interprets the bytes of a line. -/
def ofBytes : List UInt8 → Except Error Record
  | count :: high :: low :: type :: first :: rest =>
    if rest.length = count.toNat then
      let payload := (first :: rest).dropLast
      let expected := checksum (count :: high :: low :: type :: payload)
      let actual := (first :: rest).getLast (List.cons_ne_nil _ _)
      if expected = actual then .ok ⟨high.toUInt16 <<< 8 ||| low.toUInt16, type, payload⟩
      else .error (.checksumMismatch expected actual)
    else .error (.malformed .countMismatch)
  | _ => .error (.malformed .tooShort)

/-- Reads a line that has no blanks around it. -/
def parse : List Char → Except Error Record
  | ':' :: digits =>
    if digits.all (·.toNat < 0x80) && digits.length % 2 = 0 then
      match readPairs digits #[] with
      | some bytes => ofBytes bytes
      | none => .error (.malformed .invalidDigit)
    else .error (.malformed .notBytePairs)
  | _ => .error (.malformed .missingColon)

end Record

end Disasm.IntelHex
