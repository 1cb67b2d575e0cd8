/-!
# Digits, numerals and blanks

Hexadecimal digits are written in upper case, in fields of a fixed width, and read in either case. A
numeral is an optional plus sign and at least one digit. Its value has to stay below a bound; digits
are judged from left to right, and the first offence is reported. Blanks are the characters with the
Unicode property `White_Space`.
-/

namespace Disasm

namespace Hex

/-! ## Writing digits -/

/-- The digit of a value below sixteen. -/
def digit (value : Nat) : Char :=
  if value < 10 then Char.ofNat ('0'.toNat + value) else Char.ofNat ('A'.toNat + value - 10)

/-- The `width` low digits of a number, the most significant first. -/
def field : (width value : Nat) → List Char
  | 0, _ => []
  | width + 1, value => field width (value / 16) ++ [digit (value % 16)]

/-- All digits of a number, with leading zeros up to `width`. -/
def padded (width value : Nat) : String :=
  String.ofList (field (max width (value.log2 / 4 + 1)) value)

def byte (value : UInt8) : String :=
  String.ofList (field 2 value.toNat)

def word (value : UInt16) : String :=
  String.ofList (field 4 value.toNat)

theorem length_field (width value : Nat) : (field width value).length = width := by
  induction width generalizing value with
  | zero => rfl
  | succ width ih => simp [field, ih]

/-! ## Reading digits -/

/-- The value of a digit in either case. -/
def value? (char : Char) : Option Nat :=
  if '0' ≤ char ∧ char ≤ '9' then some (char.toNat - '0'.toNat)
  else if 'A' ≤ char ∧ char ≤ 'F' then some (char.toNat - 'A'.toNat + 10)
  else if 'a' ≤ char ∧ char ≤ 'f' then some (char.toNat - 'a'.toNat + 10)
  else none

theorem value?_digit : ∀ value < 16, value? (digit value) = some value := by decide

end Hex

/-! ## Numerals -/

namespace Numeral

/-- Why a text is no numeral below the bound. -/
inductive Error where
  | empty
  | invalidDigit
  | tooLarge
  deriving DecidableEq

def Error.message : Error → String
  | .empty => "cannot parse integer from empty string"
  | .invalidDigit => "invalid digit found in string"
  | .tooLarge => "number too large to fit in target type"

/-- The value of a digit below `radix`, which is at most sixteen. -/
def digit? (radix : Nat) (char : Char) : Option Nat :=
  (Hex.value? char).filter (· < radix)

/-- Continues a numeral of value `value` with more digits. -/
def extend (radix bound : Nat) : (value : Nat) → List Char → Except Error Nat
  | value, [] => .ok value
  | value, char :: rest =>
    match digit? radix char with
    | none => .error .invalidDigit
    | some digit =>
      if value * radix + digit < bound then extend radix bound (value * radix + digit) rest
      else .error .tooLarge

/-- Reads a numeral whose value is below `bound`. -/
def parse (radix bound : Nat) : List Char → Except Error Nat
  | [] => .error .empty
  | ['+'] => .error .invalidDigit
  | '+' :: digits => extend radix bound 0 digits
  | digits => extend radix bound 0 digits

end Numeral

/-! ## Blanks -/

namespace Text

/-- The first and last code point of each run of blank characters, ascending. -/
def blankRanges : List (Nat × Nat) :=
  [(0x09, 0x0D), (0x20, 0x20), (0x85, 0x85), (0xA0, 0xA0), (0x1680, 0x1680), (0x2000, 0x200A),
    (0x2028, 0x2029), (0x202F, 0x202F), (0x205F, 0x205F), (0x3000, 0x3000)]

/-- The number of blank characters. -/
example : (blankRanges.map fun (first, last) => last + 1 - first).sum = 25 := by decide

/-- Whether a character has the property `White_Space`. -/
def isBlank (char : Char) : Bool :=
  blankRanges.any fun (first, last) => first ≤ char.toNat && char.toNat ≤ last

/-- The text without its leading and trailing blanks. -/
def trim (text : List Char) : List Char :=
  ((text.dropWhile isBlank).reverse.dropWhile isBlank).reverse

end Text

end Disasm
