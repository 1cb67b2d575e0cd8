import Disasm.Address
import Disasm.Text

/-!
# Origins

The text of an origin: a hexadecimal numeral with a mark before or behind it, or a decimal
numeral, with blanks around it or not.
-/

namespace Disasm.Origin

/-- Why a text is no origin. -/
inductive Error where
  | invalid (text : String) (cause : Numeral.Error)
  | outsideAddressSpace (text : String)
  deriving DecidableEq

def Error.message : Error → String
  | .invalid text cause => "invalid address '" ++ text ++ "': " ++ cause.message
  | .outsideAddressSpace text =>
    "address '" ++ text ++ "' is outside the 16-bit address space"

/-- The radix and the numeral without its mark. Only one mark is taken away. -/
def unmark (text : List Char) : Nat × List Char :=
  match text with
  | '0' :: 'x' :: digits | '0' :: 'X' :: digits | '$' :: digits => (16, digits)
  | _ =>
    match text.getLast? with
    | some 'h' | some 'H' => (16, text.dropLast)
    | _ => (10, text)

/-- Numerals have to stay below this bound to be read at all. -/
def numeralBound : Nat := 0x100000000

def parse (text : String) : Except Error Address :=
  let trimmed := Text.trim text.toList
  let (radix, digits) := unmark trimmed
  match Numeral.parse radix numeralBound digits with
  | .error cause => .error (.invalid (String.ofList trimmed) cause)
  | .ok value =>
    if value < addressSpace then .ok value.toUInt16
    else .error (.outsideAddressSpace (String.ofList trimmed))

end Disasm.Origin
