import Disasm.Text
import Disasm.Toml.Value

/-!
# TOML values without quotes

Truth values, integers and floats. The shape of a number is judged here: a sign, a radix, and
underscores, which stand between digits. An integer of this shape may have other characters away
from its underscores, or no digits behind its radix; it is then a value that cannot be read.
-/

namespace Disasm.Toml.Scalar

/-! ## Digits -/

/-- Whether a character is a digit below `radix`. -/
def isDigit (radix : Nat) (char : Char) : Bool :=
  (Numeral.digit? radix char).isSome

def ofDigits (radix : Nat) (digits : List Char) : Nat :=
  digits.foldl (fun value digit => value * radix + (Numeral.digit? radix digit).getD 0) 0

def natural? (radix : Nat) (text : List Char) : Option Nat :=
  if !text.isEmpty && text.all (isDigit radix) then some (ofDigits radix text) else none

/-- Takes the sign from a text, and tells whether it is a minus sign. -/
def unsign : List Char → Bool × List Char
  | '-' :: rest => (true, rest)
  | '+' :: rest => (false, rest)
  | rest => (false, rest)

/-- Reads an integer with a sign or without one. -/
def signed? (text : List Char) : Option Int :=
  let (negative, rest) := unsign text
  (natural? 10 rest).map fun value => if negative then -Int.ofNat value else Int.ofNat value

/-- Takes the underscores out of a text. On both sides of each one stands a digit. -/
def join? (radix : Nat) (text : List Char) : Option (List Char) :=
  let starts := fun group : List Char => group.head?.any (isDigit radix)
  let ends := fun group : List Char => group.getLast?.any (isDigit radix)
  match text.splitOn '_' with
  | first :: second :: rest =>
    if ends first && (second :: rest).all starts && (second :: rest).dropLast.all ends then
      some (first ++ second ++ rest.flatten)
    else none
  | groups => some groups.flatten

/-! ## Integers -/

/-- The integer, or the value that cannot be read. -/
def integer : Option Int → Value
  | some value => .integer value
  | none => .unreadable

/-- Reads the digits behind a radix. There may be none. -/
def radixed? (radix : Nat) (text : List Char) : Option Value :=
  if text.all fun char => isDigit radix char || char = '_' then
    (join? radix text).map fun digits => integer ((natural? radix digits).map Int.ofNat)
  else none

/-- Reads a decimal integer, beside whose underscores any digits may stand. -/
def decimal? (text : List Char) : Option Value :=
  (join? 16 text).map fun joined => integer (signed? joined)

/-! ## Floats -/

/-- The least number that is rounded to infinity. -/
def floatBound : Nat := Nat.pow 2 1024 - Nat.pow 2 970

/-- Whether a decimal number is below the bound. Numbers far from it are told by their number of
digits before the point. -/
def isFinite (significand : Nat) (exponent : Int) : Bool :=
  let magnitude := (significand.repr.length : Int) + exponent
  if significand = 0 || magnitude < 300 then true
  else if 310 < magnitude then false
  else if 0 ≤ exponent then significand * Nat.pow 10 exponent.toNat < floatBound
  else significand < floatBound * Nat.pow 10 (-exponent).toNat

def isExponentMark (char : Char) : Bool :=
  char = 'e' || char = 'E'

/-- The exponent behind its letter, or zero. -/
def exponent? : List Char → Option Int
  | [] => some 0
  | _ :: text => signed? text

/-- Whether a text is a fraction behind its point, or empty. -/
def isFraction : List Char → Bool
  | [] => true
  | _ :: text => (natural? 10 text).isSome

/-- Reads a float with a fraction or an exponent, before which a leading zero stands alone. -/
def float? (text : List Char) : Option Value := do
  let (_, body) := unsign (← join? 10 text)
  let number := body.takeWhile fun char => !isExponentMark char
  let whole := number.takeWhile (· ≠ '.')
  let part := number.dropWhile (· ≠ '.')
  let exponent ← exponent? (body.dropWhile fun char => !isExponentMark char)
  let _ ← natural? 10 whole
  if !isFraction part || whole.head? = some '0' && 1 < whole.length then none
  else
    let significand := ofDigits 10 (whole ++ part.drop 1)
    some (.float (!isFinite significand (exponent - (part.drop 1).length)))

/-! ## Values -/

/-- Reads a number without a radix. What follows its first digits tells an integer from a float. -/
def number? (text : List Char) : Option Value :=
  let (_, body) := unsign text
  let tail := body.dropWhile (isDigit 10)
  if body = "inf".toList || body = "nan".toList then some (.float false)
  else if !body.head?.any (isDigit 10) then none
  else if tail.any fun char => char = '.' || isExponentMark char then float? text
  else if body = ['0'] then decimal? text
  else if body.head? = some '0' || tail.contains ' ' then none
  else if tail.isEmpty || tail.head? = some '_' then decimal? text
  else none

/-- Reads a value that is neither quoted nor composed. Only numbers without a radix have signs. -/
def read? (text : String) : Option Value :=
  match text.toList with
  | '0' :: 'x' :: digits => radixed? 16 digits
  | '0' :: 'o' :: digits => radixed? 8 digits
  | '0' :: 'b' :: digits => radixed? 2 digits
  | chars =>
    if text = "true" then some (.boolean true)
    else if text = "false" then some (.boolean false)
    else number? chars

end Disasm.Toml.Scalar
