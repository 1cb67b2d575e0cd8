/-!
# TOML values

The values of a document. Of a number with a fraction or an exponent only its being one is kept,
and whether it is too large.
-/

namespace Disasm.Toml

/-- How a table came to be, which decides what may be added to it. -/
inductive TableKind where
  /-- Written as one value, and complete. -/
  | inline
  /-- By a header of its own. -/
  | header
  /-- As a part of the path of a header. -/
  | path
  /-- As a part of a dotted key. -/
  | dotted
  deriving DecidableEq

/-- A value. -/
inductive Value where
  | boolean (value : Bool)
  | integer (value : Int)
  | float (isTooLarge : Bool)
  /-- In place of an integer, and of none. -/
  | unreadable
  | string (text : String)
  | array (items : List Value)
  | table (kind : TableKind) (members : List (String × Value))
  /-- Tables that share a header, of which the latest can still grow. -/
  | tables (latest : List (String × Value)) (earlier : List (List (String × Value)))

/-- Values by key. -/
abbrev Table := List (String × Value)

namespace Value

/-- The items of an array, however it is written. -/
def items? : Value → Option (List Value)
  | .array items => some items
  | .tables latest earlier => some ((latest :: earlier).reverse.map (.table .header))
  | _ => none

/-! ## Numbers -/

/-- Whether an integer has 128 bits, with a sign or without one. -/
def fitsWord (value : Int) : Bool :=
  -Int.ofNat (Nat.pow 2 127) ≤ value && value < Int.ofNat (Nat.pow 2 128)

mutual

/-- Whether all numbers in a value can be read, and none is too large. -/
def isReadable : Value → Bool
  | .integer value => fitsWord value
  | .float isTooLarge => !isTooLarge
  | .unreadable => false
  | .array items => areReadable items
  | .table _ members => areMembersReadable members
  | .tables latest earlier => areMembersReadable latest && areTablesReadable earlier
  | .boolean _ | .string _ => true

/-- Whether all numbers in the items of an array can be read. -/
def areReadable : List Value → Bool
  | [] => true
  | item :: rest => isReadable item && areReadable rest

/-- Whether all numbers in a table can be read. -/
def areMembersReadable : List (String × Value) → Bool
  | [] => true
  | (_, value) :: rest => isReadable value && areMembersReadable rest

/-- Whether all numbers in the tables can be read. -/
def areTablesReadable : List (List (String × Value)) → Bool
  | [] => true
  | first :: rest => areMembersReadable first && areTablesReadable rest

end

end Value

end Disasm.Toml
