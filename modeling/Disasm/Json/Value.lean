import Disasm.Text

/-!
# JSON text

The values that a report holds, and their text: every member on a line of its own, two blanks of
indentation for each level, and nothing between the brackets of an empty list.
-/

namespace Disasm.Json

/-- A JSON value with natural numbers only. -/
inductive Value where
  | bool (value : Bool)
  | number (value : Nat)
  | string (value : String)
  | array (items : List Value)
  | object (members : List (String × Value))

/-- The text of a character inside a string. -/
def escape (char : Char) : String :=
  match char with
  | '"' => "\\\""
  | '\\' => "\\\\"
  | '\x08' => "\\b"
  | '\x0c' => "\\f"
  | '\n' => "\\n"
  | '\r' => "\\r"
  | '\t' => "\\t"
  | char =>
    if char.toNat < 0x20 then "\\u" ++ String.ofList ((Hex.field 4 char.toNat).map Char.toLower)
    else char.toString

/-- The text of a string. -/
def quote (text : String) : String :=
  "\"" ++ String.join (text.toList.map escape) ++ "\""

/-- A new line with the indentation of a level. -/
def newLine (level : Nat) : String :=
  "\n" ++ String.ofList (List.replicate (2 * level) ' ')

mutual

/-- Appends the text of a value whose first line is already indented. -/
def Value.write (level : Nat) (value : Value) (before : String) : String :=
  match value with
  | .bool true => before ++ "true"
  | .bool false => before ++ "false"
  | .number value => before ++ value.repr
  | .string value => before ++ quote value
  | .array [] => before ++ "[]"
  | .array (first :: rest) =>
    writeItems (level + 1) rest (first.write (level + 1) (before ++ "[" ++ newLine (level + 1))) ++
      newLine level ++ "]"
  | .object [] => before ++ "\x7b\x7d"
  | .object (first :: rest) =>
    writeMembers (level + 1) rest (writeMember (level + 1) first
      (before ++ "\x7b" ++ newLine (level + 1))) ++ newLine level ++ "\x7d"

/-- Appends the items of an array behind the first one. -/
def writeItems (level : Nat) (items : List Value) (before : String) : String :=
  match items with
  | [] => before
  | item :: rest => writeItems level rest (item.write level (before ++ "," ++ newLine level))

/-- Appends the members of an object behind the first one. -/
def writeMembers (level : Nat) (members : List (String × Value)) (before : String) : String :=
  match members with
  | [] => before
  | member :: rest =>
    writeMembers level rest (writeMember level member (before ++ "," ++ newLine level))

def writeMember (level : Nat) (member : String × Value) (before : String) : String :=
  match member with
  | (key, value) => value.write level (before ++ quote key ++ ": ")

end

def Value.text (value : Value) : String :=
  value.write 0 ""

end Disasm.Json
