import Disasm.Entry

/-!
# Listing lines

The kinds of lines of which listings and assembler sources consist.
-/

namespace Disasm

/-- One line of a listing. -/
inductive Line where
  /-- Sets the address of what follows. -/
  | origin (address : Address)
  /-- Defines a label that no line can carry. -/
  | equate (name : String) (address : Address)
  | blank
  /-- Says from where the label below is referred to. -/
  | references (named : Label)
  /-- Defines a label as the address of the line below. -/
  | label (name : String)
  /-- An instruction behind its address and its bytes. -/
  | columns (address : Address) (hexBytes text : String) (comment : Option String)
  /-- An instruction alone. -/
  | statement (text : String) (comment : Option String)
  deriving DecidableEq

namespace Line

/-- The width of the column of bytes: two digits for each, and the spaces between them. -/
def hexColumnWidth : Nat := 3 * maxInstructionLength - 1

/-- The text with blanks behind it up to a width. -/
def padRight (width : Nat) (text : String) : String :=
  text ++ String.ofList (List.replicate (width - text.length) ' ')

def commentText : Option String → String
  | some comment => " ; " ++ comment
  | none => ""

/-- The characters of a line. -/
def text : Line → String
  | .origin address => "\tORG $" ++ Hex.word address
  | .equate name address => name ++ "\tEQU $" ++ Hex.word address
  | .blank => ""
  | .references named => "; referenced from " ++ named.sourcesText
  | .label name => name ++ ":"
  | .columns address hexBytes text comment =>
    Hex.word address ++ "  " ++ padRight hexColumnWidth hexBytes ++ "  " ++ text ++
      commentText comment
  | .statement text comment => "\t" ++ text ++ commentText comment

end Line

end Disasm
