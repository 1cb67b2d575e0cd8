import Std.Data.TreeMap
import Disasm.AddressSet
import Disasm.Text

/-!
# References and labels

A label names an address and says from where it is referred to. A target that is referred to in several
ways is named after the dominant one: a relative jump before a jump, a jump before a call, a call before
anything else.
-/

namespace Disasm

/-! ## References -/

/-- The way in which an instruction refers to its target. -/
inductive ReferenceKind where
  | relative
  | jump
  | call
  | restart
  | data
  deriving DecidableEq

/-- The kind of reference that a mnemonic in Z80 syntax makes. -/
def ReferenceKind.ofMnemonic : String → ReferenceKind
  | "JR" | "DJNZ" => .relative
  | "JP" => .jump
  | "CALL" => .call
  | "RST" => .restart
  | _ => .data

/-- What a target is to the instructions that refer to it. -/
inductive TargetKind where
  | location
  | subroutine
  | jump
  | relative
  deriving DecidableEq

namespace TargetKind

/-- What a reference makes of its target. -/
def ofReference : ReferenceKind → TargetKind
  | .relative => .relative
  | .jump => .jump
  | .call | .restart => .subroutine
  | .data => .location

/-- The higher rank dominates. -/
def rank : TargetKind → Nat
  | .location => 0
  | .subroutine => 1
  | .jump => 2
  | .relative => 3

def dominant (left right : TargetKind) : TargetKind :=
  if left.rank < right.rank then right else left

/-- The letters before the address in the name of a target. -/
def tag : TargetKind → String
  | .location => "L_"
  | .subroutine => "S_"
  | .jump => "J_"
  | .relative => "R_"

end TargetKind

/-- What is known about one target. -/
structure References where
  kind : TargetKind
  /-- The addresses of the instructions that refer to it. -/
  sources : AddressSet

namespace References

/-- A target that nothing refers to yet. -/
def empty : References := ⟨.location, .empty⟩

/-- Adds a reference from the instruction at `source`. -/
def add (references : References) (kind : ReferenceKind) (source : Address) : References :=
  { kind := references.kind.dominant (.ofReference kind)
    sources := references.sources.insert source }

/-- The name of the target at `address`. -/
def name (references : References) (address : Address) : String :=
  references.kind.tag ++ Hex.word address

end References

/-! ## Labels -/

/-- The name of an address. -/
structure Label where
  name : String
  /-- The addresses of the instructions that refer to it, in the order of their discovery. -/
  sources : List Address
  deriving DecidableEq

/-- The sources, divided by commas. -/
def Label.sourcesText (label : Label) : String :=
  String.intercalate ", " (label.sources.map fun source => "$" ++ Hex.word source)

def References.label (references : References) (address : Address) : Label :=
  ⟨references.name address, references.sources.toList⟩

/-- Labels in ascending order of their addresses. -/
abbrev LabelMap := Std.TreeMap Address Label

end Disasm
