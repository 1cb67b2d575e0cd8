import Disasm.Disassembly
import Disasm.Listing.Line

/-!
# Listings

A disassembly is written as a listing, with the address and the bytes of each instruction, or as
a source that can be assembled again. In a source each label of the image is defined: above the
instruction at its address, or in the header if it points into the middle of an instruction.
-/

namespace Disasm

namespace Listing

/-- The layout of a listing. -/
inductive Style where
  /-- Columns for the address and the bytes. -/
  | listing
  /-- Assembler source. -/
  | source
  deriving DecidableEq

/-- What a listing shows. -/
structure Options where
  style : Style := .listing
  comments : Bool := true
  /-- Whether each label says from where it is referred to. -/
  references : Bool := true
  deriving DecidableEq

/-- The lines that define a label above its instruction. -/
def labelLines (options : Options) (label : Label) : List Line :=
  if options.references && !label.sources.isEmpty then [.references label, .label label.name]
  else [.label label.name]

def instructionLine (options : Options) (entry : Entry) : Line :=
  let comment := if options.comments then entry.instruction.comment else none
  match options.style with
  | .listing =>
    .columns entry.address entry.instruction.hexBytes entry.instruction.text comment
  | .source => .statement entry.instruction.text comment

def entryLines (options : Options) (entry : Entry) : List Line :=
  entry.label.toList.flatMap (labelLines options) ++ [instructionLine options entry]

/-- The definitions of the labels that point into the middle of an instruction. -/
def equates (disassembly : Disassembly) : List Line :=
  (disassembly.labels.toList.filter fun (address, _) =>
    disassembly.image.contains address && (disassembly.entryAt? address).isNone).map
    fun (address, label) => .equate label.name address

def headerLines (options : Options) (disassembly : Disassembly) : List Line :=
  match options.style with
  | .listing => []
  | .source =>
    let equates := equates disassembly
    let divider := if equates.isEmpty && disassembly.image.length = 0 then [] else [.blank]
    .origin disassembly.image.origin :: equates ++ divider

/-- All lines of a disassembly. -/
def lines (options : Options) (disassembly : Disassembly) : List Line :=
  headerLines options disassembly ++ disassembly.entries.toList.flatMap (entryLines options)

/-- The text of a disassembly. Every line ends with a line feed. -/
def render (options : Options) (disassembly : Disassembly) : String :=
  String.join ((lines options disassembly).map fun line => line.text ++ "\n")

end Listing

end Disasm
