import Disasm.Entry

/-!
# Label resolution

Labels are found in a first pass over the entries, which collects all references to each target.
A second pass gives every entry the label of its address, and every instruction the label of its
target. A target outside the image has a label, but keeps its number in the text.
-/

namespace Disasm

/-- References by target, in ascending order of the targets. -/
abbrev ReferenceMap := Std.TreeMap Address References

def ReferenceMap.add (map : ReferenceMap) (entry : Entry) : ReferenceMap :=
  match entry.instruction.destination? with
  | none => map
  | some target =>
    map.alter target fun references =>
      some ((references.getD .empty).add (.ofMnemonic entry.instruction.mnemonic) entry.address)

/-- The references that the entries make. -/
def ReferenceMap.ofEntries (entries : List Entry) : ReferenceMap :=
  entries.foldl ReferenceMap.add ∅

/-- The labels of all targets. -/
def LabelMap.ofEntries (entries : List Entry) : LabelMap :=
  (ReferenceMap.ofEntries entries).map fun address references => references.label address

namespace Entry

/-- The label of the target, if the target lies in the image. -/
def targetLabel? (entry : Entry) (labels : LabelMap) (image : Span) : Option Label :=
  (entry.instruction.destination?.filter image.contains).bind (labels[·]?)

/-- Gives the entry its label, and the instruction the label of its target. -/
def attach (labels : LabelMap) (image : Span) (entry : Entry) : Entry :=
  { entry with
    instruction :=
      match entry.targetLabel? labels image with
      | some label => { entry.instruction with targetLabel := some label.name }
      | none => entry.instruction
    label := labels[entry.address]? }

end Entry

/-- Labels the entries of an image. The labels include those of targets outside of it. -/
def resolve (image : Span) (entries : List Entry) : List Entry × LabelMap :=
  let labels := LabelMap.ofEntries entries
  (entries.map (Entry.attach labels image), labels)

end Disasm
