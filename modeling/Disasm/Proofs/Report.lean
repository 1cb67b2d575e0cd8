import Mathlib.Data.List.Forall2
import Disasm.Json.Report
import Disasm.Proofs.JsonText
import Disasm.Proofs.Labels

/-!
# Reports are lossless

A report is read back from its text (`parse_text`). `Tells` says what has to be found in it: the
parameters of the run, the entries with the bytes of the image, and the labels in the order of their
addresses. An entry has the members `label` and `references` both or neither, because no label is
without a source (`sources_ne_nil`).
-/

namespace Disasm

namespace Json

/-! ## What a report tells -/

def addressNumbers (addresses : List Address) : Datum :=
  .array (addresses.map fun address => .number address.toNat)

def byteNumbers (bytes : List UInt8) : List Datum :=
  bytes.map fun byte => .number byte.toNat

/-- What is told about an entry. -/
structure TellsEntry (labels : LabelMap) (entry : Entry) (report : Datum) : Prop where
  address : report.member? "address" = some (.number entry.address.toNat)
  bytes : report.member? "bytes" = some (.array (byteNumbers entry.instruction.bytes))
  mnemonic : report.member? "mnemonic" = some (.string entry.instruction.mnemonic)
  operands : report.member? "operands" = some (.string entry.instruction.operandText)
  z80Mnemonic : report.member? "z80_mnemonic" = entry.instruction.z80Mnemonic.map .string
  comment : report.member? "comment" = entry.instruction.comment.map .string
  labelled : ∀ label, labels[entry.address]? = some label → label.sources ≠ [] ∧
    report.member? "label" = some (.string label.name) ∧
    report.member? "references" = some (addressNumbers label.sources)
  unlabelled : entry.address ∉ labels →
    report.member? "label" = none ∧ report.member? "references" = none

/-- What is told about a label. -/
structure TellsLabel (image : Span) (known : Address × Label) (report : Datum) : Prop where
  address : report.member? "address" = some (.number known.1.toNat)
  name : report.member? "label" = some (.string known.2.name)
  inImage : ∃ inside, report.member? "in_image" = some (.bool inside) ∧
    (inside = true ↔ image.origin.toNat ≤ known.1.toNat ∧
      known.1.toNat < image.origin.toNat + image.length)

/-- What is told about a run. -/
structure Tells (image : List UInt8) (origin : Address) (architecture : Architecture)
    (disassembly : Disassembly) (report : Datum) : Prop where
  /-- The word tells the architecture from the others. -/
  architecture_iff : ∀ other,
    report.member? "architecture" = some (.string (architectureWord other)) ↔ other = architecture
  origin_eq : report.member? "origin" = some (.number origin.toNat)
  length_eq : report.member? "length" = some (.number image.length)
  /-- Entry by entry; the arrays of bytes make up the image. -/
  entries : ∃ reports, report.member? "entries" = some (.array reports) ∧
    List.Forall₂ (TellsEntry disassembly.labels) disassembly.entries.toList reports ∧
    ∃ arrays, List.Forall₂ (fun report array => report.member? "bytes" = some (.array array)) reports
      arrays ∧ arrays.flatten = byteNumbers image
  /-- All labels, in ascending order of their addresses. -/
  labels : ∃ reports, report.member? "labels" = some (.array reports) ∧
    List.Forall₂ (TellsLabel ⟨origin, image.length⟩) disassembly.labels.toList reports ∧
    ∃ addresses : List Nat, List.Forall₂ (fun report address =>
      report.member? "address" = some (.number address)) reports addresses ∧
      addresses.Pairwise (· < ·)

/-! ## Members -/

theorem member?_object (key : String) (members : List (String × Value)) :
    (Value.object members).datum.member? key = (members.lookup key).map Value.datum := by
  show (memberData members).lookup key = _
  induction members with
  | nil => rfl
  | cons member members ih =>
    obtain ⟨other, value⟩ := member
    rw [memberData, List.lookup_cons, List.lookup_cons]
    split
    · rfl
    · exact ih

theorem lookup_textMember (key other : String) (text : Option String) :
    (textMember other text).lookup key = if key = other then text.map .string else none := by
  cases text with
  | none => simp [textMember]
  | some text =>
    by_cases h : key = other
    · simp [textMember, h]
    · simp [textMember, List.lookup_cons, beq_false_of_ne h, h]

theorem datum_addresses (addresses : List Address) :
    (Json.addresses addresses).datum = addressNumbers addresses := by
  show Datum.array (itemData _) = _
  rw [itemData_eq_map, List.map_map]
  rfl

/-! ## Entries -/

/-- The members of an entry that every entry has. -/
def fixedMembers (entry : Entry) : List (String × Value) :=
  [("address", .number entry.address.toNat),
    ("bytes", .array (entry.instruction.bytes.map fun byte => .number byte.toNat)),
    ("mnemonic", .string entry.instruction.mnemonic),
    ("operands", .string entry.instruction.operandText)]

/-- The members of an entry are found one after another. -/
theorem member?_ofEntry (entry : Entry) (key : String) :
    (ofEntry entry).datum.member? key =
      (((((fixedMembers entry).lookup key).or
        (if key = "z80_mnemonic" then entry.instruction.z80Mnemonic.map .string else none)).or
        (if key = "comment" then entry.instruction.comment.map .string else none)).or
        ((entry.label.toList.flatMap labelMembers).lookup key)).map Value.datum := by
  rw [← lookup_textMember, ← lookup_textMember, ← List.lookup_append, ← List.lookup_append,
    ← List.lookup_append, ← member?_object]
  rfl

theorem datum_comp_string : Value.datum ∘ Value.string = Datum.string := rfl

section Image

variable {image : List UInt8} {origin : Address} {architecture : Architecture} {entry : Entry}
  (fits : origin.toNat + image.length ≤ addressSpace)
  (hentry : entry ∈ (finished image origin architecture).entries)

include fits hentry

theorem lookup_labelMembers (key : String) :
    (entry.label.toList.flatMap labelMembers).lookup key =
      (finished image origin architecture).labels[entry.address]?.bind fun label =>
        if key = "label" then some (.string label.name)
        else if key = "references" then some (Json.addresses label.sources) else none := by
  rw [label_finished hentry]
  rcases hlabel : (finished image origin architecture).labels[entry.address]? with _ | label
  · rfl
  have hsources : ¬ label.sources.isEmpty = true := by
    rw [List.isEmpty_iff]
    exact sources_ne_nil fits hlabel
  rw [Option.toList_some, List.flatMap_singleton, labelMembers, if_neg hsources, Option.bind_some]
  by_cases hname : key = "label"
  · simp [hname]
  · by_cases hreferences : key = "references"
    · simp [List.lookup_cons, hreferences]
    · simp [List.lookup_cons, beq_false_of_ne hname, beq_false_of_ne hreferences, hname, hreferences]

theorem tellsEntry_ofEntry :
    TellsEntry (finished image origin architecture).labels entry (ofEntry entry).datum := by
  have hmember := member?_ofEntry entry
  simp only [lookup_labelMembers fits hentry] at hmember
  constructor
  case address => simp [hmember, fixedMembers, Value.datum]
  case bytes =>
    simp [hmember, fixedMembers, List.lookup_cons, Value.datum, itemData_eq_map, byteNumbers]
  case mnemonic => simp [hmember, fixedMembers, List.lookup_cons, Value.datum]
  case operands => simp [hmember, fixedMembers, List.lookup_cons, Value.datum]
  case z80Mnemonic => simp [hmember, fixedMembers, List.lookup_cons, datum_comp_string]
  case comment => simp [hmember, fixedMembers, List.lookup_cons, datum_comp_string]
  case labelled =>
    intro label hlabel
    refine ⟨sources_ne_nil fits hlabel, ?_, ?_⟩
    · simp [hmember, fixedMembers, List.lookup_cons, hlabel, Value.datum]
    · simp [hmember, fixedMembers, List.lookup_cons, hlabel, datum_addresses]
  case unlabelled =>
    intro hknown
    rw [Std.TreeMap.mem_iff_isSome_getElem?, Option.not_isSome_iff_eq_none] at hknown
    simp [hmember, fixedMembers, List.lookup_cons, hknown]

end Image

/-! ## Labels -/

theorem tellsLabel_ofLabel (image : Span) (known : Address × Label) :
    TellsLabel image known (ofLabel image known.1 known.2).datum := by
  constructor
  case address =>
    rw [ofLabel, member?_object]
    simp [Value.datum]
  case name =>
    rw [ofLabel, member?_object]
    simp [List.lookup_cons, Value.datum]
  case inImage =>
    refine ⟨image.contains known.1, ?_, contains_iff⟩
    rw [ofLabel, member?_object]
    simp [List.lookup_cons, Value.datum]

theorem pairwise_labels (labels : LabelMap) :
    (labels.toList.map fun known => known.1.toNat).Pairwise (· < ·) := by
  rw [List.pairwise_map]
  refine Std.TreeMap.ordered_keys_toList.imp fun hlt => ?_
  rw [Std.compare_eq_lt] at hlt
  exact UInt16.lt_iff_toNat_lt.mp hlt

/-! ## The report -/

theorem architectureWord_inj {architecture other : Architecture}
    (h : architectureWord architecture = architectureWord other) : architecture = other := by
  revert h
  cases architecture <;> cases other <;> decide

theorem member?_ofDisassembly (disassembly : Disassembly) :
    let report := (ofDisassembly disassembly).datum
    report.member? "architecture" = some (.string (architectureWord disassembly.architecture)) ∧
      report.member? "origin" = some (.number disassembly.image.origin.toNat) ∧
      report.member? "length" = some (.number disassembly.image.length) ∧
      report.member? "entries" =
        some (.array (disassembly.entries.toList.map fun entry => (ofEntry entry).datum)) ∧
      report.member? "labels" = some (.array (disassembly.labels.toList.map fun known =>
        (ofLabel disassembly.image known.1 known.2).datum)) := by
  simp only [ofDisassembly, member?_object]
  simp [List.lookup_cons, Value.datum, itemData_eq_map]

theorem tells_ofDisassembly {image : List UInt8} {origin : Address} (architecture : Architecture)
    (fits : origin.toNat + image.length ≤ addressSpace) :
    Tells image origin architecture (finished image origin architecture)
      (ofDisassembly (finished image origin architecture)).datum := by
  obtain ⟨harchitecture, horigin, hlength, hentries, hlabels⟩ :=
    member?_ofDisassembly (finished image origin architecture)
  have htells : ∀ entry ∈ (finished image origin architecture).entries.toList,
      TellsEntry (finished image origin architecture).labels entry (ofEntry entry).datum :=
    fun entry hentry => tellsEntry_ofEntry fits (Array.mem_toList_iff.mp hentry)
  constructor
  case architecture_iff =>
    intro other
    rw [harchitecture, Option.some_inj, Datum.string.injEq]
    exact ⟨fun hword => (architectureWord_inj hword).symm, fun hother => by rw [hother]; rfl⟩
  case origin_eq => exact horigin
  case length_eq => exact hlength
  case entries =>
    refine ⟨_, hentries, ?_, (finished image origin architecture).entries.toList.map
      fun entry => byteNumbers entry.instruction.bytes, ?_, ?_⟩
    · rwa [List.forall₂_map_right_iff, List.forall₂_same]
    · rw [List.forall₂_map_left_iff, List.forall₂_map_right_iff, List.forall₂_same]
      exact fun entry hentry => (htells entry hentry).bytes
    · conv_rhs => rw [← (finished_covers architecture fits).bytes_eq]
      rw [byteNumbers, List.map_flatMap, List.flatMap_def]
      rfl
  case labels =>
    refine ⟨_, hlabels, ?_, _, ?_, pairwise_labels (finished image origin architecture).labels⟩
    · rw [List.forall₂_map_right_iff, List.forall₂_same]
      exact fun known _ => tellsLabel_ofLabel _ known
    · rw [List.forall₂_map_left_iff, List.forall₂_map_right_iff, List.forall₂_same]
      exact fun known _ => (tellsLabel_ofLabel _ known).address

end Json

/-- The report of an accepted image is JSON, and tells all about the image and its disassembly. -/
theorem report_lossless {image : List UInt8} {origin : Address} {architecture : Architecture}
    {disassembly : Disassembly} (h : disassemble image origin architecture = .ok disassembly) :
    ∃ report, Json.parse (Json.ofDisassembly disassembly).text = some report ∧
      Json.Tells image origin architecture disassembly report := by
  obtain ⟨fits, rfl⟩ := eq_finished_of_disassemble h
  exact ⟨_, Json.parse_text _, Json.tells_ofDisassembly architecture fits⟩

/-- A jump to itself, and a call of an address outside of the image. -/
theorem report_lossless_jump :
    ∃ disassembly report, disassemble [0x18, 0xFE, 0xCD, 0x00, 0x10] 0x0000 .z80 = .ok disassembly ∧
      disassembly.labels.keys = [0x0000, 0x1000] ∧
      Json.parse (Json.ofDisassembly disassembly).text = some report ∧
      Json.Tells [0x18, 0xFE, 0xCD, 0x00, 0x10] 0x0000 .z80 disassembly report := by
  have h : disassemble [0x18, 0xFE, 0xCD, 0x00, 0x10] 0x0000 .z80 =
    .ok (finished [0x18, 0xFE, 0xCD, 0x00, 0x10] 0x0000 .z80) := disassemble_eq_ok .z80 (by decide)
  obtain ⟨report, hparse, htells⟩ := report_lossless h
  exact ⟨_, report, h, by decide +kernel, hparse, htells⟩

end Disasm
