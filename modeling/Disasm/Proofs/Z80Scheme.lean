import Mathlib.Data.List.Basic
import Disasm.Proofs.Forms

/-!
# The Z80 by bit fields

A decoder of the Z80 that knows no tables: the fields of an opcode select its form by the documented
scheme. It is written down beside the tables, which are built from lists and overlapping blocks, and
both decode every image alike (`map_reading_finish`). The argument goes from the single opcode
(`rel_unprefixed`, `rel_bits`, `rel_extended`) over the first instruction (`reading_decodeFirst`) to
the run.
-/

namespace Disasm

namespace Z80Scheme

open Argument

/-! ## Opcodes -/

/-- The 8-bit registers. -/
def r : Fin 8 → Argument := named #v["B", "C", "D", "E", "H", "L", "(HL)", "A"]

/-- The register pairs of arithmetic and loads. -/
def rp : Fin 4 → Argument := named #v["BC", "DE", "HL", "SP"]

/-- The register pairs of the stack. -/
def rp2 : Fin 4 → Argument := named #v["BC", "DE", "HL", "AF"]

/-- The conditions. -/
def cc : Fin 8 → Argument := named conditionNames

/-- Arithmetic with the accumulator. -/
def alu (operation : Fin 8) (source : Argument) : Form :=
  match operation with
  | 0 => ⟨"ADD", [name "A", source]⟩
  | 1 => ⟨"ADC", [name "A", source]⟩
  | 2 => ⟨"SUB", [source]⟩
  | 3 => ⟨"SBC", [name "A", source]⟩
  | 4 => ⟨"AND", [source]⟩
  | 5 => ⟨"XOR", [source]⟩
  | 6 => ⟨"OR", [source]⟩
  | 7 => ⟨"CP", [source]⟩

/-- The first quarter: relative jumps, loads, counting and the accumulator. -/
def quarter0 (fields : BitFields) : Form :=
  match fields.z with
  | 0 =>
    match fields.y with
    | 0 => ⟨"NOP", []⟩
    | 1 => ⟨"EX", [name "AF", name "AF'"]⟩
    | 2 => ⟨"DJNZ", [displacement]⟩
    | 3 => ⟨"JR", [displacement]⟩
    | 4 => ⟨"JR", [name "NZ", displacement]⟩
    | 5 => ⟨"JR", [name "Z", displacement]⟩
    | 6 => ⟨"JR", [name "NC", displacement]⟩
    | 7 => ⟨"JR", [name "C", displacement]⟩
  | 1 =>
    match fields.q with
    | 0 => ⟨"LD", [rp fields.p, word]⟩
    | 1 => ⟨"ADD", [name "HL", rp fields.p]⟩
  | 2 =>
    match fields.q, fields.p with
    | 0, 0 => ⟨"LD", [name "(BC)", name "A"]⟩
    | 0, 1 => ⟨"LD", [name "(DE)", name "A"]⟩
    | 0, 2 => ⟨"LD", [cell, name "HL"]⟩
    | 0, 3 => ⟨"LD", [cell, name "A"]⟩
    | 1, 0 => ⟨"LD", [name "A", name "(BC)"]⟩
    | 1, 1 => ⟨"LD", [name "A", name "(DE)"]⟩
    | 1, 2 => ⟨"LD", [name "HL", cell]⟩
    | 1, 3 => ⟨"LD", [name "A", cell]⟩
  | 3 =>
    match fields.q with
    | 0 => ⟨"INC", [rp fields.p]⟩
    | 1 => ⟨"DEC", [rp fields.p]⟩
  | 4 => ⟨"INC", [r fields.y]⟩
  | 5 => ⟨"DEC", [r fields.y]⟩
  | 6 => ⟨"LD", [r fields.y, byte]⟩
  | 7 => ⟨#v["RLCA", "RRCA", "RLA", "RRA", "DAA", "CPL", "SCF", "CCF"].get fields.y, []⟩

/-- The second quarter: loads between registers. A memory cell is not loaded from itself. -/
def quarter1 (fields : BitFields) : Form :=
  match fields.y, fields.z with
  | 6, 6 => ⟨"HALT", []⟩
  | y, z => ⟨"LD", [r y, r z]⟩

/-- The last quarter: jumps, calls, the stack and the rest. The prefixes have no form. -/
def quarter3 (fields : BitFields) : Option Form :=
  match fields.z with
  | 0 => some ⟨"RET", [cc fields.y]⟩
  | 1 =>
    match fields.q, fields.p with
    | 0, p => some ⟨"POP", [rp2 p]⟩
    | 1, 0 => some ⟨"RET", []⟩
    | 1, 1 => some ⟨"EXX", []⟩
    | 1, 2 => some ⟨"JP", [name "(HL)"]⟩
    | 1, 3 => some ⟨"LD", [name "SP", name "HL"]⟩
  | 2 => some ⟨"JP", [cc fields.y, address]⟩
  | 3 =>
    match fields.y with
    | 0 => some ⟨"JP", [address]⟩
    | 1 => none
    | 2 => some ⟨"OUT", [port, name "A"]⟩
    | 3 => some ⟨"IN", [name "A", port]⟩
    | 4 => some ⟨"EX", [name "(SP)", name "HL"]⟩
    | 5 => some ⟨"EX", [name "DE", name "HL"]⟩
    | 6 => some ⟨"DI", []⟩
    | 7 => some ⟨"EI", []⟩
  | 4 => some ⟨"CALL", [cc fields.y, address]⟩
  | 5 =>
    match fields.q, fields.p with
    | 0, p => some ⟨"PUSH", [rp2 p]⟩
    | 1, 0 => some ⟨"CALL", [address]⟩
    | 1, _ => none
  | 6 => some (alu fields.y byte)
  | 7 => some ⟨"RST", [vector fields.y]⟩

/-- Opcodes without a prefix. -/
def unprefixed (fields : BitFields) : Option Form :=
  match fields.x with
  | 0 => some (quarter0 fields)
  | 1 => some (quarter1 fields)
  | 2 => some (alu fields.y (r fields.z))
  | 3 => quarter3 fields

/-- Opcodes behind `CB`. The row of an undocumented shift is left out. -/
def bits (fields : BitFields) : Option Form :=
  match fields.x with
  | 0 =>
    match fields.y with
    | 0 => some ⟨"RLC", [r fields.z]⟩
    | 1 => some ⟨"RRC", [r fields.z]⟩
    | 2 => some ⟨"RL", [r fields.z]⟩
    | 3 => some ⟨"RR", [r fields.z]⟩
    | 4 => some ⟨"SLA", [r fields.z]⟩
    | 5 => some ⟨"SRA", [r fields.z]⟩
    | 6 => none
    | 7 => some ⟨"SRL", [r fields.z]⟩
  | 1 => some ⟨"BIT", [name fields.y.val.repr, r fields.z]⟩
  | 2 => some ⟨"RES", [name fields.y.val.repr, r fields.z]⟩
  | 3 => some ⟨"SET", [name fields.y.val.repr, r fields.z]⟩

/-- Block operations: the column selects what is done, the row whether it goes up or down and whether it
is repeated. -/
def block? (row column : Fin 8) : Option Form :=
  match row, column with
  | 4, 0 => some ⟨"LDI", []⟩
  | 4, 1 => some ⟨"CPI", []⟩
  | 4, 2 => some ⟨"INI", []⟩
  | 4, 3 => some ⟨"OUTI", []⟩
  | 5, 0 => some ⟨"LDD", []⟩
  | 5, 1 => some ⟨"CPD", []⟩
  | 5, 2 => some ⟨"IND", []⟩
  | 5, 3 => some ⟨"OUTD", []⟩
  | 6, 0 => some ⟨"LDIR", []⟩
  | 6, 1 => some ⟨"CPIR", []⟩
  | 6, 2 => some ⟨"INIR", []⟩
  | 6, 3 => some ⟨"OTIR", []⟩
  | 7, 0 => some ⟨"LDDR", []⟩
  | 7, 1 => some ⟨"CPDR", []⟩
  | 7, 2 => some ⟨"INDR", []⟩
  | 7, 3 => some ⟨"OTDR", []⟩
  | _, _ => none

/-- The documented opcodes behind `ED`. -/
def extended (fields : BitFields) : Option Form :=
  match fields.x with
  | 0 => none
  | 1 =>
    match fields.z with
    | 0 =>
      match fields.y with
      | 6 => none
      | y => some ⟨"IN", [r y, name "(C)"]⟩
    | 1 =>
      match fields.y with
      | 6 => none
      | y => some ⟨"OUT", [name "(C)", r y]⟩
    | 2 =>
      match fields.q with
      | 0 => some ⟨"SBC", [name "HL", rp fields.p]⟩
      | 1 => some ⟨"ADC", [name "HL", rp fields.p]⟩
    | 3 =>
      match fields.q with
      | 0 => some ⟨"LD", [cell, rp fields.p]⟩
      | 1 => some ⟨"LD", [rp fields.p, cell]⟩
    | 4 =>
      match fields.y with
      | 0 => some ⟨"NEG", []⟩
      | _ => none
    | 5 =>
      match fields.y with
      | 0 => some ⟨"RETN", []⟩
      | 1 => some ⟨"RETI", []⟩
      | _ => none
    | 6 =>
      match fields.y with
      | 0 => some ⟨"IM", [name "0"]⟩
      | 2 => some ⟨"IM", [name "1"]⟩
      | 3 => some ⟨"IM", [name "2"]⟩
      | _ => none
    | 7 =>
      match fields.y with
      | 0 => some ⟨"LD", [name "I", name "A"]⟩
      | 1 => some ⟨"LD", [name "R", name "A"]⟩
      | 2 => some ⟨"LD", [name "A", name "I"]⟩
      | 3 => some ⟨"LD", [name "A", name "R"]⟩
      | 4 => some ⟨"RRD", []⟩
      | 5 => some ⟨"RLD", []⟩
      | _ => none
  | 2 => block? fields.y fields.z
  | 3 => none

/-! ## Instructions -/

/-- The instruction whose opcode is `code`, or its first byte as data if the instruction does not fit
into the bytes that remain. -/
def complete (code : List UInt8) (address : Address) (form : Form) (rest : List UInt8) : Reading :=
  if form.length ≤ rest.length then form.reading code address (rest.take form.length)
  else .data (code.take 1)

/-- The instruction behind a prefix. An opcode without a form is data together with its prefix. -/
def behindPrefix (scheme : BitFields → Option Form) (lead : UInt8) (address : Address) :
    List UInt8 → Reading
  | [] => .data [lead]
  | opcode :: rest =>
    match scheme (.ofOpcode opcode) with
    | some form => complete [lead, opcode] address form rest
    | none => .data [lead, opcode]

/-- The first instruction at an address. -/
def decodeFirst (address : Address) (first : UInt8) (rest : List UInt8) : Reading :=
  match first with
  | 0xCB => behindPrefix bits first address rest
  | 0xED => behindPrefix extended first address rest
  | 0xDD | 0xFD => .data [first]
  | _ =>
    match unprefixed (.ofOpcode first) with
    | some form => complete [first] address form rest
    | none => .data [first]

/-- The instructions from an address on. -/
def decode (address : Address) : List UInt8 → List Reading
  | [] => []
  | first :: rest =>
    let reading := decodeFirst address first rest
    reading :: decode (address + .ofNat reading.bytes.length) (rest.drop (reading.bytes.length - 1))
termination_by bytes => bytes.length
decreasing_by
  rw [List.length_drop, List.length_cons]
  omega

end Z80Scheme

/-! ## Opcodes of the tables -/

/-- The opcodes of a layer as the bits of a number. -/
def Page.Layer.mask (layer : Page.Layer) : Nat :=
  layer.foldr (fun entry mask => mask ||| 2 ^ entry.1.toNat) 0

theorem Page.Layer.exists_mem_of_testBit {layer : Page.Layer} {opcode : UInt8}
    (h : layer.mask.testBit opcode.toNat) : ∃ rule, (opcode, rule) ∈ layer := by
  induction layer with
  | nil => simp [mask] at h
  | cons entry layer ih =>
    rw [mask, List.foldr_cons, Nat.testBit_or, Nat.testBit_two_pow, Bool.or_eq_true,
      decide_eq_true_eq] at h
    rcases h with hlater | heq
    · obtain ⟨rule, hmem⟩ := ih hlater
      exact ⟨rule, List.mem_cons_of_mem _ hmem⟩
    · obtain rfl := UInt8.toNat_inj.mp heq
      exact ⟨entry.2, List.mem_cons_self⟩

namespace Z80Scheme

/-- A page has a rule where the scheme has a form, and the rule realizes it. -/
theorem rel_of_layers {lead : Nat} {layers : List Page.Layer} {scheme : BitFields → Option Form}
    (sound : ∀ entry ∈ layers.flatten, ∃ form ∈ scheme (.ofOpcode entry.1),
      entry.2.Realizes .z80 form)
    (complete : ∀ number < 256, (scheme (.ofOpcode (.ofNat number))).isSome →
      (Page.Layer.mask layers.flatten).testBit number) (opcode : UInt8) :
    Option.Rel (Rule.Realizes .z80) ((Page.ofLayers lead layers).rule? opcode)
      (scheme (.ofOpcode opcode)) := by
  rcases hrule : (Page.ofLayers lead layers).rule? opcode with _ | rule
  · -- An opcode with a form stands in the mask, so in a layer, and cannot lack a rule.
    rcases hform : scheme (.ofOpcode opcode) with _ | form
    · exact .none
    · have hbit := complete opcode.toNat opcode.toNat_lt
      rw [UInt8.ofNat_toNat, hform] at hbit
      obtain ⟨rule, hmem⟩ := Page.Layer.exists_mem_of_testBit (hbit rfl)
      rw [Page.rule?_ofLayers, List.lookup_eq_none_iff] at hrule
      have hne := hrule (opcode, rule) (List.mem_reverse.mpr hmem)
      simp at hne
  · obtain ⟨form, hform, hrealizes⟩ := sound _ (Page.mem_of_rule? hrule)
    rw [Option.mem_def.mp hform]
    exact .some hrealizes

theorem rel_unprefixed (opcode : UInt8) :
    Option.Rel (Rule.Realizes .z80) ((Page.base .z80).rule? opcode)
      (unprefixed (.ofOpcode opcode)) :=
  rel_of_layers (by decide +kernel) (by decide +kernel) opcode

theorem rel_bits (opcode : UInt8) :
    Option.Rel (Rule.Realizes .z80) (Page.bits.rule? opcode) (bits (.ofOpcode opcode)) :=
  rel_of_layers (by decide +kernel) (by decide +kernel) opcode

theorem rel_extended (opcode : UInt8) :
    Option.Rel (Rule.Realizes .z80) (Page.extended.rule? opcode) (extended (.ofOpcode opcode)) :=
  rel_of_layers (by decide +kernel) (by decide +kernel) opcode

/-! ## The first instruction -/

section First

variable {origin : Address} {offset : Nat} {labels : LabelMap} {image : Span}

/-- An instruction by a rule, or its first byte as data: as the form that the rule realizes says. -/
theorem reading_complete {rule : Rule} {form : Form} (h : rule.Realizes .z80 form)
    (hregular : rule.Regular) (first : UInt8) (more rest : List UInt8) (comment : String) :
    (((if rule.encodedLength (more.length + 1) ≤ (first :: (more ++ rest)).length then
        rule.instruction (more.length + 1) offset (first :: (more ++ rest))
      else .dataByte first comment).place offset.toUInt16 origin .z80).finish .z80 labels
        image).reading = complete (first :: more) (origin + offset.toUInt16) form rest := by
  have hfits : rule.encodedLength (more.length + 1) ≤ (first :: (more ++ rest)).length ↔
      form.length ≤ rest.length := by
    unfold Rule.encodedLength
    rw [h.length, List.length_cons, List.length_append]
    omega
  unfold complete
  by_cases hlong : form.length ≤ rest.length
  · rw [if_pos hlong, if_pos (hfits.mpr hlong)]
    exact h.reading_finish hregular (first :: more) rest origin offset labels image
  · rw [if_neg hlong, if_neg (mt hfits.mp hlong)]
    exact reading_data _ _

theorem decodeFirst_of_ofByte?_eq_none {first : UInt8} (h : Prefix.ofByte? first = none)
    (address : Address) (rest : List UInt8) :
    decodeFirst address first rest =
      match unprefixed (.ofOpcode first) with
      | some form => complete [first] address form rest
      | none => .data [first] := by
  unfold decodeFirst
  split
  · cases h
  · cases h
  · cases h
  · cases h
  · rfl

theorem reading_unprefixed {first : UInt8} (h : Prefix.ofByte? first = none) (rest : List UInt8) :
    (((Disasm.decodeFirst .z80 offset first rest).place offset.toUInt16 origin .z80).finish .z80
      labels image).reading = decodeFirst (origin + offset.toUInt16) first rest := by
  have hrel := rel_unprefixed first
  rw [decodeFirst_of_ofByte?_eq_none h, decodeFirst_base (.inl h)]
  generalize unprefixed (.ofOpcode first) = form at hrel ⊢
  rcases hrule : (Page.base .z80).rule? first with _ | rule
  · rw [hrule] at hrel
    cases hrel
    exact reading_data _ _
  · have hregular := regular_of_mem_codes (mem_codes_base hrule)
    rw [hrule] at hrel
    cases hrel with
    | some hrealizes => exact reading_complete hrealizes hregular first [] rest _

/-- Behind a prefix both decoders go by the same opcode. -/
theorem reading_prefixed {lead : Prefix} {page : Page} {scheme : BitFields → Option Form}
    (hlead : page.lead = 1)
    (hdecode : ∀ offset bytes, lead.decode offset bytes = lead.decodePage page offset bytes)
    (hcodes : ∀ {opcode rule}, page.rule? opcode = some rule →
      ([lead.byte, opcode], rule) ∈ Architecture.z80.codes)
    (hrel : ∀ opcode, Option.Rel (Rule.Realizes .z80) (page.rule? opcode)
      (scheme (.ofOpcode opcode))) (rest : List UInt8) :
    (((Disasm.decodeFirst .z80 offset lead.byte rest).place offset.toUInt16 origin .z80).finish .z80
      labels image).reading = behindPrefix scheme lead.byte (origin + offset.toUInt16) rest := by
  rw [decodeFirst_prefixed hlead hdecode]
  rcases rest with _ | ⟨opcode, tail⟩
  · exact reading_data _ _
  have hopcode := hrel opcode
  rw [behindPrefix]
  generalize scheme (.ofOpcode opcode) = form at hopcode ⊢
  rcases hrule : page.rule? opcode with _ | rule
  · rw [hrule] at hopcode
    cases hopcode
    simp only [hrule]
    exact reading_data _ _
  · have hregular := regular_of_mem_codes (hcodes hrule)
    rw [hrule] at hopcode
    cases hopcode with
    | some hrealizes =>
      simp only [hrule]
      exact reading_complete hrealizes hregular lead.byte [opcode] tail _

theorem reading_decodeFirst (first : UInt8) (rest : List UInt8) :
    (((Disasm.decodeFirst .z80 offset first rest).place offset.toUInt16 origin .z80).finish .z80
      labels image).reading = decodeFirst (origin + offset.toUInt16) first rest := by
  rcases hlead : Prefix.ofByte? first with _ | lead
  · exact reading_unprefixed hlead rest
  obtain rfl := Prefix.eq_byte_of_ofByte? hlead
  cases lead with
  | cb => exact reading_prefixed rfl (fun _ _ => rfl) mem_codes_z80_bits rel_bits rest
  | ed => exact reading_prefixed rfl (fun _ _ => rfl) mem_codes_z80_extended rel_extended rest
  | dd => exact reading_data _ _
  | fd => exact reading_data _ _

end First

/-! ## The run -/

theorem decode_cons (address : Address) (first : UInt8) (rest : List UInt8) :
    decode address (first :: rest) =
      decodeFirst address first rest ::
        decode (address + .ofNat (decodeFirst address first rest).bytes.length)
          (rest.drop ((decodeFirst address first rest).bytes.length - 1)) := by
  rw [decode]

theorem map_reading_finish {origin : Address} {offset : Nat} {bytes : List UInt8}
    {entries : List Entry} (h : Swept .z80 origin offset bytes entries) (labels : LabelMap)
    (image : Span) :
    (entries.map (Entry.finish .z80 labels image)).map Entry.reading =
      decode (origin + offset.toUInt16) bytes := by
  induction h with
  | done offset => rw [decode]; rfl
  | @step offset first rest entries run ih =>
    have hfirst := @reading_decodeFirst origin offset labels image first rest
    have hsize : (decodeFirst (origin + offset.toUInt16) first rest).bytes.length =
        (Disasm.decodeFirst .z80 offset first rest).size := by
      rw [← hfirst]
      show (Entry.finish _ _ _ _).instruction.bytes.length = _
      rw [finish_bytes, place_bytes]
      rfl
    have hpos := decodeFirst_size_pos .z80 offset first rest
    have haddress : origin + (offset + (Disasm.decodeFirst .z80 offset first rest).size).toUInt16 =
        origin + offset.toUInt16 +
          .ofNat (Disasm.decodeFirst .z80 offset first rest).size := by
      rw [Nat.toUInt16_eq, UInt16.ofNat_add, Nat.toUInt16_eq, UInt16.add_assoc]
    have hdrop : (first :: rest).drop (Disasm.decodeFirst .z80 offset first rest).size =
        rest.drop ((Disasm.decodeFirst .z80 offset first rest).size - 1) := by
      obtain ⟨size, hsucc⟩ := Nat.exists_eq_add_of_le' hpos
      rw [hsucc, List.drop_succ_cons, Nat.add_sub_cancel]
    rw [List.map_cons, List.map_cons, decode_cons, hfirst, hsize, ih, haddress, hdrop]

end Z80Scheme

/-! ## No opcode is unknown -/

theorem isSome_unprefixed (opcode : UInt8) (h : Prefix.ofByte? opcode = none) :
    (Z80Scheme.unprefixed (.ofOpcode opcode)).isSome := by
  have hall : ∀ number < 256, Prefix.ofByte? (.ofNat number) = none →
      (Z80Scheme.unprefixed (.ofOpcode (.ofNat number))).isSome := by decide +kernel
  have hopcode := hall opcode.toNat opcode.toNat_lt
  rw [UInt8.ofNat_toNat] at hopcode
  exact hopcode h

theorem exists_rule_z80 {first : UInt8} (h : Prefix.ofByte? first = none) :
    ∃ rule, (Page.base .z80).rule? first = some rule := by
  have hform := isSome_unprefixed first h
  have hrel := Z80Scheme.rel_unprefixed first
  rcases hrule : (Page.base .z80).rule? first with _ | rule
  · rw [hrule] at hrel
    generalize Z80Scheme.unprefixed (.ofOpcode first) = form at hrel hform
    cases hrel
    cases hform
  · exact ⟨rule, rfl⟩

theorem Prefix.decodePage_ne_absent (lead : Prefix) (page : Page) (offset : Nat)
    (bytes : List UInt8) : lead.decodePage page offset bytes ≠ .absent := by
  unfold Prefix.decodePage
  split
  · split <;> simp
  · assumption

theorem decodeOutcome_z80_ne_absent (offset : Nat) (first : UInt8) (rest : List UInt8) :
    decodeOutcome .z80 offset first rest ≠ .absent := by
  unfold decodeOutcome
  rcases hlead : Prefix.ofByte? first with _ | lead
  · obtain ⟨rule, hrule⟩ := exists_rule_z80 hlead
    rw [Page.decode_eq, lead_base, List.getElem?_cons_zero]
    simp only [hrule]
    split <;> simp
  · show lead.decode offset (first :: rest) ≠ .absent
    cases lead with
    | cb => exact Prefix.decodePage_ne_absent _ _ _ _
    | ed => exact Prefix.decodePage_ne_absent _ _ _ _
    | dd => simp [Prefix.decode, Prefix.indexed]
    | fd => simp [Prefix.decode, Prefix.indexed]

/-- What is said about an opcode without a rule. -/
def unknownComment : String :=
  "Unknown opcode, not supported on " ++ Architecture.z80.name

/-- Legal on the Z80 or data, and not for want of a rule. -/
structure Instruction.Known (instruction : Instruction) : Prop where
  legal : instruction.support.warning? .z80 = none
  comment_ne : instruction.comment ≠ some unknownComment

theorem known_data (bytes : List UInt8) {comment : String} (h : comment ≠ unknownComment) :
    (Instruction.data bytes comment).Known :=
  ⟨rfl, fun heq => h (Option.some.inj heq)⟩

theorem known_instruction {code : List UInt8} {rule : Rule}
    (h : (code, rule) ∈ Architecture.z80.codes) (opcodeLength offset : Nat) (bytes : List UInt8) :
    (rule.instruction opcodeLength offset bytes).Known := by
  have hlegal : ∀ entry ∈ Architecture.z80.codes, entry.2.support.warning? .z80 = none := by
    decide +kernel
  refine ⟨hlegal _ h, fun hcomment => ?_⟩
  cases hcomment

/-- A rule gives an instruction or an incomplete one. -/
theorem known_complete {code : List UInt8} {rule : Rule}
    (h : (code, rule) ∈ Architecture.z80.codes) (opcodeLength offset : Nat) (first : UInt8)
    (bytes : List UInt8) :
    (if rule.encodedLength opcodeLength ≤ bytes.length then
      rule.instruction opcodeLength offset bytes
    else .dataByte first "Incomplete instruction at end of image").Known := by
  split
  · exact known_instruction h opcodeLength offset bytes
  · exact known_data _ (by decide)

theorem known_prefixed {lead : Prefix} {page : Page} (hlead : page.lead = 1)
    (hdecode : ∀ offset bytes, lead.decode offset bytes = lead.decodePage page offset bytes)
    (hcodes : ∀ {opcode rule}, page.rule? opcode = some rule →
      ([lead.byte, opcode], rule) ∈ Architecture.z80.codes) (offset : Nat) (rest : List UInt8) :
    (decodeFirst .z80 offset lead.byte rest).Known := by
  rw [decodeFirst_prefixed hlead hdecode]
  rcases rest with _ | ⟨opcode, tail⟩
  · exact known_data _ (by decide)
  rcases hrule : page.rule? opcode with _ | rule
  · simp only [hrule]
    refine known_data _ ?_
    cases lead <;> decide
  · simp only [hrule]
    exact known_complete (hcodes hrule) _ _ _ _

theorem known_decodeFirst (offset : Nat) (first : UInt8) (rest : List UInt8) :
    (decodeFirst .z80 offset first rest).Known := by
  rcases hlead : Prefix.ofByte? first with _ | lead
  · obtain ⟨rule, hrule⟩ := exists_rule_z80 hlead
    rw [decodeFirst_base (.inl hlead)]
    simp only [hrule]
    exact known_complete (mem_codes_base hrule) _ _ _ _
  obtain rfl := Prefix.eq_byte_of_ofByte? hlead
  cases lead with
  | cb => exact known_prefixed rfl (fun _ _ => rfl) mem_codes_z80_bits offset rest
  | ed => exact known_prefixed rfl (fun _ _ => rfl) mem_codes_z80_extended offset rest
  | dd => exact known_data _ (by decide)
  | fd => exact known_data _ (by decide)

/-- Labels and places leave the comment of a known instruction alone. -/
theorem Instruction.Known.comment_finish {instruction : Instruction} (h : instruction.Known)
    (offset origin : Address) (labels : LabelMap) (image : Span) :
    ((instruction.place offset origin .z80).finish .z80 labels image).instruction.comment =
      instruction.comment := by
  have hprimary : Architecture.z80.isPrimary = true := rfl
  rw [Entry.finish, if_pos hprimary, attach_eq]
  exact place_comment h.legal offset origin

/-! ## The result -/

/-- The tables and the bit fields decode every image alike. No opcode lacks a rule, so no entry is
called unknown. -/
theorem disassemble_z80_eq_scheme {image : List UInt8} {origin : Address}
    {disassembly : Disassembly} (h : disassemble image origin .z80 = .ok disassembly) :
    disassembly.entries.toList.map Entry.reading = Z80Scheme.decode origin image ∧
      (∀ offset first rest, decodeOutcome .z80 offset first rest ≠ .absent) ∧
      ∀ entry ∈ disassembly.entries, entry.instruction.comment ≠ some unknownComment := by
  obtain ⟨-, rfl⟩ := eq_finished_of_disassemble h
  have hrun := swept_rawEntries .z80 origin image
  refine ⟨?_, decodeOutcome_z80_ne_absent, fun entry hmem => ?_⟩
  · have hstart : origin + Nat.toUInt16 0 = origin := UInt16.add_zero origin
    refine (Z80Scheme.map_reading_finish hrun _ _).trans ?_
    rw [hstart]
  · obtain ⟨raw, hraw, rfl⟩ := List.mem_map.mp (Array.mem_toList_iff.mpr hmem)
    obtain ⟨offset, first, rest, rfl⟩ := hrun.exists_decodeFirst raw hraw
    have hknown := known_decodeFirst offset first rest
    rw [hknown.comment_finish]
    exact hknown.comment_ne

/-- A load, the shift that is not documented, a long load, a prefix of the index registers and a jump
that is cut off. -/
theorem disassemble_z80_eq_scheme_fallbacks :
    ∃ disassembly,
      disassemble [0x3E, 0x05, 0xCB, 0x30, 0xED, 0x53, 0x34, 0x12, 0xDD, 0x18] 0x8000 .z80 =
        .ok disassembly ∧
      disassembly.entries.toList.map Entry.reading =
        [⟨[0x3E, 0x05], "LD", [.text "A", .imm8 0x05], none⟩,
          ⟨[0xCB, 0x30], "DB", [.imm8 0xCB, .imm8 0x30], none⟩,
          ⟨[0xED, 0x53, 0x34, 0x12], "LD", [.direct 0x1234, .text "DE"], none⟩,
          ⟨[0xDD], "DB", [.imm8 0xDD], none⟩, ⟨[0x18], "DB", [.imm8 0x18], none⟩] :=
  have h := disassemble_eq_ok .z80 (by decide)
  ⟨_, h, (disassemble_z80_eq_scheme h).1.trans (by decide +kernel)⟩

end Disasm
