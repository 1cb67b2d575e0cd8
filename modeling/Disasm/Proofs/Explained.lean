import Mathlib.Data.List.Basic
import Disasm.Proofs.Siblings

/-!
# Why an instruction is decoded as it is

`Decoded` says what the decoder can give. Here every outcome comes with its reason (`Explained`): the
rule that reads the bytes, or why there is none or too little to read.

1. The rule is one that is in force. The additions of the 8085 override two jumps of the Z80, which the
   tables of the 8080 and the 8085 hold as well (`mem_liveCodes_of_rule?`).
2. Every byte that starts an instruction has its reason (`explained_decodeFirst`).
3. So has every entry of a result, and the bytes that the reason is about are those of the image from
   the address of the entry on (`exists_explained_of_mem`).
-/

namespace Disasm

/-! ## Rules in force -/

/-- The opcodes of jumps of the Z80 in whose place the 8085 has instructions of its own. -/
def overriddenOpcodes : List UInt8 := [0x20, 0x30]

/-- The opcode bytes of an architecture with the rules that no later layer overrides. -/
def Architecture.liveCodes : Architecture → List (List UInt8 × Rule)
  | .z80 => Architecture.z80.codes
  | .i8080 | .i8085 =>
    Architecture.i8080.codes.filter fun (code, rule) =>
      firstByte code ∉ overriddenOpcodes ∨ rule.support = .i8085Only

theorem mem_codes_of_mem_liveCodes {architecture : Architecture} {entry : List UInt8 × Rule}
    (h : entry ∈ architecture.liveCodes) : entry ∈ architecture.codes := by
  cases architecture with
  | z80 => exact h
  | i8080 => exact (List.mem_filter.mp h).1
  | i8085 => exact (List.mem_filter.mp h).1

/-- In the place of an overridden jump stands an addition of the 8085. -/
theorem support_of_rule?_i8080 {first : UInt8} {rule : Rule}
    (h : (Page.base .i8080).rule? first = some rule) (hoverridden : first ∈ overriddenOpcodes) :
    rule.support = .i8085Only := by
  have hadditions : ∀ opcode ∈ overriddenOpcodes,
      ([Base.shared, Base.z80Additions, Base.i8085Additions].flatten.reverse.lookup
        opcode).map Rule.support = some .i8085Only := by
    decide +kernel
  have hpage : (Page.base .i8080).rule? first =
      [Base.shared, Base.z80Additions, Base.i8085Additions].flatten.reverse.lookup first :=
    Page.rule?_ofLayers _ _ _
  have hsupport := hadditions first hoverridden
  rw [← hpage, h] at hsupport
  exact Option.some.inj hsupport

theorem mem_liveCodes_of_rule? {architecture : Architecture} {first : UInt8} {rule : Rule}
    (h : (Page.base architecture).rule? first = some rule) :
    ([first], rule) ∈ architecture.liveCodes := by
  have hintel (h : (Page.base .i8080).rule? first = some rule) :
      ([first], rule) ∈ Architecture.i8080.liveCodes := by
    refine List.mem_filter.mpr ⟨mem_codes_base h, ?_⟩
    rw [decide_eq_true_eq]
    by_cases hoverridden : first ∈ overriddenOpcodes
    · exact .inr (support_of_rule?_i8080 h hoverridden)
    · exact .inl hoverridden
  cases architecture with
  | z80 => exact mem_codes_base h
  | i8080 => exact hintel h
  | i8085 => exact hintel h

/-- The 8080 and the 8085 have a rule for every byte that is no prefix of the Z80. -/
theorem rule?_eq_none_iff {architecture : Architecture} (hintel : architecture ≠ .z80)
    (first : UInt8) :
    (Page.base architecture).rule? first = none ↔ first ∈ foreignPrefixes := by
  cases architecture with
  | z80 => exact absurd rfl hintel
  | i8080 => exact rule?_i8080_eq_none_iff first
  | i8085 => exact rule?_i8080_eq_none_iff first

theorem exists_rule {architecture : Architecture} {first : UInt8}
    (h : Prefix.ofByte? first = none) : ∃ rule, (Page.base architecture).rule? first = some rule := by
  by_cases hz80 : architecture = .z80
  · subst hz80
    exact exists_rule_z80 h
  · apply Option.ne_none_iff_exists'.mp
    rw [Ne, rule?_eq_none_iff hz80]
    exact (ofByte?_eq_none_iff first).mp h

/-! ## Reasons -/

/-- The documented form of an opcode behind a prefix. -/
def Prefix.form? (lead : Prefix) (opcode : UInt8) : Option Form :=
  match lead with
  | .cb => Z80Scheme.bits (.ofOpcode opcode)
  | .ed => Z80Scheme.extended (.ofOpcode opcode)
  | .dd | .fd => none

/-- What is said about an instruction that the image ends in. -/
def incompleteComment : String := "Incomplete instruction at end of image"

/-- The first instruction of `bytes`, `offset` bytes into the image, with the reason for it. -/
inductive Explained (architecture : Architecture) (offset : Nat) (bytes : List UInt8) :
    Instruction → Prop where
  /-- A rule reads it. -/
  | coded {code : List UInt8} {rule : Rule} (mem : (code, rule) ∈ architecture.liveCodes)
      (starts : code <+: bytes) (long : rule.encodedLength code.length ≤ bytes.length) :
      Explained architecture offset bytes (rule.instruction code.length offset bytes)
  /-- There is a rule, but it demands more bytes. -/
  | incomplete {first : UInt8} {more : List UInt8} {rule : Rule}
      (mem : (first :: more, rule) ∈ architecture.liveCodes) (starts : first :: more <+: bytes)
      (short : bytes.length < rule.encodedLength (first :: more).length) :
      Explained architecture offset bytes (.dataByte first incompleteComment)
  /-- There is no opcode behind the prefix. -/
  | cut {lead : Prefix} (z80 : architecture = .z80) (switches : lead = .cb ∨ lead = .ed)
      (alone : bytes = [lead.byte]) :
      Explained architecture offset bytes (.dataByte lead.byte incompleteComment)
  /-- The prefix belongs to an index register. -/
  | indexed {lead : Prefix} {register : String} (z80 : architecture = .z80)
      (named : (lead, register) ∈ [(Prefix.dd, "IX"), (Prefix.fd, "IY")])
      (starts : [lead.byte] <+: bytes) :
      Explained architecture offset bytes
        (.dataByte lead.byte (register ++ " extended instruction, not decoded"))
  /-- The opcode behind the prefix is not documented. -/
  | unrecognized {lead : Prefix} {opcode : UInt8} (z80 : architecture = .z80)
      (switches : lead = .cb ∨ lead = .ed) (starts : [lead.byte, opcode] <+: bytes)
      (undocumented : lead.form? opcode = none) :
      Explained architecture offset bytes (lead.unrecognized opcode)
  /-- There are no prefixes on the 8080 and the 8085. -/
  | unknown {lead : Prefix} (intel : architecture ≠ .z80) (starts : [lead.byte] <+: bytes) :
      Explained architecture offset bytes
        (.dataByte lead.byte ("Unknown opcode, not supported on " ++ architecture.name))

section Explained

variable {architecture : Architecture} {offset : Nat} {first : UInt8} {rest : List UInt8}

theorem Explained.of_rule {rule : Rule} (hrule : (Page.base architecture).rule? first = some rule)
    (h : Prefix.ofByte? first = none ∨ architecture.isPrimary = false) :
    Explained architecture offset (first :: rest) (decodeFirst architecture offset first rest) := by
  have hmem := mem_liveCodes_of_rule? hrule
  have hstarts : [first] <+: first :: rest := by simp
  rw [decodeFirst_base h, hrule]
  by_cases hlong : rule.encodedLength 1 ≤ (first :: rest).length
  · simp only [if_pos hlong]
    exact .coded hmem hstarts hlong
  · simp only [if_neg hlong]
    exact .incomplete hmem hstarts (Nat.lt_of_not_le hlong)

theorem Explained.of_prefixed {lead : Prefix} {page : Page} (switches : lead = .cb ∨ lead = .ed)
    (hlead : page.lead = 1)
    (hdecode : ∀ offset bytes, lead.decode offset bytes = lead.decodePage page offset bytes)
    (hcodes : ∀ {opcode rule}, page.rule? opcode = some rule →
      ([lead.byte, opcode], rule) ∈ Architecture.z80.codes)
    (hrel : ∀ opcode, Option.Rel (Rule.Realizes .z80) (page.rule? opcode) (lead.form? opcode)) :
    Explained .z80 offset (lead.byte :: rest) (decodeFirst .z80 offset lead.byte rest) := by
  rw [decodeFirst_prefixed hlead hdecode]
  rcases rest with _ | ⟨opcode, tail⟩
  · exact .cut rfl switches rfl
  have hstarts : [lead.byte, opcode] <+: lead.byte :: opcode :: tail := by simp
  rcases hrule : page.rule? opcode with _ | rule
  · have hundocumented : lead.form? opcode = none := by
      have hopcode := hrel opcode
      rw [hrule] at hopcode
      generalize lead.form? opcode = form at hopcode
      cases hopcode
      rfl
    simp only [hrule]
    exact .unrecognized rfl switches hstarts hundocumented
  · by_cases hlong : rule.encodedLength 2 ≤ (lead.byte :: opcode :: tail).length
    · simp only [hrule, if_pos hlong]
      exact .coded (hcodes hrule) hstarts hlong
    · simp only [hrule, if_neg hlong]
      exact .incomplete (hcodes hrule) hstarts (Nat.lt_of_not_le hlong)

/-- Whatever the bytes are, there is a reason. -/
theorem explained_decodeFirst (architecture : Architecture) (offset : Nat) (first : UInt8)
    (rest : List UInt8) :
    Explained architecture offset (first :: rest) (decodeFirst architecture offset first rest) := by
  rcases hlead : Prefix.ofByte? first with _ | lead
  · obtain ⟨rule, hrule⟩ := @exists_rule architecture first hlead
    exact .of_rule hrule (.inl hlead)
  obtain rfl := Prefix.eq_byte_of_ofByte? hlead
  have hstarts : [lead.byte] <+: lead.byte :: rest := by simp
  by_cases hz80 : architecture = .z80
  · subst hz80
    cases lead with
    | cb =>
      exact .of_prefixed (.inl rfl) rfl (fun _ _ => rfl) mem_codes_z80_bits Z80Scheme.rel_bits
    | ed =>
      exact .of_prefixed (.inr rfl) rfl (fun _ _ => rfl) mem_codes_z80_extended
        Z80Scheme.rel_extended
    | dd => exact .indexed rfl (by simp) hstarts
    | fd => exact .indexed rfl (by simp) hstarts
  · have hforeign : lead.byte ∈ foreignPrefixes := by cases lead <;> decide
    rw [decodeFirst_base (.inr (decide_eq_false hz80)), (rule?_eq_none_iff hz80 _).mpr hforeign]
    exact .unknown hz80 hstarts

end Explained

/-! ## Entries -/

section Coded

variable {architecture : Architecture} {code : List UInt8} {rule : Rule}
  (mem : (code, rule) ∈ architecture.codes)

include mem

theorem firstByte_instruction (offset : Nat) {bytes : List UInt8} (starts : code <+: bytes) :
    firstByte (rule.instruction code.length offset bytes).bytes = firstByte code := by
  obtain ⟨first, more, rfl⟩ := List.exists_cons_of_ne_nil (codes_length architecture _ mem).1
  obtain ⟨rest, rfl⟩ := starts
  show firstByte ((first :: more ++ rest).take ((first :: more).length + _)) = first
  rw [List.length_cons, Nat.add_right_comm]
  rfl

theorem mnemonic_finish_ne (opcodeLength offset : Nat) (bytes : List UInt8) (origin : Address)
    (labels : LabelMap) (image : Span) :
    (((rule.instruction opcodeLength offset bytes).place offset.toUInt16 origin architecture).finish
      architecture labels image).instruction.mnemonic ≠ "DB" := by
  have hspelling := finish_spelling architecture labels image
    ((rule.instruction opcodeLength offset bytes).place offset.toUInt16 origin architecture)
  rw [(regular_of_mem_codes mem).spelling_instruction] at hspelling
  intro hdata
  refine (legible_of_mem_codes architecture _ mem).mnemonic_ne ?_
  exact (congrArg Spelling.mnemonic hspelling).symm.trans hdata

end Coded

/-- Every entry of a run stands where the image has the bytes that it was decoded from. -/
theorem Swept.exists_place {architecture : Architecture} {origin : Address} {offset : Nat}
    {bytes : List UInt8} {entries : List Entry}
    (h : Swept architecture origin offset bytes entries) :
    ∀ entry ∈ entries, ∃ distance first rest, bytes.drop distance = first :: rest ∧
      entry = (decodeFirst architecture (offset + distance) first rest).place
        (offset + distance).toUInt16 origin architecture := by
  induction h with
  | done offset => simp
  | @step offset first rest entries run ih =>
    intro entry hmem
    rcases List.mem_cons.mp hmem with rfl | hmem
    · exact ⟨0, first, rest, rfl, rfl⟩
    · obtain ⟨distance, next, behind, hdrop, rfl⟩ := ih entry hmem
      refine ⟨(decodeFirst architecture offset first rest).size + distance, next, behind, ?_, ?_⟩
      · rw [← List.drop_drop]
        exact hdrop
      · rw [Nat.add_assoc]

/-- Every entry of a result is a finished instruction with its reason. -/
theorem exists_explained_of_mem {image : List UInt8} {origin : Address}
    {architecture : Architecture} (fits : origin.toNat + image.length ≤ addressSpace) {entry : Entry}
    (h : entry ∈ (finished image origin architecture).entries) :
    ∃ offset decoded,
      Explained architecture offset (image.drop (entry.address.toNat - origin.toNat)) decoded ∧
      entry = (decoded.place offset.toUInt16 origin architecture).finish architecture
        (finished image origin architecture).labels ⟨origin, image.length⟩ := by
  obtain ⟨raw, hraw, rfl⟩ := List.mem_map.mp (Array.mem_toList_iff.mpr h)
  obtain ⟨distance, first, rest, hdrop, rfl⟩ :=
    (swept_rawEntries architecture origin image).exists_place raw hraw
  have hinside : distance < image.length := by
    by_contra hbehind
    rw [List.drop_eq_nil_of_le (Nat.le_of_not_lt hbehind)] at hdrop
    cases hdrop
  have haddress : (origin + (0 + distance).toUInt16).toNat = origin.toNat + distance := by
    rw [Nat.zero_add]
    apply toNat_add_offset
    omega
  refine ⟨0 + distance, _, ?_, rfl⟩
  rw [finish_address, place_address, haddress, Nat.add_sub_cancel_left, hdrop]
  exact explained_decodeFirst architecture (0 + distance) first rest

end Disasm
