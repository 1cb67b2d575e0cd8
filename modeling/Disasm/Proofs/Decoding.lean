import Mathlib.Data.List.Basic
import Disasm.Disassembly

/-!
# What decoding can give

`decodeFirst` goes through a page or a prefix to a rule, or falls back to data. `Decoded` says once
what can come out of it (`decoded_decodeFirst`); the bounds on the bytes of an instruction are
derived from that and from a check of the tables (`codes_length`). Where it matters which rule is
taken, `decodeFirst_base` and `decodeFirst_prefixed` say so.
-/

namespace Disasm

/-! ## Reading slots -/

namespace Slot

theorem toNat_littleEndian (low high : UInt8) :
    (littleEndian low high).toNat = low.toNat + 256 * high.toNat := by
  have hlow := low.toNat_lt
  have hhigh := high.toNat_lt
  simp only [littleEndian, UInt16.toNat_add, UInt16.toNat_mul, UInt8.toNat_toUInt16,
    UInt16.reduceToNat]
  omega

/-- The operand of a slot whose bytes stand first. -/
def operand (bytes : List UInt8) : Slot → Operand
  | .text fixed => .text fixed
  | .imm8 => .imm8 (bytes.getD 0 0)
  | .imm16 => .imm16 (littleEndian (bytes.getD 0 0) (bytes.getD 1 0))
  | .port => .port (bytes.getD 0 0)
  | .direct => .direct (littleEndian (bytes.getD 0 0) (bytes.getD 1 0))
  | .absolute | .relative => .target
  | .vector _ => .vector

/-- The target of a slot whose bytes stand first. -/
def target? (offset : Address) (bytes : List UInt8) : Slot → Option Target
  | .absolute => some (.absolute (littleEndian (bytes.getD 0 0) (bytes.getD 1 0)))
  | .relative => some (.offset (relativeTarget offset (bytes.getD 0 0)))
  | .vector address => some (.absolute address.toUInt16)
  | _ => none

/-- The operands of slots whose bytes stand first. -/
def operands : List Slot → List UInt8 → List Operand
  | [], _ => []
  | slot :: slots, bytes => slot.operand bytes :: operands slots (bytes.drop slot.length)

/-- The last target of slots whose bytes stand first. -/
def lastTarget? (offset : Address) : List Slot → List UInt8 → Option Target
  | [], _ => none
  | slot :: slots, bytes =>
    (lastTarget? offset slots (bytes.drop slot.length)).or (slot.target? offset bytes)

theorem read_eq (offset : Address) (slot : Slot) (bytes : List UInt8) :
    slot.read offset bytes =
      if slot.length ≤ bytes.length then
        some (slot.operand bytes, slot.target? offset bytes, bytes.drop slot.length)
      else none := by
  cases slot <;> rcases bytes with _ | ⟨low, _ | ⟨high, rest⟩⟩ <;> rfl

theorem readAll_eq (offset : Address) (slots : List Slot) (bytes : List UInt8) :
    readAll offset slots bytes =
      if totalLength slots ≤ bytes.length then
        some (operands slots bytes, lastTarget? offset slots bytes)
      else none := by
  induction slots generalizing bytes with
  | nil => rfl
  | cons slot slots ih =>
    unfold readAll totalLength
    rw [read_eq]
    by_cases hslot : slot.length ≤ bytes.length
    · rw [if_pos hslot]
      simp only [ih, List.length_drop]
      by_cases hslots : totalLength slots ≤ bytes.length - slot.length
      · rw [if_pos hslots, if_pos (by omega)]
        rfl
      · rw [if_neg hslots, if_neg (by omega)]
    · rw [if_neg hslot, if_neg (by omega)]

theorem operand_take {slot : Slot} {count : Nat} (offset : Address) (bytes : List UInt8)
    (h : slot.length ≤ count) :
    slot.operand (bytes.take count) = slot.operand bytes ∧
      slot.target? offset (bytes.take count) = slot.target? offset bytes := by
  have hget : ∀ index < slot.length, (bytes.take count).getD index 0 = bytes.getD index 0 := by
    intro index hlt
    simp [List.getD_eq_getElem?_getD, List.getElem?_take_of_lt (show index < count by omega)]
  cases slot <;> simp_all [operand, target?, length]

theorem operands_take {slots : List Slot} {count : Nat} (offset : Address) (bytes : List UInt8)
    (h : totalLength slots ≤ count) :
    operands slots (bytes.take count) = operands slots bytes ∧
      lastTarget? offset slots (bytes.take count) = lastTarget? offset slots bytes := by
  induction slots generalizing bytes count with
  | nil => exact ⟨rfl, rfl⟩
  | cons slot slots ih =>
    unfold totalLength at h
    obtain ⟨hoperands, htarget⟩ := ih (bytes.drop slot.length) (show _ ≤ count - slot.length by omega)
    obtain ⟨hoperand, hslotTarget⟩ := operand_take offset bytes (show slot.length ≤ count by omega)
    unfold operands lastTarget?
    rw [hoperand, hslotTarget, List.drop_take, hoperands, htarget]
    exact ⟨rfl, rfl⟩

end Slot

/-! ## Rules of a page -/

theorem Page.mem_of_rule? {lead : Nat} {layers : List Page.Layer} {opcode : UInt8} {rule : Rule}
    (h : (Page.ofLayers lead layers).rule? opcode = some rule) :
    (opcode, rule) ∈ layers.flatten := by
  rw [Page.rule?_ofLayers, List.lookup_eq_some_iff] at h
  obtain ⟨before, after, hsplit, -⟩ := h
  rw [← List.mem_reverse, hsplit]
  simp

/-- The instruction that a rule reads from enough bytes. -/
def Rule.instruction (rule : Rule) (opcodeLength offset : Nat) (bytes : List UInt8) : Instruction :=
  { mnemonic := rule.mnemonic
    operands := Slot.operands rule.slots (bytes.drop opcodeLength)
    bytes := bytes.take (rule.encodedLength opcodeLength)
    target := Slot.lastTarget? offset.toUInt16 rule.slots (bytes.drop opcodeLength)
    io := rule.io
    support := rule.support }

theorem Rule.decode_eq {rule : Rule} {opcodeLength : Nat} {bytes : List UInt8} (offset : Nat)
    (h : opcodeLength ≤ bytes.length) :
    rule.decode opcodeLength offset bytes =
      if rule.encodedLength opcodeLength ≤ bytes.length then
        .instruction (rule.instruction opcodeLength offset bytes)
      else .truncated := by
  unfold Rule.decode Rule.encodedLength
  rw [Slot.readAll_eq, List.length_drop]
  by_cases hlong : Slot.totalLength rule.slots ≤ bytes.length - opcodeLength
  · rw [if_pos hlong, if_pos (by omega)]
    rfl
  · rw [if_neg hlong, if_neg (by omega)]

/-- What a page makes of bytes: the opcode at its place selects the rule. -/
theorem Page.decode_eq (page : Page) (offset : Nat) (bytes : List UInt8) :
    page.decode offset bytes =
      match bytes[page.lead]? with
      | none => .truncated
      | some opcode =>
        match page.rule? opcode with
        | none => .absent
        | some rule =>
          if rule.encodedLength page.opcodeLength ≤ bytes.length then
            .instruction (rule.instruction page.opcodeLength offset bytes)
          else .truncated := by
  unfold Page.decode
  rcases hopcode : bytes[page.lead]? with _ | opcode
  · rfl
  have hlt := (List.getElem?_eq_some_iff.mp hopcode).1
  rcases hrule : page.rule? opcode with _ | rule
  · simp only [hrule]
  · simp only [hrule]
    exact Rule.decode_eq offset hlt

theorem Page.decode_eq_instruction {page : Page} {offset : Nat} {bytes : List UInt8}
    {instruction : Instruction} (h : page.decode offset bytes = .instruction instruction) :
    ∃ opcode rule, bytes[page.lead]? = some opcode ∧ page.rule? opcode = some rule ∧
      rule.encodedLength page.opcodeLength ≤ bytes.length ∧
      instruction = rule.instruction page.opcodeLength offset bytes := by
  rw [Page.decode_eq] at h
  rcases hopcode : bytes[page.lead]? with _ | opcode
  · simp [hopcode] at h
  rcases hrule : page.rule? opcode with _ | rule
  · simp [hopcode, hrule] at h
  simp only [hopcode, hrule] at h
  split at h
  case isTrue hlong => exact ⟨opcode, rule, rfl, hrule, hlong, (Outcome.instruction.inj h).symm⟩
  case isFalse => cases h

theorem Page.decode_ne_undecoded (page : Page) (offset : Nat) (bytes : List UInt8)
    (instruction : Instruction) : page.decode offset bytes ≠ .undecoded instruction := by
  rw [Page.decode_eq]
  split
  · simp
  · split
    · simp
    · split <;> simp

/-! ## Codes -/

/-- The opcode bytes of an architecture with their rules. An opcode that a later layer overrides
stands there with both rules. -/
def Architecture.codes : Architecture → List (List UInt8 × Rule)
  | .z80 =>
    [Base.shared, Base.z80Additions].flatten.map (fun (opcode, rule) => ([opcode], rule)) ++
    [Bits.shiftOperations, Bits.bitOperations].flatten.map
      (fun (opcode, rule) => ([Prefix.cb.byte, opcode], rule)) ++
    [Extended.documented].flatten.map (fun (opcode, rule) => ([Prefix.ed.byte, opcode], rule))
  | .i8080 | .i8085 =>
    [Base.shared, Base.z80Additions, Base.i8085Additions].flatten.map
      fun (opcode, rule) => ([opcode], rule)

theorem codes_length (architecture : Architecture) : ∀ entry ∈ architecture.codes,
    entry.1 ≠ [] ∧ entry.2.encodedLength entry.1.length ≤ maxInstructionLength := by
  cases architecture <;> decide +kernel

/-! ## Outcomes of the decoder -/

/-- What is said about bytes that are left as data. -/
def Architecture.dataComments (architecture : Architecture) : List String :=
  ["Unknown opcode, not supported on " ++ architecture.name,
    "Incomplete instruction at end of image", "IX extended instruction, not decoded",
    "IY extended instruction, not decoded", "Unrecognized " ++ Hex.byte Prefix.cb.byte ++
    "-prefixed opcode", "Unrecognized " ++ Hex.byte Prefix.ed.byte ++ "-prefixed opcode"]

/-- What the first instruction of `bytes` can be, `offset` bytes into the image. -/
inductive Decoded (architecture : Architecture) (offset : Nat) (bytes : List UInt8) :
    Instruction → Prop where
  | coded {code : List UInt8} {rule : Rule} (mem : (code, rule) ∈ architecture.codes)
      (starts : code <+: bytes) (long : rule.encodedLength code.length ≤ bytes.length) :
      Decoded architecture offset bytes (rule.instruction code.length offset bytes)
  | data {taken : List UInt8} {comment : String} (mem : comment ∈ architecture.dataComments)
      (starts : taken <+: bytes) (nonempty : taken ≠ []) (short : taken.length ≤ 2) :
      Decoded architecture offset bytes (.data taken comment)

section Cases

variable {architecture : Architecture} {offset : Nat} {first : UInt8} {rest : List UInt8}
  {instruction : Instruction}

theorem Decoded.dataByte {comment : String} (h : comment ∈ architecture.dataComments) :
    Decoded architecture offset (first :: rest) (.dataByte first comment) :=
  .data h (by simp) (by simp) (by simp)

theorem mem_codes_z80_base {rule : Rule} (h : Page.z80.rule? first = some rule) :
    ([first], rule) ∈ Architecture.z80.codes := by
  have hmem := Page.mem_of_rule? h
  exact List.mem_append_left _ (List.mem_append_left _ (List.mem_map.mpr ⟨_, hmem, rfl⟩))

theorem mem_codes_z80_bits {opcode : UInt8} {rule : Rule} (h : Page.bits.rule? opcode = some rule) :
    ([Prefix.cb.byte, opcode], rule) ∈ Architecture.z80.codes := by
  have hmem := Page.mem_of_rule? h
  exact List.mem_append_left _ (List.mem_append_right _ (List.mem_map.mpr ⟨_, hmem, rfl⟩))

theorem mem_codes_z80_extended {opcode : UInt8} {rule : Rule}
    (h : Page.extended.rule? opcode = some rule) :
    ([Prefix.ed.byte, opcode], rule) ∈ Architecture.z80.codes := by
  have hmem := Page.mem_of_rule? h
  exact List.mem_append_right _ (List.mem_map.mpr ⟨_, hmem, rfl⟩)

theorem mem_codes_base {rule : Rule} (h : (Page.base architecture).rule? first = some rule) :
    ([first], rule) ∈ architecture.codes := by
  cases architecture with
  | z80 => exact mem_codes_z80_base h
  | i8080 => exact List.mem_map.mpr ⟨_, Page.mem_of_rule? h, rfl⟩
  | i8085 => exact List.mem_map.mpr ⟨_, Page.mem_of_rule? h, rfl⟩

theorem lead_base (architecture : Architecture) : (Page.base architecture).lead = 0 := by
  cases architecture <;> rfl

theorem Decoded.of_base
    (h : (Page.base architecture).decode offset (first :: rest) = .instruction instruction) :
    Decoded architecture offset (first :: rest) instruction := by
  obtain ⟨opcode, rule, hopcode, hrule, hlong, rfl⟩ := Page.decode_eq_instruction h
  have hlength : (Page.base architecture).opcodeLength = 1 := by
    rw [Page.opcodeLength, lead_base]
  rw [lead_base] at hopcode
  obtain rfl : first = opcode := by simpa using hopcode
  rw [hlength] at hlong ⊢
  have hstarts : [first] <+: first :: rest := by simp
  exact .coded (mem_codes_base hrule) hstarts hlong

/-- The prefixes that switch to a page of their own give a rule of that page or two bytes of
data. -/
theorem Decoded.of_decodePage {lead : Prefix} {page : Page} (hlead : page.lead = 1)
    (hcodes : ∀ {opcode rule}, page.rule? opcode = some rule →
      ([lead.byte, opcode], rule) ∈ Architecture.z80.codes)
    (hcomment : "Unrecognized " ++ Hex.byte lead.byte ++ "-prefixed opcode" ∈
      Architecture.z80.dataComments)
    (h : lead.decodePage page offset (lead.byte :: rest) = .instruction instruction) :
    Decoded .z80 offset (lead.byte :: rest) instruction := by
  unfold Prefix.decodePage at h
  split at h
  case h_1 =>
    split at h
    case h_1 => cases h
    case h_2 opcode hopcode =>
      obtain ⟨tail, rfl⟩ : ∃ tail, rest = opcode :: tail := by
        cases rest <;> simp_all
      simp only [Outcome.instruction.injEq] at h
      subst h
      exact .data hcomment (by simp) (by simp) (by simp)
  case h_2 =>
    obtain ⟨opcode, rule, hopcode, hrule, hlong, rfl⟩ := Page.decode_eq_instruction h
    have hlength : page.opcodeLength = 2 := by rw [Page.opcodeLength, hlead]
    obtain ⟨tail, rfl⟩ : ∃ tail, rest = opcode :: tail := by
      rw [hlead] at hopcode
      cases rest <;> simp_all
    rw [hlength] at hlong ⊢
    have hstarts : [lead.byte, opcode] <+: lead.byte :: opcode :: tail := by simp
    exact .coded (hcodes hrule) hstarts hlong

theorem Prefix.eq_byte_of_ofByte? {lead : Prefix} (h : Prefix.ofByte? first = some lead) :
    first = lead.byte := by
  unfold Prefix.ofByte? at h
  split at h <;> simp_all <;> subst h <;> rfl

theorem Prefix.decodePage_ne_undecoded (lead : Prefix) (page : Page) (bytes : List UInt8) :
    lead.decodePage page offset bytes ≠ .undecoded instruction := by
  unfold Prefix.decodePage
  split
  · split <;> simp
  · exact Page.decode_ne_undecoded page offset bytes instruction

theorem Decoded.of_prefix_instruction {lead : Prefix}
    (h : lead.decode offset (lead.byte :: rest) = .instruction instruction) :
    Decoded .z80 offset (lead.byte :: rest) instruction := by
  cases lead with
  | cb => exact .of_decodePage rfl mem_codes_z80_bits (by simp [Architecture.dataComments]) h
  | ed => exact .of_decodePage rfl mem_codes_z80_extended (by simp [Architecture.dataComments]) h
  | dd => cases h
  | fd => cases h

theorem Decoded.of_prefix_undecoded {lead : Prefix}
    (h : lead.decode offset (lead.byte :: rest) = .undecoded instruction) :
    Decoded .z80 offset (lead.byte :: rest) instruction := by
  cases lead with
  | cb => exact absurd h (Prefix.decodePage_ne_undecoded _ _ _)
  | ed => exact absurd h (Prefix.decodePage_ne_undecoded _ _ _)
  | dd =>
    cases h
    exact .dataByte (by simp [Architecture.dataComments])
  | fd =>
    cases h
    exact .dataByte (by simp [Architecture.dataComments])

end Cases

/-- Whatever the bytes are, the decoder gives one of the known forms. -/
theorem decoded_decodeFirst (architecture : Architecture) (offset : Nat) (first : UInt8)
    (rest : List UInt8) :
    Decoded architecture offset (first :: rest) (decodeFirst architecture offset first rest) := by
  -- On its page every architecture goes the same way.
  have hbase (h : decodeOutcome architecture offset first rest =
      (Page.base architecture).decode offset (first :: rest)) :
      Decoded architecture offset (first :: rest) (decodeFirst architecture offset first rest) := by
    unfold decodeFirst
    rw [h]
    split
    case h_1 instruction h => exact .of_base h
    case h_2 instruction h => exact absurd h (Page.decode_ne_undecoded _ _ _ _)
    case h_3 => exact .dataByte (by simp [Architecture.dataComments])
    case h_4 => exact .dataByte (by simp [Architecture.dataComments])
  rcases hlead : Prefix.ofByte? first with _ | lead
  · refine hbase ?_
    rw [decodeOutcome, hlead]
  by_cases hprimary : architecture.isPrimary
  · obtain rfl : architecture = .z80 := by simpa [Architecture.isPrimary] using hprimary
    obtain rfl := Prefix.eq_byte_of_ofByte? hlead
    unfold decodeFirst decodeOutcome
    simp only [hlead, hprimary, if_true]
    split
    case h_1 instruction h => exact .of_prefix_instruction h
    case h_2 instruction h => exact .of_prefix_undecoded h
    case h_3 => exact .dataByte (by simp [Architecture.dataComments])
    case h_4 => exact .dataByte (by simp [Architecture.dataComments])
  · refine hbase ?_
    simp only [decodeOutcome, hlead, hprimary]
    rfl

/-! ## Equations -/

section Equations

variable {architecture : Architecture} {first : UInt8}

theorem decodeFirst_base (h : Prefix.ofByte? first = none ∨ architecture.isPrimary = false)
    (offset : Nat) (rest : List UInt8) :
    decodeFirst architecture offset first rest =
      match (Page.base architecture).rule? first with
      | none => .dataByte first ("Unknown opcode, not supported on " ++ architecture.name)
      | some rule =>
        if rule.encodedLength 1 ≤ (first :: rest).length then
          rule.instruction 1 offset (first :: rest)
        else .dataByte first "Incomplete instruction at end of image" := by
  have houtcome : decodeOutcome architecture offset first rest =
      (Page.base architecture).decode offset (first :: rest) := by
    unfold decodeOutcome
    rcases h with hnone | hprimary
    · rw [hnone]
    · rw [hprimary]
      split <;> rfl
  have hlength : (Page.base architecture).opcodeLength = 1 := by
    rw [Page.opcodeLength, lead_base]
  unfold decodeFirst
  rw [houtcome, Page.decode_eq, lead_base, hlength, List.getElem?_cons_zero]
  rcases hrule : (Page.base architecture).rule? first with _ | rule
  · simp only [hrule]
  · by_cases hlong : rule.encodedLength 1 ≤ (first :: rest).length
    · simp only [hrule, if_pos hlong]
    · simp only [hrule, if_neg hlong]

theorem decodeFirst_prefixed {lead : Prefix} {page : Page} (hlead : page.lead = 1)
    (hdecode : ∀ offset bytes, lead.decode offset bytes = lead.decodePage page offset bytes)
    (offset : Nat) (rest : List UInt8) :
    decodeFirst .z80 offset lead.byte rest =
      match rest with
      | [] => .dataByte lead.byte "Incomplete instruction at end of image"
      | opcode :: tail =>
        match page.rule? opcode with
        | none => lead.unrecognized opcode
        | some rule =>
          if rule.encodedLength 2 ≤ (lead.byte :: opcode :: tail).length then
            rule.instruction 2 offset (lead.byte :: opcode :: tail)
          else .dataByte lead.byte "Incomplete instruction at end of image" := by
  have houtcome : decodeOutcome .z80 offset lead.byte rest =
      lead.decodePage page offset (lead.byte :: rest) := by
    unfold decodeOutcome
    rw [Prefix.ofByte?_byte, ← hdecode]
    rfl
  have hlength : page.opcodeLength = 2 := by rw [Page.opcodeLength, hlead]
  unfold decodeFirst
  rw [houtcome, Prefix.decodePage, Page.decode_eq, hlead, hlength]
  rcases rest with _ | ⟨opcode, tail⟩
  · rfl
  · rw [List.getElem?_cons_succ, List.getElem?_cons_zero]
    rcases hrule : page.rule? opcode with _ | rule
    · simp only [hrule]
    · by_cases hlong : rule.encodedLength 2 ≤ (lead.byte :: opcode :: tail).length
      · simp only [hrule, if_pos hlong]
      · simp only [hrule, if_neg hlong]

end Equations

/-! ## Bounds -/

section Bounds

variable {architecture : Architecture} {offset : Nat} {bytes : List UInt8}
  {instruction : Instruction}

/-- An instruction keeps the bytes from which it was read. -/
theorem Decoded.bytes_starts (h : Decoded architecture offset bytes instruction) :
    instruction.bytes <+: bytes := by
  cases h with
  | coded mem starts long => exact List.take_prefix _ _
  | data mem starts nonempty short => exact starts

theorem Decoded.size_bounds (h : Decoded architecture offset bytes instruction) :
    1 ≤ instruction.size ∧ instruction.size ≤ maxInstructionLength := by
  cases h with
  | @coded code rule mem starts long =>
    obtain ⟨hcode, hmax⟩ := codes_length architecture _ mem
    have hpos : 0 < code.length := List.length_pos_iff.mpr hcode
    have hsize : (rule.instruction code.length offset bytes).size =
        rule.encodedLength code.length := List.length_take_of_le long
    rw [hsize]
    refine ⟨?_, hmax⟩
    unfold Rule.encodedLength
    omega
  | data mem starts nonempty short =>
    have hpos := List.length_pos_iff.mpr nonempty
    have hsize : ∀ taken comment, (Instruction.data taken comment).size = taken.length :=
      fun _ _ => rfl
    rw [hsize, maxInstructionLength]
    omega

end Bounds

end Disasm
