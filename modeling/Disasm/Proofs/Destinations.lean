import Mathlib.Data.List.Basic
import Disasm.Proofs.Explained
import Disasm.Proofs.Statement

/-!
# Where an entry leads

The target of an entry is a function of its address and its bytes (`leadsTo?`), which knows the
branches by their opcodes and nothing of slots, offsets or origins.

1. The slot of a rule that names a target is told by the first byte of the opcode alone
   (`branchSlot?_of_mem_liveCodes`).
2. What such a slot makes of the bytes behind the opcode is what `leadsTo?` says
   (`leadsTo?_of_branchSlot?`). Without such a slot, and in data, there is no target.
3. So it is in every entry (`Explained.target_finish`), and no target is counted from the image any more
   (`disassemble_led`).
-/

namespace Disasm

/-! ## Branches -/

/-- The opcodes of the relative branches. Two of them are the Z80's alone. -/
def relativeOpcodes : Architecture → List UInt8
  | .z80 => [0x10, 0x18, 0x20, 0x28, 0x30, 0x38]
  | .i8080 | .i8085 => [0x10, 0x18, 0x28, 0x38]

/-- The opcodes of restarts: `11nnn111`. -/
def IsRestartOpcode (first : UInt8) : Prop :=
  first &&& 0xC7 = 0xC7

/-- The opcodes of jumps and calls: `C3` and `CD`, and `11ccc010` and `11ccc100` under a condition. -/
def IsLongOpcode (first : UInt8) : Prop :=
  first = 0xC3 ∨ first = 0xCD ∨ first &&& 0xC7 = 0xC2 ∨ first &&& 0xC7 = 0xC4

instance (first : UInt8) : Decidable (IsRestartOpcode first) :=
  inferInstanceAs (Decidable (_ = _))

instance (first : UInt8) : Decidable (IsLongOpcode first) :=
  inferInstanceAs (Decidable (_ ∨ _))

/-- Where the bytes of an entry at an address lead. A relative branch has two bytes and counts from its
end, forwards or backwards, and addresses wrap. A jump or a call has three. -/
def leadsTo? (architecture : Architecture) (address : Address) : List UInt8 → Option Address
  | [] => none
  | first :: trailing =>
    if IsRestartOpcode first then some (first &&& 0x38).toUInt16
    else if first ∈ relativeOpcodes architecture ∧ trailing.length = 1 then
      some (.ofInt (address.toNat + 2 + Int.bmod (trailingByte trailing 0).toNat 256))
    else if IsLongOpcode first ∧ trailing.length = 2 then some (trailingWord trailing)
    else none

/-- What is settled about the target of an entry. -/
structure Led (architecture : Architecture) (entry : Entry) : Prop where
  /-- No target is counted from the first byte of the image. -/
  settled : ∀ distance, entry.instruction.target ≠ some (.offset distance)
  destination?_eq : entry.instruction.destination? =
    leadsTo? architecture entry.address entry.instruction.bytes
  /-- Data has no target, whatever it starts with. -/
  data : entry.instruction.mnemonic = "DB" → entry.instruction.target = none

/-! ## Slots of branches -/

/-- The slot that names the target behind an opcode. -/
def branchSlot? (architecture : Architecture) (first : UInt8) : Option Slot :=
  if IsRestartOpcode first then some (.vector (first &&& 0x38))
  else if first ∈ relativeOpcodes architecture then some .relative
  else if IsLongOpcode first then some .absolute
  else none

/-- A branch is told by its first byte, which is its opcode. -/
theorem branchSlot?_of_mem_liveCodes (architecture : Architecture) :
    ∀ entry ∈ architecture.liveCodes,
      (Slot.hole? entry.2.slots).filter Slot.namesTarget =
          branchSlot? architecture (firstByte entry.1) ∧
        ((branchSlot? architecture (firstByte entry.1)).isSome →
          entry.1 = [firstByte entry.1]) := by
  have hintel : ∀ entry ∈ Architecture.i8080.liveCodes,
      (Slot.hole? entry.2.slots).filter Slot.namesTarget =
          branchSlot? .i8080 (firstByte entry.1) ∧
        ((branchSlot? .i8080 (firstByte entry.1)).isSome → entry.1 = [firstByte entry.1]) := by
    decide +kernel
  cases architecture with
  | z80 => decide +kernel
  | i8080 => exact hintel
  | i8085 => exact hintel

section Slots

variable {architecture : Architecture} {first : UInt8}

theorem branchSlot?_cases {slot : Slot} (h : branchSlot? architecture first = some slot) :
    (IsRestartOpcode first ∧ slot = .vector (first &&& 0x38)) ∨
      (¬ IsRestartOpcode first ∧ first ∈ relativeOpcodes architecture ∧ slot = .relative) ∨
      (¬ IsRestartOpcode first ∧ first ∉ relativeOpcodes architecture ∧ IsLongOpcode first ∧
        slot = .absolute) := by
  unfold branchSlot? at h
  split at h
  case isTrue hrestart => exact .inl ⟨hrestart, (Option.some.inj h).symm⟩
  case isFalse hrestart =>
    split at h
    case isTrue hrelative => exact .inr (.inl ⟨hrestart, hrelative, (Option.some.inj h).symm⟩)
    case isFalse hrelative =>
      split at h
      case isTrue hlong => exact .inr (.inr ⟨hrestart, hrelative, hlong, (Option.some.inj h).symm⟩)
      case isFalse => cases h

theorem leadsTo?_of_branchSlot? {slot : Slot} (h : branchSlot? architecture first = some slot)
    (address : Address) {rest : List UInt8} (hlong : slot.length ≤ rest.length) :
    leadsTo? architecture address (first :: rest.take slot.length) =
      some (slot.destination address rest) := by
  rw [leadsTo?]
  obtain ⟨hrestart, rfl⟩ | ⟨hrestart, hrelative, rfl⟩ | ⟨hrestart, hrelative, hopcode, rfl⟩ :=
    branchSlot?_cases h
  · rw [if_pos hrestart]
    rfl
  · have htake : rest.take (Slot.length .relative) = [firstByte rest] := take_one hlong
    rw [htake, if_neg hrestart, if_pos ⟨hrelative, rfl⟩]
    exact congrArg some (relativeTarget_eq address _).symm
  · have htake : rest.take (Slot.length .absolute) = [rest.getD 0 0, rest.getD 1 0] :=
      take_two hlong
    rw [htake, if_neg hrestart, if_neg fun hboth => hrelative hboth.1, if_pos ⟨hopcode, rfl⟩]
    exact congrArg some (trailingWord_eq rest)

theorem leadsTo?_eq_none (h : branchSlot? architecture first = none) (address : Address)
    (trailing : List UInt8) : leadsTo? architecture address (first :: trailing) = none := by
  have hrestart : ¬ IsRestartOpcode first := by
    intro hrestart
    rw [branchSlot?, if_pos hrestart] at h
    cases h
  rw [branchSlot?, if_neg hrestart] at h
  have hrelative : ¬ first ∈ relativeOpcodes architecture := by
    intro hrelative
    rw [if_pos hrelative] at h
    cases h
  rw [if_neg hrelative] at h
  have hlong : ¬ IsLongOpcode first := by
    intro hlong
    rw [if_pos hlong] at h
    cases h
  rw [leadsTo?, if_neg hrestart, if_neg fun hboth => hrelative hboth.1,
    if_neg fun hboth => hlong hboth.1]

theorem leadsTo?_singleton (h : ¬ IsRestartOpcode first) (address : Address) :
    leadsTo? architecture address [first] = none := by
  simp [leadsTo?, h]

theorem branchSlot?_leadByte (architecture : Architecture) (lead : Prefix) :
    branchSlot? architecture lead.byte = none := by
  cases architecture <;> cases lead <;> decide

theorem not_isRestartOpcode_leadByte (lead : Prefix) : ¬ IsRestartOpcode lead.byte := by
  cases lead <;> decide

/-- Restarts have no bytes behind the opcode, so none is cut short. -/
theorem not_isRestartOpcode_of_short {more bytes : List UInt8} {rule : Rule}
    (mem : (first :: more, rule) ∈ architecture.liveCodes) (starts : first :: more <+: bytes)
    (short : bytes.length < rule.encodedLength (first :: more).length) :
    ¬ IsRestartOpcode first := by
  intro hrestart
  obtain ⟨hslot, -⟩ := branchSlot?_of_mem_liveCodes architecture _ mem
  have hbranch : branchSlot? architecture first = some (.vector (first &&& 0x38)) := if_pos hrestart
  obtain ⟨hhole, -⟩ := Option.filter_eq_some_iff.mp (hslot.trans hbranch)
  have htotal := (regular_of_mem_codes (mem_codes_of_mem_liveCodes mem)).single.totalLength_eq
  rw [Rule.encodedLength, htotal, hhole] at short
  have hlong := starts.length_le
  have hvector : (Slot.vector (first &&& 0x38)).length = 0 := rfl
  rw [Option.elim_some, hvector] at short
  omega

end Slots

/-! ## Entries -/

section Entries

variable {architecture : Architecture} {offset : Nat} {bytes : List UInt8} {decoded : Instruction}

/-- The slot behind the opcode settles where an instruction leads. -/
theorem target_place_of_mem {code : List UInt8} {rule : Rule}
    (mem : (code, rule) ∈ architecture.liveCodes) (origin : Address) :
    ((rule.instruction code.length offset bytes).place offset.toUInt16 origin
        architecture).instruction.target =
      (branchSlot? architecture (firstByte code)).map fun slot =>
        .absolute (slot.destination (origin + offset.toUInt16) (bytes.drop code.length)) := by
  obtain ⟨hslot, -⟩ := branchSlot?_of_mem_liveCodes architecture _ mem
  rw [(regular_of_mem_codes (mem_codes_of_mem_liveCodes mem)).target_place, hslot]

theorem leadsTo?_of_mem {code : List UInt8} {rule : Rule}
    (mem : (code, rule) ∈ architecture.liveCodes) (starts : code <+: bytes)
    (long : rule.encodedLength code.length ≤ bytes.length) (address : Address) :
    leadsTo? architecture address (bytes.take (rule.encodedLength code.length)) =
      (branchSlot? architecture (firstByte code)).map
        (Slot.destination address (bytes.drop code.length)) := by
  obtain ⟨hslot, hcode⟩ := branchSlot?_of_mem_liveCodes architecture _ mem
  rcases hbranch : branchSlot? architecture (firstByte code) with _ | slot
  · -- The opcode may have two bytes here, of which the first settles the matter.
    have hne := (codes_length architecture _ (mem_codes_of_mem_liveCodes mem)).1
    obtain ⟨first, more, rfl⟩ := List.exists_cons_of_ne_nil hne
    obtain ⟨rest, rfl⟩ := starts
    have hfirst : branchSlot? architecture first = none := hbranch
    have htake : (first :: more ++ rest).take (rule.encodedLength (first :: more).length) =
        first :: (more ++ rest).take (more.length + Slot.totalLength rule.slots) := by
      rw [Rule.encodedLength, List.length_cons, Nat.add_right_comm]
      rfl
    rw [htake, leadsTo?_eq_none hfirst]
    rfl
  · have hsingle : code = [firstByte code] := hcode (by rw [hbranch]; rfl)
    obtain ⟨hhole, -⟩ := Option.filter_eq_some_iff.mp (hslot.trans hbranch)
    have hlength : rule.encodedLength [firstByte code].length = slot.length + 1 := by
      rw [Rule.encodedLength, List.length_singleton, Nat.add_comm,
        (regular_of_mem_codes (mem_codes_of_mem_liveCodes mem)).single.totalLength_eq, hhole]
      rfl
    rw [hsingle] at starts long ⊢
    obtain ⟨rest, rfl⟩ := starts
    rw [hlength] at long ⊢
    have hrest : slot.length ≤ rest.length := Nat.le_of_succ_le_succ long
    have htake : ([firstByte code] ++ rest).take (slot.length + 1) =
        firstByte code :: rest.take slot.length := rfl
    rw [htake, leadsTo?_of_branchSlot? hbranch _ hrest]
    rfl

theorem target_finish_data (taken : List UInt8) (comment : String) (origin : Address)
    (labels : LabelMap) (image : Span) :
    (((Instruction.data taken comment).place offset.toUInt16 origin architecture).finish
      architecture labels image).instruction.target = none := by
  rw [finish_target, place_frame]
  rfl

/-- The target of an entry is where its bytes lead. -/
theorem Explained.target_finish (h : Explained architecture offset bytes decoded)
    (origin : Address) (labels : LabelMap) (image : Span) :
    ((decoded.place offset.toUInt16 origin architecture).finish architecture labels
        image).instruction.target =
      (leadsTo? architecture (origin + offset.toUInt16) decoded.bytes).map .absolute := by
  -- A byte that is left as data is no restart, and the other branches take more than one byte.
  have hsingle : ∀ {first : UInt8}, ¬ IsRestartOpcode first → ∀ comment : String,
      (((Instruction.dataByte first comment).place offset.toUInt16 origin architecture).finish
          architecture labels image).instruction.target =
        (leadsTo? architecture (origin + offset.toUInt16)
          (Instruction.dataByte first comment).bytes).map .absolute := by
    intro first hrestart comment
    have hnone := @leadsTo?_singleton architecture _ hrestart (origin + offset.toUInt16)
    exact (target_finish_data _ comment origin labels image).trans
      (congrArg (Option.map Target.absolute) hnone).symm
  cases h with
  | coded mem starts long =>
    rw [finish_target, target_place_of_mem mem]
    show _ = (leadsTo? _ _ (bytes.take _)).map _
    rw [leadsTo?_of_mem mem starts long, Option.map_map]
    rfl
  | incomplete mem starts short => exact hsingle (not_isRestartOpcode_of_short mem starts short) _
  | cut z80 switches alone => exact hsingle (not_isRestartOpcode_leadByte _) _
  | indexed z80 named starts => exact hsingle (not_isRestartOpcode_leadByte _) _
  | @unrecognized lead opcode z80 switches starts undocumented =>
    have hnone := leadsTo?_eq_none (branchSlot?_leadByte architecture lead)
      (origin + offset.toUInt16) [opcode]
    exact (target_finish_data [lead.byte, opcode] _ origin labels image).trans
      (congrArg (Option.map Target.absolute) hnone).symm
  | unknown intel starts => exact hsingle (not_isRestartOpcode_leadByte _) _

/-- Data has no target, since nothing that a rule reads is taken for data. -/
theorem Explained.target_of_data (h : Explained architecture offset bytes decoded)
    (origin : Address) (labels : LabelMap) (image : Span)
    (hdata : ((decoded.place offset.toUInt16 origin architecture).finish architecture labels
      image).instruction.mnemonic = "DB") :
    ((decoded.place offset.toUInt16 origin architecture).finish architecture labels
      image).instruction.target = none := by
  cases h with
  | coded mem starts long =>
    exact absurd hdata (mnemonic_finish_ne (mem_codes_of_mem_liveCodes mem) _ _ _ _ _ _)
  | _ => exact target_finish_data _ _ origin labels image

end Entries

/-- The target of every entry of an accepted image is told by its address and its bytes. -/
theorem disassemble_led {image : List UInt8} {origin : Address} {architecture : Architecture}
    {disassembly : Disassembly} (h : disassemble image origin architecture = .ok disassembly) :
    ∀ entry ∈ disassembly.entries, Led architecture entry := by
  intro entry hmem
  obtain ⟨fits, rfl⟩ := eq_finished_of_disassemble h
  obtain ⟨offset, decoded, hexplained, rfl⟩ := exists_explained_of_mem fits hmem
  generalize (finished image origin architecture).labels = labels at hexplained ⊢
  have htarget := hexplained.target_finish origin labels ⟨origin, image.length⟩
  constructor
  case settled =>
    intro distance hoffset
    rw [hoffset] at htarget
    obtain ⟨address, -, habsurd⟩ := Option.map_eq_some_iff.mp htarget.symm
    cases habsurd
  case destination?_eq =>
    rw [Instruction.destination?, htarget, finish_bytes, place_bytes, finish_address, place_address]
    cases leadsTo? architecture (origin + offset.toUInt16) decoded.bytes <;> rfl
  case data => exact hexplained.target_of_data origin labels ⟨origin, image.length⟩

/-- A branch backwards over the start of the address space, a restart, and a jump that is cut short. -/
theorem disassemble_led_wrapping :
    ∃ disassembly, disassemble [0x18, 0x80, 0xFF, 0xC3, 0x00] 0x0002 .i8085 = .ok disassembly ∧
      disassembly.entries.toList.map (fun entry =>
          (entry.instruction.bytes, entry.instruction.target)) =
        [([0x18, 0x80], some (.absolute 0xFF84)), ([0xFF], some (.absolute 0x0038)),
          ([0xC3], none), ([0x00], none)] ∧
      ∀ entry ∈ disassembly.entries, Led .i8085 entry := by
  have h : disassemble [0x18, 0x80, 0xFF, 0xC3, 0x00] 0x0002 .i8085 = .ok _ :=
    disassemble_eq_ok .i8085 (by decide)
  exact ⟨_, h, by decide +kernel, disassemble_led h⟩

end Disasm
