import Mathlib.Data.List.Forall2
import Disasm.Proofs.Labels
import Disasm.Proofs.Patterns

/-!
# One image at two origins

The decoder does not know where an image is loaded. The origin comes in when an instruction is placed,
and there it moves the address and the targets that are counted from the start of the image. So two
disassemblies of an image consist of the same instructions, placed twice (`Swept.moved`).

1. Only relative branches count their target from the start of the image (`Decoded.exists_offset`,
   `Decoded.rebase_target`); all other targets stand in the code.
2. How an instruction is spelled depends on its target for restarts only, and a restart keeps its
   target. So the spelling is the same at all origins (`Decoded.spelling_place`).
3. In an image that fits no address wraps, so the addresses are as far apart as the origins
   (`Moved.relocated`).
-/

namespace Disasm

/-! ## Relative branches -/

/-- The mnemonics of the relative branches, which no architecture spells otherwise. -/
def relativeBranches : List String := ["JR", "DJNZ"]

/-- The relative branches are the rules with a displacement. -/
theorem relative_of_mem_codes (architecture : Architecture) : ∀ entry ∈ architecture.codes,
    (Slot.hole? entry.2.slots = some .relative ↔ entry.2.mnemonic ∈ relativeBranches) ∧
      ((entry.2.pattern architecture).mnemonic ∈ relativeBranches ↔
        entry.2.mnemonic ∈ relativeBranches) := by
  have hintel : ∀ entry ∈ Architecture.i8080.codes,
      (Slot.hole? entry.2.slots = some .relative ↔ entry.2.mnemonic ∈ relativeBranches) ∧
        ((entry.2.pattern .i8080).mnemonic ∈ relativeBranches ↔
          entry.2.mnemonic ∈ relativeBranches) := by decide +kernel
  cases architecture with
  | z80 => decide +kernel
  | i8080 => exact hintel
  | i8085 => exact hintel

section Decoded

variable {architecture : Architecture} {offset : Nat} {bytes : List UInt8}
  {instruction : Instruction}

/-- The target of a relative branch is counted from the start of the image. -/
theorem Decoded.exists_offset (h : Decoded architecture offset bytes instruction)
    (hbranch : instruction.mnemonic ∈ relativeBranches) :
    ∃ distance, instruction.target = some (.offset distance) := by
  cases h with
  | @coded code rule mem starts long =>
    have hhole := (relative_of_mem_codes architecture _ mem).1.mpr hbranch
    refine ⟨relativeTarget offset.toUInt16 ((bytes.drop code.length).getD 0 0), ?_⟩
    show Slot.lastTarget? _ rule.slots _ = _
    rw [(regular_of_mem_codes mem).single.lastTarget?_eq, hhole]
    rfl
  | data mem starts nonempty short => exact absurd hbranch (show "DB" ∉ relativeBranches by decide)

/-- Any other target is the same wherever the image is loaded. -/
theorem Decoded.rebase_target (h : Decoded architecture offset bytes instruction)
    (hbranch : instruction.mnemonic ∉ relativeBranches) (origin : Address) :
    instruction.target.map (.rebase origin) = instruction.target := by
  cases h with
  | @coded code rule mem starts long =>
    have hhole : Slot.hole? rule.slots ≠ some .relative := fun heq =>
      hbranch ((relative_of_mem_codes architecture _ mem).1.mp heq)
    show (Slot.lastTarget? _ rule.slots _).map _ = Slot.lastTarget? _ rule.slots _
    rw [(regular_of_mem_codes mem).single.lastTarget?_eq]
    rcases hslot : Slot.hole? rule.slots with _ | slot
    · rfl
    · rw [hslot] at hhole
      cases slot with
      | relative => exact absurd rfl hhole
      | _ => rfl
  | data mem starts nonempty short => rfl

/-- An instruction is spelled alike at all origins. -/
theorem Decoded.spelling_place (h : Decoded architecture offset bytes instruction)
    (origin other : Address) :
    architecture.spelling (instruction.place offset.toUInt16 other architecture).instruction =
      architecture.spelling (instruction.place offset.toUInt16 origin architecture).instruction := by
  cases h with
  | coded mem starts long =>
    rw [(regular_of_mem_codes mem).spelling_instruction,
      (regular_of_mem_codes mem).spelling_instruction]
  | data mem starts nonempty short => rw [spelling_data, spelling_data]

/-- A relative branch is one in every syntax. -/
theorem Decoded.mnemonic_spelling_mem (h : Decoded architecture offset bytes instruction)
    (origin : Address) :
    (architecture.spelling (instruction.place offset.toUInt16 origin
        architecture).instruction).mnemonic ∈ relativeBranches ↔
      instruction.mnemonic ∈ relativeBranches := by
  cases h with
  | coded mem starts long =>
    rw [(regular_of_mem_codes mem).spelling_instruction]
    exact (relative_of_mem_codes architecture _ mem).2
  | data mem starts nonempty short =>
    rw [spelling_data]
    rfl

end Decoded

/-! ## The note of the Z80 mnemonic -/

/-- The Z80 mnemonic is noted exactly if the spelling changes. -/
theorem toIntel_z80Mnemonic {instruction : Instruction} (h : instruction.z80Mnemonic = none) :
    instruction.toIntel.z80Mnemonic =
      if instruction.toIntel.spelling = instruction.spelling then none
      else some instruction.mnemonic := by
  rcases toIntel_cases instruction with ⟨hsame, -⟩ | ⟨spelling, -, hnew, hspelled⟩
  · rw [hsame, if_pos rfl, h]
  · have hchanged : instruction.toIntel.spelling ≠ instruction.spelling := by
      rw [hspelled]
      exact hnew
    rw [if_neg hchanged, hspelled]
    rfl

theorem finish_z80Mnemonic {architecture : Architecture} {labels : LabelMap} {image : Span}
    {entry : Entry} (h : entry.instruction.z80Mnemonic = none) :
    (entry.finish architecture labels image).instruction.z80Mnemonic =
      if architecture.spelling entry.instruction = entry.instruction.spelling then none
      else some entry.instruction.mnemonic := by
  rw [← finish_spelling architecture labels image entry]
  unfold Entry.finish
  rw [attach_eq]
  split
  · exact h.trans (if_pos rfl).symm
  · exact toIntel_z80Mnemonic h

/-! ## Runs -/

/-- Entries that one instruction of an image of `length` bytes gives at two origins. -/
inductive Moved (architecture : Architecture) (origin other : Address) (length : Nat) :
    Entry → Entry → Prop where
  | mk {offset : Nat} {bytes : List UInt8} {instruction : Instruction} (inside : offset < length)
      (decoded : Decoded architecture offset bytes instruction) :
      Moved architecture origin other length
        (instruction.place offset.toUInt16 origin architecture)
        (instruction.place offset.toUInt16 other architecture)

/-- Both runs decode the same instructions. -/
theorem Swept.moved {architecture : Architecture} {origin other : Address} {offset length : Nat}
    {bytes : List UInt8} {entries others : List Entry}
    (h : Swept architecture origin offset bytes entries)
    (hother : Swept architecture other offset bytes others) (hlength : offset + bytes.length ≤ length) :
    List.Forall₂ (Moved architecture origin other length) entries others := by
  induction h generalizing others with
  | done offset =>
    cases hother
    exact .nil
  | @step offset first rest entries run ih =>
    cases hother with
    | step otherRun =>
      have hsize : (decodeFirst architecture offset first rest).size ≤ (first :: rest).length :=
        (decoded_decodeFirst architecture offset first rest).bytes_starts.length_le
      have hinside : offset < length := by
        rw [List.length_cons] at hlength
        omega
      refine .cons (.mk hinside (decoded_decodeFirst architecture offset first rest)) (ih otherRun ?_)
      rw [List.length_drop]
      omega

/-! ## Results -/

/-- What an entry of an image at `origin` is in the same image at `other`. -/
structure Relocated (origin other : Address) (entry moved : Entry) : Prop where
  /-- Addresses are as far apart as the origins. -/
  address : (moved.address.toNat : Int) - entry.address.toNat = (other.toNat : Int) - origin.toNat
  bytes : moved.instruction.bytes = entry.instruction.bytes
  mnemonic : moved.instruction.mnemonic = entry.instruction.mnemonic
  operands : moved.instruction.operands = entry.instruction.operands
  z80Mnemonic : moved.instruction.z80Mnemonic = entry.instruction.z80Mnemonic
  io : moved.instruction.io = entry.instruction.io
  support : moved.instruction.support = entry.instruction.support
  /-- Relative branches are told by either mnemonic. -/
  branch : entry.instruction.mnemonic ∈ relativeBranches ↔
    entry.instruction.z80Name ∈ relativeBranches
  /-- The target of a relative branch moves along, modulo the size of the address space. -/
  relative : entry.instruction.z80Name ∈ relativeBranches →
    ∃ target, entry.instruction.target = some (.absolute target) ∧
      moved.instruction.target = some (.absolute (target + (other - origin)))
  /-- The target of a jump, a call or a restart stays where it is. -/
  fixed : entry.instruction.z80Name ∉ relativeBranches →
    moved.instruction.target = entry.instruction.target

section Relocated

variable {architecture : Architecture} {origin other : Address} {length : Nat}

theorem Moved.relocated {entry moved : Entry} (h : Moved architecture origin other length entry moved)
    (fits : origin.toNat + length ≤ addressSpace) (otherFits : other.toNat + length ≤ addressSpace)
    (labels others : LabelMap) (image otherImage : Span) :
    Relocated origin other (entry.finish architecture labels image)
      (moved.finish architecture others otherImage) := by
  cases h with
  | @mk offset bytes instruction inside decoded =>
    have hfresh : ∀ start, (instruction.place offset.toUInt16 start
        architecture).instruction.z80Mnemonic = none := by
      intro start
      rw [place_frame]
      exact decoded.fresh.2
    have hname : ((instruction.place offset.toUInt16 origin architecture).finish architecture labels
        image).instruction.z80Name = instruction.mnemonic := by
      rw [z80Name_finish (hfresh origin), place_mnemonic]
    have hsame := decoded.spelling_place origin other
    have hspelling := finish_spelling architecture labels image
      (instruction.place offset.toUInt16 origin architecture)
    have hotherSpelling := finish_spelling architecture others otherImage
      (instruction.place offset.toUInt16 other architecture)
    rw [hsame, ← hspelling] at hotherSpelling
    constructor
    case address =>
      rw [finish_address, finish_address, place_address, place_address,
        toNat_add_offset (show origin.toNat + offset < addressSpace by omega),
        toNat_add_offset (show other.toNat + offset < addressSpace by omega)]
      omega
    case bytes => rw [finish_bytes, finish_bytes, place_bytes, place_bytes]
    case mnemonic => exact congrArg Spelling.mnemonic hotherSpelling
    case operands => exact congrArg Spelling.operands hotherSpelling
    case z80Mnemonic =>
      rw [finish_z80Mnemonic (hfresh other), finish_z80Mnemonic (hfresh origin), hsame,
        place_spelling, place_spelling, place_mnemonic, place_mnemonic]
    case io => rw [finish_io, finish_io, place_frame, place_frame instruction offset.toUInt16 origin]
    case support =>
      rw [finish_support, finish_support, place_frame, place_frame instruction offset.toUInt16 origin]
    case branch =>
      rw [hname]
      show (Instruction.spelling _).mnemonic ∈ _ ↔ _
      rw [hspelling]
      exact decoded.mnemonic_spelling_mem origin
    case relative =>
      rw [hname, finish_target, finish_target, place_target, place_target]
      intro hbranch
      obtain ⟨distance, hdistance⟩ := decoded.exists_offset hbranch
      refine ⟨origin + distance, ?_, ?_⟩
      · rw [hdistance]
        rfl
      · have hshift : origin + distance + (other - origin) = other + distance := by
          rw [UInt16.add_comm, ← UInt16.add_assoc, UInt16.sub_add_cancel]
        rw [hdistance, hshift]
        rfl
    case fixed =>
      rw [hname, finish_target, finish_target, place_target, place_target]
      intro hbranch
      rw [decoded.rebase_target hbranch, decoded.rebase_target hbranch]

end Relocated

/-- An image that is loaded elsewhere has the same instructions. Their addresses move with the origin,
and so do the targets of relative branches; all other targets stay. -/
theorem disassemble_relocated {image : List UInt8} {origin other : Address}
    (architecture : Architecture) (fits : origin.toNat + image.length ≤ addressSpace)
    (otherFits : other.toNat + image.length ≤ addressSpace) :
    ∃ here there, disassemble image origin architecture = .ok here ∧
      disassemble image other architecture = .ok there ∧
      List.Forall₂ (Relocated origin other) here.entries.toList there.entries.toList := by
  refine ⟨_, _, disassemble_eq_ok architecture fits, disassemble_eq_ok architecture otherFits, ?_⟩
  have hruns : List.Forall₂ (Moved architecture origin other image.length)
      (rawEntries architecture origin image) (rawEntries architecture other image) :=
    (swept_rawEntries architecture origin image).moved (swept_rawEntries architecture other image)
      (by omega)
  show List.Forall₂ _ (List.map _ _) (List.map _ _)
  rw [List.forall₂_map_left_iff, List.forall₂_map_right_iff]
  exact hruns.imp fun entry moved hmoved => hmoved.relocated fits otherFits _ _ _ _

/-- A loop and a restart at the bottom and at the top of the address space. The loop goes back past
address zero. -/
theorem disassemble_relocated_top :
    ∃ here there, disassemble [0x10, 0xF0, 0xFF] 0x0000 .i8080 = .ok here ∧
      disassemble [0x10, 0xF0, 0xFF] 0xFFFD .i8080 = .ok there ∧
      here.entries.toList.map (·.instruction.destination?) = [some 0xFFF2, some 0x0038] ∧
      there.entries.toList.map (·.instruction.destination?) = [some 0xFFEF, some 0x0038] ∧
      List.Forall₂ (Relocated 0x0000 0xFFFD) here.entries.toList there.entries.toList := by
  obtain ⟨here, there, hhere, hthere, hentries⟩ :=
    @disassemble_relocated [0x10, 0xF0, 0xFF] 0x0000 0xFFFD .i8080 (by decide) (by decide)
  obtain ⟨-, rfl⟩ := eq_finished_of_disassemble hhere
  obtain ⟨-, rfl⟩ := eq_finished_of_disassemble hthere
  exact ⟨_, _, hhere, hthere, by decide +kernel, by decide +kernel, hentries⟩

end Disasm
