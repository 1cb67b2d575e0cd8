import Mathlib.Data.List.Basic
import Disasm.Proofs.Destinations
import Disasm.Proofs.Source

/-!
# How targets are shown

An entry with a target shows it in its operands: by its label if it lies in the image, by its number
otherwise, behind the condition of a branch or alone (`ShowsTarget`). An entry without one has no
operand that would show it.

1. The operands of a branch are told by its opcode (`operands_of_mem_liveCodes`).
2. The label of the target, or the number in its place, is what the result calls the target
   (`nameOf?_finished`).
3. Both together give the text of the operands (`showsTarget_of_mem`).
-/

namespace Disasm

/-! ## Names and conditions -/

/-- What a target is called: its label if it lies in the image, and its number otherwise. -/
def Disassembly.nameOf? (disassembly : Disassembly) (target : Address) (number : String) :
    Option String :=
  if disassembly.image.contains target then disassembly.labels[target]?.map Label.name
  else some number

/-- The condition that a branch is under: in two bits of `001cc000`, in three of `11ccc010` and
`11ccc100`. -/
def conditionOf? (first : UInt8) : Option String :=
  let fields := BitFields.ofOpcode first
  if fields.x.val = 0 ∧ fields.z.val = 0 ∧ 4 ≤ fields.y.val then conditionNames[fields.y.val - 4]?
  else if fields.x.val = 3 ∧ (fields.z.val = 2 ∨ fields.z.val = 4) then
    some (conditionNames.get fields.y)
  else none

/-- The name of a target behind the condition of the branch to it. -/
def underCondition (first : UInt8) (name : String) : String :=
  match conditionOf? first with
  | some condition => condition ++ ", " ++ name
  | none => name

/-- Branches that name their condition as an operand. -/
def NamesCondition (architecture : Architecture) (mnemonic : String) : Prop :=
  mnemonic ∈ ["JR", "DJNZ"] ∨ architecture = .z80 ∧ mnemonic ∈ ["JP", "CALL"]

/-- Branches of the 8080 and the 8085, whose condition is a part of the mnemonic. -/
def intelBranches : List String := "JMP" :: "CALL" :: Intel.jumps ++ Intel.calls

/-- How an instruction with a target shows it. -/
inductive ShowsTarget (disassembly : Disassembly) (target : Address) (instruction : Instruction) :
    Prop where
  | conditional {name : String}
      (mnemonic : NamesCondition disassembly.architecture instruction.mnemonic)
      (named : disassembly.nameOf? target ("$" ++ Hex.word target) = some name)
      (text : instruction.operandText = underCondition (firstByte instruction.bytes) name)
  | plain {name : String} (intel : disassembly.architecture ≠ .z80)
      (mnemonic : instruction.mnemonic ∈ intelBranches)
      (named : disassembly.nameOf? target ("$" ++ Hex.word target) = some name)
      (text : instruction.operandText = name)
  | restart {name : String} (z80 : disassembly.architecture = .z80)
      (mnemonic : instruction.mnemonic = "RST") (vector : target.toNat < 64)
      (named : disassembly.nameOf? target ("$" ++ Hex.byte target.toUInt8) = some name)
      (text : instruction.operandText = name)
  /-- Restarts of the 8080 and the 8085 are numbered from 0 to 7. -/
  | numbered (intel : disassembly.architecture ≠ .z80) (mnemonic : instruction.mnemonic = "RST")
      (vector : target.toNat < 64) (text : instruction.operandText = (target.toNat / 8).repr)

/-! ## Operands of branches -/

/-- The target behind the condition of the branch to it. -/
def conditionOperands (first : UInt8) : List Operand :=
  (conditionOf? first).toList.map .text ++ [.target]

/-- The mnemonics of branches by what stands behind their opcodes. -/
def branchMnemonics (architecture : Architecture) : Slot → List String
  | .relative => ["JR", "DJNZ"]
  | .absolute => if architecture = .z80 then ["JP", "CALL"] else intelBranches
  | .vector _ => ["RST"]
  | .text _ | .imm8 | .imm16 | .port | .direct => []

/-- The operands of branches by their opcodes and what stands behind them. -/
def branchOperands (architecture : Architecture) (first : UInt8) : Slot → List Operand
  | .relative => conditionOperands first
  | .absolute => if architecture = .z80 then conditionOperands first else [.target]
  | .vector address =>
    if architecture = .z80 then [.vector] else [.text (address.toNat / 8).repr]
  | .text _ | .imm8 | .imm16 | .port | .direct => []

def Operand.isTarget : Operand → Bool
  | .target | .vector => true
  | .text _ | .imm8 _ | .imm16 _ | .port _ | .direct _ => false

/-- How the pattern of a rule shows where it leads. -/
structure Spelling.ShowsBranch (architecture : Architecture) (first : UInt8) (spelling : Spelling) :
    Prop where
  branch : ∀ slot ∈ branchSlot? architecture first,
    spelling.mnemonic ∈ branchMnemonics architecture slot ∧
      spelling.operands = branchOperands architecture first slot
  /-- What is no branch shows no target. -/
  other : branchSlot? architecture first = none →
    ∀ operand ∈ spelling.operands, operand.isTarget = false

theorem Spelling.showsBranch_iff (architecture : Architecture) (first : UInt8)
    (spelling : Spelling) :
    spelling.ShowsBranch architecture first ↔
      (∀ slot ∈ branchSlot? architecture first,
        spelling.mnemonic ∈ branchMnemonics architecture slot ∧
          spelling.operands = branchOperands architecture first slot) ∧
        (branchSlot? architecture first = none →
          ∀ operand ∈ spelling.operands, operand.isTarget = false) :=
  ⟨fun h => ⟨h.1, h.2⟩, fun h => ⟨h.1, h.2⟩⟩

instance (architecture : Architecture) (first : UInt8) (spelling : Spelling) :
    Decidable (spelling.ShowsBranch architecture first) :=
  decidable_of_iff' _ (Spelling.showsBranch_iff architecture first spelling)

theorem showsBranch_of_mem_liveCodes (architecture : Architecture) :
    ∀ entry ∈ architecture.liveCodes,
      (entry.2.pattern architecture).ShowsBranch architecture (firstByte entry.1) := by
  have hintel : ∀ entry ∈ Architecture.i8080.liveCodes,
      (entry.2.pattern .i8080).ShowsBranch .i8080 (firstByte entry.1) := by decide +kernel
  cases architecture with
  | z80 => decide +kernel
  | i8080 => exact hintel
  | i8085 =>
    intro entry hmem
    exact ⟨(hintel entry hmem).branch, (hintel entry hmem).other⟩

/-- Filling in numbers leaves the operands of a branch as they are. -/
theorem map_fill_branchOperands (architecture : Architecture) (first : UInt8) (slot : Slot)
    (byte : UInt8) (word : UInt16) :
    (branchOperands architecture first slot).map (.fill byte word) =
      branchOperands architecture first slot := by
  have hcondition : (conditionOperands first).map (.fill byte word) = conditionOperands first := by
    unfold conditionOperands
    cases conditionOf? first <;> rfl
  cases slot with
  | relative => exact hcondition
  | absolute =>
    by_cases hz80 : architecture = .z80
    · rw [branchOperands, if_pos hz80]
      exact hcondition
    · rw [branchOperands, if_neg hz80]
      rfl
  | vector address => cases architecture <;> rfl
  | _ => rfl

theorem isTarget_fill (operand : Operand) (byte : UInt8) (word : UInt16) :
    (operand.fill byte word).isTarget = operand.isTarget := by
  cases operand <;> rfl

/-! ## Texts of targets -/

section Texts

variable {instruction : Instruction} {target : Target}

theorem renderOperand_target (h : instruction.target = some target) :
    instruction.renderOperand .target =
      instruction.targetLabel.getD ("$" ++ Hex.word target.value) := by
  unfold Instruction.renderOperand
  rw [h]
  cases instruction.targetLabel <;> rfl

theorem renderOperand_vector (h : instruction.target = some target) :
    instruction.renderOperand .vector =
      instruction.targetLabel.getD ("$" ++ Hex.byte target.value.toUInt8) := by
  unfold Instruction.renderOperand
  rw [h]
  cases instruction.targetLabel <;> rfl

theorem operandText_conditionOperands {first : UInt8}
    (h : instruction.operands = conditionOperands first) :
    instruction.operandText = underCondition first (instruction.renderOperand .target) := by
  unfold Instruction.operandText underCondition
  rw [h, conditionOperands]
  cases conditionOf? first <;> rfl

theorem operandText_singleton {operand : Operand} (h : instruction.operands = [operand]) :
    instruction.operandText = instruction.renderOperand operand := by
  rw [Instruction.operandText, h]
  rfl

end Texts

theorem nameOf?_finished {image : List UInt8} {origin : Address} {architecture : Architecture}
    (fits : origin.toNat + image.length ≤ addressSpace) {entry : Entry}
    (hmem : entry ∈ (finished image origin architecture).entries) {target : Address}
    (h : entry.instruction.destination? = some target) (number : String) :
    (finished image origin architecture).nameOf? target number =
      some (entry.instruction.targetLabel.getD number) := by
  have hlabel := targetLabel_finished hmem
  rw [h] at hlabel
  by_cases hinside : Span.contains ⟨origin, image.length⟩ target
  · have hname : (finished image origin architecture).nameOf? target number =
        (finished image origin architecture).labels[target]?.map Label.name := if_pos hinside
    rw [Option.filter_some_pos hinside, Option.bind_some] at hlabel
    have hknown := (mem_labels_finished fits target).mpr ⟨entry, hmem, h⟩
    rw [Std.TreeMap.mem_iff_isSome_getElem?, Option.isSome_iff_exists] at hknown
    obtain ⟨label, hsome⟩ := hknown
    rw [hname, hlabel, hsome]
    rfl
  · have hname : (finished image origin architecture).nameOf? target number = some number :=
      if_neg hinside
    rw [Option.filter_some_neg (Bool.eq_false_iff.mpr hinside)] at hlabel
    rw [hname, hlabel]
    rfl

/-! ## Entries -/

theorem toNat_vector_lt (first : UInt8) : (first &&& 0x38).toUInt16.toNat < 64 := by
  have hle : first.toNat &&& 0x38 ≤ 0x38 := Nat.and_le_right
  rw [UInt8.toNat_toUInt16, UInt8.toNat_and]
  show first.toNat &&& 0x38 < 64
  omega

section Entries

variable {disassembly : Disassembly} {instruction : Instruction} {first : UInt8} {slot : Slot}
  {target : Address}

/-- A branch that is spelled like one shows its target. -/
theorem showsTarget_of_branchSlot? {trailing : List UInt8} {place : Address}
    (hslot : branchSlot? disassembly.architecture first = some slot)
    (hmnemonic : instruction.mnemonic ∈ branchMnemonics disassembly.architecture slot)
    (hoperands : instruction.operands = branchOperands disassembly.architecture first slot)
    (hfirst : firstByte instruction.bytes = first)
    (hdestination : instruction.destination? = some target)
    (htarget : target = slot.destination place trailing)
    (hname : ∀ number, disassembly.nameOf? target number =
      some (instruction.targetLabel.getD number)) :
    ShowsTarget disassembly target instruction := by
  have hplace := destination?_eq_some.mp hdestination
  have hword : disassembly.nameOf? target ("$" ++ Hex.word target) =
      some (instruction.renderOperand .target) := by
    rw [renderOperand_target hplace]
    exact hname _
  obtain ⟨-, rfl⟩ | ⟨-, -, rfl⟩ | ⟨-, -, -, rfl⟩ := branchSlot?_cases hslot
  · have hvector : target.toNat < 64 := htarget ▸ toNat_vector_lt first
    have hrst : instruction.mnemonic = "RST" := List.mem_singleton.mp hmnemonic
    by_cases hz80 : disassembly.architecture = .z80
    · have hbyte : disassembly.nameOf? target ("$" ++ Hex.byte target.toUInt8) =
          some (instruction.renderOperand .vector) := by
        rw [renderOperand_vector hplace]
        exact hname _
      rw [branchOperands, if_pos hz80] at hoperands
      exact .restart hz80 hrst hvector hbyte (operandText_singleton hoperands)
    · rw [branchOperands, if_neg hz80] at hoperands
      refine .numbered hz80 hrst hvector ((operandText_singleton hoperands).trans ?_)
      rw [htarget]
      rfl
  · refine .conditional (.inl hmnemonic) hword ?_
    rw [hfirst]
    exact operandText_conditionOperands hoperands
  · by_cases hz80 : disassembly.architecture = .z80
    · rw [branchMnemonics, if_pos hz80] at hmnemonic
      rw [branchOperands, if_pos hz80] at hoperands
      refine .conditional (.inr ⟨hz80, hmnemonic⟩) hword ?_
      rw [hfirst]
      exact operandText_conditionOperands hoperands
    · rw [branchMnemonics, if_neg hz80] at hmnemonic
      rw [branchOperands, if_neg hz80] at hoperands
      exact .plain hz80 hmnemonic hword (operandText_singleton hoperands)

/-- Data has numbers for operands and no target. -/
theorem Presents.isTarget_data {architecture : Architecture} {origin : Address} {offset : Nat}
    {taken : List UInt8} {comment : String}
    (h : Presents architecture origin offset (.data taken comment) instruction) :
    instruction.target = none ∧ ∀ operand ∈ instruction.operands, operand.isTarget = false := by
  refine ⟨h.target, fun operand hmem => ?_⟩
  rw [h.data.2] at hmem
  obtain ⟨byte, -, rfl⟩ := List.mem_map.mp hmem
  rfl

section Coded

variable {origin : Address} {offset : Nat} {code bytes : List UInt8} {rule : Rule}
  (h : Coded disassembly.architecture origin offset code rule bytes instruction)
  (mem : (code, rule) ∈ disassembly.architecture.liveCodes)

include h mem

theorem Coded.target_eq :
    instruction.target = (branchSlot? disassembly.architecture (firstByte code)).map fun slot =>
      .absolute (slot.destination (origin + offset.toUInt16) (bytes.drop code.length)) := by
  rw [← target_place_of_mem mem, h.presents.target, place_frame]

theorem Coded.showsTarget (hslot : branchSlot? disassembly.architecture (firstByte code) = some slot)
    (hbytes : instruction.bytes = (rule.instruction code.length offset bytes).bytes)
    (htarget : instruction.target =
      some (.absolute (slot.destination (origin + offset.toUInt16) (bytes.drop code.length))))
    (hname : ∀ target, instruction.destination? = some target → ∀ number,
      disassembly.nameOf? target number = some (instruction.targetLabel.getD number)) :
    ShowsTarget disassembly
      (slot.destination (origin + offset.toUInt16) (bytes.drop code.length)) instruction := by
  have hdestination := destination?_eq_some.mpr htarget
  obtain ⟨hmnemonic, hoperands⟩ :=
    (showsBranch_of_mem_liveCodes disassembly.architecture _ mem).branch slot hslot
  refine showsTarget_of_branchSlot? hslot ?_ ?_ ?_ hdestination rfl (hname _ hdestination)
  · rwa [h.mnemonic]
  · rw [h.operands, hoperands, map_fill_branchOperands]
  · rw [hbytes, firstByte_instruction h.mem offset h.starts]

theorem Coded.isTarget_eq_false
    (hslot : branchSlot? disassembly.architecture (firstByte code) = none) :
    ∀ operand ∈ instruction.operands, operand.isTarget = false := by
  intro operand hoperand
  rw [h.operands] at hoperand
  obtain ⟨blank, hblank, rfl⟩ := List.mem_map.mp hoperand
  rw [isTarget_fill]
  exact (showsBranch_of_mem_liveCodes disassembly.architecture _ mem).other hslot blank hblank

end Coded

end Entries

/-- An entry shows the target that it has, or has neither a target nor an operand for it. -/
theorem showsTarget_of_mem {image : List UInt8} {origin : Address} {architecture : Architecture}
    (fits : origin.toNat + image.length ≤ addressSpace) {entry : Entry}
    (hmem : entry ∈ (finished image origin architecture).entries) :
    (∃ target, entry.instruction.target = some (.absolute target) ∧
      ShowsTarget (finished image origin architecture) target entry.instruction) ∨
    (entry.instruction.target = none ∧
      ∀ operand ∈ entry.instruction.operands, operand.isTarget = false) := by
  have hshown := shown_of_mem fits hmem
  obtain ⟨offset, decoded, hexplained, hentry⟩ := exists_explained_of_mem fits hmem
  have hpresents : Presents architecture origin offset decoded entry.instruction := by
    rw [hentry] at hshown ⊢
    exact presents_finish hshown
  have hbytes : entry.instruction.bytes = decoded.bytes := by
    rw [hentry, finish_bytes, place_bytes]
  cases hexplained with
  | @coded code rule mem starts long =>
    have hcoded : Coded (finished image origin architecture).architecture origin offset code rule _
        entry.instruction := ⟨mem_codes_of_mem_liveCodes mem, starts, long, hpresents⟩
    have htarget := hcoded.target_eq mem
    rcases hslot : branchSlot? (finished image origin architecture).architecture
      (firstByte code) with _ | slot
    · rw [hslot] at htarget
      exact .inr ⟨htarget, hcoded.isTarget_eq_false mem hslot⟩
    · rw [hslot] at htarget
      exact .inl ⟨_, htarget, hcoded.showsTarget mem hslot hbytes htarget
        fun target hdestination => nameOf?_finished fits hmem hdestination⟩
  | _ => exact .inr hpresents.isTarget_data

end Disasm
