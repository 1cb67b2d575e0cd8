import Mathlib.Data.List.TakeWhile
import Disasm.Proofs.Labels
import Disasm.Proofs.Patterns

/-!
# Operands from their texts

What is left of an operand in its text. A number or a label is marked by a character that no fixed
text holds, so the shape of an operand can be told from its text (`textShape_renderOperand`); and the
number can be told too, whether the target is shown by its number or by its label
(`address_eq_of_render_target_eq`).
-/

namespace Disasm

/-! ## Targets -/

/-- The label that an instruction shows in place of its target names its destination. -/
def Instruction.Shown (instruction : Instruction) : Prop :=
  ∀ name, instruction.targetLabel = some name →
    ∃ (kind : TargetKind) (address : Address),
      instruction.destination? = some address ∧ name = kind.tag ++ Hex.word address

theorem destination?_eq_some {instruction : Instruction} {address : Address} :
    instruction.destination? = some address ↔ instruction.target = some (.absolute address) := by
  unfold Instruction.destination?
  split
  case h_1 other h => simp [h]
  case h_2 h =>
    refine ⟨fun hnone => ?_, fun htarget => absurd htarget (h address)⟩
    cases hnone

theorem Instruction.Shown.cases {instruction : Instruction} {address : Address}
    (h : instruction.Shown) (hdestination : instruction.destination? = some address) :
    (∃ kind : TargetKind, instruction.renderOperand .target = kind.tag ++ Hex.word address ∧
      instruction.renderOperand .vector = kind.tag ++ Hex.word address) ∨
    (instruction.renderOperand .target = "$" ++ Hex.word address ∧
      instruction.renderOperand .vector = "$" ++ Hex.byte address.toUInt8) := by
  have htarget := destination?_eq_some.mp hdestination
  rcases hlabel : instruction.targetLabel with _ | name
  · right
    simp only [Instruction.renderOperand, hlabel, htarget]
    exact ⟨rfl, rfl⟩
  · left
    obtain ⟨kind, other, hother, rfl⟩ := h name hlabel
    obtain rfl : address = other := Option.some.inj (hdestination.symm.trans hother)
    simp only [Instruction.renderOperand, hlabel]
    exact ⟨kind, rfl, rfl⟩

theorem Instruction.Shown.target_form {instruction : Instruction} (h : instruction.Shown)
    {operand : Operand} (hoperand : operand = .target ∨ operand = .vector) :
    (∃ (kind : TargetKind) (address : Address),
      instruction.renderOperand operand = kind.tag ++ Hex.word address) ∨
    ∃ digits, instruction.renderOperand operand = "$" ++ digits ∧
      ∀ mark ∈ marks, mark ∉ digits.toList := by
  rcases hlabel : instruction.targetLabel with _ | name
  · right
    rcases htarget : instruction.target with _ | target
    · rcases hoperand with rfl | rfl <;> simp only [Instruction.renderOperand, hlabel, htarget]
      · exact ⟨"????", rfl, Plain.notMem (by decide)⟩
      · exact ⟨"??", rfl, Plain.notMem (by decide)⟩
    · rcases hoperand with rfl | rfl <;> simp only [Instruction.renderOperand, hlabel, htarget]
      · exact ⟨_, rfl, fun _ hmark => Hex.notMem_word hmark _⟩
      · exact ⟨_, rfl, fun _ hmark => Hex.notMem_byte hmark _⟩
  · left
    obtain ⟨kind, address, -, rfl⟩ := h name hlabel
    rcases hoperand with rfl | rfl <;> simp only [Instruction.renderOperand, hlabel]
    · exact ⟨kind, address, rfl⟩
    · exact ⟨kind, address, rfl⟩

theorem compact_renderOperand {instruction : Instruction} (h : instruction.Shown)
    {operand : Operand} (hplain : operand.IsPlain) :
    Compact (instruction.renderOperand operand) := by
  have hdollar : Compact "$" := by decide
  have hopen : Compact "($" := by decide
  have hclose : Compact ")" := by decide
  have htarget : ∀ operand, operand = .target ∨ operand = .vector →
      Compact (instruction.renderOperand operand) := by
    intro operand hoperand
    rcases h.target_form hoperand with ⟨kind, address, hform⟩ | ⟨digits, hform, hdigits⟩
    · rw [hform]
      refine Compact.append ?_ (Hex.compact_word address)
      cases kind <;> decide
    · rw [hform]
      exact hdollar.append fun divider hdivider => hdigits divider (List.mem_append_left _ hdivider)
  cases operand with
  | text fixed => exact Plain.compact hplain
  | imm8 value => exact hdollar.append (Hex.compact_byte value)
  | imm16 value => exact hdollar.append (Hex.compact_word value)
  | port value => exact (hopen.append (Hex.compact_byte value)).append hclose
  | direct address => exact (hopen.append (Hex.compact_word address)).append hclose
  | target => exact htarget _ (.inl rfl)
  | vector => exact htarget _ (.inr rfl)

theorem wordy_of_plain {instruction : Instruction} (h : instruction.Shown)
    (hmnemonic : Plain instruction.mnemonic)
    (hoperands : ∀ operand ∈ instruction.operands, operand.IsPlain) : instruction.Wordy := by
  refine ⟨hmnemonic.compact, fun text htext => ?_⟩
  obtain ⟨operand, hmem, rfl⟩ := List.mem_map.mp htext
  exact compact_renderOperand h (hoperands operand hmem)

/-! ## The shape of a text -/

/-- The shape of the text of an operand. A label stands for a number. -/
def textShape (text : List Char) : List Char :=
  if '_' ∈ text then ['$']
  else if '$' ∈ text then text.takeWhile (· ≠ '$') ++ ['$']
  else text

theorem textShape_dollar {front rest : List Char} (hdollar : '$' ∉ front) (hfront : '_' ∉ front)
    (hrest : '_' ∉ rest) : textShape (front ++ '$' :: rest) = front ++ ['$'] := by
  have hlabel : '_' ∉ front ++ '$' :: rest := by simp [hfront, hrest]
  rw [textShape, if_neg hlabel, if_pos (by simp), List.takeWhile_append_of_pos, List.takeWhile_cons]
  · simp
  · intro char hchar
    simpa using fun heq : char = '$' => hdollar (heq ▸ hchar)

theorem textShape_label (kind : TargetKind) (rest : List Char) :
    textShape (kind.tag.toList ++ rest) = ['$'] := by
  have hlabel : '_' ∈ kind.tag.toList := by cases kind <;> decide
  rw [textShape, if_pos (List.mem_append_left _ hlabel)]

/-- The shape of an operand can be told from its text. -/
theorem textShape_renderOperand {instruction : Instruction} (h : instruction.Shown)
    {operand : Operand} (hplain : operand.IsPlain) :
    textShape (instruction.renderOperand operand).toList = operand.shape.toList := by
  have hdollar : ∀ {digits : String}, '_' ∉ digits.toList →
      textShape ("$" ++ digits).toList = "$".toList := by
    intro digits hdigits
    rw [String.toList_append]
    exact textShape_dollar (show '$' ∉ ([] : List Char) by simp) (by simp) hdigits
  have hopen : ∀ {digits : String}, '_' ∉ digits.toList →
      textShape ("($" ++ digits ++ ")").toList = "($".toList := by
    intro digits hdigits
    rw [String.append_assoc, String.toList_append]
    refine textShape_dollar (show '$' ∉ ['('] by decide) (by decide) ?_
    simpa using hdigits
  have htarget : ∀ operand, operand = .target ∨ operand = .vector →
      textShape (instruction.renderOperand operand).toList = "$".toList := by
    intro operand hoperand
    rcases h.target_form hoperand with ⟨kind, address, hform⟩ | ⟨digits, hform, hdigits⟩
    · rw [hform, String.toList_append]
      exact textShape_label kind _
    · rw [hform]
      exact hdollar (hdigits '_' (by decide))
  cases operand with
  | text fixed =>
    have hmarks := Plain.notMem hplain
    show textShape fixed.toList = fixed.toList
    rw [textShape, if_neg (hmarks '_' (by decide)), if_neg (hmarks '$' (by decide))]
  | imm8 value => exact hdollar (Hex.notMem_byte (by decide) value)
  | imm16 value => exact hdollar (Hex.notMem_word (by decide) value)
  | port value => exact hopen (Hex.notMem_byte (by decide) value)
  | direct address => exact hopen (Hex.notMem_word (by decide) address)
  | target => exact htarget _ (.inl rfl)
  | vector => exact htarget _ (.inr rfl)

theorem shape_fill (spelling : Spelling) (byte : UInt8) (word : UInt16) :
    (spelling.fill byte word).shape = spelling.shape := by
  have hfill : Operand.shape ∘ Operand.fill byte word = Operand.shape := by
    funext operand
    cases operand <;> rfl
  rw [Spelling.shape, Spelling.fill, List.map_map, hfill]
  rfl

/-- Statements that read the same have the same shape. -/
theorem shape_eq_of_texts_eq {left right : Instruction} (hleft : left.Shown) (hright : right.Shown)
    (hleftPlain : ∀ operand ∈ left.operands, operand.IsPlain)
    (hrightPlain : ∀ operand ∈ right.operands, operand.IsPlain)
    (hmnemonic : left.mnemonic = right.mnemonic) (htexts : left.operandTexts = right.operandTexts) :
    left.spelling.shape = right.spelling.shape := by
  have hshapes : ∀ {instruction : Instruction}, instruction.Shown →
      (∀ operand ∈ instruction.operands, operand.IsPlain) →
      instruction.operandTexts.map (fun text => textShape text.toList) =
        (instruction.operands.map Operand.shape).map String.toList := by
    intro instruction hshown hplain
    rw [Instruction.operandTexts, List.map_map, List.map_map]
    refine List.map_congr_left fun operand hmem => ?_
    exact textShape_renderOperand hshown (hplain operand hmem)
  have hlists := hshapes hleft hleftPlain
  rw [htexts, hshapes hright hrightPlain] at hlists
  have hoperands := List.map_injective_iff.mpr (fun _ _ => String.toList_inj.mp) hlists
  exact Prod.ext hmnemonic hoperands.symm

/-! ## Numbers -/

section Numbers

variable {left right : Instruction} {operand : Operand} {byte otherByte : UInt8}
  {word otherWord : UInt16}

theorem byte_eq_of_render_eq (hkind : operand.kind = .byte)
    (h : left.renderOperand (operand.fill byte word) =
      right.renderOperand (operand.fill otherByte otherWord)) : byte = otherByte := by
  cases operand with
  | imm8 value =>
    refine Hex.byte_inj (String.toList_inj.mp ?_)
    simpa [Operand.fill, Instruction.renderOperand, ← String.toList_inj] using h
  | port value =>
    refine Hex.byte_inj (String.toList_inj.mp ?_)
    simpa [Operand.fill, Instruction.renderOperand, ← String.toList_inj] using h
  | _ => cases hkind

theorem word_eq_of_render_eq (hkind : operand.kind = .word)
    (h : left.renderOperand (operand.fill byte word) =
      right.renderOperand (operand.fill otherByte otherWord)) : word = otherWord := by
  cases operand with
  | imm16 value =>
    refine Hex.word_inj (String.toList_inj.mp ?_)
    simpa [Operand.fill, Instruction.renderOperand, ← String.toList_inj] using h
  | direct value =>
    refine Hex.word_inj (String.toList_inj.mp ?_)
    simpa [Operand.fill, Instruction.renderOperand, ← String.toList_inj] using h
  | _ => cases hkind

theorem tag_append_ne (kind : TargetKind) (rest digits : String) :
    kind.tag ++ rest ≠ "$" ++ digits := by
  intro h
  have hlist := congrArg (List.head? ∘ String.toList) h
  cases kind <;> simp [TargetKind.tag] at hlist

section Destinations

variable {address other : Address} (hleft : left.Shown) (hright : right.Shown)
  (haddress : left.destination? = some address) (hother : right.destination? = some other)

include hleft hright haddress hother

theorem address_eq_of_render_target_eq
    (h : left.renderOperand .target = right.renderOperand .target) : address = other := by
  rcases hleft.cases haddress with ⟨kind, htarget, -⟩ | ⟨htarget, -⟩ <;>
    rcases hright.cases hother with ⟨otherKind, hotherTarget, -⟩ | ⟨hotherTarget, -⟩ <;>
    rw [htarget, hotherTarget] at h
  · exact name_inj h
  · exact absurd h (tag_append_ne _ _ _)
  · exact absurd h.symm (tag_append_ne _ _ _)
  · refine Hex.word_inj (String.toList_inj.mp ?_)
    simpa [← String.toList_inj] using h

theorem low_eq_of_render_vector_eq
    (h : left.renderOperand .vector = right.renderOperand .vector) :
    address.toUInt8 = other.toUInt8 := by
  rcases hleft.cases haddress with ⟨kind, -, hvector⟩ | ⟨-, hvector⟩ <;>
    rcases hright.cases hother with ⟨otherKind, -, hotherVector⟩ | ⟨-, hotherVector⟩ <;>
    rw [hvector, hotherVector] at h
  · rw [name_inj h]
  · exact absurd h (tag_append_ne _ _ _)
  · exact absurd h.symm (tag_append_ne _ _ _)
  · refine Hex.byte_inj (String.toList_inj.mp ?_)
    simpa [← String.toList_inj] using h

end Destinations

end Numbers

end Disasm
