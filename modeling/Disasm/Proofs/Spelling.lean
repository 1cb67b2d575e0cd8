import Mathlib.Data.List.Basic
import Disasm.Proofs.Result

/-!
# Spelling leaves numbers alone

How an instruction is spelled on the 8080 and the 8085 depends on its mnemonic and on the kinds of its
operands, never on the numbers in them (`Intel.spelling?_fill`). So a rule has one spelling for all
instructions that it decodes: its `pattern`, with their numbers filled in (`spelling_instruction`).
-/

namespace Disasm

/-- The operand with other numbers in it. -/
def Operand.fill (byte : UInt8) (word : UInt16) : Operand → Operand
  | .text fixed => .text fixed
  | .imm8 _ => .imm8 byte
  | .imm16 _ => .imm16 word
  | .port _ => .port byte
  | .direct _ => .direct word
  | .target => .target
  | .vector => .vector

/-- The spelling with other numbers in it. -/
def Spelling.fill (byte : UInt8) (word : UInt16) (spelling : Spelling) : Spelling :=
  ⟨spelling.mnemonic, spelling.operands.map (.fill byte word)⟩

/-! ## Families of instructions -/

namespace Intel

section Fill

variable (byte : UInt8) (word : UInt16)

theorem arithmeticWith?_fill (forms : String × String) (source : Operand) :
    arithmeticWith? forms (source.fill byte word) =
      (arithmeticWith? forms source).map (.fill byte word) := by
  cases source with
  | text name =>
    show (if isRegister name then _ else none) = Option.map _ (if isRegister name then _ else none)
    split <;> rfl
  | _ => rfl

theorem arithmeticSpelling?_fill (mnemonic : String) (forms : String × String)
    (operands : List Operand) :
    arithmeticSpelling? mnemonic forms (operands.map (.fill byte word)) =
      (arithmeticSpelling? mnemonic forms operands).map (.fill byte word) := by
  rcases operands with _ | ⟨first, _ | ⟨second, _ | ⟨third, rest⟩⟩⟩
  · rfl
  · have hsource : ∀ source, arithmeticSpelling? mnemonic forms [source] =
        if mnemonic ∈ ["ADD", "ADC", "SBC"] then none else arithmeticWith? forms source := by
      intro source
      cases source <;> simp [arithmeticSpelling?]
    rw [List.map_singleton, hsource, hsource, arithmeticWith?_fill]
    split <;> rfl
  · cases first with
    | text name =>
      by_cases hA : name = "A"
      · subst hA
        show (if mnemonic ≠ "SUB" then arithmeticWith? forms (second.fill byte word) else none) =
          (if mnemonic ≠ "SUB" then arithmeticWith? forms second else none).map _
        rw [arithmeticWith?_fill]
        split <;> rfl
      by_cases hHL : name = "HL"
      · subst hHL
        cases second with
        | text pair =>
          show (if mnemonic = "ADD" then _ else none) =
            Option.map _ (if mnemonic = "ADD" then _ else none)
          split <;> rfl
        | _ => rfl
      simp [arithmeticSpelling?, Operand.fill, hA, hHL]
    | _ => rfl
  · cases first with
    | text name => simp [arithmeticSpelling?, Operand.fill]
    | _ => rfl

theorem load?_eq_none {operands : List Operand} (h : operands.length ≠ 2) :
    load? operands = none := by
  unfold load?
  split
  case h_13 => rfl
  all_goals exact absurd rfl h

theorem load?_fill (operands : List Operand) :
    load? (operands.map (.fill byte word)) = (load? operands).map (.fill byte word) := by
  by_cases hlength : operands.length = 2
  case neg =>
    rw [load?_eq_none hlength, load?_eq_none (by rwa [List.length_map])]
    rfl
  obtain ⟨first, second, rfl⟩ := List.length_eq_two.mp hlength
  cases first with
  | text name =>
    cases second with
    | text other =>
      -- Without numbers both sides spell the same operands.
      show load? [.text name, .text other] = (load? [.text name, .text other]).map _
      unfold load?
      split
      case h_6 => split <;> rfl
      all_goals simp_all [Operand.fill, Spelling.fill]
    | direct address =>
      show load? [.text name, .direct word] = (load? [.text name, .direct address]).map _
      by_cases hA : name = "A"
      · rw [hA]
        rfl
      by_cases hHL : name = "HL"
      · rw [hHL]
        rfl
      simp [load?, hA, hHL]
    | _ => simp [load?, Operand.fill, Spelling.fill]
  | direct address =>
    cases second with
    | text other =>
      show load? [.direct word, .text other] = (load? [.direct address, .text other]).map _
      by_cases hA : other = "A"
      · rw [hA]
        rfl
      by_cases hHL : other = "HL"
      · rw [hHL]
        rfl
      simp [load?, hA, hHL]
    | _ => rfl
  | _ => rfl

theorem exchange?_fill (operands : List Operand) :
    exchange? (operands.map (.fill byte word)) = (exchange? operands).map (.fill byte word) := by
  rcases operands with _ | ⟨first, _ | ⟨second, _ | ⟨third, rest⟩⟩⟩
  · rfl
  · cases first with
    | text name => simp [exchange?, Operand.fill]
    | _ => rfl
  · cases first with
    | text name =>
      cases second with
      | text other =>
        show exchange? [.text name, .text other] = (exchange? [.text name, .text other]).map _
        unfold exchange?
        split <;> rfl
      | _ => simp [exchange?, Operand.fill]
    | _ => rfl
  · cases first with
    | text name => cases second <;> simp [exchange?, Operand.fill]
    | _ => rfl

theorem conditional?_fill (mnemonics : List String) (condition : String) (operands : List Operand) :
    ((conditional? mnemonics condition).map fun mnemonic =>
        (⟨mnemonic, operands.map (.fill byte word)⟩ : Spelling)) =
      ((conditional? mnemonics condition).map fun mnemonic =>
        (⟨mnemonic, operands⟩ : Spelling)).map (.fill byte word) := by
  rw [Option.map_map]
  rfl

theorem jump?_fill (operands : List Operand) :
    jump? (operands.map (.fill byte word)) = (jump? operands).map (.fill byte word) := by
  rcases operands with _ | ⟨first, _ | ⟨second, _ | ⟨third, rest⟩⟩⟩
  · rfl
  · cases first with
    | text name =>
      by_cases hHL : name = "(HL)"
      · rw [hHL]
        rfl
      simp [jump?, Operand.fill, hHL]
    | _ => rfl
  · cases first with
    | text condition =>
      cases second with
      | target =>
        simp only [jump?, List.map_cons, List.map_nil, Operand.fill]
        exact conditional?_fill byte word jumps condition [.target]
      | _ => simp [jump?, Operand.fill]
    | _ => rfl
  · cases first with
    | text condition => simp [jump?, Operand.fill]
    | _ => rfl

theorem call?_fill (operands : List Operand) :
    call? (operands.map (.fill byte word)) = (call? operands).map (.fill byte word) := by
  rcases operands with _ | ⟨first, _ | ⟨second, _ | ⟨third, rest⟩⟩⟩
  · rfl
  · cases first <;> rfl
  · cases first with
    | text condition =>
      cases second with
      | target => exact conditional?_fill byte word calls condition [.target]
      | _ => rfl
    | _ => rfl
  · cases first with
    | text condition => cases second <;> rfl
    | _ => rfl

theorem return?_fill (operands : List Operand) :
    return? (operands.map (.fill byte word)) = (return? operands).map (.fill byte word) := by
  rcases operands with _ | ⟨first, _ | ⟨second, rest⟩⟩
  · rfl
  · cases first with
    | text condition => exact conditional?_fill byte word returns condition []
    | _ => rfl
  · cases first <;> rfl

theorem restart?_fill (vector : Option Address) (operands : List Operand) :
    restart? vector (operands.map (.fill byte word)) =
      (restart? vector operands).map (.fill byte word) := by
  rcases operands with _ | ⟨first, _ | ⟨second, rest⟩⟩
  · rfl
  · cases first with
    | vector => cases vector <;> rfl
    | _ => rfl
  · cases first <;> rfl

theorem count?_fill (single pair : String) (operands : List Operand) :
    count? single pair (operands.map (.fill byte word)) =
      (count? single pair operands).map (.fill byte word) := by
  rcases operands with _ | ⟨first, _ | ⟨second, rest⟩⟩
  · rfl
  · cases first <;> rfl
  · cases first <;> rfl

theorem stack?_fill (mnemonic : String) (operands : List Operand) :
    stack? mnemonic (operands.map (.fill byte word)) =
      (stack? mnemonic operands).map (.fill byte word) := by
  rcases operands with _ | ⟨first, _ | ⟨second, rest⟩⟩
  · rfl
  · cases first <;> rfl
  · cases first <;> rfl

theorem input?_fill (operands : List Operand) :
    input? (operands.map (.fill byte word)) = (input? operands).map (.fill byte word) := by
  rcases operands with _ | ⟨first, _ | ⟨second, _ | ⟨third, rest⟩⟩⟩
  · rfl
  · cases first with
    | text name => simp [input?, Operand.fill]
    | _ => rfl
  · cases first with
    | text name =>
      by_cases hA : name = "A"
      · rw [hA]
        cases second <;> rfl
      simp [input?, Operand.fill, hA]
    | _ => rfl
  · cases first with
    | text name => simp [input?, Operand.fill]
    | _ => rfl

theorem output?_fill (operands : List Operand) :
    output? (operands.map (.fill byte word)) = (output? operands).map (.fill byte word) := by
  rcases operands with _ | ⟨first, _ | ⟨second, _ | ⟨third, rest⟩⟩⟩
  · rfl
  · cases first <;> rfl
  · cases first with
    | port value =>
      cases second with
      | text name =>
        by_cases hA : name = "A"
        · rw [hA]
          rfl
        simp [output?, Operand.fill, hA]
      | _ => rfl
    | _ => rfl
  · cases first with
    | port value => simp [output?, Operand.fill]
    | _ => rfl

/-- The family that spells an instruction depends on the mnemonic alone. -/
theorem otherSpelling?_fill {instruction filled : Instruction}
    (hmnemonic : filled.mnemonic = instruction.mnemonic)
    (hoperands : filled.operands = instruction.operands.map (.fill byte word))
    (hrestart : instruction.mnemonic = "RST" → filled.destination? = instruction.destination?) :
    otherSpelling? filled = (otherSpelling? instruction).map (.fill byte word) := by
  unfold otherSpelling?
  rw [hmnemonic, hoperands]
  split
  · exact load?_fill byte word _
  · exact exchange?_fill byte word _
  · exact jump?_fill byte word _
  · exact call?_fill byte word _
  · exact return?_fill byte word _
  · rw [hrestart (by assumption)]
    exact restart?_fill byte word _ _
  · exact count?_fill byte word _ _ _
  · exact count?_fill byte word _ _ _
  · exact stack?_fill byte word _ _
  · exact stack?_fill byte word _ _
  · exact input?_fill byte word _
  · exact output?_fill byte word _
  · rfl

/-- Numbers pass through the spelling unchanged. A restart is spelled by its vector, which is the
destination. -/
theorem spelling?_fill {instruction filled : Instruction}
    (hmnemonic : filled.mnemonic = instruction.mnemonic)
    (hoperands : filled.operands = instruction.operands.map (.fill byte word))
    (hrestart : instruction.mnemonic = "RST" → filled.destination? = instruction.destination?) :
    spelling? filled = (spelling? instruction).map (.fill byte word) := by
  unfold spelling?
  rw [hmnemonic]
  split
  · rw [hoperands, List.isEmpty_map]
    split <;> rfl
  · rw [hoperands]
    exact arithmeticSpelling?_fill byte word _ _ _
  · exact otherSpelling?_fill byte word hmnemonic hoperands hrestart

end Fill

end Intel

/-! ## Finished entries -/

/-- The mnemonic and the operands. -/
def Instruction.spelling (instruction : Instruction) : Spelling :=
  ⟨instruction.mnemonic, instruction.operands⟩

@[simp]
theorem place_spelling (instruction : Instruction) (offset origin : Address)
    (architecture : Architecture) :
    (instruction.place offset origin architecture).instruction.spelling = instruction.spelling := by
  rw [place_frame]
  rfl

/-- How an instruction in Z80 syntax is spelled on an architecture. -/
def Architecture.spelling (architecture : Architecture) (instruction : Instruction) : Spelling :=
  if architecture.isPrimary then instruction.spelling
  else (Intel.spelling? instruction).getD instruction.spelling

theorem toIntel_spelling (instruction : Instruction) :
    instruction.toIntel.spelling = (Intel.spelling? instruction).getD instruction.spelling := by
  unfold Instruction.toIntel Instruction.toIntel?
  rcases Intel.spelling? instruction with _ | spelling
  · rfl
  by_cases hsame : spelling = ⟨instruction.mnemonic, instruction.operands⟩
  · simp only [if_pos hsame]
    exact hsame.symm
  · simp only [if_neg hsame]
    rfl

/-- An instruction keeps its spelling and everything else, or it is spelled anew; then its old mnemonic
is noted and its old text is added to the comment. -/
theorem toIntel_cases (instruction : Instruction) :
    (instruction.toIntel = instruction ∧
      ∀ spelling, Intel.spelling? instruction = some spelling → spelling = instruction.spelling) ∨
    ∃ spelling, Intel.spelling? instruction = some spelling ∧ spelling ≠ instruction.spelling ∧
      instruction.toIntel =
        { instruction with
          mnemonic := spelling.mnemonic
          operands := spelling.operands
          z80Mnemonic := some instruction.mnemonic }.addComment ("Z80: " ++ instruction.text) := by
  unfold Instruction.toIntel Instruction.toIntel?
  rcases Intel.spelling? instruction with _ | spelling
  · exact .inl ⟨rfl, fun spelling h => nomatch h⟩
  by_cases hsame : spelling = ⟨instruction.mnemonic, instruction.operands⟩
  · refine .inl ⟨?_, fun other h => ?_⟩
    · simp only [if_pos hsame, Option.getD_none]
    · exact Option.some.inj h ▸ hsame
  · refine .inr ⟨spelling, rfl, hsame, ?_⟩
    simp only [if_neg hsame, Option.getD_some]

/-- Another label of the target and another comment show in these two places alone. -/
theorem toIntel_remarked (instruction : Instruction) (targetLabel comment : Option String) :
    ∃ remark, { instruction with targetLabel, comment }.toIntel =
      { instruction.toIntel with targetLabel, comment := remark } := by
  have hspelling : Intel.spelling? { instruction with targetLabel, comment } =
      Intel.spelling? instruction := rfl
  unfold Instruction.toIntel Instruction.toIntel?
  rw [hspelling]
  rcases Intel.spelling? instruction with _ | spelling
  · exact ⟨_, rfl⟩
  · by_cases hsame : spelling = ⟨instruction.mnemonic, instruction.operands⟩
    · simp only [if_pos hsame]
      exact ⟨_, rfl⟩
    · simp only [if_neg hsame]
      exact ⟨_, rfl⟩

theorem finish_spelling (architecture : Architecture) (labels : LabelMap) (image : Span)
    (entry : Entry) :
    (entry.finish architecture labels image).instruction.spelling =
      architecture.spelling entry.instruction := by
  unfold Entry.finish Architecture.spelling
  rw [attach_eq]
  split
  · rfl
  · exact toIntel_spelling _

theorem spelling_fill {architecture : Architecture} {instruction filled : Instruction}
    (byte : UInt8) (word : UInt16) (hmnemonic : filled.mnemonic = instruction.mnemonic)
    (hoperands : filled.operands = instruction.operands.map (.fill byte word))
    (hrestart : instruction.mnemonic = "RST" → filled.destination? = instruction.destination?) :
    architecture.spelling filled = (architecture.spelling instruction).fill byte word := by
  have hspelling : filled.spelling = instruction.spelling.fill byte word := by
    rw [Instruction.spelling, hmnemonic, hoperands]
    rfl
  unfold Architecture.spelling
  split
  · exact hspelling
  · rw [Intel.spelling?_fill byte word hmnemonic hoperands hrestart, hspelling]
    cases Intel.spelling? instruction <;> rfl

theorem spelling_data (architecture : Architecture) (bytes : List UInt8) (comment : String)
    (offset origin : Address) :
    architecture.spelling
      ((Instruction.data bytes comment).place offset origin architecture).instruction =
        ⟨"DB", bytes.map .imm8⟩ := by
  rw [place_frame]
  cases architecture <;> rfl

/-! ## Patterns of rules -/

def firstByte (bytes : List UInt8) : UInt8 :=
  bytes.getD 0 0

def firstWord (bytes : List UInt8) : UInt16 :=
  Slot.littleEndian (bytes.getD 0 0) (bytes.getD 1 0)

namespace Slot

def isText : Slot → Bool
  | .text _ => true
  | _ => false

/-- At most one slot is not fixed text. -/
def Single (slots : List Slot) : Prop :=
  slots.Pairwise fun slot later => slot.isText ∨ later.isText

instance (slots : List Slot) : Decidable (Single slots) :=
  inferInstanceAs (Decidable (slots.Pairwise _))

/-- The slot that is not fixed text. -/
def hole? (slots : List Slot) : Option Slot :=
  slots.find? fun slot => !slot.isText

theorem eq_text_of_isText {slot : Slot} (h : slot.isText) : ∃ fixed, slot = .text fixed := by
  cases slot with
  | text fixed => exact ⟨fixed, rfl⟩
  | _ => cases h

theorem Single.rest {slot : Slot} {slots : List Slot} (h : Single (slot :: slots))
    (hslot : ¬ slot.isText) : ∀ later ∈ slots, later.isText := fun later hmem =>
  ((List.pairwise_cons.mp h).1 later hmem).resolve_left hslot

section Texts

variable {slots : List Slot} (h : ∀ slot ∈ slots, slot.isText)

include h

theorem totalLength_of_texts : totalLength slots = 0 := by
  induction slots with
  | nil => rfl
  | cons slot slots ih =>
    obtain ⟨fixed, rfl⟩ := eq_text_of_isText (h _ List.mem_cons_self)
    rw [totalLength, ih fun later hmem => h later (List.mem_cons_of_mem _ hmem)]
    rfl

theorem operands_of_texts (bytes other : List UInt8) :
    operands slots bytes = operands slots other := by
  induction slots generalizing bytes other with
  | nil => rfl
  | cons slot slots ih =>
    obtain ⟨fixed, rfl⟩ := eq_text_of_isText (h _ List.mem_cons_self)
    rw [operands, operands, ih fun later hmem => h later (List.mem_cons_of_mem _ hmem)]
    rfl

theorem lastTarget?_of_texts (offset : Address) (bytes : List UInt8) :
    lastTarget? offset slots bytes = none := by
  induction slots generalizing bytes with
  | nil => rfl
  | cons slot slots ih =>
    obtain ⟨fixed, rfl⟩ := eq_text_of_isText (h _ List.mem_cons_self)
    rw [lastTarget?, ih fun later hmem => h later (List.mem_cons_of_mem _ hmem)]
    rfl

end Texts

theorem operand_eq_fill (slot : Slot) (bytes : List UInt8) :
    slot.operand bytes = (slot.operand []).fill (firstByte bytes) (firstWord bytes) := by
  cases slot <;> rfl

section Single

variable {slots : List Slot} (h : Single slots)

include h

/-- The numbers of all operands stand in the first bytes. -/
theorem Single.operands_eq_fill (bytes : List UInt8) :
    operands slots bytes =
      (operands slots []).map (.fill (firstByte bytes) (firstWord bytes)) := by
  induction slots with
  | nil => rfl
  | cons slot slots ih =>
    rw [operands, operands, List.map_cons, ← operand_eq_fill, List.drop_nil,
      ← ih (List.pairwise_cons.mp h).2]
    by_cases hslot : slot.isText
    · obtain ⟨fixed, rfl⟩ := eq_text_of_isText hslot
      rfl
    · rw [operands_of_texts (h.rest hslot) (bytes.drop slot.length) bytes]

theorem Single.totalLength_eq : totalLength slots = (hole? slots).elim 0 Slot.length := by
  induction slots with
  | nil => rfl
  | cons slot slots ih =>
    by_cases hslot : slot.isText
    · obtain ⟨fixed, rfl⟩ := eq_text_of_isText hslot
      rw [totalLength, ih (List.pairwise_cons.mp h).2]
      exact Nat.zero_add _
    · rw [totalLength, totalLength_of_texts (h.rest hslot), hole?,
        List.find?_cons_of_pos (by simpa using hslot)]
      rfl

theorem Single.lastTarget?_eq (offset : Address) (bytes : List UInt8) :
    lastTarget? offset slots bytes = (hole? slots).bind (·.target? offset bytes) := by
  induction slots with
  | nil => rfl
  | cons slot slots ih =>
    by_cases hslot : slot.isText
    · obtain ⟨fixed, rfl⟩ := eq_text_of_isText hslot
      rw [lastTarget?, hole?, List.find?_cons_of_neg (by simp [isText]), ← hole?,
        ← ih (List.pairwise_cons.mp h).2]
      exact Option.or_none
    · rw [lastTarget?, lastTarget?_of_texts (h.rest hslot), hole?,
        List.find?_cons_of_pos (by simpa using hslot)]
      rfl

end Single

end Slot

/-- The spelling of what a rule decodes, with zeros for the numbers. -/
def Rule.pattern (architecture : Architecture) (rule : Rule) : Spelling :=
  architecture.spelling (rule.instruction 0 0 [])

/-- What is asked of a rule so that its pattern says how it is spelled. -/
structure Rule.Regular (rule : Rule) : Prop where
  single : Slot.Single rule.slots
  restart : rule.mnemonic = "RST" → ∃ vector, rule.slots = [.vector vector]

section Regular

variable {rule : Rule}

/-- Where a restart goes is told by its rule. -/
theorem Rule.Regular.destination?_place (h : rule.Regular) (architecture : Architecture)
    (origin : Address) (opcodeLength offset : Nat) (bytes : List UInt8)
    (hrestart : rule.mnemonic = "RST") :
    ((rule.instruction opcodeLength offset bytes).place offset.toUInt16 origin
      architecture).instruction.destination? = (rule.instruction 0 0 []).destination? := by
  obtain ⟨vector, hslots⟩ := h.restart hrestart
  rw [place_frame]
  simp only [Instruction.destination?, Rule.instruction, hslots, Slot.lastTarget?]
  rfl

/-- All instructions of a rule are spelled by its pattern. -/
theorem Rule.Regular.spelling_instruction (h : rule.Regular)
    (architecture : Architecture) (origin : Address) (opcodeLength offset : Nat)
    (bytes : List UInt8) :
    architecture.spelling ((rule.instruction opcodeLength offset bytes).place offset.toUInt16 origin
        architecture).instruction =
      (rule.pattern architecture).fill (firstByte (bytes.drop opcodeLength))
        (firstWord (bytes.drop opcodeLength)) := by
  refine spelling_fill _ _ ?_ ?_ (h.destination?_place architecture origin opcodeLength offset bytes)
  · rw [place_frame]
    rfl
  · rw [place_frame]
    exact h.single.operands_eq_fill _

/-- Whether an instruction is spelled anew depends on its rule. -/
theorem Rule.Regular.spelling?_instruction (h : rule.Regular)
    (architecture : Architecture) (origin : Address) (opcodeLength offset : Nat)
    (bytes : List UInt8) :
    Intel.spelling? ((rule.instruction opcodeLength offset bytes).place offset.toUInt16 origin
        architecture).instruction =
      (Intel.spelling? (rule.instruction 0 0 [])).map (.fill (firstByte (bytes.drop opcodeLength))
        (firstWord (bytes.drop opcodeLength))) := by
  refine Intel.spelling?_fill _ _ ?_ ?_
    (h.destination?_place architecture origin opcodeLength offset bytes)
  · rw [place_frame]
    rfl
  · rw [place_frame]
    exact h.single.operands_eq_fill _

end Regular

end Disasm
