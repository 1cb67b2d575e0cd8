import Mathlib.Data.List.Basic
import Disasm.Proofs.Sweep

/-!
# Decoding by index

The decoder of `Disassembly` takes bytes off a list and cannot fail. Here it is written over a whole
image with a cursor, as it would be over a buffer: every byte is fetched by its index, every
instruction is built by `Instruction.ofBytes`, and the loop has to move on. Each of these can fail in
its own way (`Fault`). `run_eq` says that none does, and that both decoders give the same entries.
-/

namespace Disasm.Cursor

/-- What stops a decoder that relies on its indices. -/
inductive Fault where
  /-- A byte behind the end is fetched. -/
  | index (position : Nat)
  /-- An instruction has a number of bytes that no instruction has. -/
  | length (size : Nat)
  /-- The cursor stays where it is. -/
  | stuck
  deriving DecidableEq

/-! ## The decoder -/

def byteAt (bytes : List UInt8) (position : Nat) : Except Fault UInt8 :=
  match bytes[position]? with
  | some byte => .ok byte
  | none => .error (.index position)

/-- The word at a position, the low byte first. -/
def wordAt (bytes : List UInt8) (position : Nat) : Except Fault UInt16 :=
  match byteAt bytes position, byteAt bytes (position + 1) with
  | .ok low, .ok high => .ok (Slot.littleEndian low high)
  | .error fault, _ | _, .error fault => .error fault

/-- The operand of a slot whose bytes start at `position`, and the target that it names. -/
def operandAt (offset : Address) (bytes : List UInt8) (position : Nat) :
    Slot → Except Fault (Operand × Option Target)
  | .text fixed => .ok (.text fixed, none)
  | .vector address => .ok (.vector, some (.absolute address.toUInt16))
  | .imm8 => (byteAt bytes position).map fun value => (.imm8 value, none)
  | .port => (byteAt bytes position).map fun value => (.port value, none)
  | .relative => (byteAt bytes position).map fun value =>
      (.target, some (.offset (relativeTarget offset value)))
  | .imm16 => (wordAt bytes position).map fun value => (.imm16 value, none)
  | .direct => (wordAt bytes position).map fun value => (.direct value, none)
  | .absolute => (wordAt bytes position).map fun value => (.target, some (.absolute value))

/-- The operands of slots whose bytes start at `position`, and the last target among them. -/
def operandsAt (offset : Address) (bytes : List UInt8) :
    (position : Nat) → List Slot → Except Fault (List Operand × Option Target)
  | _, [] => .ok ([], none)
  | position, slot :: slots =>
    match operandAt offset bytes position slot,
      operandsAt offset bytes (position + slot.length) slots with
    | .ok (operand, target), .ok (operands, later) => .ok (operand :: operands, later.or target)
    | .error fault, _ | _, .error fault => .error fault

/-- Builds an instruction that is legal everywhere. -/
def build (mnemonic : String) (operands : List Operand) (bytes : List UInt8) :
    Except Fault Instruction :=
  match Instruction.ofBytes mnemonic operands bytes with
  | .ok instruction => .ok instruction
  | .error error => .error (.length error.length)

/-- Builds a declaration of data. -/
def buildData (bytes : List UInt8) (comment : String) : Except Fault Instruction :=
  (build "DB" (bytes.map .imm8) bytes).map fun instruction =>
    { instruction with support := .none }.addComment comment

/-- Decodes by a rule: the bytes are cut out first, then the slots are read from them. -/
def decodeRule (rule : Rule) (opcodeLength : Nat) (image : List UInt8) (offset : Nat) :
    Except Fault Outcome :=
  let length := rule.encodedLength opcodeLength
  let bytes := (image.drop offset).take length
  if offset + length ≤ image.length then
    match operandsAt offset.toUInt16 bytes opcodeLength rule.slots with
    | .error fault => .error fault
    | .ok (operands, target) => (build rule.mnemonic operands bytes).map fun instruction =>
        .instruction { instruction with target, io := rule.io, support := rule.support }
  else .ok .truncated

def decodePage (page : Page) (image : List UInt8) (offset : Nat) : Except Fault Outcome :=
  match image[offset + page.lead]? with
  | none => .ok .truncated
  | some opcode =>
    match page.rule? opcode with
    | none => .ok .absent
    | some rule => decodeRule rule page.opcodeLength image offset

def decodePrefixed (lead : Prefix) (page : Page) (image : List UInt8) (offset : Nat) :
    Except Fault Outcome :=
  match decodePage page image offset with
  | .ok .absent =>
    match image[offset + page.lead]? with
    | none => .ok .truncated
    | some opcode =>
      (buildData [lead.byte, opcode]
        ("Unrecognized " ++ Hex.byte lead.byte ++ "-prefixed opcode")).map .instruction
  | result => result

def decodePrefix (lead : Prefix) (image : List UInt8) (offset : Nat) : Except Fault Outcome :=
  match lead with
  | .cb => decodePrefixed lead .bits image offset
  | .ed => decodePrefixed lead .extended image offset
  | .dd => (buildData [lead.byte] "IX extended instruction, not decoded").map .undecoded
  | .fd => (buildData [lead.byte] "IY extended instruction, not decoded").map .undecoded

/-- What the bytes at the cursor decode to. -/
def outcomeAt (architecture : Architecture) (image : List UInt8) (offset : Nat) (first : UInt8) :
    Except Fault Outcome :=
  match Prefix.ofByte? first with
  | some lead =>
    if architecture.isPrimary then decodePrefix lead image offset
    else decodePage (.base architecture) image offset
  | none => decodePage (.base architecture) image offset

def decodeAt (architecture : Architecture) (image : List UInt8) (offset : Nat) :
    Except Fault Instruction :=
  match byteAt image offset with
  | .error fault => .error fault
  | .ok first =>
    match outcomeAt architecture image offset first with
    | .error fault => .error fault
    | .ok (.instruction instruction) | .ok (.undecoded instruction) => .ok instruction
    | .ok .absent =>
      buildData [first] ("Unknown opcode, not supported on " ++ architecture.name)
    | .ok .truncated => buildData [first] "Incomplete instruction at end of image"

/-- Decodes from the cursor to the end of the image. -/
def run (architecture : Architecture) (origin : Address) (image : List UInt8) (offset : Nat) :
    Except Fault (List Entry) :=
  if offset < image.length then
    match decodeAt architecture image offset with
    | .error fault => .error fault
    | .ok instruction =>
      if 0 < instruction.size then
        (run architecture origin image (offset + instruction.size)).map
          (instruction.place offset.toUInt16 origin architecture :: ·)
      else .error .stuck
  else .ok []
termination_by image.length - offset

/-! ## Fetching succeeds where reading does -/

section Fetching

variable {bytes : List UInt8} {position : Nat}

theorem byteAt_eq (h : position < bytes.length) :
    byteAt bytes position = .ok ((bytes.drop position).getD 0 0) := by
  rw [byteAt, List.getElem?_eq_getElem h, List.getD_eq_getElem?_getD, List.getElem?_drop,
    Nat.add_zero, List.getElem?_eq_getElem h]
  rfl

theorem wordAt_eq (h : position + 1 < bytes.length) :
    wordAt bytes position = .ok (Slot.littleEndian ((bytes.drop position).getD 0 0)
      ((bytes.drop position).getD 1 0)) := by
  have hnext : (bytes.drop (position + 1)).getD 0 0 = (bytes.drop position).getD 1 0 := by
    simp only [List.getD_eq_getElem?_getD, List.getElem?_drop, Nat.add_zero]
  rw [wordAt, byteAt_eq (by omega), byteAt_eq h, hnext]

theorem operandAt_eq {slot : Slot} (offset : Address) (h : position + slot.length ≤ bytes.length) :
    operandAt offset bytes position slot =
      .ok (slot.operand (bytes.drop position), slot.target? offset (bytes.drop position)) := by
  cases slot with
  | text fixed => rfl
  | vector address => rfl
  | imm8 => rw [operandAt, byteAt_eq h]; rfl
  | port => rw [operandAt, byteAt_eq h]; rfl
  | relative => rw [operandAt, byteAt_eq h]; rfl
  | imm16 => rw [operandAt, wordAt_eq h]; rfl
  | direct => rw [operandAt, wordAt_eq h]; rfl
  | absolute => rw [operandAt, wordAt_eq h]; rfl

/-- The index runs in step with the reader, slot by slot. -/
theorem operandsAt_eq {slots : List Slot} (offset : Address)
    (h : position + Slot.totalLength slots ≤ bytes.length) :
    operandsAt offset bytes position slots =
      .ok (Slot.operands slots (bytes.drop position),
        Slot.lastTarget? offset slots (bytes.drop position)) := by
  induction slots generalizing position with
  | nil => rfl
  | cons slot slots ih =>
    unfold Slot.totalLength at h
    rw [operandsAt, operandAt_eq offset (by omega), ih (by omega), ← List.drop_drop]
    rfl

end Fetching

/-! ## No assertion fails -/

theorem build_eq {mnemonic : String} {operands : List Operand} {bytes : List UInt8}
    (hpos : 1 ≤ bytes.length) (hmax : bytes.length ≤ maxInstructionLength) :
    build mnemonic operands bytes = .ok { mnemonic, operands, bytes } := by
  have hlength : 0 < bytes.length ∧ bytes.length ≤ maxInstructionLength := ⟨hpos, hmax⟩
  simp only [build, Instruction.ofBytes, if_pos hlength]

theorem buildData_eq {bytes : List UInt8} {comment : String} (hpos : 1 ≤ bytes.length)
    (hmax : bytes.length ≤ maxInstructionLength) :
    buildData bytes comment = .ok (.data bytes comment) := by
  rw [buildData, build_eq hpos hmax]
  rfl

theorem buildData_byte (byte : UInt8) (comment : String) :
    buildData [byte] comment = .ok (.dataByte byte comment) :=
  buildData_eq (by simp) (by simp [maxInstructionLength])

/-! ## Both decoders agree -/

section Agreement

variable {image : List UInt8} {offset : Nat}

theorem decodeRule_eq {rule : Rule} {opcodeLength : Nat} (hpos : 1 ≤ opcodeLength)
    (hmax : rule.encodedLength opcodeLength ≤ maxInstructionLength)
    (hopcode : offset + opcodeLength ≤ image.length) :
    decodeRule rule opcodeLength image offset =
      .ok (rule.decode opcodeLength offset (image.drop offset)) := by
  have hdrop : (image.drop offset).length = image.length - offset := List.length_drop
  rw [Rule.decode_eq offset (by omega)]
  unfold decodeRule
  by_cases hfits : offset + rule.encodedLength opcodeLength ≤ image.length
  · have hlength : ((image.drop offset).take (rule.encodedLength opcodeLength)).length =
        rule.encodedLength opcodeLength := List.length_take_of_le (by omega)
    have hlong : opcodeLength + Slot.totalLength rule.slots ≤
        ((image.drop offset).take (rule.encodedLength opcodeLength)).length := by
      rw [hlength]
      exact Nat.le_refl _
    have hslots : Slot.totalLength rule.slots ≤ rule.encodedLength opcodeLength - opcodeLength := by
      unfold Rule.encodedLength
      omega
    -- the slice that is cut out holds all bytes of the slots
    obtain ⟨hoperands, htarget⟩ := Slot.operands_take offset.toUInt16
      ((image.drop offset).drop opcodeLength) hslots
    have hcode : 1 ≤ rule.encodedLength opcodeLength := Nat.le_add_right_of_le hpos
    simp only [if_pos hfits, operandsAt_eq offset.toUInt16 hlong]
    rw [List.drop_take, hoperands, htarget, build_eq (by omega) (by omega), if_pos (by omega)]
    rfl
  · rw [if_neg hfits, if_neg (by omega)]

/-- The rules of a page make instructions of at most four bytes. -/
def Bounded (page : Page) : Prop :=
  ∀ {opcode : UInt8} {rule : Rule}, page.rule? opcode = some rule →
    rule.encodedLength page.opcodeLength ≤ maxInstructionLength

theorem bounded_base (architecture : Architecture) : Bounded (.base architecture) := by
  intro opcode rule hrule
  rw [Page.opcodeLength, lead_base]
  exact (codes_length architecture _ (mem_codes_base hrule)).2

theorem bounded_bits : Bounded .bits := fun hrule =>
  (codes_length .z80 _ (mem_codes_z80_bits hrule)).2

theorem bounded_extended : Bounded .extended := fun hrule =>
  (codes_length .z80 _ (mem_codes_z80_extended hrule)).2

theorem decodePage_eq {page : Page} (hpage : Bounded page) :
    decodePage page image offset = .ok (page.decode offset (image.drop offset)) := by
  unfold decodePage Page.decode
  rw [List.getElem?_drop]
  rcases hopcode : image[offset + page.lead]? with _ | opcode
  · rfl
  rcases hrule : page.rule? opcode with _ | rule
  · simp only [hrule]
  · have hlt := (List.getElem?_eq_some_iff.mp hopcode).1
    simp only [hrule]
    exact decodeRule_eq (Nat.le_add_left 1 _) (hpage hrule) hlt

theorem decodePrefixed_eq {lead : Prefix} {page : Page} (hpage : Bounded page) :
    decodePrefixed lead page image offset =
      .ok (lead.decodePage page offset (image.drop offset)) := by
  unfold decodePrefixed Prefix.decodePage
  rw [decodePage_eq hpage, List.getElem?_drop]
  rcases houtcome : page.decode offset (image.drop offset) with _ | _ | _ | _
  case absent =>
    rcases hopcode : image[offset + page.lead]? with _ | opcode
    · rfl
    · have hmax : [lead.byte, opcode].length ≤ maxInstructionLength := by
        simp [maxInstructionLength]
      simp only [buildData_eq (by simp) hmax]
      rfl
  all_goals rfl

theorem decodePrefix_eq (lead : Prefix) :
    decodePrefix lead image offset = .ok (lead.decode offset (image.drop offset)) := by
  cases lead with
  | cb => exact decodePrefixed_eq bounded_bits
  | ed => exact decodePrefixed_eq bounded_extended
  | dd => rw [decodePrefix, buildData_byte]; rfl
  | fd => rw [decodePrefix, buildData_byte]; rfl

theorem outcomeAt_eq {architecture : Architecture} {first : UInt8} {rest : List UInt8}
    (h : image.drop offset = first :: rest) :
    outcomeAt architecture image offset first =
      .ok (decodeOutcome architecture offset first rest) := by
  unfold outcomeAt decodeOutcome
  rw [← h]
  rcases Prefix.ofByte? first with _ | lead
  · exact decodePage_eq (bounded_base architecture)
  · by_cases hprimary : architecture.isPrimary
    · simp only [hprimary, if_true]
      exact decodePrefix_eq lead
    · simp only [hprimary]
      exact decodePage_eq (bounded_base architecture)

theorem decodeAt_eq {architecture : Architecture} {first : UInt8} {rest : List UInt8}
    (h : image.drop offset = first :: rest) :
    decodeAt architecture image offset = .ok (decodeFirst architecture offset first rest) := by
  have hlt : offset < image.length := by
    have hlength := congrArg List.length h
    rw [List.length_drop, List.length_cons] at hlength
    omega
  simp only [decodeAt, byteAt_eq hlt, h, List.getD_cons_zero, outcomeAt_eq h, decodeFirst]
  rcases decodeOutcome architecture offset first rest with _ | _ | _ | _
  case absent => exact buildData_byte _ _
  case truncated => exact buildData_byte _ _
  all_goals rfl

/-- The loop with a cursor has no fault and gives the entries of the run. -/
theorem run_of_swept {architecture : Architecture} {origin : Address} {bytes : List UInt8}
    {entries : List Entry} (h : Swept architecture origin offset bytes entries)
    (hbytes : image.drop offset = bytes) :
    run architecture origin image offset = .ok entries := by
  induction h with
  | done offset =>
    have hend := List.drop_eq_nil_iff.mp hbytes
    rw [run, if_neg (by omega)]
  | @step offset first rest entries hrun ih =>
    have hlt : offset < image.length := by
      by_contra hge
      rw [List.drop_eq_nil_of_le (by omega)] at hbytes
      cases hbytes
    have hpos : 0 < (decodeFirst architecture offset first rest).size :=
      decodeFirst_size_pos architecture offset first rest
    have hnext : image.drop (offset + (decodeFirst architecture offset first rest).size) =
        (first :: rest).drop (decodeFirst architecture offset first rest).size := by
      rw [← List.drop_drop, hbytes]
    rw [run, if_pos hlt]
    simp only [decodeAt_eq hbytes, if_pos hpos, ih hnext]
    rfl

end Agreement

/-- Decoding by index never fails and finds the entries that `sweep` finds. -/
theorem run_eq (architecture : Architecture) (origin : Address) (image : List UInt8) :
    run architecture origin image 0 = .ok (sweep architecture origin 0 0 image #[]).toList :=
  run_of_swept (swept_sweep architecture origin image) rfl

end Disasm.Cursor
