import Disasm.Proofs.Composition
import Disasm.Proofs.Z80Scheme

/-!
# Dispatch on the pages

What a page makes of an image at any offset, in terms of the image and not of the bytes that are left of
it.

1. The opcode and the rule that it selects decide the outcome (`Page.decodeAt_eq`).
2. A rule reads its slots one after another, each behind the bytes of those before it. As the slots and
   the length of the instruction count the same bytes, all of them stand in the image
   (`Rule.readsAt_instruction`).
3. The rules of the five pages name one target at most and make instructions of one to four bytes. They
   are rules of the architectures, for which this is checked on the tables (`exists_code_of_rule?`).
4. Bytes behind the image change nothing unless some were missing (`Page.decodeAt_append`,
   `Prefix.decodeAt_append`).
-/

namespace Disasm

/-! ## Slots in an image -/

/-- The word at a position of an image, the low byte first. -/
def WordAt (image : List UInt8) (position : Nat) (value : UInt16) : Prop :=
  ∃ low high, image[position]? = some low ∧ image[position + 1]? = some high ∧
    value.toNat = low.toNat + 256 * high.toNat

/-- What a slot reads at a position of an image, in an instruction at `offset`: the operand, and the
target that it names. -/
inductive Slot.ReadsAt (image : List UInt8) (offset position : Nat) :
    Slot → Operand → Option Target → Prop where
  | text (fixed : String) : ReadsAt image offset position (.text fixed) (.text fixed) none
  | imm8 {value : UInt8} (byte : image[position]? = some value) :
      ReadsAt image offset position .imm8 (.imm8 value) none
  | imm16 {value : UInt16} (word : WordAt image position value) :
      ReadsAt image offset position .imm16 (.imm16 value) none
  | port {value : UInt8} (byte : image[position]? = some value) :
      ReadsAt image offset position .port (.port value) none
  | direct {value : UInt16} (word : WordAt image position value) :
      ReadsAt image offset position .direct (.direct value) none
  | absolute {value : UInt16} (word : WordAt image position value) :
      ReadsAt image offset position .absolute .target (some (.absolute value))
  | relative {value : UInt8} (byte : image[position]? = some value) :
      ReadsAt image offset position .relative .target
        (some (.offset (relativeTarget offset.toUInt16 value)))
  | vector (address : UInt8) :
      ReadsAt image offset position (.vector address) .vector (some (.absolute address.toUInt16))

/-- What a rule reads at an offset of an image: every operand behind the bytes of the slots before it. -/
structure Rule.ReadsAt (rule : Rule) (opcodeLength : Nat) (image : List UInt8) (offset : Nat)
    (instruction : Instruction) : Prop where
  inside : offset + rule.encodedLength opcodeLength ≤ image.length
  bytes : instruction.bytes = (image.drop offset).take (rule.encodedLength opcodeLength)
  operands_length : instruction.operands.length = rule.slots.length
  /-- A slot that names a target names the one of the instruction. -/
  operands : ∀ (index : Nat) (slot : Slot), rule.slots[index]? = some slot →
    ∃ operand target, instruction.operands[index]? = some operand ∧
      slot.ReadsAt image offset (offset + opcodeLength + Slot.totalLength (rule.slots.take index))
        operand target ∧
      (slot.namesTarget = true → instruction.target = target)
  target : instruction.target.isSome = rule.slots.any Slot.namesTarget
  mnemonic : instruction.mnemonic = rule.mnemonic
  io : instruction.io = rule.io
  support : instruction.support = rule.support

section Positions

variable {image : List UInt8} {position : Nat}

theorem getElem?_eq_getD_drop (index : Nat) (h : position + index < image.length) :
    image[position + index]? = some ((image.drop position).getD index 0) := by
  rw [List.getD_eq_getElem?_getD, List.getElem?_drop, List.getElem?_eq_getElem h]
  rfl

theorem wordAt_littleEndian (h : position + 2 ≤ image.length) :
    WordAt image position
      (Slot.littleEndian ((image.drop position).getD 0 0) ((image.drop position).getD 1 0)) :=
  ⟨_, _, getElem?_eq_getD_drop 0 (by omega), getElem?_eq_getD_drop 1 h,
    Slot.toNat_littleEndian _ _⟩

theorem Slot.readsAt_operand {slot : Slot} (offset : Nat) (h : position + slot.length ≤ image.length) :
    slot.ReadsAt image offset position (slot.operand (image.drop position))
      (slot.target? offset.toUInt16 (image.drop position)) := by
  cases slot with
  | text fixed => exact .text fixed
  | vector address => exact .vector address
  | imm8 => exact .imm8 (getElem?_eq_getD_drop 0 h)
  | port => exact .port (getElem?_eq_getD_drop 0 h)
  | relative => exact .relative (getElem?_eq_getD_drop 0 h)
  | imm16 => exact .imm16 (wordAt_littleEndian h)
  | direct => exact .direct (wordAt_littleEndian h)
  | absolute => exact .absolute (wordAt_littleEndian h)

end Positions

namespace Slot

theorem isSome_target? (slot : Slot) (offset : Address) (bytes : List UInt8) :
    (slot.target? offset bytes).isSome = slot.namesTarget := by
  cases slot <;> rfl

theorem isSome_lastTarget? (slots : List Slot) (offset : Address) (bytes : List UInt8) :
    (lastTarget? offset slots bytes).isSome = slots.any namesTarget := by
  induction slots generalizing bytes with
  | nil => rfl
  | cons slot slots ih =>
    rw [lastTarget?, Option.isSome_or, ih, isSome_target?, List.any_cons, Bool.or_comm]

section Index

variable {slots : List Slot} {index : Nat} {slot : Slot}

theorem operands_length (slots : List Slot) (bytes : List UInt8) :
    (operands slots bytes).length = slots.length := by
  induction slots generalizing bytes with
  | nil => rfl
  | cons slot slots ih => rw [operands, List.length_cons, List.length_cons, ih]

theorem totalLength_take_add_le (h : slots[index]? = some slot) :
    totalLength (slots.take index) + slot.length ≤ totalLength slots := by
  induction slots generalizing index with
  | nil => cases h
  | cons first slots ih =>
    cases index with
    | zero =>
      obtain rfl := Option.some.inj h
      rw [List.take_zero, totalLength, totalLength]
      omega
    | succ index =>
      have hrest := ih h
      rw [List.take_succ_cons, totalLength, totalLength]
      omega

theorem operands_getElem? (h : slots[index]? = some slot) (bytes : List UInt8) :
    (operands slots bytes)[index]? =
      some (slot.operand (bytes.drop (totalLength (slots.take index)))) := by
  induction slots generalizing index bytes with
  | nil => cases h
  | cons first slots ih =>
    cases index with
    | zero =>
      obtain rfl := Option.some.inj h
      rfl
    | succ index =>
      rw [operands, List.getElem?_cons_succ, ih h, List.drop_drop, List.take_succ_cons, totalLength]

/-- Where one slot at most names a target, its target is the one of the instruction. -/
theorem lastTarget?_eq_of_namesTarget (hone : slots.countP namesTarget ≤ 1)
    (h : slots[index]? = some slot) (hnames : slot.namesTarget = true) (offset : Address)
    (bytes : List UInt8) :
    lastTarget? offset slots bytes =
      slot.target? offset (bytes.drop (totalLength (slots.take index))) := by
  induction slots generalizing index bytes with
  | nil => cases h
  | cons first slots ih =>
    cases index with
    | zero =>
      -- The last target counts, so the slots behind this one must not name any.
      obtain rfl := Option.some.inj h
      rw [List.countP_cons_of_pos hnames] at hone
      have hlater : lastTarget? offset slots (bytes.drop first.length) = none := by
        rw [← Option.not_isSome_iff_eq_none, isSome_lastTarget?, List.any_eq_true]
        rintro ⟨later, hmem, hlater⟩
        have hpos := List.countP_pos_iff.mpr ⟨later, hmem, hlater⟩
        omega
      rw [lastTarget?, hlater, Option.none_or]
      rfl
    | succ index =>
      have hslot : slots[index]? = some slot := h
      have hpos := List.countP_pos_iff.mpr ⟨slot, List.mem_of_getElem? hslot, hnames⟩
      have hfirst : first.namesTarget = false := by
        by_contra hfirst
        rw [List.countP_cons_of_pos (by simpa using hfirst)] at hone
        omega
      have hnone : first.target? offset bytes = none := by
        rw [← Option.not_isSome_iff_eq_none, isSome_target?, hfirst]
        exact Bool.false_ne_true
      rw [List.countP_cons_of_neg (by simp [hfirst])] at hone
      rw [lastTarget?, hnone, Option.or_none, ih hone hslot, List.drop_drop, List.take_succ_cons,
        totalLength]

end Index

/-- One slot that is no text is at most one slot that names a target. -/
theorem Single.countP_namesTarget_le {slots : List Slot} (h : Single slots) :
    slots.countP namesTarget ≤ 1 := by
  have htext : ∀ {slot : Slot}, slot.isText → ¬ slot.namesTarget = true := by
    intro slot hslot
    obtain ⟨fixed, rfl⟩ := eq_text_of_isText hslot
    exact Bool.false_ne_true
  induction slots with
  | nil => exact Nat.zero_le 1
  | cons slot slots ih =>
    by_cases hslot : slot.isText
    · rw [List.countP_cons_of_neg (htext hslot)]
      exact ih (List.pairwise_cons.mp h).2
    · have hrest : slots.countP namesTarget = 0 :=
        List.countP_eq_zero.mpr fun later hmem => htext (h.rest hslot later hmem)
      rw [List.countP_cons, hrest]
      split <;> decide

end Slot

theorem Rule.readsAt_instruction {rule : Rule} {opcodeLength offset : Nat} {image : List UInt8}
    (hone : rule.slots.countP Slot.namesTarget ≤ 1)
    (hinside : offset + rule.encodedLength opcodeLength ≤ image.length) :
    rule.ReadsAt opcodeLength image offset
      (rule.instruction opcodeLength offset (image.drop offset)) where
  inside := hinside
  bytes := rfl
  operands_length := Slot.operands_length _ _
  operands := by
    intro index slot hslot
    have hslots := Slot.totalLength_take_add_le hslot
    rw [Rule.encodedLength] at hinside
    have hreads := @Slot.readsAt_operand image
      (offset + opcodeLength + Slot.totalLength (rule.slots.take index)) slot offset (by omega)
    rw [← List.drop_drop, ← List.drop_drop] at hreads
    exact ⟨_, _, Slot.operands_getElem? hslot _, hreads, fun hnames =>
      Slot.lastTarget?_eq_of_namesTarget hone hslot hnames _ _⟩
  target := Slot.isSome_lastTarget? _ _ _
  mnemonic := rfl
  io := rfl
  support := rfl

/-! ## Outcomes -/

namespace Page

/-- The opcode of an instruction at an offset. -/
def key? (page : Page) (image : List UInt8) (offset : Nat) : Option UInt8 :=
  image[offset + page.opcodeLength - 1]?

section Outcomes

variable {page : Page} {image : List UInt8} {offset : Nat}

/-- The opcode selects the rule, and the rule needs all its bytes. -/
theorem decodeAt_eq (page : Page) (image : List UInt8) (offset : Nat) :
    page.decodeAt image offset =
      match page.key? image offset with
      | none => .truncated
      | some opcode =>
        match page.rule? opcode with
        | none => .absent
        | some rule =>
          if offset + rule.encodedLength page.opcodeLength ≤ image.length then
            .instruction (rule.instruction page.opcodeLength offset (image.drop offset))
          else .truncated := by
  have hlong : ∀ rule : Rule, rule.encodedLength page.opcodeLength ≤ (image.drop offset).length ↔
      offset + rule.encodedLength page.opcodeLength ≤ image.length := by
    intro rule
    rw [List.length_drop, Rule.encodedLength, opcodeLength]
    omega
  rw [decodeAt, decode_eq, List.getElem?_drop]
  simp only [hlong]
  rfl

theorem lt_of_key? {opcode : UInt8} (h : page.key? image offset = some opcode) :
    offset < image.length := by
  have hlt := (List.getElem?_eq_some_iff.mp h).1
  rw [opcodeLength] at hlt
  omega

theorem decodeAt_eq_truncated_iff :
    page.decodeAt image offset = .truncated ↔
      page.key? image offset = none ∨
        ∃ opcode rule, page.key? image offset = some opcode ∧ page.rule? opcode = some rule ∧
          image.length - offset < rule.encodedLength page.opcodeLength := by
  rw [decodeAt_eq]
  rcases hkey : page.key? image offset with _ | opcode
  · simp
  rcases hrule : page.rule? opcode with _ | rule
  · simp [hrule]
  have hlt := lt_of_key? hkey
  simp only [hrule]
  by_cases hlong : offset + rule.encodedLength page.opcodeLength ≤ image.length
  · rw [if_pos hlong]
    refine iff_of_false (by simp) ?_
    rintro (hnone | ⟨other, taken, hother, htaken, hshort⟩)
    · cases hnone
    · obtain rfl := Option.some.inj hother
      obtain rfl := Option.some.inj (hrule.symm.trans htaken)
      omega
  · rw [if_neg hlong]
    exact iff_of_true rfl (.inr ⟨opcode, rule, rfl, hrule, by omega⟩)

theorem decodeAt_eq_absent_iff :
    page.decodeAt image offset = .absent ↔
      ∃ opcode, page.key? image offset = some opcode ∧ page.rule? opcode = none := by
  rw [decodeAt_eq]
  rcases hkey : page.key? image offset with _ | opcode
  · simp
  rcases hrule : page.rule? opcode with _ | rule
  · simp [hrule]
  by_cases hlong : offset + rule.encodedLength page.opcodeLength ≤ image.length
  · simp [hrule, if_pos hlong]
  · simp [hrule, if_neg hlong]

theorem decodeAt_eq_instruction (htruncated : page.decodeAt image offset ≠ .truncated)
    (habsent : page.decodeAt image offset ≠ .absent) :
    ∃ opcode rule, page.key? image offset = some opcode ∧ page.rule? opcode = some rule ∧
      offset + rule.encodedLength page.opcodeLength ≤ image.length ∧
      page.decodeAt image offset =
        .instruction (rule.instruction page.opcodeLength offset (image.drop offset)) := by
  rw [Ne, decodeAt_eq_truncated_iff, not_or] at htruncated
  obtain ⟨opcode, hkey⟩ := Option.ne_none_iff_exists'.mp htruncated.1
  rcases hrule : page.rule? opcode with _ | rule
  · exact absurd (decodeAt_eq_absent_iff.mpr ⟨opcode, hkey, hrule⟩) habsent
  have hlt := lt_of_key? hkey
  have hlong : offset + rule.encodedLength page.opcodeLength ≤ image.length := by
    by_contra hshort
    exact htruncated.2 ⟨opcode, rule, hkey, hrule, by omega⟩
  refine ⟨opcode, rule, hkey, hrule, hlong, ?_⟩
  rw [decodeAt_eq, hkey]
  simp only [hrule, if_pos hlong]

/-! ## Longer images -/

theorem key?_append {opcode : UInt8} (h : page.key? image offset = some opcode) (more : List UInt8) :
    page.key? (image ++ more) offset = some opcode := by
  unfold key? at h ⊢
  rwa [List.getElem?_append_left (List.getElem?_eq_some_iff.mp h).1]

/-- Bytes behind the image change nothing unless some were missing. -/
theorem decodeAt_append (h : page.decodeAt image offset ≠ .truncated) (more : List UInt8) :
    page.decodeAt (image ++ more) offset = page.decodeAt image offset := by
  by_cases habsent : page.decodeAt image offset = .absent
  · obtain ⟨opcode, hkey, hrule⟩ := decodeAt_eq_absent_iff.mp habsent
    rw [habsent]
    exact decodeAt_eq_absent_iff.mpr ⟨opcode, key?_append hkey more, hrule⟩
  · obtain ⟨opcode, rule, hkey, hrule, hlong, hread⟩ := decodeAt_eq_instruction h habsent
    have hlt := lt_of_key? hkey
    have hdrop : (image ++ more).drop offset = image.drop offset ++ more :=
      List.drop_append_of_le_length (Nat.le_of_lt hlt)
    have hbytes : rule.encodedLength page.opcodeLength ≤ (image.drop offset).length := by
      rw [List.length_drop]
      omega
    have hstarts : (image.drop offset).take (rule.encodedLength page.opcodeLength) <+:
        image.drop offset ++ more := (List.take_prefix _ _).trans (List.prefix_append _ _)
    obtain ⟨-, hsame⟩ := Rule.instruction_of_starts hbytes hstarts offset
    rw [hread, decodeAt_eq, key?_append hkey]
    simp only [hrule]
    rw [if_pos (by rw [List.length_append]; omega), hdrop, hsame]

end Outcomes

end Page

section Prefix

variable {lead : Prefix} {image : List UInt8} {offset : Nat}

/-- An opcode that is missing on the page behind a prefix is declared as data. -/
theorem Prefix.decodeAt_ne_absent (lead : Prefix) (image : List UInt8) (offset : Nat) :
    lead.decodeAt image offset ≠ .absent := by
  cases lead with
  | cb => exact Prefix.decodePage_ne_absent _ _ _ _
  | ed => exact Prefix.decodePage_ne_absent _ _ _ _
  | dd => simp [decodeAt, decode, indexed]
  | fd => simp [decodeAt, decode, indexed]

theorem Prefix.decodePage_drop (lead : Prefix) (page : Page) (image : List UInt8) (offset : Nat) :
    lead.decodePage page offset (image.drop offset) =
      match page.decodeAt image offset with
      | .absent =>
        match page.key? image offset with
        | none => .truncated
        | some opcode => .instruction (lead.unrecognized opcode)
      | outcome => outcome := by
  unfold decodePage
  rw [List.getElem?_drop]
  rfl

theorem Prefix.decodePage_append {page : Page}
    (h : lead.decodePage page offset (image.drop offset) ≠ .truncated) (more : List UInt8) :
    lead.decodePage page offset ((image ++ more).drop offset) =
      lead.decodePage page offset (image.drop offset) := by
  have hpage : page.decodeAt image offset ≠ .truncated := by
    intro htruncated
    rw [decodePage_drop, htruncated] at h
    exact h rfl
  rw [decodePage_drop, decodePage_drop, Page.decodeAt_append hpage]
  split
  case h_1 habsent =>
    obtain ⟨opcode, hkey, -⟩ := Page.decodeAt_eq_absent_iff.mp habsent
    rw [hkey, Page.key?_append hkey]
  case h_2 => rfl

theorem Prefix.decodeAt_append (h : lead.decodeAt image offset ≠ .truncated) (more : List UInt8) :
    lead.decodeAt (image ++ more) offset = lead.decodeAt image offset := by
  cases lead with
  | cb => exact decodePage_append h more
  | ed => exact decodePage_append h more
  | dd => rfl
  | fd => rfl

end Prefix

/-! ## The five pages -/

/-- The pages on which opcodes are looked up. -/
def Page.all : List Page := [.z80, .i8080, .i8085, .bits, .extended]

section Pages

variable {page : Page}

theorem exists_code_of_rule? {opcode : UInt8} {rule : Rule} (hpage : page ∈ Page.all)
    (hrule : page.rule? opcode = some rule) :
    ∃ architecture : Architecture, ∃ code, (code, rule) ∈ architecture.codes ∧
      code.length = page.opcodeLength := by
  simp only [Page.all, List.mem_cons, List.not_mem_nil, or_false] at hpage
  rcases hpage with rfl | rfl | rfl | rfl | rfl
  · exact ⟨.z80, [opcode], mem_codes_z80_base hrule, rfl⟩
  · exact ⟨.i8080, [opcode], @mem_codes_base .i8080 opcode rule hrule, rfl⟩
  · exact ⟨.i8085, [opcode], @mem_codes_base .i8085 opcode rule hrule, rfl⟩
  · exact ⟨.z80, [_, opcode], mem_codes_z80_bits hrule, rfl⟩
  · exact ⟨.z80, [_, opcode], mem_codes_z80_extended hrule, rfl⟩

theorem bounded_of_mem_all (hpage : page ∈ Page.all) : Cursor.Bounded page := by
  intro opcode rule hrule
  obtain ⟨architecture, code, hmem, hlength⟩ := exists_code_of_rule? hpage hrule
  rw [← hlength]
  exact (codes_length architecture _ hmem).2

theorem countP_namesTarget_le_of_mem_all {opcode : UInt8} {rule : Rule} (hpage : page ∈ Page.all)
    (hrule : page.rule? opcode = some rule) : rule.slots.countP Slot.namesTarget ≤ 1 := by
  obtain ⟨architecture, code, hmem, -⟩ := exists_code_of_rule? hpage hrule
  exact (single_of_mem_codes architecture _ hmem).1.countP_namesTarget_le

end Pages

/-- At every offset of every image, each of the pages gives the outcome that the opcode and the rule of
the opcode call for. An instruction takes one to four bytes of the image and names one target at most; its
operands are read where the slots before them end, and no byte outside the image is fetched for them.
More bytes behind the image matter only if some were missing. Behind a prefix no opcode is unknown. -/
theorem Page.decodeAt_classified {page : Page} (hpage : page ∈ Page.all) (image : List UInt8)
    (offset : Nat) :
    (page.decodeAt image offset = .truncated ↔
      page.key? image offset = none ∨
        ∃ opcode rule, page.key? image offset = some opcode ∧ page.rule? opcode = some rule ∧
          image.length - offset < rule.encodedLength page.opcodeLength) ∧
    (page.decodeAt image offset = .absent ↔
      ∃ opcode, page.key? image offset = some opcode ∧ page.rule? opcode = none) ∧
    (page.decodeAt image offset ≠ .truncated → page.decodeAt image offset ≠ .absent →
      ∃ opcode rule instruction, page.key? image offset = some opcode ∧
        page.rule? opcode = some rule ∧ page.decodeAt image offset = .instruction instruction ∧
        rule.ReadsAt page.opcodeLength image offset instruction ∧
        1 ≤ instruction.size ∧ instruction.size ≤ 4 ∧
        rule.slots.countP Slot.namesTarget ≤ 1) ∧
    Cursor.decodePage page image offset = .ok (page.decodeAt image offset) ∧
    (page.decodeAt image offset ≠ .truncated →
      ∀ more, page.decodeAt (image ++ more) offset = page.decodeAt image offset) ∧
    ∀ lead : Prefix, lead.decodeAt image offset ≠ .absent ∧
      (lead.decodeAt image offset ≠ .truncated →
        ∀ more, lead.decodeAt (image ++ more) offset = lead.decodeAt image offset) := by
  refine ⟨decodeAt_eq_truncated_iff, decodeAt_eq_absent_iff, fun htruncated habsent => ?_,
    Cursor.decodePage_eq (bounded_of_mem_all hpage), decodeAt_append,
    fun lead => ⟨lead.decodeAt_ne_absent image offset, Prefix.decodeAt_append⟩⟩
  obtain ⟨opcode, rule, hkey, hrule, hinside, hread⟩ := decodeAt_eq_instruction htruncated habsent
  have hone := countP_namesTarget_le_of_mem_all hpage hrule
  have hsize : (rule.instruction page.opcodeLength offset (image.drop offset)).size =
      rule.encodedLength page.opcodeLength := by
    refine List.length_take_of_le ?_
    rw [List.length_drop]
    omega
  have hpos : 1 ≤ rule.encodedLength page.opcodeLength := by
    rw [Rule.encodedLength, opcodeLength]
    omega
  exact ⟨opcode, rule, _, hkey, hrule, hread, Rule.readsAt_instruction hone hinside, hsize ▸ hpos,
    hsize ▸ bounded_of_mem_all hpage hrule, hone⟩

/-- A load behind a prefix whose address is cut off, and the whole of it with other bytes on either
side. -/
theorem Page.decodeAt_classified_extended :
    Page.extended ∈ Page.all ∧
    Page.extended.decodeAt [0x00, 0xED, 0x43, 0x34] 1 = .truncated ∧
    ∃ instruction, Page.extended.decodeAt [0x00, 0xED, 0x43, 0x34, 0x12] 1 = .instruction instruction ∧
      instruction.bytes = [0xED, 0x43, 0x34, 0x12] ∧ instruction.operands[0]? = some (.direct 0x1234) ∧
      Page.extended.decodeAt [0x00, 0xED, 0x43, 0x34, 0x12, 0xC9] 1 = .instruction instruction := by
  have hpage : Page.extended ∈ Page.all := by simp [Page.all]
  have hrule : Page.extended.rule? 0x43 =
      some { mnemonic := "LD", slots := [.direct, .text "BC"], support := .z80Only } := by
    decide +kernel
  have hcut := (decodeAt_classified hpage [0x00, 0xED, 0x43, 0x34] 1).1
  obtain ⟨-, -, hread, -, hmore, -⟩ := decodeAt_classified hpage [0x00, 0xED, 0x43, 0x34, 0x12] 1
  obtain ⟨opcode, rule, instruction, hkey, htaken, hinstruction, hreads, -⟩ :=
    hread (by decide +kernel) (by decide +kernel)
  obtain rfl : 0x43 = opcode := Option.some.inj hkey
  obtain rfl := Option.some.inj (hrule.symm.trans htaken)
  obtain ⟨operand, target, hoperand, hslot, -⟩ := hreads.operands 0 .direct rfl
  refine ⟨hpage, hcut.mpr (.inr ⟨0x43, _, rfl, hrule, by decide⟩), instruction, hinstruction,
    hreads.bytes, ?_, (hmore (by decide +kernel) [0xC9]).trans hinstruction⟩
  cases hslot with
  | direct word =>
    obtain ⟨low, high, hlow, hhigh, hvalue⟩ := word
    obtain rfl : 0x34 = low := Option.some.inj hlow
    obtain rfl : 0x12 = high := Option.some.inj hhigh
    rw [hoperand, UInt16.toNat_inj.mp (hvalue.trans (by decide : _ = (0x1234 : UInt16).toNat))]

end Disasm
