import Mathlib.Algebra.Order.BigOperators.Group.List
import Mathlib.Algebra.Order.Ring.Nat
import Disasm.Proofs.Labels
import Disasm.Proofs.Patterns

/-!
# Forms of instructions

Instruction sets are documented by bit fields: the fields of an opcode select the mnemonic and the
operands, and the numbers stand in the bytes behind it. A `Form` is one line of such a documentation.
It is read here without slots, rules or tables (`Form.reading`).

A rule realizes a form if it has its pattern, its length and its target. Then all instructions that the
rule decodes read like the form, on any architecture and wherever they stand
(`Rule.Realizes.reading_finish`).
-/

namespace Disasm

/-! ## Fields -/

/-- The fields of an opcode: its two high bits, the three bits behind them and its three low bits. -/
structure BitFields where
  x : Fin 4
  y : Fin 8
  z : Fin 8

namespace BitFields

theorem and_seven_lt (number : Nat) : number &&& 7 < 8 :=
  Nat.and_lt_two_pow number (show 7 < 2 ^ 3 by decide)

def ofOpcode (opcode : UInt8) : BitFields where
  x := ⟨opcode.toNat >>> 6, by
    have hlt := opcode.toNat_lt
    rw [Nat.shiftRight_eq_div_pow]
    omega⟩
  y := ⟨(opcode.toNat >>> 3) &&& 7, and_seven_lt _⟩
  z := ⟨opcode.toNat &&& 7, and_seven_lt _⟩

/-- The two high bits of the middle field. -/
def p (fields : BitFields) : Fin 4 :=
  ⟨fields.y.val >>> 1, by
    have hlt := fields.y.isLt
    rw [Nat.shiftRight_eq_div_pow]
    omega⟩

/-- The low bit of the middle field. -/
def q (fields : BitFields) : Fin 2 :=
  ⟨fields.y.val &&& 1, Nat.and_lt_two_pow _ (show 1 < 2 ^ 1 by decide)⟩

end BitFields

/-! ## Forms -/

/-- An operand as it is documented. -/
inductive Argument where
  /-- A register, a condition or any other fixed text. -/
  | name (text : String)
  /-- `n` -/
  | byte
  /-- `nn` -/
  | word
  /-- `(n)`, a port -/
  | port
  /-- `(nn)`, a memory cell -/
  | cell
  /-- `nn`, where a jump or call goes -/
  | address
  /-- `d`, how far a relative jump goes -/
  | displacement
  /-- Where the restart of this number goes. -/
  | vector (number : Fin 8)
  /-- The number of a restart. -/
  | restart (number : Fin 8)
  deriving DecidableEq

def conditionNames : Vector String 8 := #v["NZ", "Z", "NC", "C", "PO", "PE", "P", "M"]

def trailingByte (trailing : List UInt8) (index : Nat) : UInt8 :=
  trailing.getD index 0

/-- The word behind the opcode: the low byte stands first. -/
def trailingWord (trailing : List UInt8) : UInt16 :=
  .ofNat ((trailingByte trailing 0).toNat + 256 * (trailingByte trailing 1).toNat)

namespace Argument

/-- The operand that a field names in a list. -/
def named {size : Nat} (names : Vector String size) (field : Fin size) : Argument :=
  .name (names.get field)

/-- The number of bytes behind the opcode. -/
def length : Argument → Nat
  | .name _ | .vector _ | .restart _ => 0
  | .byte | .port | .displacement => 1
  | .word | .cell | .address => 2

/-- The operand that the bytes behind the opcode make of it. -/
def operand (trailing : List UInt8) : Argument → Operand
  | .name text => .text text
  | .byte => .imm8 (trailingByte trailing 0)
  | .word => .imm16 (trailingWord trailing)
  | .port => .port (trailingByte trailing 0)
  | .cell => .direct (trailingWord trailing)
  | .address | .displacement => .target
  | .vector _ => .vector
  | .restart number => .text number.val.repr

/-- Where an instruction at an address goes. A displacement is a signed byte that counts from the end of
the instruction, and addresses wrap. -/
def destination? (address : Address) (trailing : List UInt8) : Argument → Option Address
  | .address => some (trailingWord trailing)
  | .displacement =>
    some (.ofInt (address.toNat + 2 + Int.bmod (trailingByte trailing 0).toNat 256))
  | .vector number | .restart number => some (.ofNat (8 * number.val))
  | .name _ | .byte | .word | .port | .cell => none

end Argument

/-- What is read of an entry. -/
structure Reading where
  bytes : List UInt8
  mnemonic : String
  operands : List Operand
  destination? : Option Address
  deriving DecidableEq

/-- An instruction as it is documented. At most one operand has bytes behind the opcode. -/
structure Form where
  mnemonic : String
  arguments : List Argument
  deriving DecidableEq

namespace Form

def length (form : Form) : Nat :=
  (form.arguments.map Argument.length).sum

/-- The instruction at an address whose opcode is `code`. -/
def reading (form : Form) (code : List UInt8) (address : Address) (trailing : List UInt8) :
    Reading :=
  { bytes := code ++ trailing
    mnemonic := form.mnemonic
    operands := form.arguments.map (Argument.operand trailing)
    destination? := form.arguments.findSome? (Argument.destination? address trailing) }

end Form

/-- Bytes that are declared as data. -/
def Reading.data (bytes : List UInt8) : Reading :=
  ⟨bytes, "DB", bytes.map .imm8, none⟩

def Entry.reading (entry : Entry) : Reading :=
  { bytes := entry.instruction.bytes
    mnemonic := entry.instruction.mnemonic
    operands := entry.instruction.operands
    destination? := entry.instruction.destination? }

/-! ## Numbers -/

theorem trailingWord_eq (trailing : List UInt8) : trailingWord trailing = firstWord trailing := by
  unfold trailingWord firstWord Slot.littleEndian trailingByte
  rw [UInt16.ofNat_add, UInt16.ofNat_mul, UInt16.mul_comm]
  simp

/-- Both ways to count a relative branch agree, also where it wraps. -/
theorem relativeTarget_eq (address : Address) (displacement : UInt8) :
    relativeTarget address displacement =
      .ofInt (address.toNat + 2 + Int.bmod displacement.toNat 256) := by
  have hlt := displacement.toNat_lt
  have haddress := address.toNat_lt
  apply UInt16.toNat_inj.mp
  unfold relativeTarget relativeBranchLength UInt16.ofInt
  rw [UInt16.toNat_ofNat', Int.bmod_def]
  by_cases hforward : displacement < 0x80
  · have hsmall : displacement.toNat < 128 := UInt8.lt_iff_toNat_lt.mp hforward
    simp only [if_pos hforward, UInt16.toNat_add, UInt8.toNat_toUInt16, UInt16.reduceToNat]
    rw [if_pos (by omega)]
    omega
  · have hlarge : ¬ displacement.toNat < 128 := fun h => hforward (UInt8.lt_iff_toNat_lt.mpr h)
    simp only [if_neg hforward, UInt16.toNat_add, UInt16.toNat_sub, UInt8.toNat_toUInt16,
      UInt16.reduceToNat]
    rw [if_neg (by omega)]
    omega

/-! ## Slots that read like arguments -/

namespace Slot

def namesTarget : Slot → Bool
  | .absolute | .relative | .vector _ => true
  | .text _ | .imm8 | .imm16 | .port | .direct => false

/-- The destination that a slot names in an instruction at an address. -/
def destination (place : Address) (trailing : List UInt8) : Slot → Address
  | .absolute => firstWord trailing
  | .relative => relativeTarget place (firstByte trailing)
  | .vector address => address.toUInt16
  | .text _ | .imm8 | .imm16 | .port | .direct => 0

theorem rebase_target? (slot : Slot) (origin offset : Address) (trailing : List UInt8) :
    (slot.target? offset trailing).map (Target.rebase origin) =
      ((some slot).filter namesTarget).map fun slot =>
        .absolute (slot.destination (origin + offset) trailing) := by
  cases slot with
  | relative =>
    show some (Target.absolute (origin + (offset + relativeBranchLength + _))) =
      some (Target.absolute (origin + offset + relativeBranchLength + _))
    rw [UInt16.add_assoc, UInt16.add_assoc, UInt16.add_assoc]
    rfl
  | _ => rfl

end Slot

namespace Argument

/-- The slot that names the target of an argument. -/
def targetSlot? : Argument → Option Slot
  | .address => some .absolute
  | .displacement => some .relative
  | .vector number | .restart number => some (.vector (.ofNat (8 * number)))
  | .name _ | .byte | .word | .port | .cell => none

theorem destination?_eq (address : Address) (trailing : List UInt8) (argument : Argument) :
    argument.destination? address trailing =
      argument.targetSlot?.map (Slot.destination address trailing) := by
  have hvector : ∀ number : Fin 8,
      UInt16.ofNat (8 * number.val) = (UInt8.ofNat (8 * number.val)).toUInt16 := by decide
  cases argument with
  | address => exact congrArg some (trailingWord_eq trailing)
  | displacement => exact congrArg some (relativeTarget_eq address _).symm
  | vector number => exact congrArg some (hvector number)
  | restart number => exact congrArg some (hvector number)
  | _ => rfl

theorem operand_eq_fill (argument : Argument) (trailing : List UInt8) :
    argument.operand trailing =
      (argument.operand []).fill (firstByte trailing) (firstWord trailing) := by
  cases argument with
  | word => exact congrArg Operand.imm16 (trailingWord_eq trailing)
  | cell => exact congrArg Operand.direct (trailingWord_eq trailing)
  | _ => rfl

theorem operand_take {argument : Argument} {count : Nat} (address : Address) (trailing : List UInt8)
    (h : argument.length ≤ count) :
    argument.operand (trailing.take count) = argument.operand trailing ∧
      argument.destination? address (trailing.take count) =
        argument.destination? address trailing := by
  have hbyte : ∀ index < argument.length,
      trailingByte (trailing.take count) index = trailingByte trailing index := by
    intro index hlt
    unfold trailingByte
    rw [List.getD_eq_getElem?_getD, List.getD_eq_getElem?_getD,
      List.getElem?_take_of_lt (by omega)]
  have hword : argument.length = 2 → trailingWord (trailing.take count) = trailingWord trailing := by
    intro hlength
    unfold trailingWord
    rw [hbyte 0 (by omega), hbyte 1 (by omega)]
  cases argument with
  | byte => exact ⟨congrArg Operand.imm8 (hbyte 0 Nat.one_pos), rfl⟩
  | port => exact ⟨congrArg Operand.port (hbyte 0 Nat.one_pos), rfl⟩
  | word => exact ⟨congrArg Operand.imm16 (hword rfl), rfl⟩
  | cell => exact ⟨congrArg Operand.direct (hword rfl), rfl⟩
  | address => exact ⟨rfl, congrArg some (hword rfl)⟩
  | displacement =>
    refine ⟨rfl, ?_⟩
    unfold destination?
    rw [hbyte 0 Nat.one_pos]
  | _ => exact ⟨rfl, rfl⟩

end Argument

/-! ## Entries that are data -/

theorem reading_data {architecture : Architecture} {offset origin : Address} {labels : LabelMap}
    {image : Span} (bytes : List UInt8) (comment : String) :
    (((Instruction.data bytes comment).place offset origin architecture).finish architecture labels
      image).reading = .data bytes := by
  have hspelling := finish_spelling architecture labels image
    ((Instruction.data bytes comment).place offset origin architecture)
  rw [spelling_data] at hspelling
  unfold Entry.reading Reading.data
  congr 1
  · rw [finish_bytes, place_bytes]
    rfl
  · exact congrArg Spelling.mnemonic hspelling
  · exact congrArg Spelling.operands hspelling
  · rw [destination?_finish, place_frame]
    rfl

/-! ## Rules that realize forms -/

/-- A rule whose instructions read like a form. -/
structure Rule.Realizes (architecture : Architecture) (rule : Rule) (form : Form) : Prop where
  pattern : rule.pattern architecture = ⟨form.mnemonic, form.arguments.map (Argument.operand [])⟩
  length : Slot.totalLength rule.slots = form.length
  target : (Slot.hole? rule.slots).filter Slot.namesTarget = form.arguments.findSome? Argument.targetSlot?

theorem Rule.realizes_iff (architecture : Architecture) (rule : Rule) (form : Form) :
    rule.Realizes architecture form ↔
      rule.pattern architecture = ⟨form.mnemonic, form.arguments.map (Argument.operand [])⟩ ∧
        Slot.totalLength rule.slots = form.length ∧
        (Slot.hole? rule.slots).filter Slot.namesTarget = form.arguments.findSome? Argument.targetSlot? :=
  ⟨fun h => ⟨h.1, h.2, h.3⟩, fun h => ⟨h.1, h.2.1, h.2.2⟩⟩

instance (architecture : Architecture) (rule : Rule) (form : Form) :
    Decidable (rule.Realizes architecture form) :=
  decidable_of_iff' _ (Rule.realizes_iff architecture rule form)

section Realizes

variable {architecture : Architecture} {rule : Rule} {form : Form}

/-- The slot that names the target settles it, wherever the instruction is placed. -/
theorem Rule.Regular.target_place (h : rule.Regular) (architecture : Architecture)
    (origin : Address) (opcodeLength offset : Nat) (bytes : List UInt8) :
    ((rule.instruction opcodeLength offset bytes).place offset.toUInt16 origin
        architecture).instruction.target =
      ((Slot.hole? rule.slots).filter Slot.namesTarget).map fun slot =>
        .absolute (slot.destination (origin + offset.toUInt16) (bytes.drop opcodeLength)) := by
  rw [place_frame]
  show (Slot.lastTarget? _ rule.slots _).map (Target.rebase origin) = _
  rw [h.single.lastTarget?_eq]
  rcases Slot.hole? rule.slots with _ | slot
  · rfl
  · exact slot.rebase_target? origin offset.toUInt16 (bytes.drop opcodeLength)

theorem Rule.Realizes.destination?_place (h : rule.Realizes architecture form)
    (hregular : rule.Regular) (origin : Address) (opcodeLength offset : Nat)
    (bytes : List UInt8) :
    ((rule.instruction opcodeLength offset bytes).place offset.toUInt16 origin
        architecture).instruction.destination? =
      form.arguments.findSome?
        (Argument.destination? (origin + offset.toUInt16) (bytes.drop opcodeLength)) := by
  -- Both sides find the one argument that names a target, and its slot.
  have hforms : form.arguments.findSome?
      (Argument.destination? (origin + offset.toUInt16) (bytes.drop opcodeLength)) =
        ((Slot.hole? rule.slots).filter Slot.namesTarget).map
          (Slot.destination (origin + offset.toUInt16) (bytes.drop opcodeLength)) := by
    rw [h.target, List.map_findSome?]
    congr 1
    funext argument
    exact Argument.destination?_eq _ _ argument
  rw [hforms, Instruction.destination?, hregular.target_place]
  cases (Slot.hole? rule.slots).filter Slot.namesTarget <;> rfl

/-- All instructions that a rule decodes read like the form that it realizes. -/
theorem Rule.Realizes.reading_finish (h : rule.Realizes architecture form)
    (hregular : rule.Regular) (code rest : List UInt8) (origin : Address) (offset : Nat)
    (labels : LabelMap) (image : Span) :
    (((rule.instruction code.length offset (code ++ rest)).place offset.toUInt16 origin
        architecture).finish architecture labels image).reading =
      form.reading code (origin + offset.toUInt16) (rest.take form.length) := by
  have htake : ∀ argument ∈ form.arguments,
      argument.operand (rest.take form.length) = argument.operand rest ∧
        argument.destination? (origin + offset.toUInt16) (rest.take form.length) =
          argument.destination? (origin + offset.toUInt16) rest := by
    intro argument hargument
    refine Argument.operand_take _ _ ?_
    exact List.le_sum_of_mem (List.mem_map_of_mem hargument)
  have hspelling := finish_spelling architecture labels image
    ((rule.instruction code.length offset (code ++ rest)).place offset.toUInt16 origin architecture)
  rw [hregular.spelling_instruction, h.pattern, List.drop_left] at hspelling
  unfold Entry.reading Form.reading
  congr 1
  · rw [finish_bytes, place_bytes]
    show (code ++ rest).take (code.length + Slot.totalLength rule.slots) = _
    rw [h.length, List.take_length_add_append]
  · exact congrArg Spelling.mnemonic hspelling
  · refine (congrArg Spelling.operands hspelling).trans ?_
    show (form.arguments.map (Argument.operand [])).map _ = _
    rw [List.map_map]
    refine List.map_congr_left fun argument hargument => ?_
    rw [(htake argument hargument).1]
    exact (argument.operand_eq_fill rest).symm
  · have hmap : ∀ read : Argument → Option Address,
        form.arguments.findSome? read = (form.arguments.map read).findSome? id :=
      fun read => (List.findSome?_map (p := id)).symm
    rw [destination?_finish, h.destination?_place hregular, List.drop_left, hmap, hmap,
      List.map_congr_left fun argument hargument => (htake argument hargument).2]

end Realizes

end Disasm
