import Mathlib.Algebra.Group.Nat.Defs
import Mathlib.Data.List.Nodup
import Disasm.Proofs.Spelling
import Disasm.Proofs.Words

/-!
# The patterns of the opcode tables

What the tables have to be like so that an instruction can be read back from its text, checked for all
opcodes of all architectures. A pattern consists of plain words and shows each number that it takes
from the image (`legible_of_mem_codes`). The shape of a pattern, its words with every number blanked
out, belongs to a single opcode, except for the restarts of the Z80 and for a store and a load that
the Z80 can encode in two ways each (`eq_or_shared_of_shape_eq`).
-/

namespace Disasm

/-! ## Operands -/

namespace Operand

/-- Whether fixed text is plain. -/
def IsPlain : Operand → Prop
  | .text fixed => Plain fixed
  | _ => True

instance : (operand : Operand) → Decidable operand.IsPlain
  | .text fixed => inferInstanceAs (Decidable (Plain fixed))
  | .imm8 _ | .imm16 _ | .port _ | .direct _ | .target | .vector => inferInstanceAs (Decidable True)

theorem isPlain_fill {operand : Operand} (byte : UInt8) (word : UInt16) (h : operand.IsPlain) :
    (operand.fill byte word).IsPlain := by
  cases operand <;> exact h

/-- What an operand shows. -/
inductive Kind where
  | text
  | byte
  | word
  | target
  | vector
  deriving DecidableEq

def kind : Operand → Kind
  | .text _ => .text
  | .imm8 _ | .port _ => .byte
  | .imm16 _ | .direct _ => .word
  | .target => .target
  | .vector => .vector

end Operand

/-! ## Legible rules -/

/-- What is asked of the pattern of a rule so that it can be read. -/
structure Rule.Legible (rule : Rule) (pattern : Spelling) : Prop where
  mnemonic_plain : Plain pattern.mnemonic
  /-- No instruction is taken for data. -/
  mnemonic_ne : pattern.mnemonic ≠ "DB"
  operands_plain : ∀ operand ∈ pattern.operands, operand.IsPlain
  /-- A number that is read is shown. -/
  shows_hole : ∀ slot ∈ Slot.hole? rule.slots, slot.length ≠ 0 →
    (slot.operand []).kind ∈ pattern.operands.map Operand.kind

theorem Rule.legible_iff (rule : Rule) (pattern : Spelling) :
    rule.Legible pattern ↔
      Plain pattern.mnemonic ∧ pattern.mnemonic ≠ "DB" ∧
        (∀ operand ∈ pattern.operands, operand.IsPlain) ∧
        ∀ slot ∈ Slot.hole? rule.slots, slot.length ≠ 0 →
          (slot.operand []).kind ∈ pattern.operands.map Operand.kind :=
  ⟨fun h => ⟨h.1, h.2, h.3, h.4⟩, fun h => ⟨h.1, h.2.1, h.2.2.1, h.2.2.2⟩⟩

instance (rule : Rule) (pattern : Spelling) : Decidable (rule.Legible pattern) :=
  decidable_of_iff' _ (Rule.legible_iff rule pattern)

-- The 8085 has the codes and the patterns of the 8080, so what is checked for one holds for both.
theorem legible_of_mem_codes (architecture : Architecture) :
    ∀ entry ∈ architecture.codes, entry.2.Legible (entry.2.pattern architecture) := by
  have hintel : ∀ entry ∈ Architecture.i8080.codes,
      entry.2.Legible (entry.2.pattern .i8080) := by decide +kernel
  cases architecture with
  | z80 => decide +kernel
  | i8080 => exact hintel
  | i8085 => exact hintel

/-- The names that the tables hold are plain themselves. -/
theorem plain_of_mem_codes (architecture : Architecture) : ∀ entry ∈ architecture.codes,
    Plain entry.2.mnemonic ∧ ∀ operand ∈ Slot.operands entry.2.slots [], operand.IsPlain := by
  have hintel : ∀ entry ∈ Architecture.i8080.codes, Plain entry.2.mnemonic ∧
      ∀ operand ∈ Slot.operands entry.2.slots [], operand.IsPlain := by decide +kernel
  cases architecture with
  | z80 => decide +kernel
  | i8080 => exact hintel
  | i8085 => exact hintel

/-- An opcode that is its own operand: the restart vector stands in its bits. -/
def IsRestart (entry : List UInt8 × Rule) : Prop :=
  entry.1 = [firstByte entry.1] ∧ entry.2.slots = [.vector (firstByte entry.1 - 0xC7)]

instance (entry : List UInt8 × Rule) : Decidable (IsRestart entry) :=
  inferInstanceAs (Decidable (_ ∧ _))

theorem single_of_mem_codes (architecture : Architecture) : ∀ entry ∈ architecture.codes,
    Slot.Single entry.2.slots ∧ (entry.2.mnemonic = "RST" → IsRestart entry) := by
  have hintel : ∀ entry ∈ Architecture.i8080.codes,
      Slot.Single entry.2.slots ∧ (entry.2.mnemonic = "RST" → IsRestart entry) := by decide +kernel
  cases architecture with
  | z80 => decide +kernel
  | i8080 => exact hintel
  | i8085 => exact hintel

theorem regular_of_mem_codes {architecture : Architecture} {entry : List UInt8 × Rule}
    (h : entry ∈ architecture.codes) : entry.2.Regular := by
  obtain ⟨hsingle, hrestart⟩ := single_of_mem_codes architecture entry h
  exact ⟨hsingle, fun hmnemonic => ⟨_, (hrestart hmnemonic).2⟩⟩

/-! ## Shapes -/

/-- The text of an operand up to the number in it. -/
def Operand.shape : Operand → String
  | .text fixed => fixed
  | .imm8 _ | .imm16 _ | .target | .vector => "$"
  | .port _ | .direct _ => "($"

/-- A mnemonic with the shapes of its operands. -/
abbrev Shape := String × List String

/-- The words of a spelling without the numbers. -/
def Spelling.shape (spelling : Spelling) : Shape :=
  (spelling.mnemonic, spelling.operands.map Operand.shape)

/-- The shape of what an opcode decodes to. -/
def Architecture.shape (architecture : Architecture) (entry : List UInt8 × Rule) : Shape :=
  (entry.2.pattern architecture).shape

/-- The shape of the restarts of the Z80. -/
def restartShape : Shape := ("RST", ["$"])

/-- The shape of stores of the register pair `HL`. -/
def storeShape : Shape := ("LD", ["($", "HL"])

/-- The shape of loads of the register pair `HL`. -/
def loadShape : Shape := ("LD", ["HL", "($"])

/-- Shapes that belong to several opcodes. -/
def sharedShapes : List Shape := [restartShape, storeShape, loadShape]

/-- The opcodes of a shape that several have. -/
structure IsShared (entry : List UInt8 × Rule) (shape : Shape) : Prop where
  restart : shape = restartShape → IsRestart entry
  store : shape = storeShape →
    entry.1 ∈ [[0x22], [0xED, 0x63]] ∧ entry.2.slots = [.direct, .text "HL"]
  load : shape = loadShape →
    entry.1 ∈ [[0x2A], [0xED, 0x6B]] ∧ entry.2.slots = [.text "HL", .direct]

theorem isShared_iff (entry : List UInt8 × Rule) (shape : Shape) :
    IsShared entry shape ↔
      (shape = restartShape → IsRestart entry) ∧
        (shape = storeShape →
          entry.1 ∈ [[0x22], [0xED, 0x63]] ∧ entry.2.slots = [.direct, .text "HL"]) ∧
        (shape = loadShape →
          entry.1 ∈ [[0x2A], [0xED, 0x6B]] ∧ entry.2.slots = [.text "HL", .direct]) :=
  ⟨fun h => ⟨h.1, h.2, h.3⟩, fun h => ⟨h.1, h.2.1, h.2.2⟩⟩

instance (entry : List UInt8 × Rule) (shape : Shape) : Decidable (IsShared entry shape) :=
  decidable_of_iff' _ (isShared_iff entry shape)

theorem isShared_of_mem_codes (architecture : Architecture) : ∀ entry ∈ architecture.codes,
    architecture.shape entry ∈ sharedShapes →
      architecture = .z80 ∧ IsShared entry (architecture.shape entry) := by
  have hintel : ∀ entry ∈ Architecture.i8080.codes,
      Architecture.i8080.shape entry ∉ sharedShapes := by decide +kernel
  cases architecture with
  | z80 => decide +kernel
  | i8080 => exact fun entry hmem hshared => absurd hshared (hintel entry hmem)
  | i8085 => exact fun entry hmem hshared => absurd hshared (hintel entry hmem)

/-! ## Distinct shapes

Comparing all shapes with each other takes too long. Each is given a number instead, and the numbers
are compared by marking them as bits of one large number. -/

/-- Continues the number of a text with further text. -/
def textKey (seed : Nat) (text : String) : Nat :=
  text.toByteArray.data.toList.foldl (fun key byte => (key * 257 + byte.toNat) % 131071)
    (seed * 257 % 131071)

/-- The number of a shape. -/
def shapeKey (shape : Shape) : Nat :=
  shape.2.foldl textKey (textKey 0 shape.1)

/-- Whether numbers are distinct from each other and from the bits of `seen`. -/
def distinctFrom (seen : Nat) : List Nat → Bool
  | [] => true
  | key :: keys => !seen.testBit key && distinctFrom (seen ||| 2 ^ key) keys

theorem nodup_of_distinctFrom {seen : Nat} {keys : List Nat} (h : distinctFrom seen keys) :
    keys.Nodup ∧ ∀ key ∈ keys, seen.testBit key = false := by
  induction keys generalizing seen with
  | nil => exact ⟨.nil, by simp⟩
  | cons key keys ih =>
    rw [distinctFrom, Bool.and_eq_true, Bool.not_eq_true'] at h
    obtain ⟨hnodup, hrest⟩ := ih h.2
    have hseen : ∀ other ∈ keys, seen.testBit other = false ∧ key ≠ other := by
      intro other hmem
      have hbit := hrest other hmem
      rw [Nat.testBit_or, Nat.testBit_two_pow, Bool.or_eq_false_iff] at hbit
      exact ⟨hbit.1, by simpa using hbit.2⟩
    constructor
    · exact List.nodup_cons.mpr ⟨fun hmem => (hseen key hmem).2 rfl, hnodup⟩
    · intro other hmem
      rcases List.mem_cons.mp hmem with rfl | hmem
      · exact h.1
      · exact (hseen other hmem).1

/-- The opcodes whose shape is their own. -/
def Architecture.ownCodes (architecture : Architecture) : List (List UInt8 × Rule) :=
  architecture.codes.filter fun entry => architecture.shape entry ∉ sharedShapes

theorem distinct_ownCodes (architecture : Architecture) :
    distinctFrom 0 (architecture.ownCodes.map fun entry => shapeKey (architecture.shape entry)) := by
  have hintel : distinctFrom 0 (Architecture.i8080.ownCodes.map fun entry =>
      shapeKey (Architecture.i8080.shape entry)) := by decide +kernel
  cases architecture with
  | z80 => decide +kernel
  | i8080 => exact hintel
  | i8085 => exact hintel

/-- The shape determines the opcode up to the shared shapes. -/
theorem eq_or_shared_of_shape_eq {architecture : Architecture} {entry other : List UInt8 × Rule}
    (hentry : entry ∈ architecture.codes) (hother : other ∈ architecture.codes)
    (h : architecture.shape entry = architecture.shape other) :
    entry = other ∨ architecture = .z80 ∧ architecture.shape entry ∈ sharedShapes ∧
      IsShared entry (architecture.shape entry) ∧ IsShared other (architecture.shape entry) := by
  by_cases hshared : architecture.shape entry ∈ sharedShapes
  · obtain ⟨harchitecture, hleft⟩ := isShared_of_mem_codes architecture entry hentry hshared
    obtain ⟨-, hright⟩ := isShared_of_mem_codes architecture other hother (h ▸ hshared)
    exact .inr ⟨harchitecture, hshared, hleft, h ▸ hright⟩
  · refine .inl (List.inj_on_of_nodup_map (nodup_of_distinctFrom (distinct_ownCodes architecture)).1
      ?_ ?_ (congrArg shapeKey h))
    · exact List.mem_filter.mpr ⟨hentry, by simpa using hshared⟩
    · exact List.mem_filter.mpr ⟨hother, by simpa using h ▸ hshared⟩

end Disasm
