import Mathlib.Data.List.Basic
import Disasm.Proofs.Forms

/-!
# The 8080 by bit fields

The instruction set of the 8080 in the words of its maker. The decoder comes to the same instructions
the long way: a rule in Z80 syntax is read from the tables, and its mnemonic and operands are spelled
anew. The rules of all documented opcodes realize the forms that the fields say
(`documented_of_mem_codes`), so it does not matter which bytes follow the opcode.
-/

namespace Disasm

namespace IntelScheme

open Argument

/-! ## Opcodes -/

/-- The 8-bit registers. -/
def r : Fin 8 → Argument := named #v["B", "C", "D", "E", "H", "L", "M", "A"]

/-- The register pairs of arithmetic and loads. -/
def rp : Fin 4 → Argument := named #v["B", "D", "H", "SP"]

/-- The register pairs of the stack. -/
def rp2 : Fin 4 → Argument := named #v["B", "D", "H", "PSW"]

/-- The mnemonic with a condition at its end. -/
def conditional (mnemonic : String) (condition : Fin 8) : String :=
  mnemonic ++ conditionNames.get condition

/-- Arithmetic with a register. -/
def alu : Vector String 8 := #v["ADD", "ADC", "SUB", "SBB", "ANA", "XRA", "ORA", "CMP"]

/-- Arithmetic with an immediate byte. -/
def aluImmediate : Vector String 8 := #v["ADI", "ACI", "SUI", "SBI", "ANI", "XRI", "ORI", "CPI"]

/-- Rotations and other instructions on the accumulator and the carry. -/
def accumulator : Vector String 8 := #v["RLC", "RRC", "RAL", "RAR", "DAA", "CMA", "STC", "CMC"]

/-- The first quarter: loads, counting and the accumulator. -/
def quarter0 (fields : BitFields) : Option Form :=
  match fields.z with
  | 0 =>
    match fields.y with
    | 0 => some ⟨"NOP", []⟩
    | _ => none
  | 1 =>
    match fields.q with
    | 0 => some ⟨"LXI", [rp fields.p, word]⟩
    | 1 => some ⟨"DAD", [rp fields.p]⟩
  | 2 =>
    match fields.q, fields.p with
    | 0, 0 => some ⟨"STAX", [name "B"]⟩
    | 0, 1 => some ⟨"STAX", [name "D"]⟩
    | 0, 2 => some ⟨"SHLD", [word]⟩
    | 0, 3 => some ⟨"STA", [word]⟩
    | 1, 0 => some ⟨"LDAX", [name "B"]⟩
    | 1, 1 => some ⟨"LDAX", [name "D"]⟩
    | 1, 2 => some ⟨"LHLD", [word]⟩
    | 1, 3 => some ⟨"LDA", [word]⟩
  | 3 =>
    match fields.q with
    | 0 => some ⟨"INX", [rp fields.p]⟩
    | 1 => some ⟨"DCX", [rp fields.p]⟩
  | 4 => some ⟨"INR", [r fields.y]⟩
  | 5 => some ⟨"DCR", [r fields.y]⟩
  | 6 => some ⟨"MVI", [r fields.y, byte]⟩
  | 7 => some ⟨accumulator.get fields.y, []⟩

/-- The second quarter: moves between registers. A memory cell is not moved to itself. -/
def quarter1 (fields : BitFields) : Form :=
  match fields.y, fields.z with
  | 6, 6 => ⟨"HLT", []⟩
  | y, z => ⟨"MOV", [r y, r z]⟩

/-- The last quarter: jumps, calls, the stack and the rest. -/
def quarter3 (fields : BitFields) : Option Form :=
  match fields.z with
  | 0 => some ⟨conditional "R" fields.y, []⟩
  | 1 =>
    match fields.q, fields.p with
    | 0, p => some ⟨"POP", [rp2 p]⟩
    | 1, 0 => some ⟨"RET", []⟩
    | 1, 1 => none
    | 1, 2 => some ⟨"PCHL", []⟩
    | 1, 3 => some ⟨"SPHL", []⟩
  | 2 => some ⟨conditional "J" fields.y, [address]⟩
  | 3 =>
    match fields.y with
    | 0 => some ⟨"JMP", [address]⟩
    | 1 => none
    | 2 => some ⟨"OUT", [byte]⟩
    | 3 => some ⟨"IN", [byte]⟩
    | 4 => some ⟨"XTHL", []⟩
    | 5 => some ⟨"XCHG", []⟩
    | 6 => some ⟨"DI", []⟩
    | 7 => some ⟨"EI", []⟩
  | 4 => some ⟨conditional "C" fields.y, [address]⟩
  | 5 =>
    match fields.q, fields.p with
    | 0, p => some ⟨"PUSH", [rp2 p]⟩
    | 1, 0 => some ⟨"CALL", [address]⟩
    | 1, _ => none
  | 6 => some ⟨aluImmediate.get fields.y, [byte]⟩
  | 7 => some ⟨"RST", [restart fields.y]⟩

/-- The documented opcodes. -/
def form? (fields : BitFields) : Option Form :=
  match fields.x with
  | 0 => quarter0 fields
  | 1 => some (quarter1 fields)
  | 2 => some ⟨alu.get fields.y, [r fields.z]⟩
  | 3 => quarter3 fields

/-- The opcodes that the 8080 does not document, but for which its page has the rules of its
relatives. -/
def foreignOpcodes : List UInt8 := [0x08, 0x10, 0x18, 0x20, 0x28, 0x30, 0x38, 0xD9]

/-! ## Opcodes of the tables -/

/-- A rule of the tables realizes the form of its opcode. -/
def Documented (architecture : Architecture) (code : List UInt8) (rule : Rule) : Prop :=
  code = [firstByte code] ∧ (firstByte code ∉ foreignOpcodes →
    ∃ form ∈ form? (.ofOpcode (firstByte code)), rule.Realizes architecture form)

instance (architecture : Architecture) (code : List UInt8) (rule : Rule) :
    Decidable (Documented architecture code rule) :=
  inferInstanceAs (Decidable (_ ∧ _))

-- The 8085 has the codes and the patterns of the 8080.
theorem documented_of_mem_codes {architecture : Architecture} (hintel : architecture ≠ .z80) :
    ∀ entry ∈ architecture.codes, Documented architecture entry.1 entry.2 := by
  have h8080 : ∀ entry ∈ Architecture.i8080.codes, Documented .i8080 entry.1 entry.2 := by
    decide +kernel
  cases architecture with
  | z80 => exact absurd rfl hintel
  | i8080 => exact h8080
  | i8085 =>
    intro entry hmem
    obtain ⟨hcode, hform⟩ := h8080 entry hmem
    refine ⟨hcode, fun hforeign => ?_⟩
    obtain ⟨form, hmem, hpattern, hlength, htarget⟩ := hform hforeign
    exact ⟨form, hmem, hpattern, hlength, htarget⟩

end IntelScheme

/-! ## The result -/

/-- On the 8080 and the 8085 every instruction with a documented opcode has the mnemonic and the operands
that the fields of the opcode say, and its numbers stand in the bytes behind the opcode. -/
theorem disassemble_eq_intelScheme {architecture : Architecture} (hintel : architecture ≠ .z80)
    {image : List UInt8} {origin : Address} {disassembly : Disassembly}
    (h : disassemble image origin architecture = .ok disassembly) {entry : Entry}
    (hmem : entry ∈ disassembly.entries) (hcode : entry.instruction.mnemonic ≠ "DB")
    {first : UInt8} {trailing : List UInt8} (hbytes : entry.instruction.bytes = first :: trailing)
    (hforeign : first ∉ IntelScheme.foreignOpcodes) :
    ∃ form ∈ IntelScheme.form? (.ofOpcode first),
      trailing.length = form.length ∧ entry.reading = form.reading [first] entry.address trailing := by
  obtain ⟨-, rfl⟩ := eq_finished_of_disassemble h
  obtain ⟨offset, bytes, decoded, hdecoded, rfl⟩ := exists_decoded_of_mem hmem
  cases hdecoded with
  | @coded code rule mem starts long =>
    obtain ⟨rest, rfl⟩ := starts
    obtain ⟨hsingle, hform⟩ : IntelScheme.Documented architecture code rule :=
      IntelScheme.documented_of_mem_codes hintel _ mem
    obtain ⟨opcode, rfl⟩ : ∃ opcode, code = [opcode] := ⟨_, hsingle⟩
    obtain ⟨rfl, rfl⟩ : opcode = first ∧ rest.take (Slot.totalLength rule.slots) = trailing := by
      rw [finish_bytes, place_bytes] at hbytes
      exact List.cons.inj ((List.take_length_add_append _).symm.trans hbytes)
    obtain ⟨form, hmemForm, hrealizes⟩ := hform hforeign
    refine ⟨form, hmemForm, ?_, ?_⟩
    · rw [Rule.encodedLength, List.length_append] at long
      rw [List.length_take, ← hrealizes.length]
      omega
    · rw [hrealizes.length, finish_address, place_address]
      exact hrealizes.reading_finish (regular_of_mem_codes mem) [opcode] rest origin offset _ _
  | data mem starts nonempty short =>
    refine absurd ?_ hcode
    exact congrArg Reading.mnemonic (reading_data _ _)

/-- A conditional jump behind a store, into its middle. -/
theorem disassemble_eq_intelScheme_jump :
    ∃ disassembly, disassemble [0x32, 0x34, 0x12, 0xEA, 0x01, 0x01] 0x0100 .i8085 =
        .ok disassembly ∧
      ∃ entry ∈ disassembly.entries,
        entry.reading = ⟨[0xEA, 0x01, 0x01], "JPE", [.target], some 0x0101⟩ := by
  have h : disassemble [0x32, 0x34, 0x12, 0xEA, 0x01, 0x01] 0x0100 .i8085 = .ok _ :=
    disassemble_eq_ok .i8085 (by decide)
  obtain ⟨entry, hmem, hcode, hbytes⟩ :
      ∃ entry ∈ (finished [0x32, 0x34, 0x12, 0xEA, 0x01, 0x01] 0x0100 .i8085).entries,
        entry.instruction.mnemonic ≠ "DB" ∧ entry.instruction.bytes = 0xEA :: [0x01, 0x01] := by
    decide +kernel
  obtain ⟨form, hform, -, hreading⟩ :=
    disassemble_eq_intelScheme (by decide) h hmem hcode hbytes (by decide)
  obtain rfl : ⟨"JPE", [.address]⟩ = form := Option.some.inj hform
  exact ⟨_, h, entry, hmem, hreading⟩

end Disasm
