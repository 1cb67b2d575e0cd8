import Disasm.Opcode.Page

/-!
# Opcode tables

Many opcodes hold a field of two or three bits that selects a register, a register pair, a condition or
an operation. Each list gives the names in the order of the field's value.

Without a prefix stand the opcodes that all three architectures share, those that only the Z80 has, and
the two that the 8085 puts in the place of relative jumps of the Z80. The pages of the 8080 and the
8085 keep the rules of the others, so that foreign instructions are recognised and can be warned about.
Behind the prefix `CB` stand rotations and shifts of a register, and tests and changes of one bit of it;
behind the prefix `ED` the documented opcodes alone. Both belong to the Z80.
-/

namespace Disasm

/-! ## Fields -/

namespace OpcodeField

/-- The 8-bit registers, with the memory cell at `HL` among them. -/
def registers : List String := ["B", "C", "D", "E", "H", "L", "(HL)", "A"]

/-- The register pairs of arithmetic and loads. -/
def pairs : List String := ["BC", "DE", "HL", "SP"]

/-- The register pairs of the stack. -/
def stackPairs : List String := ["BC", "DE", "HL", "AF"]

/-- The conditions of jumps, calls and returns. -/
def conditions : List String := ["NZ", "Z", "NC", "C", "PO", "PE", "P", "M"]

/-- Bit numbers and restart numbers. -/
def digits : List String := ["0", "1", "2", "3", "4", "5", "6", "7"]

/-- The values of a field with their names. -/
def numbered (names : List String) : List (UInt8 × String) :=
  names.zipIdx.map fun (name, value) => (UInt8.ofNat value, name)

end OpcodeField

/-! ## Opcodes without a prefix -/

namespace Base

open OpcodeField Slot

/-! ### Shared by all architectures -/

/-- Opcodes that stand alone. -/
def single : Page.Layer :=
  [(0x00, { mnemonic := "NOP", slots := [] }),
    (0x02, { mnemonic := "LD", slots := [text "(BC)", text "A"] }),
    (0x07, { mnemonic := "RLCA", slots := [] }),
    (0x0A, { mnemonic := "LD", slots := [text "A", text "(BC)"] }),
    (0x0F, { mnemonic := "RRCA", slots := [] }),
    (0x12, { mnemonic := "LD", slots := [text "(DE)", text "A"] }),
    (0x17, { mnemonic := "RLA", slots := [] }),
    (0x1A, { mnemonic := "LD", slots := [text "A", text "(DE)"] }),
    (0x1F, { mnemonic := "RRA", slots := [] }),
    (0x22, { mnemonic := "LD", slots := [direct, text "HL"] }),
    (0x27, { mnemonic := "DAA", slots := [] }),
    (0x2A, { mnemonic := "LD", slots := [text "HL", direct] }),
    (0x2F, { mnemonic := "CPL", slots := [] }),
    (0x32, { mnemonic := "LD", slots := [direct, text "A"] }),
    (0x37, { mnemonic := "SCF", slots := [] }),
    (0x3A, { mnemonic := "LD", slots := [text "A", direct] }),
    (0x3F, { mnemonic := "CCF", slots := [] }),
    (0x76, { mnemonic := "HALT", slots := [] }),
    (0xC3, { mnemonic := "JP", slots := [absolute] }),
    (0xC9, { mnemonic := "RET", slots := [] }),
    (0xCD, { mnemonic := "CALL", slots := [absolute] }),
    (0xD3, { mnemonic := "OUT", slots := [port, text "A"], io := true }),
    (0xDB, { mnemonic := "IN", slots := [text "A", port], io := true }),
    (0xE3, { mnemonic := "EX", slots := [text "(SP)", text "HL"] }),
    (0xE9, { mnemonic := "JP", slots := [text "(HL)"] }),
    (0xEB, { mnemonic := "EX", slots := [text "DE", text "HL"] }),
    (0xF3, { mnemonic := "DI", slots := [] }),
    (0xF9, { mnemonic := "LD", slots := [text "SP", text "HL"] }),
    (0xFB, { mnemonic := "EI", slots := [] })]

/-- Loads and arithmetic of register pairs. -/
def pairOperations : Page.Layer :=
  (numbered pairs).flatMap fun (value, pair) =>
    let first := value <<< 4
    [(first ||| 0x01, { mnemonic := "LD", slots := [text pair, imm16] }),
      (first ||| 0x03, { mnemonic := "INC", slots := [text pair] }),
      (first ||| 0x09, { mnemonic := "ADD", slots := [text "HL", text pair] }),
      (first ||| 0x0B, { mnemonic := "DEC", slots := [text pair] })]

def stackOperations : Page.Layer :=
  (numbered stackPairs).flatMap fun (value, pair) =>
    let first := value <<< 4 ||| 0xC0
    [(first ||| 0x01, { mnemonic := "POP", slots := [text pair] }),
      (first ||| 0x05, { mnemonic := "PUSH", slots := [text pair] })]

/-- Counting and immediate loads of 8-bit registers. -/
def registerOperations : Page.Layer :=
  (numbered registers).flatMap fun (value, register) =>
    let first := value <<< 3
    [(first ||| 0x04, { mnemonic := "INC", slots := [text register] }),
      (first ||| 0x05, { mnemonic := "DEC", slots := [text register] }),
      (first ||| 0x06, { mnemonic := "LD", slots := [text register, imm8] })]

/-- Loads between 8-bit registers. The opcode that would load a memory cell from itself halts. -/
def registerLoads : Page.Layer :=
  ((numbered registers).flatMap fun (destination, destinationName) =>
    (numbered registers).map fun (source, sourceName) =>
      (destination <<< 3 ||| source ||| 0x40,
        { mnemonic := "LD", slots := [text destinationName, text sourceName] })).filter
    fun (opcode, _) => opcode ≠ 0x76

/-- The 8-bit arithmetic operations, and the operands that stand before the source. -/
def arithmetic : List (String × List Slot) :=
  [("ADD", [text "A"]), ("ADC", [text "A"]), ("SUB", []), ("SBC", [text "A"]), ("AND", []),
    ("XOR", []), ("OR", []), ("CP", [])]

/-- Arithmetic with a register or an immediate byte. -/
def arithmeticOperations : Page.Layer :=
  arithmetic.zipIdx.flatMap fun ((mnemonic, before), value) =>
    let row := UInt8.ofNat value <<< 3
    ((numbered registers).map fun (source, register) =>
      (row ||| source ||| 0x80, { mnemonic, slots := before ++ [text register] })) ++
    [(row ||| 0xC6, { mnemonic, slots := before ++ [imm8] })]

/-- Returns, jumps and calls under a condition. -/
def conditionalBranches : Page.Layer :=
  (numbered conditions).flatMap fun (value, condition) =>
    let first := value <<< 3 ||| 0xC0
    [(first, { mnemonic := "RET", slots := [text condition] }),
      (first ||| 0x02, { mnemonic := "JP", slots := [text condition, absolute] }),
      (first ||| 0x04, { mnemonic := "CALL", slots := [text condition, absolute] })]

/-- Restarts, whose vector is the opcode's own field. -/
def restarts : Page.Layer :=
  (numbered digits).map fun (value, _) =>
    (value <<< 3 ||| 0xC7, { mnemonic := "RST", slots := [vector (value <<< 3)] })

/-- The opcodes of all three architectures. -/
def shared : Page.Layer :=
  single ++ pairOperations ++ stackOperations ++ registerOperations ++ registerLoads ++
    arithmeticOperations ++ conditionalBranches ++ restarts

/-! ### Additions -/

/-- The opcodes that the Z80 adds. -/
def z80Additions : Page.Layer :=
  [(0x08, { mnemonic := "EX", slots := [text "AF", text "AF'"], support := .z80Only }),
    (0x10, { mnemonic := "DJNZ", slots := [relative], support := .z80Only }),
    (0x18, { mnemonic := "JR", slots := [relative], support := .z80Only }),
    (0x20, { mnemonic := "JR", slots := [text "NZ", relative], support := .z80Only }),
    (0x28, { mnemonic := "JR", slots := [text "Z", relative], support := .z80Only }),
    (0x30, { mnemonic := "JR", slots := [text "NC", relative], support := .z80Only }),
    (0x38, { mnemonic := "JR", slots := [text "C", relative], support := .z80Only }),
    (0xD9, { mnemonic := "EXX", slots := [], support := .z80Only })]

/-- The opcodes that the 8085 adds to the 8080. -/
def i8085Additions : Page.Layer :=
  [(0x20, { mnemonic := "RIM", slots := [], support := .i8085Only }),
    (0x30, { mnemonic := "SIM", slots := [], support := .i8085Only })]

end Base

namespace Page

def z80 : Page := ofLayers 0 [Base.shared, Base.z80Additions]

/-- The opcodes of the 8080, with those of its relatives. -/
def i8080 : Page := ofLayers 0 [Base.shared, Base.z80Additions, Base.i8085Additions]

/-- The opcodes of the 8085, with those of its relatives. -/
def i8085 : Page := ofLayers 0 [Base.shared, Base.z80Additions, Base.i8085Additions]

def base : Architecture → Page
  | .z80 => z80
  | .i8080 => i8080
  | .i8085 => i8085

end Page

/-! ## Bit operations -/

namespace Bits

open OpcodeField Slot

/-- Rotations and shifts by opcode row. The row of an undocumented shift has no rule. -/
def shifts : List (Option String) :=
  [some "RLC", some "RRC", some "RL", some "RR", some "SLA", some "SRA", none, some "SRL"]

/-- Rules of the rotations and shifts. -/
def shiftOperations : Page.Layer :=
  shifts.zipIdx.flatMap fun (operation, row) =>
    operation.toList.flatMap fun mnemonic =>
      (numbered registers).map fun (value, register) =>
        (UInt8.ofNat row <<< 3 ||| value,
          { mnemonic, slots := [text register], support := .z80Only })

/-- Rules of the operations on single bits, which fill three quarters of the page. -/
def bitOperations : Page.Layer :=
  [((1 : UInt8), "BIT"), (2, "RES"), (3, "SET")].flatMap fun (quarter, mnemonic) =>
    (numbered digits).flatMap fun (bit, digit) =>
      (numbered registers).map fun (value, register) =>
        (quarter <<< 6 ||| bit <<< 3 ||| value,
          { mnemonic, slots := [text digit, text register], support := .z80Only })

end Bits

/-- The opcodes behind `CB`. -/
def Page.bits : Page := ofLayers 1 [Bits.shiftOperations, Bits.bitOperations]

/-! ## Extended opcodes -/

namespace Extended

open OpcodeField Slot

/-- Opcodes that stand alone. -/
def single : Page.Layer :=
  [(0x44, { mnemonic := "NEG", slots := [] }),
    (0x45, { mnemonic := "RETN", slots := [] }),
    (0x46, { mnemonic := "IM", slots := [text "0"] }),
    (0x47, { mnemonic := "LD", slots := [text "I", text "A"] }),
    (0x4D, { mnemonic := "RETI", slots := [] }),
    (0x4F, { mnemonic := "LD", slots := [text "R", text "A"] }),
    (0x56, { mnemonic := "IM", slots := [text "1"] }),
    (0x57, { mnemonic := "LD", slots := [text "A", text "I"] }),
    (0x5E, { mnemonic := "IM", slots := [text "2"] }),
    (0x5F, { mnemonic := "LD", slots := [text "A", text "R"] }),
    (0x67, { mnemonic := "RRD", slots := [] }),
    (0x6F, { mnemonic := "RLD", slots := [] })]

/-- Block transfers, searches, input and output: one step up or down, or repeated. -/
def blockOperations : Page.Layer :=
  [(0xA0, { mnemonic := "LDI", slots := [] }),
    (0xA1, { mnemonic := "CPI", slots := [] }),
    (0xA2, { mnemonic := "INI", slots := [], io := true }),
    (0xA3, { mnemonic := "OUTI", slots := [], io := true }),
    (0xA8, { mnemonic := "LDD", slots := [] }),
    (0xA9, { mnemonic := "CPD", slots := [] }),
    (0xAA, { mnemonic := "IND", slots := [], io := true }),
    (0xAB, { mnemonic := "OUTD", slots := [], io := true }),
    (0xB0, { mnemonic := "LDIR", slots := [] }),
    (0xB1, { mnemonic := "CPIR", slots := [] }),
    (0xB2, { mnemonic := "INIR", slots := [], io := true }),
    (0xB3, { mnemonic := "OTIR", slots := [], io := true }),
    (0xB8, { mnemonic := "LDDR", slots := [] }),
    (0xB9, { mnemonic := "CPDR", slots := [] }),
    (0xBA, { mnemonic := "INDR", slots := [], io := true }),
    (0xBB, { mnemonic := "OTDR", slots := [], io := true })]

/-- Input to and output from a register through the port in `C`. The row of the memory cell is
undocumented and has no rule. -/
def portOperations : Page.Layer :=
  ((numbered registers).filter fun (_, register) => register ≠ "(HL)").flatMap
    fun (value, register) =>
      let first := value <<< 3 ||| 0x40
      [(first, { mnemonic := "IN", slots := [text register, text "(C)"], io := true }),
        (first ||| 0x01, { mnemonic := "OUT", slots := [text "(C)", text register], io := true })]

/-- Arithmetic with carry and loads of register pairs. -/
def pairOperations : Page.Layer :=
  (numbered pairs).flatMap fun (value, pair) =>
    let first := value <<< 4 ||| 0x40
    [(first ||| 0x02, { mnemonic := "SBC", slots := [text "HL", text pair] }),
      (first ||| 0x03, { mnemonic := "LD", slots := [direct, text pair] }),
      (first ||| 0x0A, { mnemonic := "ADC", slots := [text "HL", text pair] }),
      (first ||| 0x0B, { mnemonic := "LD", slots := [text pair, direct] })]

def documented : Page.Layer :=
  (single ++ blockOperations ++ portOperations ++ pairOperations).map fun (opcode, rule) =>
    (opcode, { rule with support := .z80Only })

end Extended

/-- The opcodes behind `ED`. -/
def Page.extended : Page := ofLayers 1 [Extended.documented]

end Disasm
