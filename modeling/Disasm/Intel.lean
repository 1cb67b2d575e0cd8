import Disasm.Instruction
import Disasm.Opcode.Tables

/-!
# Intel spelling

The 8080 and the 8085 have their own syntax for the instructions that they share with the Z80. An
instruction that only the Z80 has keeps its spelling.
-/

namespace Disasm

/-- A mnemonic with its operands. -/
structure Spelling where
  mnemonic : String
  operands : List Operand
  deriving DecidableEq

namespace Intel

open Operand

/-! ## Names -/

/-- Intel's name of a register or register pair. -/
def register : String → String
  | "(HL)" => "M"
  | "BC" => "B"
  | "DE" => "D"
  | "HL" => "H"
  | "AF" => "PSW"
  | name => name

/-- Whether a text names an 8-bit register. -/
def isRegister (name : String) : Bool :=
  OpcodeField.registers.contains name

/-- Jumps by condition. -/
def jumps : List String := ["JNZ", "JZ", "JNC", "JC", "JPO", "JPE", "JP", "JM"]

/-- Calls by condition. -/
def calls : List String := ["CNZ", "CZ", "CNC", "CC", "CPO", "CPE", "CP", "CM"]

/-- Returns by condition. -/
def returns : List String := ["RNZ", "RZ", "RNC", "RC", "RPO", "RPE", "RP", "RM"]

def conditional? (mnemonics : List String) (condition : String) : Option String :=
  (OpcodeField.conditions.zip mnemonics).lookup condition

/-- Instructions without operands. -/
def implied? : String → Option String
  | "RLCA" => some "RLC"
  | "RRCA" => some "RRC"
  | "RLA" => some "RAL"
  | "RRA" => some "RAR"
  | "CPL" => some "CMA"
  | "SCF" => some "STC"
  | "CCF" => some "CMC"
  | "HALT" => some "HLT"
  | _ => none

/-- The forms of an arithmetic operation: with a register, and with an immediate byte. -/
def arithmetic? : String → Option (String × String)
  | "ADD" => some ("ADD", "ADI")
  | "ADC" => some ("ADC", "ACI")
  | "SUB" => some ("SUB", "SUI")
  | "SBC" => some ("SBB", "SBI")
  | "AND" => some ("ANA", "ANI")
  | "XOR" => some ("XRA", "XRI")
  | "OR" => some ("ORA", "ORI")
  | "CP" => some ("CMP", "CPI")
  | _ => none

/-! ## Families of instructions -/

/-- Arithmetic with the source operand, in one of the two forms. -/
def arithmeticWith? (forms : String × String) : Operand → Option Spelling
  | text name => if isRegister name then some ⟨forms.1, [text (register name)]⟩ else none
  | imm8 value => some ⟨forms.2, [imm8 value]⟩
  | _ => none

/-- Arithmetic. The accumulator is never named; where the Z80 names it, it has to stand there. -/
def arithmeticSpelling? (mnemonic : String) (forms : String × String) :
    List Operand → Option Spelling
  | [text "A", source] => if mnemonic ≠ "SUB" then arithmeticWith? forms source else none
  | [source] =>
    if mnemonic ∈ ["ADD", "ADC", "SBC"] then none else arithmeticWith? forms source
  | [text "HL", text pair] =>
    if mnemonic = "ADD" then some ⟨"DAD", [text (register pair)]⟩ else none
  | _ => none

/-- Loads and stores. -/
def load? : List Operand → Option Spelling
  | [text "A", text "(BC)"] => some ⟨"LDAX", [text "B"]⟩
  | [text "A", text "(DE)"] => some ⟨"LDAX", [text "D"]⟩
  | [text "(BC)", text "A"] => some ⟨"STAX", [text "B"]⟩
  | [text "(DE)", text "A"] => some ⟨"STAX", [text "D"]⟩
  | [text "SP", text "HL"] => some ⟨"SPHL", []⟩
  | [text destination, text source] =>
    if isRegister destination && isRegister source then
      some ⟨"MOV", [text (register destination), text (register source)]⟩
    else none
  | [text name, imm8 value] => some ⟨"MVI", [text (register name), imm8 value]⟩
  | [text pair, imm16 value] => some ⟨"LXI", [text (register pair), imm16 value]⟩
  | [text "A", direct address] => some ⟨"LDA", [imm16 address]⟩
  | [direct address, text "A"] => some ⟨"STA", [imm16 address]⟩
  | [text "HL", direct address] => some ⟨"LHLD", [imm16 address]⟩
  | [direct address, text "HL"] => some ⟨"SHLD", [imm16 address]⟩
  | _ => none

def exchange? : List Operand → Option Spelling
  | [text "DE", text "HL"] => some ⟨"XCHG", []⟩
  | [text "(SP)", text "HL"] => some ⟨"XTHL", []⟩
  | _ => none

def jump? : List Operand → Option Spelling
  | [target] => some ⟨"JMP", [target]⟩
  | [text "(HL)"] => some ⟨"PCHL", []⟩
  | [text condition, target] => (conditional? jumps condition).map (⟨·, [target]⟩)
  | _ => none

/-- Calls under a condition. A plain call is spelled alike in both. -/
def call? : List Operand → Option Spelling
  | [text condition, target] => (conditional? calls condition).map (⟨·, [target]⟩)
  | _ => none

/-- Returns under a condition. A plain return is spelled alike in both. -/
def return? : List Operand → Option Spelling
  | [text condition] => (conditional? returns condition).map (⟨·, []⟩)
  | _ => none

/-- The number of a restart, which stands in three bits of its vector. -/
def restartNumber (vector : Address) : String :=
  OpcodeField.digits.get ⟨vector.toNat / 8 % 8, Nat.mod_lt _ (by decide)⟩

/-- Restarts, which are numbered from 0 to 7. -/
def restart? (vector : Option Address) : List Operand → Option Spelling
  | [.vector] => vector.map fun vector => ⟨"RST", [text (restartNumber vector)]⟩
  | _ => none

/-- Counting up or down: of a register, and of a register pair. -/
def count? (single pair : String) : List Operand → Option Spelling
  | [text name] => some ⟨if isRegister name then single else pair, [text (register name)]⟩
  | _ => none

def stack? (mnemonic : String) : List Operand → Option Spelling
  | [text pair] => some ⟨mnemonic, [text (register pair)]⟩
  | _ => none

def input? : List Operand → Option Spelling
  | [text "A", port value] => some ⟨"IN", [imm8 value]⟩
  | _ => none

def output? : List Operand → Option Spelling
  | [port value, text "A"] => some ⟨"OUT", [imm8 value]⟩
  | _ => none

/-- The spelling of an instruction that is neither arithmetic nor without operands. -/
def otherSpelling? (instruction : Instruction) : Option Spelling :=
  match instruction.mnemonic with
  | "LD" => load? instruction.operands
  | "EX" => exchange? instruction.operands
  | "JP" => jump? instruction.operands
  | "CALL" => call? instruction.operands
  | "RET" => return? instruction.operands
  | "RST" => restart? instruction.destination? instruction.operands
  | "INC" => count? "INR" "INX" instruction.operands
  | "DEC" => count? "DCR" "DCX" instruction.operands
  | "PUSH" => stack? "PUSH" instruction.operands
  | "POP" => stack? "POP" instruction.operands
  | "IN" => input? instruction.operands
  | "OUT" => output? instruction.operands
  | _ => none

/-- The spelling of an instruction in Z80 syntax, which may be the same. -/
def spelling? (instruction : Instruction) : Option Spelling :=
  match implied? instruction.mnemonic, arithmetic? instruction.mnemonic with
  | some mnemonic, _ => if instruction.operands.isEmpty then some ⟨mnemonic, []⟩ else none
  | none, some forms => arithmeticSpelling? instruction.mnemonic forms instruction.operands
  | none, none => otherSpelling? instruction

end Intel

namespace Instruction

/-- The instruction in Intel spelling, if that differs. The Z80 mnemonic is kept, and the Z80 text
is added to the comment. -/
def toIntel? (instruction : Instruction) : Option Instruction :=
  match Intel.spelling? instruction with
  | none => none
  | some spelling =>
    if spelling = ⟨instruction.mnemonic, instruction.operands⟩ then none
    else
      some <| { instruction with
        mnemonic := spelling.mnemonic
        operands := spelling.operands
        z80Mnemonic := some instruction.mnemonic }.addComment ("Z80: " ++ instruction.text)

/-- The instruction in Intel spelling, or as it is. -/
def toIntel (instruction : Instruction) : Instruction :=
  instruction.toIntel?.getD instruction

end Instruction

end Disasm
