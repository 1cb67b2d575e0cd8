import Mathlib.Data.List.Basic
import Disasm.Proofs.Explained
import Disasm.Proofs.Source

/-!
# Where comments come from

Four passes may comment on an instruction: the decoder, the prefix in front of an opcode, the warnings of
an architecture, and the spelling of the 8080 and the 8085. None knows of the others. What they say is a
`Remark`, and the bytes and mnemonics of an entry tell which one applies (`Remark.Applies`).

1. A remark is told from its text (`Remark.text_injective`).
2. The opcode settles how many bytes are needed and where an instruction is legal
   (`encodedLength_of_mem_liveCodes`, `support_of_mem_liveCodes`).
3. At most one remark applies to what the decoder gives, and it is the comment (`Settled`). For data this
   is the decoder's own. An instruction is warned of or spelled anew, never both (`settled_kept`,
   `settled_respelled`).
-/

namespace Disasm

/-! ## Remarks -/

/-- What is said about an instruction. -/
inductive Remark where
  | incomplete
  | ix
  | iy
  | unrecognized (lead : UInt8)
  | unknown
  | z80Only
  | i8085Only
  | z80Text (text : String)

namespace Remark

def text (architecture : Architecture) : Remark → String
  | incomplete => "Incomplete instruction at end of image"
  | ix => "IX extended instruction, not decoded"
  | iy => "IY extended instruction, not decoded"
  | unrecognized lead => "Unrecognized " ++ Hex.byte lead ++ "-prefixed opcode"
  | unknown => "Unknown opcode, not supported on " ++ architecture.name
  | z80Only => "WARNING: Z80 ONLY"
  | i8085Only => "WARNING: 8085 ONLY"
  | z80Text text => "Z80: " ++ text

/-- The number of a kind of remarks. -/
def kind : Remark → Fin 8
  | incomplete => 0
  | ix => 1
  | iy => 2
  | unrecognized _ => 3
  | unknown => 4
  | z80Only => 5
  | i8085Only => 6
  | z80Text _ => 7

/-- The characters by which the kind of a remark is told. -/
def opening : Fin 8 → List Char
  | 0 => "Inc".toList
  | 1 => "IX".toList
  | 2 => "IY".toList
  | 3 => "Unr".toList
  | 4 => "Unk".toList
  | 5 => "WARNING: Z".toList
  | 6 => "WARNING: 8".toList
  | 7 => "Z".toList

theorem starts_append {opening : List Char} {text : String} (h : opening <+: text.toList)
    (rest : String) : opening <+: (text ++ rest).toList := by
  rw [String.toList_append]
  exact h.trans (List.prefix_append _ _)

theorem opening_starts (architecture : Architecture) (remark : Remark) :
    opening remark.kind <+: (remark.text architecture).toList := by
  cases remark with
  | incomplete =>
    show "Inc".toList <+: "Incomplete instruction at end of image".toList
    decide
  | ix =>
    show "IX".toList <+: "IX extended instruction, not decoded".toList
    decide
  | iy =>
    show "IY".toList <+: "IY extended instruction, not decoded".toList
    decide
  | unrecognized lead =>
    have hstarts : "Unr".toList <+: "Unrecognized ".toList := by decide
    exact starts_append (starts_append hstarts _) _
  | unknown =>
    have hstarts : "Unk".toList <+: "Unknown opcode, not supported on ".toList := by decide
    exact starts_append hstarts _
  | z80Only =>
    show "WARNING: Z".toList <+: "WARNING: Z80 ONLY".toList
    decide
  | i8085Only =>
    show "WARNING: 8".toList <+: "WARNING: 8085 ONLY".toList
    decide
  | z80Text text =>
    have hstarts : "Z".toList <+: "Z80: ".toList := by decide
    exact starts_append hstarts text

theorem kind_eq_of_text_eq {architecture : Architecture} {left right : Remark}
    (h : left.text architecture = right.text architecture) : left.kind = right.kind := by
  have hopenings : ∀ kind other : Fin 8, opening kind <+: opening other → kind = other := by decide
  have hleft := opening_starts architecture left
  rw [h] at hleft
  rcases List.prefix_or_prefix_of_prefix hleft (opening_starts architecture right) with hstarts | hstarts
  · exact hopenings _ _ hstarts
  · exact (hopenings _ _ hstarts).symm

theorem text_injective (architecture : Architecture) :
    Function.Injective (Remark.text architecture) := by
  intro left right h
  have hkind := kind_eq_of_text_eq h
  cases left with
  | unrecognized lead =>
    cases right with
    | unrecognized other =>
      have hdigits : ("Unrecognized " ++ Hex.byte lead ++ "-prefixed opcode").toList =
          ("Unrecognized " ++ Hex.byte other ++ "-prefixed opcode").toList := congrArg String.toList h
      rw [String.toList_append, String.toList_append, String.toList_append, String.toList_append,
        List.append_cancel_right_eq, List.append_cancel_left_eq] at hdigits
      rw [Hex.byte_inj (String.toList_inj.mp hdigits)]
    | _ => simp [kind] at hkind
  | z80Text text =>
    cases right with
    | z80Text other =>
      have htext : ("Z80: " ++ text).toList = ("Z80: " ++ other).toList := congrArg String.toList h
      rw [String.toList_append, String.toList_append, List.append_cancel_left_eq] at htext
      rw [String.toList_inj.mp htext]
    | _ => simp [kind] at hkind
  | _ =>
    clear h
    cases right <;> simp [kind] at hkind ⊢

/-- No wording has a semicolon in it, unless an instruction is quoted that has. -/
theorem semicolon_notMem_text {architecture : Architecture} (remark : Remark)
    (h : ∀ text, remark = .z80Text text → ';' ∉ text.toList) :
    ';' ∉ (remark.text architecture).toList := by
  cases remark with
  | unrecognized lead =>
    have hdigits : ';' ∉ (Hex.byte lead).toList := Hex.notMem_byte (by decide) lead
    exact notMem_append (notMem_append (by decide) hdigits) (by decide)
  | unknown =>
    have hname : ';' ∉ architecture.name.toList := by cases architecture <;> decide
    exact notMem_append (by decide) hname
  | z80Text text => exact notMem_append (by decide) (h text rfl)
  | incomplete =>
    show ';' ∉ "Incomplete instruction at end of image".toList
    decide
  | ix =>
    show ';' ∉ "IX extended instruction, not decoded".toList
    decide
  | iy =>
    show ';' ∉ "IY extended instruction, not decoded".toList
    decide
  | z80Only =>
    show ';' ∉ "WARNING: Z80 ONLY".toList
    decide
  | i8085Only =>
    show ';' ∉ "WARNING: 8085 ONLY".toList
    decide

end Remark

/-! ## Lengths of instructions -/

/-- The number of bytes of an instruction behind a prefix. Without an opcode there is a byte missing at
least. The prefixes of the index registers stand alone. -/
def Prefix.neededLength (lead : Prefix) (opcode? : Option UInt8) : Nat :=
  match lead, opcode? with
  | .dd, _ | .fd, _ => 1
  | .cb, none | .ed, none => 2
  | lead, some opcode => 2 + (lead.form? opcode).elim 0 Form.length

/-- The number of bytes of an instruction without a prefix. -/
def unprefixedLength (first : UInt8) : Nat :=
  1 + (Z80Scheme.unprefixed (.ofOpcode first)).elim 0 Form.length

/-- The number of bytes that an instruction needs which starts like this, by the documented forms. -/
def neededLength (architecture : Architecture) : List UInt8 → Nat
  | [] => 0
  | first :: rest =>
    if architecture = .z80 then
      match Prefix.ofByte? first with
      | some lead => lead.neededLength rest.head?
      | none => unprefixedLength first
    else if first ∈ overriddenOpcodes then 1
    else unprefixedLength first

/-- The opcodes of the instructions that the Z80 adds to the 8080 and the 8085, which have no others in
their place. -/
def z80OnlyOpcodes : List UInt8 := [0x08, 0x10, 0x18, 0x28, 0x38, 0xD9]

/-! ## When a remark applies -/

/-- The text of an entry in Z80 syntax. -/
def Entry.z80Text (entry : Entry) : String :=
  match entry.instruction.bytes with
  | [] => entry.instruction.text
  | first :: trailing =>
    let reading := Z80Scheme.decodeFirst entry.address first trailing
    { entry.instruction with mnemonic := reading.mnemonic, operands := reading.operands }.text

/-- When a remark is made about an entry. The image has the bytes `remaining` from its address on. -/
def Remark.Applies (architecture : Architecture) (remaining : List UInt8) (entry : Entry) :
    Remark → Prop
  | incomplete =>
    entry.instruction.mnemonic = "DB" ∧ entry.instruction.bytes.length = 1 ∧
      remaining.length < neededLength architecture remaining
  | ix => architecture = .z80 ∧ firstByte entry.instruction.bytes = 0xDD
  | iy => architecture = .z80 ∧ firstByte entry.instruction.bytes = 0xFD
  | unrecognized lead =>
    architecture = .z80 ∧ entry.instruction.mnemonic = "DB" ∧
      ∃ opcode, entry.instruction.bytes = [lead, opcode]
  | unknown => architecture ≠ .z80 ∧ firstByte entry.instruction.bytes ∈ foreignPrefixes
  | z80Only =>
    architecture ≠ .z80 ∧ entry.instruction.mnemonic ≠ "DB" ∧
      firstByte entry.instruction.bytes ∈ z80OnlyOpcodes
  | i8085Only => architecture = .i8080 ∧ firstByte entry.instruction.bytes ∈ overriddenOpcodes
  | z80Text text => entry.instruction.z80Mnemonic.isSome ∧ text = entry.z80Text

/-- The comment of an entry, told from its bytes, its mnemonics and the bytes that remain. -/
structure Commented (architecture : Architecture) (remaining : List UInt8) (entry : Entry) :
    Prop where
  /-- A remark is the whole comment exactly if it applies. -/
  some_iff : ∀ remark : Remark, entry.instruction.comment = some (remark.text architecture) ↔
    remark.Applies architecture remaining entry
  /-- There is no comment exactly if no remark applies. -/
  none_iff : entry.instruction.comment = none ↔
    ∀ remark : Remark, ¬ remark.Applies architecture remaining entry
  /-- Nothing is joined to a comment. -/
  single : ∀ comment, entry.instruction.comment = some comment → ';' ∉ comment.toList

/-! ## What the tables say -/

/-- The first bytes that no rule in force has. -/
def Architecture.idleBytes : Architecture → List UInt8
  | .z80 => [0xDD, 0xFD]
  | .i8080 | .i8085 => foreignPrefixes

theorem firstByte_of_mem_liveCodes (architecture : Architecture) :
    ∀ entry ∈ architecture.liveCodes, firstByte entry.1 ∉ architecture.idleBytes := by
  have hintel : ∀ entry ∈ Architecture.i8080.liveCodes,
      firstByte entry.1 ∉ Architecture.i8080.idleBytes := by decide +kernel
  cases architecture with
  | z80 => decide +kernel
  | i8080 => exact hintel
  | i8085 => exact hintel

theorem encodedLength_of_mem_liveCodes (architecture : Architecture) :
    ∀ entry ∈ architecture.liveCodes,
      entry.2.encodedLength entry.1.length = neededLength architecture entry.1 ∧
        (entry.1 = [firstByte entry.1] ∧
            (architecture = .z80 → Prefix.ofByte? (firstByte entry.1) = none) ∨
          architecture = .z80 ∧ entry.1.length = 2) := by
  cases architecture <;> decide +kernel

/-- On the 8080 and the 8085 the opcode settles where an instruction is legal. What is legal everywhere
is documented for the Z80. -/
theorem support_of_mem_liveCodes {architecture : Architecture} (hintel : architecture ≠ .z80) :
    ∀ entry ∈ architecture.liveCodes,
      (entry.2.support =
        if firstByte entry.1 ∈ z80OnlyOpcodes then .z80Only
        else if firstByte entry.1 ∈ overriddenOpcodes then .i8085Only
        else .all) ∧
      (entry.2.support = .all →
        ∃ form ∈ Z80Scheme.unprefixed (.ofOpcode (firstByte entry.1)),
          entry.2.Realizes .z80 form) := by
  have h8080 : ∀ entry ∈ Architecture.i8080.liveCodes,
      (entry.2.support =
        if firstByte entry.1 ∈ z80OnlyOpcodes then .z80Only
        else if firstByte entry.1 ∈ overriddenOpcodes then .i8085Only
        else .all) ∧
      (entry.2.support = .all →
        ∃ form ∈ Z80Scheme.unprefixed (.ofOpcode (firstByte entry.1)),
          entry.2.Realizes .z80 form) := by
    decide +kernel
  cases architecture with
  | z80 => exact absurd rfl hintel
  | i8080 => exact h8080
  | i8085 => exact h8080

section Needs

variable {architecture : Architecture} {code bytes : List UInt8} {rule : Rule}
  (mem : (code, rule) ∈ architecture.liveCodes) (starts : code <+: bytes)

include mem starts

/-- The bytes behind the opcode have no part in how many are needed. -/
theorem neededLength_of_mem_liveCodes :
    neededLength architecture bytes = rule.encodedLength code.length := by
  obtain ⟨hlength, hshape⟩ := encodedLength_of_mem_liveCodes architecture _ mem
  obtain ⟨rest, rfl⟩ := starts
  rw [hlength]
  rcases hshape with ⟨hsingle, hunprefixed⟩ | ⟨rfl, hpair⟩
  · have hcode : code = [firstByte code] := hsingle
    rw [hcode]
    by_cases hz80 : architecture = .z80
    · have hnone : Prefix.ofByte? (firstByte code) = none := hunprefixed hz80
      simp only [List.cons_append, List.nil_append, neededLength, if_pos hz80, hnone]
    · simp only [List.cons_append, List.nil_append, neededLength, if_neg hz80]
  · obtain ⟨lead, opcode, hcode⟩ := List.length_eq_two.mp hpair
    have hcode : code = [lead, opcode] := hcode
    rw [hcode]
    rfl

end Needs

/-- A prefix that decodes nothing stands alone. -/
theorem neededLength_leadByte {architecture : Architecture} {lead : Prefix}
    (h : architecture ≠ .z80 ∨ lead = .dd ∨ lead = .fd) (rest : List UInt8) :
    neededLength architecture (lead.byte :: rest) = 1 := by
  by_cases hz80 : architecture = .z80
  · subst hz80
    rcases h with hne | rfl | rfl
    · exact absurd rfl hne
    · rfl
    · rfl
  · have hforeign : lead.byte ∉ overriddenOpcodes := by cases lead <;> decide
    rw [neededLength, if_neg hz80, if_neg hforeign]
    cases lead <;> decide

theorem neededLength_addition {architecture : Architecture} (hintel : architecture ≠ .z80)
    {first : UInt8} (h : first ∈ overriddenOpcodes) (rest : List UInt8) :
    neededLength architecture (first :: rest) = 1 := by
  rw [neededLength, if_neg hintel, if_pos h]

/-! ## Data -/

theorem finish_data (taken : List UInt8) (comment : String) (offset origin : Address)
    (architecture : Architecture) (labels : LabelMap) (image : Span) :
    (((Instruction.data taken comment).place offset origin architecture).finish architecture labels
      image).instruction = .data taken comment := by
  cases architecture <;> rfl

/-! ## The one remark -/

/-- The remark that is made about an entry, if there is any. -/
structure Settled (architecture : Architecture) (remaining : List UInt8) (entry : Entry)
    (outcome : Option Remark) : Prop where
  comment : entry.instruction.comment = outcome.map (Remark.text architecture)
  applies_iff : ∀ remark : Remark, remark.Applies architecture remaining entry ↔
    outcome = some remark
  /-- A quoted instruction has no comment of its own. -/
  quoted : ∀ text, outcome = some (.z80Text text) → ';' ∉ text.toList

theorem Settled.commented {architecture : Architecture} {remaining : List UInt8} {entry : Entry}
    {outcome : Option Remark} (h : Settled architecture remaining entry outcome) :
    Commented architecture remaining entry := by
  constructor
  case some_iff =>
    intro remark
    rw [h.comment, h.applies_iff, ← Option.map_some]
    exact (Option.map_injective (Remark.text_injective architecture)).eq_iff
  case none_iff =>
    simp only [h.comment, h.applies_iff, Option.map_eq_none_iff]
    exact Option.eq_none_iff_forall_ne_some
  case single =>
    intro comment hcomment
    rw [h.comment] at hcomment
    obtain ⟨remark, hremark, rfl⟩ := Option.map_eq_some_iff.mp hcomment
    refine remark.semicolon_notMem_text fun text htext => h.quoted text ?_
    rw [hremark, htext]

section Data

variable {architecture : Architecture} {remaining : List UInt8} {entry : Entry} {first : UInt8}

theorem applies_dataByte_iff {comment : String}
    (hentry : entry.instruction = .dataByte first comment) (remark : Remark) :
    remark.Applies architecture remaining entry ↔
      match remark with
      | .incomplete => remaining.length < neededLength architecture remaining
      | .ix => architecture = .z80 ∧ first = 0xDD
      | .iy => architecture = .z80 ∧ first = 0xFD
      | .unknown => architecture ≠ .z80 ∧ first ∈ foreignPrefixes
      | .i8085Only => architecture = .i8080 ∧ first ∈ overriddenOpcodes
      | .unrecognized _ | .z80Only | .z80Text _ => False := by
  cases remark <;>
    simp [Remark.Applies, hentry, Instruction.dataByte, Instruction.data, firstByte]

theorem settled_incomplete (hentry : entry.instruction = .dataByte first incompleteComment)
    (hidle : first ∉ architecture.idleBytes)
    (haddition : architecture = .i8080 → first ∉ overriddenOpcodes)
    (hshort : remaining.length < neededLength architecture remaining) :
    Settled architecture remaining entry (some .incomplete) := by
  refine ⟨by rw [hentry]; rfl, fun remark => ?_, nofun⟩
  rw [applies_dataByte_iff hentry]
  cases architecture <;> cases remark <;> simp_all [Architecture.idleBytes]

theorem settled_indexed (hz80 : architecture = .z80) {lead : Prefix} {register : String}
    (named : (lead, register) ∈ [(Prefix.dd, "IX"), (Prefix.fd, "IY")])
    (hentry : entry.instruction =
      .dataByte lead.byte (register ++ " extended instruction, not decoded"))
    (hlong : neededLength architecture remaining ≤ remaining.length) :
    ∃ remark, Settled architecture remaining entry (some remark) := by
  simp only [List.mem_cons, Prod.mk.injEq, List.not_mem_nil, or_false] at named
  rcases named with ⟨rfl, rfl⟩ | ⟨rfl, rfl⟩
  · refine ⟨.ix, by rw [hentry]; rfl, fun remark => ?_, nofun⟩
    rw [applies_dataByte_iff hentry]
    cases remark <;> simp_all [Prefix.byte]
  · refine ⟨.iy, by rw [hentry]; rfl, fun remark => ?_, nofun⟩
    rw [applies_dataByte_iff hentry]
    cases remark <;> simp_all [Prefix.byte]

theorem settled_unknown (hintel : architecture ≠ .z80) {lead : Prefix}
    (hentry : entry.instruction =
      .dataByte lead.byte ("Unknown opcode, not supported on " ++ architecture.name))
    (hlong : neededLength architecture remaining ≤ remaining.length) :
    Settled architecture remaining entry (some .unknown) := by
  have hforeign : lead.byte ∈ foreignPrefixes := by cases lead <;> decide
  have haddition : lead.byte ∉ overriddenOpcodes := by cases lead <;> decide
  refine ⟨by rw [hentry]; rfl, fun remark => ?_, nofun⟩
  rw [applies_dataByte_iff hentry]
  cases remark <;> simp [hintel, hlong, hforeign, haddition]

theorem settled_unrecognized (hz80 : architecture = .z80) {lead : Prefix} {opcode : UInt8}
    (hswitches : lead = .cb ∨ lead = .ed)
    (hentry : entry.instruction = lead.unrecognized opcode) :
    Settled architecture remaining entry (some (.unrecognized lead.byte)) := by
  have hdd : lead.byte ≠ 0xDD := by rcases hswitches with rfl | rfl <;> decide
  have hfd : lead.byte ≠ 0xFD := by rcases hswitches with rfl | rfl <;> decide
  refine ⟨by rw [hentry]; rfl, fun remark => ?_, nofun⟩
  cases remark <;>
    simp [Remark.Applies, hentry, Prefix.unrecognized, Instruction.data, firstByte, hz80, hdd, hfd]

end Data

/-! ## Instructions -/

theorem applies_coded_iff {architecture : Architecture} {remaining : List UInt8} {entry : Entry}
    (hmnemonic : entry.instruction.mnemonic ≠ "DB")
    (hidle : firstByte entry.instruction.bytes ∉ architecture.idleBytes) (remark : Remark) :
    remark.Applies architecture remaining entry ↔
      match remark with
      | .z80Only =>
        architecture ≠ .z80 ∧ firstByte entry.instruction.bytes ∈ z80OnlyOpcodes
      | .i8085Only =>
        architecture = .i8080 ∧ firstByte entry.instruction.bytes ∈ overriddenOpcodes
      | .z80Text text => entry.instruction.z80Mnemonic.isSome ∧ text = entry.z80Text
      | .incomplete | .ix | .iy | .unrecognized _ | .unknown => False := by
  cases architecture <;> cases remark <;>
    simp_all [Remark.Applies, Architecture.idleBytes]

/-- What is not legal is warned of, and nothing else is said so far. -/
theorem comment_place_instruction (architecture : Architecture) (origin : Address)
    (opcodeLength offset : Nat) (bytes : List UInt8) (rule : Rule) :
    ((rule.instruction opcodeLength offset bytes).place offset.toUInt16 origin
      architecture).instruction.comment = (rule.support.warning? architecture).map Warning.text := by
  rcases hwarning : rule.support.warning? architecture with _ | warning
  · exact place_comment hwarning _ _
  · exact place_comment_of_warning rfl hwarning _ _

theorem text_congr {left right : Instruction} (hmnemonic : left.mnemonic = right.mnemonic)
    (hoperands : left.operands = right.operands) (htarget : left.target = right.target)
    (hlabel : left.targetLabel = right.targetLabel) : left.text = right.text := by
  have hrender : left.renderOperand = right.renderOperand := by
    funext operand
    cases operand <;> simp only [Instruction.renderOperand, htarget, hlabel]
  rw [Instruction.text, Instruction.text, Instruction.operandText, Instruction.operandText,
    hmnemonic, hoperands, hrender]

theorem Instruction.Wordy.semicolon_notMem_text {instruction : Instruction}
    (h : instruction.Wordy) : ';' ∉ instruction.text.toList := by
  rw [text_eq_intercalate]
  exact notMem_intercalate (by decide) fun word hword => h.words word hword ';' (by decide)

section Coded

variable {architecture : Architecture} {offset : Nat} {code bytes : List UInt8} {rule : Rule}
  {origin : Address} {labels : LabelMap} {image : Span}

/-- A form that a rule realizes is read as the instruction that the rule reads. -/
theorem Rule.Realizes.reading_eq {form : Form} (h : rule.Realizes .z80 form)
    (hregular : rule.Regular) (rest : List UInt8) (address : Address) :
    (form.reading code address (rest.take form.length)).mnemonic = rule.mnemonic ∧
      (form.reading code address (rest.take form.length)).operands =
        Slot.operands rule.slots rest := by
  have hreading := h.reading_finish hregular code rest 0 0 ∅ ⟨0, 0⟩
  have hspelling := finish_spelling .z80 ∅ ⟨0, 0⟩
    ((rule.instruction code.length 0 (code ++ rest)).place (Nat.toUInt16 0) 0 .z80)
  have hsame : Architecture.z80.spelling
      ((rule.instruction code.length 0 (code ++ rest)).place (Nat.toUInt16 0) 0 .z80).instruction =
        ⟨rule.mnemonic, Slot.operands rule.slots rest⟩ := by
    refine (place_spelling _ _ _ _).trans ?_
    show (⟨_, Slot.operands _ ((code ++ rest).drop code.length)⟩ : Spelling) = _
    rw [List.drop_left]
    rfl
  rw [hsame] at hspelling
  constructor
  · exact (congrArg Reading.mnemonic hreading).symm.trans (congrArg Spelling.mnemonic hspelling)
  · exact (congrArg Reading.operands hreading).symm.trans (congrArg Spelling.operands hspelling)

/-- On the Z80 nothing is said about an instruction. -/
theorem settled_coded_z80 (remaining : List UInt8) (mem : (code, rule) ∈ Architecture.z80.liveCodes)
    (starts : code <+: bytes) :
    Settled .z80 remaining (((rule.instruction code.length offset bytes).place offset.toUInt16 origin
      .z80).finish .z80 labels image) none := by
  have hcodes := mem_codes_of_mem_liveCodes mem
  have hknown := known_instruction hcodes code.length offset bytes
  have hfresh : (((rule.instruction code.length offset bytes).place offset.toUInt16 origin
      .z80).finish .z80 labels image).instruction.z80Mnemonic = none := by
    have hprimary : Architecture.z80.isPrimary = true := rfl
    rw [Entry.finish, if_pos hprimary, attach_eq, place_frame]
    rfl
  have hidle : firstByte (((rule.instruction code.length offset bytes).place offset.toUInt16 origin
      .z80).finish .z80 labels image).instruction.bytes ∉ Architecture.z80.idleBytes := by
    rw [finish_bytes, place_bytes, firstByte_instruction hcodes offset starts]
    exact firstByte_of_mem_liveCodes .z80 _ mem
  refine ⟨hknown.comment_finish _ _ _ _, fun remark => ?_, by simp⟩
  rw [applies_coded_iff (mnemonic_finish_ne hcodes _ _ _ _ _ _) hidle]
  cases remark <;> simp [hfresh]

section Intel

variable (hintel : architecture ≠ .z80) (mem : (code, rule) ∈ architecture.liveCodes)
  (starts : code <+: bytes) (long : rule.encodedLength code.length ≤ bytes.length)

include hintel mem starts long

/-- The Z80 text of an instruction that is legal everywhere is the text in front of any spelling. -/
theorem z80Text_eq (hall : rule.support = .all) {entry : Entry} {instruction : Instruction}
    (hbytes : entry.instruction.bytes = (rule.instruction code.length offset bytes).bytes)
    (hmnemonic : instruction.mnemonic = rule.mnemonic)
    (hoperands : instruction.operands = Slot.operands rule.slots (bytes.drop code.length))
    (htarget : entry.instruction.target = instruction.target)
    (hlabel : entry.instruction.targetLabel = instruction.targetLabel) :
    entry.z80Text = instruction.text := by
  have hregular := regular_of_mem_codes (mem_codes_of_mem_liveCodes mem)
  obtain ⟨form, hform, hrealizes⟩ := (support_of_mem_liveCodes hintel _ mem).2 hall
  have hidle := firstByte_of_mem_liveCodes architecture _ mem
  obtain ⟨-, ⟨hsingle, -⟩ | ⟨hz80, -⟩⟩ := encodedLength_of_mem_liveCodes architecture _ mem
  case inr => exact absurd hz80 hintel
  have hcode : code = [firstByte code] := hsingle
  generalize firstByte code = first at hcode hform hidle
  subst hcode
  obtain ⟨rest, rfl⟩ := starts
  have hunprefixed : Prefix.ofByte? first = none := by
    rw [ofByte?_eq_none_iff]
    cases architecture with
    | z80 => exact absurd rfl hintel
    | i8080 => exact hidle
    | i8085 => exact hidle
  -- Both sides read the bytes of the entry, which are no more than the form needs.
  have hrest : form.length ≤ rest.length := by
    rw [Rule.encodedLength, hrealizes.length, List.length_append] at long
    omega
  have htaken : entry.instruction.bytes = first :: rest.take form.length := by
    rw [hbytes]
    show ([first] ++ rest).take ([first].length + Slot.totalLength rule.slots) = _
    rw [hrealizes.length, List.take_length_add_append]
    rfl
  have hreading : Z80Scheme.decodeFirst entry.address first (rest.take form.length) =
      form.reading [first] entry.address (rest.take form.length) := by
    rw [Z80Scheme.decodeFirst_of_ofByte?_eq_none hunprefixed, hform]
    show Z80Scheme.complete _ _ _ _ = _
    rw [Z80Scheme.complete, List.length_take, if_pos (by omega), List.take_take, Nat.min_self]
  obtain ⟨hname, hread⟩ := @Rule.Realizes.reading_eq [first] rule form hrealizes hregular rest
    entry.address
  simp only [Entry.z80Text, htaken, hreading]
  refine text_congr ?_ ?_ htarget hlabel
  · exact hname.trans hmnemonic.symm
  · exact hread.trans hoperands.symm

omit starts long in
theorem settled_kept (remaining : List UInt8) {entry : Entry}
    (hmnemonic : entry.instruction.mnemonic ≠ "DB")
    (hfirst : firstByte entry.instruction.bytes = firstByte code)
    (hcomment : entry.instruction.comment = (rule.support.warning? architecture).map Warning.text)
    (hfresh : entry.instruction.z80Mnemonic = none) :
    ∃ outcome, Settled architecture remaining entry outcome := by
  have hidle : firstByte entry.instruction.bytes ∉ architecture.idleBytes := by
    rw [hfirst]
    exact firstByte_of_mem_liveCodes architecture _ mem
  have hdisjoint : z80OnlyOpcodes.all (fun opcode => opcode ∉ overriddenOpcodes) = true := by decide
  have hsupport := (support_of_mem_liveCodes hintel _ mem).1
  rw [← hfirst] at hsupport
  rw [hsupport] at hcomment
  by_cases hz80 : firstByte entry.instruction.bytes ∈ z80OnlyOpcodes
  · have hother := of_decide_eq_true (List.all_eq_true.mp hdisjoint _ hz80)
    refine ⟨some .z80Only, ?_, fun remark => ?_, nofun⟩
    · rw [hcomment, if_pos hz80]
      cases architecture with
      | z80 => exact absurd rfl hintel
      | i8080 => rfl
      | i8085 => rfl
    · rw [applies_coded_iff hmnemonic hidle]
      cases remark <;> simp [hintel, hz80, hother, hfresh]
  by_cases haddition : firstByte entry.instruction.bytes ∈ overriddenOpcodes
  · rw [if_neg hz80, if_pos haddition] at hcomment
    cases architecture with
    | z80 => exact absurd rfl hintel
    | i8080 =>
      refine ⟨some .i8085Only, hcomment, fun remark => ?_, nofun⟩
      rw [applies_coded_iff hmnemonic hidle]
      cases remark <;> simp [hz80, haddition, hfresh]
    | i8085 =>
      refine ⟨none, hcomment, fun remark => ?_, nofun⟩
      rw [applies_coded_iff hmnemonic hidle]
      cases remark <;> simp [hz80, hfresh]
  · rw [if_neg hz80, if_neg haddition, warning?_all] at hcomment
    refine ⟨none, hcomment, fun remark => ?_, nofun⟩
    rw [applies_coded_iff hmnemonic hidle]
    cases remark <;> simp [hz80, haddition, hfresh]

omit starts long in
theorem settled_respelled (remaining : List UInt8) {entry : Entry} (hall : rule.support = .all)
    (hmnemonic : entry.instruction.mnemonic ≠ "DB")
    (hfirst : firstByte entry.instruction.bytes = firstByte code)
    (hcomment : entry.instruction.comment = some ("Z80: " ++ entry.z80Text))
    (hnoted : entry.instruction.z80Mnemonic.isSome) (hquoted : ';' ∉ entry.z80Text.toList) :
    Settled architecture remaining entry (some (.z80Text entry.z80Text)) := by
  have hidle : firstByte entry.instruction.bytes ∉ architecture.idleBytes := by
    rw [hfirst]
    exact firstByte_of_mem_liveCodes architecture _ mem
  have hsupport := (support_of_mem_liveCodes hintel _ mem).1
  rw [← hfirst, hall] at hsupport
  have hz80 : firstByte entry.instruction.bytes ∉ z80OnlyOpcodes := by
    intro hmem
    rw [if_pos hmem] at hsupport
    cases hsupport
  have haddition : firstByte entry.instruction.bytes ∉ overriddenOpcodes := by
    intro hmem
    rw [if_neg hz80, if_pos hmem] at hsupport
    cases hsupport
  refine ⟨hcomment, fun remark => ?_, fun text htext => ?_⟩
  · rw [applies_coded_iff hmnemonic hidle]
    cases remark <;> simp [hz80, haddition, hnoted, eq_comm]
  · cases htext
    exact hquoted

omit starts long in
/-- Only what is legal everywhere is spelled anew. -/
theorem support_of_spelling? {spelling : Spelling}
    (h : Intel.spelling? ((rule.instruction code.length offset bytes).place offset.toUInt16 origin
      architecture).instruction = some spelling) : rule.support = .all := by
  have hcodes := mem_codes_of_mem_liveCodes mem
  rcases support_of_mem_codes hintel _ hcodes with hnone | hall
  · rw [(regular_of_mem_codes hcodes).spelling?_instruction, hnone] at h
    cases h
  · exact hall

/-- On the 8080 and the 8085 an instruction is warned of or quoted. -/
theorem settled_coded_intel (remaining : List UInt8)
    (hshown : (((rule.instruction code.length offset bytes).place offset.toUInt16 origin
      architecture).finish architecture labels image).instruction.Shown) :
    ∃ outcome, Settled architecture remaining (((rule.instruction code.length offset bytes).place
      offset.toUInt16 origin architecture).finish architecture labels image) outcome := by
  have hcodes := mem_codes_of_mem_liveCodes mem
  have hplain := (Decoded.coded hcodes starts long : Decoded architecture offset bytes _).plain
  have hmnemonic := mnemonic_finish_ne hcodes code.length offset bytes origin labels image
  have hwarned := comment_place_instruction architecture origin code.length offset bytes rule
  have hsupport := @support_of_spelling? architecture offset code bytes rule origin hintel mem
  have hframe := place_frame (rule.instruction code.length offset bytes) offset.toUInt16 origin
    architecture
  generalize hraw : (rule.instruction code.length offset bytes).place offset.toUInt16 origin
    architecture = raw at *
  have hbytes : (raw.finish architecture labels image).instruction.bytes =
      (rule.instruction code.length offset bytes).bytes := by
    rw [finish_bytes, ← hraw, place_bytes]
  have hfirst := (congrArg firstByte hbytes).trans (firstByte_instruction hcodes offset starts)
  have hfinish : (raw.finish architecture labels image).instruction =
      (raw.labelled labels image).toIntel := by
    rw [finish_eq_toIntel (decide_eq_false hintel)]
  rcases toIntel_cases (raw.labelled labels image) with ⟨hkept, -⟩ | ⟨spelling, hspelling, -, hnew⟩
  · rw [hkept] at hfinish
    refine settled_kept hintel mem remaining hmnemonic hfirst ?_ ?_
    · rw [hfinish]
      exact hwarned
    · rw [hfinish]
      show raw.instruction.z80Mnemonic = none
      rw [hframe]
      rfl
  · have hall : rule.support = .all := hsupport hspelling
    have hnone : (raw.labelled labels image).comment = none := by
      show raw.instruction.comment = none
      rw [hwarned, hall, warning?_all]
      rfl
    have hname : (raw.labelled labels image).mnemonic = rule.mnemonic :=
      congrArg Instruction.mnemonic hframe
    have hoperands : (raw.labelled labels image).operands =
        Slot.operands rule.slots (bytes.drop code.length) :=
      congrArg Instruction.operands hframe
    have htarget : (raw.finish architecture labels image).instruction.target =
        (raw.labelled labels image).target := by rw [hfinish, toIntel_target]
    have hlabel : (raw.finish architecture labels image).instruction.targetLabel =
        (raw.labelled labels image).targetLabel := by rw [hfinish, toIntel_targetLabel]
    have htext : (raw.finish architecture labels image).z80Text = (raw.labelled labels image).text :=
      z80Text_eq hintel mem starts long hall hbytes hname hoperands htarget hlabel
    refine ⟨_, settled_respelled hintel mem remaining hall hmnemonic hfirst ?_ ?_ ?_⟩
    · rw [htext, hfinish, hnew]
      simp only [Instruction.addComment, hnone]
    · rw [hfinish, hnew]
      rfl
    · -- The comment quotes the text from before, which shows the same target.
      rw [htext]
      refine (wordy_of_plain (shown_congr hshown hlabel.symm htarget.symm) ?_ ?_).semicolon_notMem_text
      · rw [hname]
        exact hplain.1
      · rw [hoperands]
        exact hplain.2

end Intel

end Coded

/-! ## Entries -/

/-- There is at most one remark about every entry, and it is the comment. -/
theorem Explained.commented {architecture : Architecture} {offset : Nat} {bytes : List UInt8}
    {decoded : Instruction} (h : Explained architecture offset bytes decoded) (origin : Address)
    (labels : LabelMap) (image : Span)
    (hshown : ((decoded.place offset.toUInt16 origin architecture).finish architecture labels
      image).instruction.Shown) :
    Commented architecture bytes ((decoded.place offset.toUInt16 origin architecture).finish
      architecture labels image) := by
  cases h with
  | coded mem starts long =>
    by_cases hz80 : architecture = .z80
    · subst hz80
      exact (settled_coded_z80 bytes mem starts).commented
    · obtain ⟨outcome, hsettled⟩ := settled_coded_intel hz80 mem starts long bytes hshown
      exact hsettled.commented
  | @incomplete first more rule mem starts short =>
    have hneeded := neededLength_of_mem_liveCodes mem starts
    rw [← hneeded] at short
    refine (settled_incomplete (finish_data [first] _ _ _ _ _ _)
      (firstByte_of_mem_liveCodes architecture _ mem) ?_ short).commented
    rintro rfl haddition
    have hother : Architecture.i8080 ≠ .z80 := by decide
    obtain ⟨rest, rfl⟩ := starts
    rw [List.cons_append, neededLength_addition hother haddition, List.length_cons] at short
    omega
  | @cut lead z80 switches alone =>
    subst z80 alone
    have hidle : lead.byte ∉ Architecture.z80.idleBytes := by
      rcases switches with rfl | rfl <;> decide
    have hshort : [lead.byte].length < neededLength .z80 [lead.byte] := by
      rcases switches with rfl | rfl <;> decide
    exact (settled_incomplete (finish_data [lead.byte] _ _ _ _ _ _) hidle nofun hshort).commented
  | @indexed lead register z80 named starts =>
    have hlead : lead = .dd ∨ lead = .fd := by
      simp only [List.mem_cons, Prod.mk.injEq, List.not_mem_nil, or_false] at named
      exact named.imp And.left And.left
    have hlong : neededLength architecture bytes ≤ bytes.length := by
      obtain ⟨rest, rfl⟩ := starts
      rw [List.singleton_append, neededLength_leadByte (.inr hlead), List.length_cons]
      omega
    obtain ⟨remark, hsettled⟩ := settled_indexed z80 named (finish_data [lead.byte] _ _ _ _ _ _) hlong
    exact hsettled.commented
  | @unrecognized lead opcode z80 switches starts undocumented =>
    exact (settled_unrecognized z80 switches (finish_data [lead.byte, opcode] _ _ _ _ _ _)).commented
  | @unknown lead intel starts =>
    have hlong : neededLength architecture bytes ≤ bytes.length := by
      obtain ⟨rest, rfl⟩ := starts
      rw [List.singleton_append, neededLength_leadByte (.inl intel), List.length_cons]
      omega
    exact (settled_unknown intel (finish_data [lead.byte] _ _ _ _ _ _) hlong).commented

/-- Every comment in the result for an accepted image is a single remark, and it is told from the entry
and the bytes that remain which one it is. -/
theorem disassemble_commented {image : List UInt8} {origin : Address} {architecture : Architecture}
    {disassembly : Disassembly} (h : disassemble image origin architecture = .ok disassembly) :
    ∀ entry ∈ disassembly.entries,
      Commented architecture (image.drop (entry.address.toNat - origin.toNat)) entry := by
  intro entry hmem
  obtain ⟨fits, rfl⟩ := eq_finished_of_disassemble h
  have hshown := shown_of_mem fits hmem
  obtain ⟨offset, decoded, hexplained, hentry⟩ := exists_explained_of_mem fits hmem
  generalize image.drop (entry.address.toNat - origin.toNat) = remaining at hexplained ⊢
  subst hentry
  exact hexplained.commented origin _ _ hshown

/-- A jump and a load of the 8080, what the Z80 and the 8085 add, a prefix, and a call that is cut
short. -/
theorem disassemble_commented_mixed :
    ∃ disassembly, disassemble [0xC3, 0x05, 0x01, 0x78, 0x08, 0x20, 0xCB, 0xCD, 0x00] 0x0100 .i8080 =
        .ok disassembly ∧
      disassembly.entries.toList.map (·.instruction.comment) =
        [some "Z80: JP J_0105", some "Z80: LD A, B", some "WARNING: Z80 ONLY",
          some "WARNING: 8085 ONLY", some "Unknown opcode, not supported on 8080",
          some "Incomplete instruction at end of image", none] ∧
      ∀ entry ∈ disassembly.entries,
        Commented .i8080
          ([0xC3, 0x05, 0x01, 0x78, 0x08, 0x20, 0xCB, 0xCD, 0x00].drop
            (entry.address.toNat - UInt16.toNat 0x0100)) entry := by
  have h : disassemble [0xC3, 0x05, 0x01, 0x78, 0x08, 0x20, 0xCB, 0xCD, 0x00] 0x0100 .i8080 = .ok _ :=
    disassemble_eq_ok .i8080 (by decide)
  exact ⟨_, h, by decide +kernel, disassemble_commented h⟩

end Disasm
