import Mathlib.Data.List.Basic
import Disasm.Settings
import Disasm.Proofs.IntelHex
import Disasm.Proofs.JsonText
import Disasm.Proofs.TargetText

/-!
# No target is left open

An operand that stands for a target which is not there is written with question marks. No output has one
(`certain_render`): the words of the tables have none, every operand for a target has a target to show,
and nothing else that is written is taken from anywhere but these and from numbers.
-/

namespace Disasm

/-! ## Text without question marks -/

/-- Text in which nothing is left open. -/
def Certain (text : String) : Prop :=
  '?' ∉ text.toList

instance (text : String) : Decidable (Certain text) :=
  inferInstanceAs (Decidable (_ ∉ _))

theorem certain_of_bytes {text : String} (h : 0x3F ∉ text.toByteArray.data.toList) :
    Certain text := by
  intro hmem
  exact h (mem_bytes_of_mem hmem (by decide))

theorem Certain.append {left right : String} (hleft : Certain left) (hright : Certain right) :
    Certain (left ++ right) :=
  notMem_append hleft hright

theorem certain_join {texts : List String} (h : ∀ text ∈ texts, Certain text) :
    Certain (String.join texts) := by
  unfold Certain
  rw [String.toList_join, List.mem_flatMap]
  rintro ⟨text, htext, hmem⟩
  exact h text htext hmem

theorem certain_intercalate {divider : String} {texts : List String} (hdivider : Certain divider)
    (h : ∀ text ∈ texts, Certain text) : Certain (String.intercalate divider texts) := by
  unfold Certain
  rw [String.toList_intercalate]
  refine notMem_intercalate hdivider fun word hword => ?_
  obtain ⟨text, htext, rfl⟩ := List.mem_map.mp hword
  exact h text htext

theorem certain_blanks (count : Nat) : Certain (String.ofList (List.replicate count ' ')) := by
  unfold Certain
  rw [String.toList_ofList]
  intro hmem
  exact absurd (List.eq_of_mem_replicate hmem) (by decide)

theorem certain_repr (value : Nat) : Certain value.repr := by
  unfold Certain
  rw [Nat.toList_repr]
  intro hmem
  exact absurd (Json.isDigit_of_mem_toDigits _ hmem) (by decide)

theorem notMem_question_field (width value : Nat) : '?' ∉ Hex.field width value := by
  intro hmem
  obtain ⟨number, hlt, hdigit⟩ := Hex.exists_digit_of_mem_field hmem
  have hdigits : ∀ number < 16, '?' ≠ Hex.digit number := by decide
  exact hdigits number hlt hdigit

theorem certain_byte (value : UInt8) : Certain (Hex.byte value) := by
  unfold Certain
  rw [Hex.byte, String.toList_ofList]
  exact notMem_question_field 2 value.toNat

theorem certain_word (value : UInt16) : Certain (Hex.word value) := by
  unfold Certain
  rw [Hex.word, String.toList_ofList]
  exact notMem_question_field 4 value.toNat

theorem certain_name (kind : TargetKind) (address : Address) :
    Certain (kind.tag ++ Hex.word address) := by
  refine Certain.append ?_ (certain_word address)
  cases kind <;> decide

/-! ## Instructions -/

/-- The fixed text in an operand. -/
def Operand.fixedText : Operand → String
  | .text fixed => fixed
  | .imm8 _ | .imm16 _ | .port _ | .direct _ | .target | .vector => ""

/-- The words of a spelling that are no numbers. -/
def Spelling.fixedWords (spelling : Spelling) : List String :=
  spelling.mnemonic :: spelling.operands.map Operand.fixedText

theorem fixedWords_fill (spelling : Spelling) (byte : UInt8) (word : UInt16) :
    (spelling.fill byte word).fixedWords = spelling.fixedWords := by
  have hfill : Operand.fixedText ∘ Operand.fill byte word = Operand.fixedText := by
    funext operand
    cases operand <;> rfl
  rw [Spelling.fixedWords, Spelling.fill, List.map_map, hfill]
  rfl

/-- Neither the words of the tables nor those of another spelling have a question mark. -/
theorem certain_of_mem_codes (architecture : Architecture) :
    ∀ entry ∈ architecture.codes,
      ∀ word ∈ (entry.2.pattern .z80).fixedWords ++ (entry.2.pattern architecture).fixedWords,
        Certain word := by
  have hbytes : ∀ entry ∈ architecture.codes,
      ∀ word ∈ (entry.2.pattern .z80).fixedWords ++ (entry.2.pattern architecture).fixedWords,
        0x3F ∉ word.toByteArray.data.toList := by
    cases architecture <;> decide +kernel
  exact fun entry hentry word hword => certain_of_bytes (hbytes entry hentry word hword)

/-- An instruction whose text leaves nothing open. -/
structure Instruction.Resolved (instruction : Instruction) : Prop where
  words : ∀ word ∈ instruction.spelling.fixedWords, Certain word
  label : instruction.Shown
  /-- There is a target to show wherever one is asked for. -/
  target : instruction.target = none → ∀ operand ∈ instruction.operands, operand.isTarget = false

namespace Instruction.Resolved

variable {instruction : Instruction} (h : instruction.Resolved)

include h

theorem mnemonic : Certain instruction.mnemonic :=
  h.words _ List.mem_cons_self

theorem targetLabel_getD {number : String} (hnumber : Certain number) :
    Certain (instruction.targetLabel.getD number) := by
  rcases hlabel : instruction.targetLabel with _ | name
  · exact hnumber
  · obtain ⟨kind, address, -, rfl⟩ := h.label name hlabel
    exact certain_name kind address

theorem renderOperand {operand : Operand} (hmem : operand ∈ instruction.operands) :
    Certain (instruction.renderOperand operand) := by
  have hdollar : Certain "$" := by decide
  have hopen : Certain "($" := by decide
  have hclose : Certain ")" := by decide
  have htarget : operand.isTarget → (∃ address, instruction.target = some address) := by
    intro hoperand
    apply Option.ne_none_iff_exists'.mp
    intro hnone
    rw [h.target hnone operand hmem] at hoperand
    cases hoperand
  cases operand with
  | text fixed => exact h.words fixed (List.mem_cons_of_mem _ (List.mem_map.mpr ⟨_, hmem, rfl⟩))
  | imm8 value => exact hdollar.append (certain_byte value)
  | imm16 value => exact hdollar.append (certain_word value)
  | port value => exact (hopen.append (certain_byte value)).append hclose
  | direct address => exact (hopen.append (certain_word address)).append hclose
  | target =>
    obtain ⟨target, hsome⟩ := htarget rfl
    rw [renderOperand_target hsome]
    exact h.targetLabel_getD (hdollar.append (certain_word _))
  | vector =>
    obtain ⟨target, hsome⟩ := htarget rfl
    rw [renderOperand_vector hsome]
    exact h.targetLabel_getD (hdollar.append (certain_byte _))

theorem operandText : Certain instruction.operandText := by
  refine certain_intercalate (by decide) fun text htext => ?_
  obtain ⟨operand, hmem, rfl⟩ := List.mem_map.mp htext
  exact h.renderOperand hmem

theorem text : Certain instruction.text := by
  unfold Instruction.text
  split
  · exact h.mnemonic
  · exact (h.mnemonic.append (by decide)).append h.operandText

end Instruction.Resolved

/-- An operand for a target is read together with the target. -/
theorem Slot.isTarget_of_lastTarget? {offset : Address} {slots : List Slot} {bytes : List UInt8}
    (h : lastTarget? offset slots bytes = none) :
    ∀ operand ∈ operands slots bytes, operand.isTarget = false := by
  induction slots generalizing bytes with
  | nil => simp [operands]
  | cons slot slots ih =>
    rw [lastTarget?, Option.or_eq_none_iff] at h
    intro operand hmem
    rcases List.mem_cons.mp hmem with rfl | hmem
    · cases slot with
      | absolute => cases h.2
      | relative => cases h.2
      | vector address => cases h.2
      | _ => rfl
    · exact ih h.1 operand hmem

/-! ## Comments -/

theorem certain_warning (warning : Warning) : Certain warning.text := by
  apply certain_of_bytes
  cases warning with
  | z80Only => decide +kernel
  | i8085Only => decide +kernel
  | unsupported architecture => cases architecture <;> decide +kernel

theorem certain_dataComments (architecture : Architecture) :
    ∀ comment ∈ architecture.dataComments, Certain comment := by
  have hbytes : ∀ comment ∈ architecture.dataComments,
      0x3F ∉ comment.toByteArray.data.toList := by
    cases architecture <;> decide +kernel
  exact fun comment hmem => certain_of_bytes (hbytes comment hmem)

/-- What an entry says leaves nothing open. -/
structure Instruction.Answered (instruction : Instruction) : Prop where
  resolved : instruction.Resolved
  comment : ∀ comment ∈ instruction.comment, Certain comment
  z80Mnemonic : ∀ mnemonic ∈ instruction.z80Mnemonic, Certain mnemonic

theorem certain_addComment {instruction : Instruction} {text : String}
    (h : ∀ comment ∈ instruction.comment, Certain comment) (htext : Certain text) :
    ∀ comment ∈ (instruction.addComment text).comment, Certain comment := by
  intro comment hcomment
  unfold Instruction.addComment at hcomment
  rcases hold : instruction.comment with _ | old
  · simp only [hold, Option.mem_some_iff] at hcomment
    exact hcomment ▸ htext
  · simp only [hold, Option.mem_some_iff] at hcomment
    subst hcomment
    exact ((h old hold).append (by decide)).append htext

section Entries

variable {architecture : Architecture} {offset : Nat} {bytes : List UInt8} {decoded : Instruction}
  {origin : Address}

theorem Decoded.certain_comment (h : Decoded architecture offset bytes decoded) :
    ∀ comment ∈ (decoded.place offset.toUInt16 origin architecture).instruction.comment,
      Certain comment := by
  have hdecoded : ∀ comment ∈ decoded.comment, Certain comment := by
    intro comment hcomment
    cases h with
    | coded mem starts long => cases hcomment
    | data mem starts nonempty short =>
      obtain rfl := Option.some.inj hcomment
      exact certain_dataComments architecture _ mem
  show ∀ comment ∈ (Instruction.warn _ _).comment, Certain comment
  unfold Instruction.warn
  split
  · exact certain_addComment hdecoded (certain_warning _)
  · exact hdecoded

/-! ## Entries -/

theorem certain_data (taken : List UInt8) :
    ∀ word ∈ (⟨"DB", taken.map .imm8⟩ : Spelling).fixedWords, Certain word := by
  intro word hword
  rcases List.mem_cons.mp hword with rfl | hword
  · show Certain "DB"
    decide
  · rw [List.map_map] at hword
    obtain ⟨byte, -, rfl⟩ := List.mem_map.mp hword
    show Certain ""
    decide

/-- The words of an instruction, before and after it is spelled anew. -/
theorem Decoded.certain_words (h : Decoded architecture offset bytes decoded) (origin : Address) :
    (∀ word ∈ decoded.spelling.fixedWords, Certain word) ∧
      ∀ word ∈ (architecture.spelling
        (decoded.place offset.toUInt16 origin architecture).instruction).fixedWords,
        Certain word := by
  cases h with
  | @coded code rule mem starts long =>
    have hregular := regular_of_mem_codes mem
    have hraw : (rule.instruction code.length offset bytes).spelling =
        (rule.pattern .z80).fill (firstByte (bytes.drop code.length))
          (firstWord (bytes.drop code.length)) :=
      congrArg (Spelling.mk rule.mnemonic) (hregular.single.operands_eq_fill _)
    have hwords := certain_of_mem_codes architecture _ mem
    rw [hraw, hregular.spelling_instruction, fixedWords_fill, fixedWords_fill]
    exact ⟨fun word hword => hwords word (List.mem_append_left _ hword),
      fun word hword => hwords word (List.mem_append_right _ hword)⟩
  | @data taken comment mem starts nonempty short =>
    rw [spelling_data]
    exact ⟨certain_data taken, certain_data taken⟩

/-- An instruction that is not spelled anew leaves nothing open. -/
theorem Decoded.resolved (h : Decoded architecture offset bytes decoded) {shown : Instruction}
    (hspelling : shown.spelling = decoded.spelling)
    (htarget : shown.target = decoded.target.map (.rebase origin)) (hshown : shown.Shown) :
    shown.Resolved := by
  refine ⟨?_, hshown, fun hnone => ?_⟩
  · rw [hspelling]
    exact (h.certain_words origin).1
  · have hoperands : shown.operands = decoded.operands := congrArg Spelling.operands hspelling
    have hdecoded : decoded.target = none := Option.map_eq_none_iff.mp (htarget.symm.trans hnone)
    rw [hoperands]
    cases h with
    | coded mem starts long => exact Slot.isTarget_of_lastTarget? hdecoded
    | data mem starts nonempty short =>
      intro operand hmem
      obtain ⟨byte, -, rfl⟩ := List.mem_map.mp hmem
      rfl

/-- What is said about an instruction in any syntax leaves nothing open. -/
theorem Instruction.Resolved.toIntel {instruction : Instruction} (h : instruction.Resolved)
    (hcomment : ∀ comment ∈ instruction.comment, Certain comment)
    (hfresh : instruction.z80Mnemonic = none) :
    (∀ comment ∈ instruction.toIntel.comment, Certain comment) ∧
      ∀ mnemonic ∈ instruction.toIntel.z80Mnemonic, Certain mnemonic := by
  rcases toIntel_cases instruction with ⟨hkept, -⟩ | ⟨spelling, -, -, hnew⟩
  · rw [hkept, hfresh]
    exact ⟨hcomment, nofun⟩
  · rw [hnew]
    refine ⟨certain_addComment hcomment (Certain.append (by decide) h.text), fun mnemonic hmem => ?_⟩
    obtain rfl := Option.some.inj hmem
    exact h.mnemonic

theorem answered_of_mem {image : List UInt8} (fits : origin.toNat + image.length ≤ addressSpace)
    {entry : Entry} (hmem : entry ∈ (finished image origin architecture).entries) :
    entry.instruction.Answered := by
  have hshown := shown_of_mem fits hmem
  have htarget : entry.instruction.target = none →
      ∀ operand ∈ entry.instruction.operands, operand.isTarget = false := by
    intro hnone
    rcases showsTarget_of_mem fits hmem with ⟨target, hsome, -⟩ | ⟨-, hoperands⟩
    · rw [hnone] at hsome
      cases hsome
    · exact hoperands
  obtain ⟨offset, bytes, decoded, hdecoded, rfl⟩ := exists_decoded_of_mem hmem
  generalize (finished image origin architecture).labels = labels at hshown htarget ⊢
  generalize (⟨origin, image.length⟩ : Span) = span at hshown htarget ⊢
  have hwords := (hdecoded.certain_words origin).2
  have hcomment := @Decoded.certain_comment architecture offset bytes decoded origin hdecoded
  have hframe := place_frame decoded offset.toUInt16 origin architecture
  generalize decoded.place offset.toUInt16 origin architecture = raw at *
  have hspelling := finish_spelling architecture labels span raw
  rw [← hspelling] at hwords
  have hfresh : (raw.labelled labels span).z80Mnemonic = none :=
    (congrArg Instruction.z80Mnemonic hframe).trans hdecoded.fresh.2
  have hlabelled : (raw.labelled labels span).Resolved := by
    have hsame : raw.instruction.spelling = decoded.spelling := by
      rw [hframe]
      rfl
    refine hdecoded.resolved hsame (congrArg Instruction.target hframe) (shown_congr hshown ?_ ?_)
    · rw [finish_targetLabel]
      rfl
    · rw [finish_target]
      rfl
  by_cases hprimary : architecture.isPrimary = true
  · have hfinish : (raw.finish architecture labels span).instruction = raw.labelled labels span := by
      rw [Entry.finish, if_pos hprimary, attach_eq]
      rfl
    refine ⟨⟨hwords, hshown, htarget⟩, ?_, ?_⟩
    · rw [hfinish]
      exact hcomment
    · simp [hfinish, hfresh]
  · have hfinish : (raw.finish architecture labels span).instruction =
        (raw.labelled labels span).toIntel := by
      rw [finish_eq_toIntel (Bool.eq_false_iff.mpr hprimary)]
    obtain ⟨hremark, hnoted⟩ := hlabelled.toIntel hcomment hfresh
    rw [← hfinish] at hremark hnoted
    exact ⟨⟨hwords, hshown, htarget⟩, hremark, hnoted⟩

end Entries

section Labels

variable {architecture : Architecture} {origin : Address} {image : List UInt8}

theorem certain_of_getElem? (fits : origin.toNat + image.length ≤ addressSpace) {address : Address}
    {label : Label} (h : (finished image origin architecture).labels[address]? = some label) :
    Certain label.name := by
  obtain ⟨kind, hname⟩ := name_of_getElem? fits h
  rw [hname]
  exact certain_name kind address

theorem certain_of_mem_toList (fits : origin.toNat + image.length ≤ addressSpace)
    {known : Address × Label} (h : known ∈ (finished image origin architecture).labels.toList) :
    Certain known.2.name :=
  certain_of_getElem? fits (Std.TreeMap.mem_toList_iff_getElem?_eq_some.mp h)

theorem certain_label_of_mem (fits : origin.toNat + image.length ≤ addressSpace) {entry : Entry}
    (hmem : entry ∈ (finished image origin architecture).entries) :
    ∀ label ∈ entry.label, Certain label.name := by
  intro label hlabel
  rw [label_finished hmem] at hlabel
  exact certain_of_getElem? fits hlabel

end Labels

/-! ## Listings -/

namespace Listing

theorem certain_sourcesText (label : Label) : Certain label.sourcesText := by
  refine certain_intercalate (by decide) fun text htext => ?_
  obtain ⟨source, -, rfl⟩ := List.mem_map.mp htext
  exact Certain.append (by decide) (certain_word source)

theorem certain_commentText {comment : Option String} (h : ∀ text ∈ comment, Certain text) :
    Certain (Line.commentText comment) := by
  cases comment with
  | none => exact (show Certain "" by decide)
  | some text => exact Certain.append (show Certain " ; " by decide) (h text rfl)

theorem certain_hexBytes (instruction : Instruction) : Certain instruction.hexBytes := by
  refine certain_intercalate (by decide) fun text htext => ?_
  obtain ⟨byte, -, rfl⟩ := List.mem_map.mp htext
  exact certain_byte byte

theorem certain_labelLines (options : Options) {label : Label} (h : Certain label.name) :
    ∀ line ∈ labelLines options label, Certain line.text := by
  have hname : Certain (Line.label label.name).text := h.append (show Certain ":" by decide)
  have hreferences : Certain (Line.references label).text :=
    Certain.append (show Certain "; referenced from " by decide) (certain_sourcesText label)
  intro line hline
  unfold labelLines at hline
  split at hline
  · rcases List.mem_cons.mp hline with rfl | hline
    · exact hreferences
    · rw [List.mem_singleton.mp hline]
      exact hname
  · rw [List.mem_singleton.mp hline]
    exact hname

theorem certain_instructionLine (options : Options) {entry : Entry}
    (h : entry.instruction.Answered) : Certain (instructionLine options entry).text := by
  have hcomment : Certain
      (Line.commentText (if options.comments then entry.instruction.comment else none)) := by
    apply certain_commentText
    split
    · exact h.comment
    · exact nofun
  have hblank : Certain "  " := by decide
  unfold instructionLine
  cases options.style with
  | listing =>
    exact (((((certain_word _).append hblank).append
      ((certain_hexBytes _).append (certain_blanks _))).append hblank).append
        h.resolved.text).append hcomment
  | source => exact ((show Certain "\t" by decide).append h.resolved.text).append hcomment

section Image

variable {architecture : Architecture} {origin : Address} {image : List UInt8}
  (fits : origin.toNat + image.length ≤ addressSpace)

include fits

theorem certain_headerLines (options : Options) :
    ∀ line ∈ headerLines options (finished image origin architecture), Certain line.text := by
  intro line hline
  unfold headerLines at hline
  cases hstyle : options.style with
  | listing =>
    rw [hstyle] at hline
    cases hline
  | source =>
    rw [hstyle] at hline
    rcases List.mem_append.mp hline with hline | hline
    · rcases List.mem_cons.mp hline with rfl | hline
      · exact Certain.append (show Certain "\tORG $" by decide) (certain_word _)
      · obtain ⟨known, hknown, rfl⟩ := List.mem_map.mp hline
        have hname := certain_of_mem_toList fits (List.mem_filter.mp hknown).1
        exact (hname.append (show Certain "\tEQU $" by decide)).append (certain_word _)
    · split at hline
      · cases hline
      · rw [List.mem_singleton.mp hline]
        exact (show Certain "" by decide)

theorem certain_listing (options : Options) :
    Certain (render options (finished image origin architecture)) := by
  refine certain_join fun text htext => ?_
  obtain ⟨line, hline, rfl⟩ := List.mem_map.mp htext
  refine Certain.append ?_ (by decide)
  rcases List.mem_append.mp hline with hline | hline
  · exact certain_headerLines fits options line hline
  · obtain ⟨entry, hentry, hline⟩ := List.mem_flatMap.mp hline
    have hmem := Array.mem_toList_iff.mp hentry
    rcases List.mem_append.mp hline with hline | hline
    · obtain ⟨label, hlabel, hline⟩ := List.mem_flatMap.mp hline
      have hname := certain_label_of_mem fits hmem label (Option.mem_toList.mp hlabel)
      exact certain_labelLines options hname line hline
    · rw [List.mem_singleton.mp hline]
      exact certain_instructionLine options (answered_of_mem fits hmem)

end Image

end Listing

/-! ## Reports -/

namespace Json

/-- A value whose texts leave nothing open. -/
inductive Value.Certain : Value → Prop where
  | bool (value : Bool) : Value.Certain (.bool value)
  | number (value : Nat) : Value.Certain (.number value)
  | string {value : String} (certain : Disasm.Certain value) : Value.Certain (.string value)
  | array {items : List Value} (certain : ∀ item ∈ items, item.Certain) :
    Value.Certain (.array items)
  | object {members : List (String × Value)} (keys : ∀ member ∈ members, Disasm.Certain member.1)
      (certain : ∀ member ∈ members, member.2.Certain) : Value.Certain (.object members)

theorem certain_escape {char : Char} (h : char ≠ '?') : Certain (escape char) := by
  have hlower : ∀ number < 16, '?' ≠ (Hex.digit number).toLower := by decide
  unfold escape
  split
  case h_8 =>
    split
    · refine Certain.append (by decide) ?_
      unfold Certain
      rw [String.toList_ofList]
      intro hmem
      obtain ⟨digit, hdigit, heq⟩ := List.mem_map.mp hmem
      obtain ⟨number, hlt, rfl⟩ := Hex.exists_digit_of_mem_field hdigit
      exact hlower number hlt heq.symm
    · simpa [Certain] using h.symm
  all_goals decide

theorem certain_quote {text : String} (h : Certain text) : Certain (quote text) := by
  have hquote : Certain "\"" := by decide
  refine (hquote.append (certain_join fun escaped hescaped => ?_)).append hquote
  obtain ⟨char, hchar, rfl⟩ := List.mem_map.mp hescaped
  apply certain_escape
  rintro rfl
  exact h hchar

theorem certain_newLine (level : Nat) : Certain (newLine level) :=
  Certain.append (by decide) (certain_blanks _)

section Write

variable {level : Nat} {before : String}

theorem certain_writeItems {items : List Value}
    (h : ∀ item ∈ items, ∀ before, Certain before → Certain (item.write level before))
    (hbefore : Certain before) : Certain (writeItems level items before) := by
  induction items generalizing before with
  | nil =>
    rw [writeItems]
    exact hbefore
  | cons item items ih =>
    rw [writeItems]
    refine ih (fun later hlater => h later (List.mem_cons_of_mem _ hlater)) ?_
    exact h item List.mem_cons_self _ ((hbefore.append (by decide)).append (certain_newLine level))

theorem certain_writeMember {member : String × Value} (hkey : Certain member.1)
    (h : ∀ before, Certain before → Certain (member.2.write level before))
    (hbefore : Certain before) : Certain (writeMember level member before) := by
  rw [writeMember]
  exact h _ ((hbefore.append (certain_quote hkey)).append (by decide))

theorem certain_writeMembers {members : List (String × Value)}
    (h : ∀ member ∈ members, ∀ before, Certain before → Certain (writeMember level member before))
    (hbefore : Certain before) : Certain (writeMembers level members before) := by
  induction members generalizing before with
  | nil =>
    rw [writeMembers]
    exact hbefore
  | cons member members ih =>
    rw [writeMembers]
    refine ih (fun later hlater => h later (List.mem_cons_of_mem _ hlater)) ?_
    exact h member List.mem_cons_self _ ((hbefore.append (by decide)).append (certain_newLine level))

end Write

/-- What is written for a value leaves nothing open. -/
theorem Value.Certain.write {value : Value} (h : value.Certain) :
    ∀ level before, Disasm.Certain before → Disasm.Certain (value.write level before) := by
  induction h with
  | bool value =>
    intro level before hbefore
    cases value <;> (rw [Value.write]; exact hbefore.append (by decide))
  | number value =>
    intro level before hbefore
    rw [Value.write]
    exact hbefore.append (certain_repr value)
  | string certain =>
    intro level before hbefore
    rw [Value.write]
    exact hbefore.append (certain_quote certain)
  | @array items certain ih =>
    intro level before hbefore
    rcases items with _ | ⟨first, rest⟩
    · rw [Value.write]
      exact hbefore.append (by decide)
    · have hstart := ih first List.mem_cons_self (level + 1) _
        ((hbefore.append (show Disasm.Certain "[" by decide)).append (certain_newLine (level + 1)))
      have hitems := certain_writeItems
        (fun item hitem => ih item (List.mem_cons_of_mem _ hitem) (level + 1)) hstart
      rw [Value.write]
      exact (hitems.append (certain_newLine level)).append (by decide)
  | @object members keys certain ih =>
    intro level before hbefore
    have hmember : ∀ member ∈ members, ∀ before, Disasm.Certain before →
        Disasm.Certain (writeMember (level + 1) member before) := fun member hmember before =>
      certain_writeMember (keys member hmember) (ih member hmember (level + 1))
    rcases members with _ | ⟨first, rest⟩
    · rw [Value.write]
      exact hbefore.append (by decide)
    · have hstart := hmember first List.mem_cons_self _
        ((hbefore.append (show Disasm.Certain "\x7b" by decide)).append (certain_newLine (level + 1)))
      have hmembers := certain_writeMembers
        (fun member hlater => hmember member (List.mem_cons_of_mem _ hlater)) hstart
      rw [Value.write]
      exact (hmembers.append (certain_newLine level)).append (by decide)

theorem Value.Certain.append {members others : List (String × Value)}
    (h : Value.Certain (.object members)) (hothers : Value.Certain (.object others)) :
    Value.Certain (.object (members ++ others)) := by
  cases h with
  | object keys certain =>
    cases hothers with
    | object otherKeys otherCertain =>
      constructor
      · exact List.forall_mem_append.mpr ⟨keys, otherKeys⟩
      · exact List.forall_mem_append.mpr ⟨certain, otherCertain⟩

theorem Value.Certain.cons {key : String} {value : Value} {members : List (String × Value)}
    (hkey : Disasm.Certain key) (hvalue : value.Certain) (h : Value.Certain (.object members)) :
    Value.Certain (.object ((key, value) :: members)) := by
  cases h with
  | object keys certain =>
    constructor
    · exact List.forall_mem_cons.mpr ⟨hkey, keys⟩
    · exact List.forall_mem_cons.mpr ⟨hvalue, certain⟩

theorem Value.Certain.nil : Value.Certain (.object []) :=
  .object nofun nofun

theorem certain_numbers {α : Type} (items : List α) (value : α → Nat) :
    Value.Certain (.array (items.map fun item => .number (value item))) := by
  refine .array fun item hitem => ?_
  obtain ⟨source, -, rfl⟩ := List.mem_map.mp hitem
  exact .number _

theorem certain_textMember {key : String} {text : Option String} (hkey : Certain key)
    (h : ∀ value ∈ text, Certain value) : Value.Certain (.object (textMember key text)) := by
  cases text with
  | none => exact .nil
  | some value => exact .cons hkey (.string (h value rfl)) .nil

theorem certain_labelMembers {label : Label} (h : Certain label.name) :
    Value.Certain (.object (labelMembers label)) := by
  refine .cons (by decide) (.string h) ?_
  split
  · exact .nil
  · exact .cons (by decide) (certain_numbers _ _) .nil

theorem certain_ofEntry {entry : Entry} (h : entry.instruction.Answered)
    (hlabel : ∀ label ∈ entry.label, Certain label.name) : (ofEntry entry).Certain := by
  have hfixed : Value.Certain (.object
      [("address", .number entry.address.toNat),
        ("bytes", .array (entry.instruction.bytes.map fun byte => .number byte.toNat)),
        ("mnemonic", .string entry.instruction.mnemonic),
        ("operands", .string entry.instruction.operandText)]) :=
    .cons (by decide) (.number _) <| .cons (by decide) (certain_numbers _ _) <|
      .cons (by decide) (.string h.resolved.mnemonic) <|
      .cons (by decide) (.string h.resolved.operandText) .nil
  have hlabels : Value.Certain (.object (entry.label.toList.flatMap labelMembers)) := by
    rcases hentry : entry.label with _ | label
    · exact .nil
    · rw [Option.toList_some, List.flatMap_singleton]
      exact certain_labelMembers (hlabel label hentry)
  exact ((hfixed.append (certain_textMember (by decide) h.z80Mnemonic)).append
    (certain_textMember (by decide) h.comment)).append hlabels

theorem certain_ofDisassembly {architecture : Architecture} {origin : Address} {image : List UInt8}
    (fits : origin.toNat + image.length ≤ addressSpace) :
    (ofDisassembly (finished image origin architecture)).Certain := by
  have hword : Certain (architectureWord architecture) := by cases architecture <;> decide
  refine .cons (by decide) (.string hword) <| .cons (by decide) (.number _) <|
    .cons (by decide) (.number _) <| .cons (by decide) (.array fun item hitem => ?_) <|
    .cons (by decide) (.array fun item hitem => ?_) .nil
  · obtain ⟨entry, hentry, rfl⟩ := List.mem_map.mp hitem
    have hmem := Array.mem_toList_iff.mp hentry
    exact certain_ofEntry (answered_of_mem fits hmem) (certain_label_of_mem fits hmem)
  · obtain ⟨known, hknown, rfl⟩ := List.mem_map.mp hitem
    exact .cons (by decide) (.number _) <|
      .cons (by decide) (.string (certain_of_mem_toList fits hknown)) <|
      .cons (by decide) (.bool _) .nil

end Json

/-! ## Intel HEX -/

theorem certain_encode {image : IntelHex.Image} {text : String}
    (h : IntelHex.encode image = .ok text) : Certain text := by
  unfold IntelHex.encode at h
  split at h
  case isTrue =>
    obtain rfl := Except.ok.inj h
    refine certain_join fun line hline => ?_
    obtain ⟨record, -, rfl⟩ := List.mem_map.mp hline
    refine Certain.append (Certain.append (by decide) (certain_join fun digits hdigits => ?_)) (by decide)
    obtain ⟨byte, -, rfl⟩ := List.mem_map.mp hdigits
    exact certain_byte byte
  case isFalse => cases h

theorem encode_of_renderIntelHex {settings : Settings} {image : List UInt8} {output : String}
    (h : settings.renderIntelHex image = .ok output) :
    IntelHex.encode ⟨settings.origin, image⟩ = .ok output := by
  unfold Settings.renderIntelHex at h
  split at h
  case h_1 => cases h
  case h_2 text hencode =>
    split at h
    case h_1 => cases h
    case h_2 =>
      split at h
      case isTrue => rw [hencode, Except.ok.inj h]
      case isFalse => cases h

/-! ## All formats -/

theorem certain_render {settings : Settings} {image : List UInt8} {output : String}
    (h : settings.render image = .ok output) : Certain output := by
  unfold Settings.render at h
  split at h
  case isTrue => exact certain_encode (encode_of_renderIntelHex h)
  case isFalse =>
    split at h
    case h_1 => cases h
    case h_2 disassembly hdisassembly =>
      obtain ⟨fits, rfl⟩ := eq_finished_of_disassemble hdisassembly
      obtain rfl := Except.ok.inj h
      unfold Settings.renderDisassembly
      split
      · exact (Json.certain_ofDisassembly fits).write 0 "" (by decide)
      · exact Listing.certain_listing fits settings.listing

/-- Every entry of an accepted image shows the target that it has, or has neither a target nor an operand
for one. So no output has the question marks that stand for a missing target. -/
theorem disassemble_shows_targets {image : List UInt8} {origin : Address}
    {architecture : Architecture} {disassembly : Disassembly}
    (h : disassemble image origin architecture = .ok disassembly) :
    (∀ entry ∈ disassembly.entries,
      (∃ target, entry.instruction.target = some (.absolute target) ∧
        ShowsTarget disassembly target entry.instruction) ∨
      (entry.instruction.target = none ∧ .target ∉ entry.instruction.operands ∧
        .vector ∉ entry.instruction.operands)) ∧
    ∀ (settings : Settings) (output : String), settings.render image = .ok output →
      '?' ∉ output.toList := by
  obtain ⟨fits, rfl⟩ := eq_finished_of_disassemble h
  refine ⟨fun entry hmem => ?_, fun settings output => certain_render⟩
  rcases showsTarget_of_mem fits hmem with hshows | ⟨hnone, hoperands⟩
  · exact .inl hshows
  · refine .inr ⟨hnone, fun htarget => ?_, fun hvector => ?_⟩
    · cases hoperands _ htarget
    · cases hoperands _ hvector

/-- A jump into the image, a call out of it, a restart and a jump that is cut short. -/
theorem disassemble_shows_targets_mixed :
    ∃ disassembly,
      disassemble [0xDA, 0x03, 0x80, 0xCD, 0x34, 0x12, 0xCF, 0x38] 0x8000 .i8080 = .ok disassembly ∧
      disassembly.entries.toList.map (·.instruction.text) =
        ["JC J_8003", "CALL $1234", "RST 1", "DB $38"] ∧
      (∀ entry ∈ disassembly.entries,
        (∃ target, entry.instruction.target = some (.absolute target) ∧
          ShowsTarget disassembly target entry.instruction) ∨
        (entry.instruction.target = none ∧ .target ∉ entry.instruction.operands ∧
          .vector ∉ entry.instruction.operands)) ∧
      ∀ (settings : Settings) (output : String),
        settings.render [0xDA, 0x03, 0x80, 0xCD, 0x34, 0x12, 0xCF, 0x38] = .ok output →
          '?' ∉ output.toList := by
  have h : disassemble [0xDA, 0x03, 0x80, 0xCD, 0x34, 0x12, 0xCF, 0x38] 0x8000 .i8080 = .ok _ :=
    disassemble_eq_ok .i8080 (by decide)
  exact ⟨_, h, by decide +kernel, disassemble_shows_targets h⟩

end Disasm
