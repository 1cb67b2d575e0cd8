import Mathlib.Data.List.TakeWhile
import Disasm.Listing.Line
import Disasm.Proofs.Text

/-!
# Words of a statement

A statement of a source is a mnemonic and its operands, with a comment behind them or not. None of
its words holds a space or starts a comment, so the words are found again at the spaces, and the line
determines the mnemonic and the texts of the operands (`statement_inj`).
-/

namespace Disasm

/-! ## Plain words -/

/-- Characters that divide words, statements and lines. -/
def dividers : List Char := ['\n', ' ', ';']

/-- The dividers, and the characters that mark numbers and labels. -/
def marks : List Char := dividers ++ ['$', '_']

/-- The bytes of the marks. -/
def markBytes : List UInt8 := [0x0A, 0x20, 0x3B, 0x24, 0x5F]

/-- Text without marks. This is said of the bytes because they are cheaper to check. -/
def Plain (text : String) : Prop :=
  ∀ byte ∈ text.toByteArray.data.toList, byte ∉ markBytes

instance (text : String) : Decidable (Plain text) :=
  List.decidableBAll _ _

theorem Plain.notMem {text : String} (h : Plain text) : ∀ mark ∈ marks, mark ∉ text.toList := by
  intro mark hmark hmem
  have hbytes : marks.map String.utf8EncodeChar = markBytes.map ([·]) := by decide
  have hencode : String.utf8EncodeChar mark ∈ markBytes.map ([·]) :=
    hbytes ▸ List.mem_map_of_mem hmark
  obtain ⟨byte, hbyte, heq⟩ := List.mem_map.mp hencode
  exact h byte (mem_bytes_of_mem hmem (heq ▸ List.mem_singleton.mpr rfl)) hbyte

/-- Text that is one word of a statement. -/
def Compact (text : String) : Prop :=
  ∀ divider ∈ dividers, divider ∉ text.toList

instance (text : String) : Decidable (Compact text) :=
  List.decidableBAll _ _

theorem Compact.append {left right : String} (hleft : Compact left) (hright : Compact right) :
    Compact (left ++ right) := by
  intro divider hdivider hmem
  rw [String.toList_append, List.mem_append] at hmem
  exact hmem.elim (hleft divider hdivider) (hright divider hdivider)

theorem Plain.compact {text : String} (h : Plain text) : Compact text := by
  intro divider hdivider
  exact h.notMem divider (List.mem_append_left _ hdivider)

namespace Hex

theorem notMem_field {mark : Char} (hmark : mark ∈ marks) (width value : Nat) :
    mark ∉ field width value := by
  intro hmem
  obtain ⟨number, hlt, rfl⟩ := exists_digit_of_mem_field hmem
  have hdigit : ∀ number < 16, digit number ∉ marks := by decide
  exact hdigit number hlt hmark

theorem notMem_byte {mark : Char} (hmark : mark ∈ marks) (value : UInt8) :
    mark ∉ (byte value).toList := by
  rw [byte, String.toList_ofList]
  exact notMem_field hmark 2 value.toNat

theorem notMem_word {mark : Char} (hmark : mark ∈ marks) (value : UInt16) :
    mark ∉ (word value).toList := by
  rw [word, String.toList_ofList]
  exact notMem_field hmark 4 value.toNat

theorem compact_byte (value : UInt8) : Compact (byte value) := by
  intro divider hdivider
  exact notMem_byte (List.mem_append_left _ hdivider) value

theorem compact_word (value : UInt16) : Compact (word value) := by
  intro divider hdivider
  exact notMem_word (List.mem_append_left _ hdivider) value

end Hex

/-- Text without a line feed. -/
def OneLine (text : String) : Prop :=
  '\n' ∉ text.toList

instance (text : String) : Decidable (OneLine text) :=
  inferInstanceAs (Decidable (_ ∉ _))

theorem oneLine_of_bytes {text : String} (h : 0x0A ∉ text.toByteArray.data.toList) :
    OneLine text := by
  intro hmem
  exact h (mem_bytes_of_mem hmem (by decide))

theorem OneLine.append {left right : String} (hleft : OneLine left) (hright : OneLine right) :
    OneLine (left ++ right) := by
  unfold OneLine
  rw [String.toList_append, List.mem_append]
  rintro (hmem | hmem)
  · exact hleft hmem
  · exact hright hmem

theorem Compact.oneLine {text : String} (h : Compact text) : OneLine text :=
  h '\n' (by decide)

/-! ## Statements -/

/-- The words of operands: a comma stands behind each of them but the last. -/
def commaWords : List (List Char) → List (List Char)
  | [] => []
  | [word] => [word]
  | word :: next :: words => (word ++ [',']) :: commaWords (next :: words)

theorem commaWords_inj {left right : List (List Char)} (h : commaWords left = commaWords right) :
    left = right := by
  induction left generalizing right with
  | nil =>
    rcases right with _ | ⟨word, _ | ⟨next, words⟩⟩ <;> simp_all [commaWords]
  | cons word words ih =>
    rcases words with _ | ⟨next, words⟩ <;> rcases right with _ | ⟨other, _ | ⟨follow, others⟩⟩ <;>
      simp only [commaWords, List.cons.injEq, reduceCtorEq, List.append_cancel_right_eq] at h
    · exact congrArg (· :: []) h.1
    · rcases others with _ | ⟨last, others⟩ <;> simp [commaWords] at h
    · rcases words with _ | ⟨last, words⟩ <;> simp [commaWords] at h
    · rw [h.1, ih h.2]

theorem mem_commaWords {words : List (List Char)} {word : List Char} (h : word ∈ commaWords words) :
    ∃ bare ∈ words, word = bare ∨ word = bare ++ [','] := by
  induction words with
  | nil => cases h
  | cons head words ih =>
    rcases words with _ | ⟨next, words⟩
    · exact ⟨head, by simp, .inl (List.mem_singleton.mp h)⟩
    · rcases List.mem_cons.mp h with rfl | hmem
      · exact ⟨head, by simp, .inr rfl⟩
      · obtain ⟨bare, hbare, hword⟩ := ih hmem
        exact ⟨bare, by simp [hbare], hword⟩

theorem intercalate_commaWords (words : List (List Char)) :
    List.intercalate [' '] (commaWords words) = List.intercalate [',', ' '] words := by
  induction words with
  | nil => rfl
  | cons word words ih =>
    rcases words with _ | ⟨next, words⟩
    · rfl
    · have hne : commaWords (next :: words) ≠ [] := by
        rcases words with _ | ⟨last, words⟩ <;> simp [commaWords]
      rw [commaWords, List.intercalate_cons_of_ne_nil hne, ih, List.intercalate_cons_cons]
      simp

def Instruction.operandTexts (instruction : Instruction) : List String :=
  instruction.operands.map instruction.renderOperand

/-- An instruction whose text can be divided into words. -/
structure Instruction.Wordy (instruction : Instruction) : Prop where
  mnemonic : Compact instruction.mnemonic
  operands : ∀ text ∈ instruction.operandTexts, Compact text

def Instruction.words (instruction : Instruction) : List (List Char) :=
  instruction.mnemonic.toList :: commaWords (instruction.operandTexts.map String.toList)

theorem text_eq_intercalate (instruction : Instruction) :
    instruction.text.toList = List.intercalate [' '] instruction.words := by
  unfold Instruction.text Instruction.words
  by_cases hempty : instruction.operands = []
  · simp [hempty, Instruction.operandTexts, commaWords]
  · have hne : commaWords (instruction.operandTexts.map String.toList) ≠ [] := by
      intro hnil
      have htexts := commaWords_inj (show _ = commaWords [] from hnil)
      simp [Instruction.operandTexts, hempty] at htexts
    rw [if_neg (by simpa using hempty), String.toList_append, String.toList_append,
      List.intercalate_cons_of_ne_nil hne, intercalate_commaWords, Instruction.operandText,
      String.toList_intercalate]
    rfl

/-- No word of an instruction is divided, and none is taken for the start of a comment. -/
theorem Instruction.Wordy.words {instruction : Instruction} (h : instruction.Wordy) :
    ∀ word ∈ instruction.words, ∀ divider ∈ dividers, divider ∉ word := by
  intro word hword divider hdivider
  rcases List.mem_cons.mp hword with rfl | hword
  · exact h.mnemonic divider hdivider
  obtain ⟨bare, hbare, hword⟩ := mem_commaWords hword
  obtain ⟨text, htext, rfl⟩ := List.mem_map.mp hbare
  have hnot := h.operands text htext divider hdivider
  rcases hword with rfl | rfl
  · exact hnot
  · have hcomma : divider ≠ ',' := by
      rintro rfl
      exact absurd hdivider (by decide)
    simp [hnot, hcomma]

/-- What is read of the line of a statement: the words behind the tabulator, up to the comment. -/
def statementWords (line : List Char) : List (List Char) :=
  ((line.drop 1).splitOn ' ').takeWhile (· ≠ [';'])

theorem toList_statement (text : String) (comment : Option String) :
    (Line.statement text comment).text.toList =
      '\t' :: (text.toList ++ (Line.commentText comment).toList) := by
  show ("\t" ++ text ++ Line.commentText comment).toList = _
  simp

theorem toList_commentText (comment : String) :
    (Line.commentText (some comment)).toList = ' ' :: ([';'] ++ ' ' :: comment.toList) := by
  show (" ; " ++ comment).toList = _
  simp

theorem statementWords_statement {instruction : Instruction} (h : instruction.Wordy)
    (comment : Option String) :
    statementWords (Line.statement instruction.text comment).text.toList = instruction.words := by
  have hsplit : instruction.text.toList.splitOn ' ' = instruction.words := by
    rw [text_eq_intercalate]
    refine List.splitOn_intercalate ' ' (fun word hword => ?_) (List.cons_ne_nil _ _)
    exact h.words word hword ' ' (by decide)
  have hwords : ∀ word ∈ instruction.words, decide (word ≠ [';']) = true := by
    intro word hword
    rw [decide_eq_true_eq]
    rintro rfl
    exact h.words _ hword ';' (by decide) (List.mem_singleton.mpr rfl)
  rw [statementWords, toList_statement, List.drop_one, List.tail_cons]
  cases comment with
  | none =>
    rw [show Line.commentText none = "" from rfl, String.toList_empty, List.append_nil, hsplit]
    exact List.takeWhile_eq_self_iff.mpr hwords
  | some comment =>
    rw [toList_commentText, List.splitOn_append_cons_self, List.splitOn_append_cons_self, hsplit,
      List.splitOn_eq_singleton (by decide), List.takeWhile_append_of_pos hwords]
    exact List.append_nil _

theorem Instruction.Wordy.oneLine_text {instruction : Instruction} (h : instruction.Wordy) :
    OneLine instruction.text := by
  unfold OneLine
  rw [text_eq_intercalate]
  exact notMem_intercalate (by decide) fun word hword => h.words word hword '\n' (by decide)

/-- The line of a statement determines the mnemonic and the texts of the operands, whether there is
a comment behind them or not. -/
theorem statement_inj {left right : Instruction} (hleft : left.Wordy) (hright : right.Wordy)
    {comment other : Option String}
    (h : (Line.statement left.text comment).text = (Line.statement right.text other).text) :
    left.mnemonic = right.mnemonic ∧ left.operandTexts = right.operandTexts := by
  have hwords : left.words = right.words := by
    rw [← statementWords_statement hleft comment, h, statementWords_statement hright]
  obtain ⟨hmnemonic, htexts⟩ := List.cons_eq_cons.mp hwords
  have htexts := commaWords_inj htexts
  exact ⟨String.toList_inj.mp hmnemonic,
    List.map_injective_iff.mpr (fun _ _ => String.toList_inj.mp) htexts⟩

end Disasm
