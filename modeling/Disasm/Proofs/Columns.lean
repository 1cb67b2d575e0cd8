import Mathlib.Data.List.Forall2
import Disasm.Proofs.IntelHex
import Disasm.Proofs.Symbols

/-!
# Listings are aligned and lossless

A listing has one line for each entry, with its label above it. The columns of that line are fixed
because no instruction has more bytes than the column of bytes can hold (`Listing.aligned_columnsLine`).

`Listing.readLine?` reads the first two columns again. It takes no other line for an instruction, since
the first letter of a label is no digit (`Listing.readLine?_labelLines`). Read line by line, a listing
gives the address and the bytes of every entry (`Listing.readLines_render`), whatever else it shows, and
so the image.
-/

namespace Disasm

namespace Listing

/-! ## Reading a listing -/

/-- The characters of a line in the columns from `start` on. -/
def columns (start width : Nat) (line : List Char) : List Char :=
  (line.drop start).take width

/-- The byte of two digits. -/
def readByte? (high low : Char) : Option UInt8 :=
  (Numeral.parse 16 0x100 [high, low]).toOption.map Nat.toUInt8

/-- The bytes of a field, in which every third character divides. -/
def readBytes : List Char → List UInt8
  | high :: low :: _ :: rest => (readByte? high low).toList ++ readBytes rest
  | [high, low] => (readByte? high low).toList
  | _ => []

/-- The address and the bytes that a line shows, if an address stands in its first columns. -/
def readLine? (line : List Char) : Option (Address × List UInt8) :=
  (Numeral.parse 16 addressSpace (columns 0 4 line)).toOption.map fun address =>
    (address.toUInt16, readBytes (columns 6 11 line))

/-- The addresses and the bytes that a text shows, line by line. -/
def readLines (text : String) : List (Address × List UInt8) :=
  (textLines text).filterMap readLine?

/-! ## The layout -/

/-- The digits of a listing. -/
def upperDigits : List Char := "0123456789ABCDEF".toList

/-- The line of an entry, column by column. -/
structure Aligned (options : Options) (entry : Entry) (line : List Char) : Prop where
  address : columns 0 4 line = (Hex.word entry.address).toList
  digits : (columns 0 4 line).length = 4 ∧ ∀ char ∈ columns 0 4 line, char ∈ upperDigits
  gap : columns 4 2 line = [' ', ' ']
  /-- The bytes stand at the left of their field, the rest of which is blank. -/
  bytes : ∃ blanks, columns 6 11 line =
    entry.instruction.hexBytes.toList ++ List.replicate blanks ' '
  width : (columns 6 11 line).length = 11
  secondGap : columns 17 2 line = [' ', ' ']
  text : line.drop 19 = (entry.instruction.text ++
    Line.commentText (if options.comments then entry.instruction.comment else none)).toList

/-- The text of the lines of a label: from where it is referred to, if that is asked for, and its
name. -/
def labelTexts (options : Options) (label : Label) : List String :=
  (if options.references then ["; referenced from " ++ label.sourcesText] else []) ++
    [label.name ++ ":"]

/-- The lines of an entry: those of its label, which may be missing, and the one of the instruction. -/
structure Block (options : Options) (labels : LabelMap) (entry : Entry)
    (block : List (List Char) × List Char) : Prop where
  above : block.1 = (labels[entry.address]?.toList.flatMap (labelTexts options)).map String.toList
  above_iff : block.1 ≠ [] ↔ entry.address ∈ labels
  aligned : Aligned options entry block.2

/-! ## The column of bytes -/

theorem readByte?_digits (byte : UInt8) :
    readByte? (Hex.digit (byte.toNat / 16 % 16)) (Hex.digit (byte.toNat % 16)) = some byte := by
  have hvalue : 16 * (byte.toNat / 16 % 16) + byte.toNat % 16 = byte.toNat := by
    have hlt := byte.toNat_lt
    omega
  rw [readByte?, IntelHex.parse_digits (Nat.mod_lt _ (by decide)) (Nat.mod_lt _ (by decide)), hvalue]
  simp [Except.toOption]

theorem readBytes_blanks : ∀ count, readBytes (List.replicate count ' ') = []
  | 0 | 1 | 2 => by decide
  | count + 3 => by
    have hblank : readByte? ' ' ' ' = none := by decide
    simp only [List.replicate_succ, readBytes, hblank]
    exact readBytes_blanks count

/-- The digits of bytes with blanks between them. -/
def spaced (bytes : List UInt8) : List Char :=
  List.intercalate [' '] (bytes.map fun byte => (Hex.byte byte).toList)

theorem spaced_singleton (byte : UInt8) : spaced [byte] = (Hex.byte byte).toList :=
  List.intercalate_singleton

theorem spaced_cons_cons (byte next : UInt8) (bytes : List UInt8) :
    spaced (byte :: next :: bytes) = (Hex.byte byte).toList ++ ' ' :: spaced (next :: bytes) := by
  rw [spaced, List.map_cons, List.map_cons, List.intercalate_cons_cons, List.append_assoc]
  rfl

theorem toList_hexBytes (instruction : Instruction) :
    instruction.hexBytes.toList = spaced instruction.bytes := by
  rw [Instruction.hexBytes, String.toList_intercalate, List.map_map]
  rfl

theorem readBytes_spaced (bytes : List UInt8) (blanks : Nat) :
    readBytes (spaced bytes ++ List.replicate blanks ' ') = bytes := by
  induction bytes with
  | nil => exact readBytes_blanks blanks
  | cons byte bytes ih =>
    rcases bytes with _ | ⟨next, bytes⟩
    · -- Behind the last byte is a blank, or the end of the field.
      rw [spaced_singleton, Hex.toList_byte]
      cases blanks with
      | zero => simp [readBytes, readByte?_digits]
      | succ blanks => simp [List.replicate_succ, readBytes, readByte?_digits, readBytes_blanks]
    · rw [spaced_cons_cons, Hex.toList_byte]
      simp only [List.cons_append, List.nil_append, readBytes, readByte?_digits, Option.toList_some,
        ih]

theorem length_spaced {bytes : List UInt8} (h : bytes ≠ []) :
    (spaced bytes).length = 3 * bytes.length - 1 := by
  induction bytes with
  | nil => exact absurd rfl h
  | cons byte bytes ih =>
    rcases bytes with _ | ⟨next, bytes⟩
    · simp [spaced_singleton, Hex.toList_byte]
    · have hrest := ih (List.cons_ne_nil _ _)
      rw [spaced_cons_cons, Hex.toList_byte]
      simp only [List.length_append, List.length_cons, List.length_nil] at hrest ⊢
      omega

theorem notMem_spaced (bytes : List UInt8) : '\n' ∉ spaced bytes := by
  refine notMem_intercalate (by decide) fun word hword => ?_
  obtain ⟨byte, -, rfl⟩ := List.mem_map.mp hword
  exact (Hex.compact_byte byte).oneLine

/-! ## The line of an instruction -/

/-- The line of an instruction in a listing. -/
def columnsLine (options : Options) (entry : Entry) : Line :=
  .columns entry.address entry.instruction.hexBytes entry.instruction.text
    (if options.comments then entry.instruction.comment else none)

theorem entryLines_listing {options : Options} (hstyle : options.style = .listing) (entry : Entry) :
    entryLines options entry =
      entry.label.toList.flatMap (labelLines options) ++ [columnsLine options entry] := by
  unfold entryLines instructionLine columnsLine
  rw [hstyle]

/-- The field of bytes, filled up with blanks. -/
def bytesField (entry : Entry) : List Char :=
  spaced entry.instruction.bytes ++
    List.replicate (Line.hexColumnWidth - entry.instruction.hexBytes.length) ' '

/-- What stands behind the columns. -/
def remainder (options : Options) (entry : Entry) : List Char :=
  (entry.instruction.text ++
    Line.commentText (if options.comments then entry.instruction.comment else none)).toList

theorem toList_columnsLine (options : Options) (entry : Entry) :
    (columnsLine options entry).text.toList =
      (Hex.word entry.address).toList ++
        ([' ', ' '] ++ (bytesField entry ++ ([' ', ' '] ++ remainder options entry))) := by
  have hgap : "  ".toList = [' ', ' '] := rfl
  show (Hex.word entry.address ++ "  " ++ Line.padRight _ _ ++ "  " ++ _ ++ _).toList = _
  simp only [Line.padRight, bytesField, remainder, String.toList_append, String.toList_ofList,
    ← toList_hexBytes, List.append_assoc, hgap]

theorem length_bytesField {entry : Entry} (hleast : 1 ≤ entry.instruction.bytes.length)
    (hmost : entry.instruction.bytes.length ≤ maxInstructionLength) :
    (bytesField entry).length = 11 := by
  have hspaced : (spaced entry.instruction.bytes).length = 3 * entry.instruction.bytes.length - 1 :=
    length_spaced (List.ne_nil_of_length_pos hleast)
  have hlength : entry.instruction.hexBytes.length = 3 * entry.instruction.bytes.length - 1 := by
    rw [← String.length_toList, toList_hexBytes, hspaced]
  rw [bytesField, List.length_append, List.length_replicate, hspaced, hlength, Line.hexColumnWidth]
  unfold maxInstructionLength at hmost ⊢
  omega

theorem digit_mem_upperDigits : ∀ value < 16, Hex.digit value ∈ upperDigits := by decide

theorem columns_append (front field rest : List Char) {start width : Nat}
    (hfront : front.length = start) (hfield : field.length = width) :
    columns start width (front ++ (field ++ rest)) = field := by
  rw [columns, List.drop_left' hfront, List.take_left' hfield]

theorem length_word (value : UInt16) : (Hex.word value).toList.length = 4 := by
  rw [Hex.word, String.toList_ofList, Hex.length_field]

theorem aligned_columnsLine (options : Options) {entry : Entry}
    (hleast : 1 ≤ entry.instruction.bytes.length)
    (hmost : entry.instruction.bytes.length ≤ maxInstructionLength) :
    Aligned options entry (columnsLine options entry).text.toList := by
  have hword := length_word entry.address
  have hfield := length_bytesField hleast hmost
  have haddress : columns 0 4 (columnsLine options entry).text.toList =
      (Hex.word entry.address).toList := by
    rw [toList_columnsLine, columns, List.drop_zero, List.take_left' hword]
  have hbytes : columns 6 11 (columnsLine options entry).text.toList = bytesField entry := by
    rw [toList_columnsLine, ← List.append_assoc]
    exact columns_append _ _ _ (by simp [hword]) hfield
  constructor
  case address => exact haddress
  case digits =>
    rw [haddress]
    refine ⟨hword, fun char hchar => ?_⟩
    rw [Hex.word, String.toList_ofList] at hchar
    obtain ⟨value, hvalue, rfl⟩ := Hex.exists_digit_of_mem_field hchar
    exact digit_mem_upperDigits value hvalue
  case gap =>
    rw [toList_columnsLine]
    exact columns_append _ [' ', ' '] _ hword rfl
  case bytes =>
    rw [hbytes, toList_hexBytes]
    exact ⟨_, rfl⟩
  case width => rw [hbytes, hfield]
  case secondGap =>
    rw [toList_columnsLine, ← List.append_assoc, ← List.append_assoc]
    exact columns_append _ [' ', ' '] _ (by simp [hword, hfield]) rfl
  case text =>
    rw [toList_columnsLine, ← List.append_assoc, ← List.append_assoc, ← List.append_assoc,
      List.drop_left' (by simp [hword, hfield]), remainder]

/-- An aligned line shows where its entry stands and which bytes it has. -/
theorem Aligned.readLine?_eq {options : Options} {entry : Entry} {line : List Char}
    (h : Aligned options entry line) : readLine? line = some entry.located := by
  have haddress : Numeral.parse 16 addressSpace (columns 0 4 line) = .ok entry.address.toNat := by
    rw [h.address, Hex.word, String.toList_ofList]
    exact Numeral.parse_field entry.address.toNat_lt entry.address.toNat_lt
  obtain ⟨blanks, hbytes⟩ := h.bytes
  rw [readLine?, haddress, hbytes, toList_hexBytes, readBytes_spaced]
  simp [Except.toOption, Entry.located]

/-! ## The lines of a label -/

theorem readLine?_cons_eq_none {first : Char} {rest : List Char}
    (hdigit : Numeral.digit? 16 first = none) (hplus : first ≠ '+') :
    readLine? (first :: rest) = none := by
  rw [readLine?, show columns 0 4 (first :: rest) = first :: rest.take 3 from rfl,
    Numeral.parse_cons_eq_error hdigit hplus]
  rfl

theorem readLine?_label (kind : TargetKind) (address : Address) :
    readLine? (Line.label (kind.tag ++ Hex.word address)).text.toList = none := by
  rw [show (Line.label (kind.tag ++ Hex.word address)).text =
    kind.tag ++ Hex.word address ++ ":" from rfl, String.append_assoc, String.toList_append]
  cases kind <;> exact readLine?_cons_eq_none (by decide) (by decide)

theorem readLine?_references (label : Label) :
    readLine? (Line.references label).text.toList = none := by
  rw [show (Line.references label).text = "; referenced from " ++ label.sourcesText from rfl,
    String.toList_append]
  exact readLine?_cons_eq_none (by decide) (by decide)

/-- The texts of the lines of an entry. -/
def block (options : Options) (entry : Entry) : List (List Char) × List Char :=
  ((entry.label.toList.flatMap (labelLines options)).map (·.text.toList),
    (columnsLine options entry).text.toList)

-- The proof does not compute: to unfold the text of a line takes much longer than to unfold `block`.
theorem block_snd (options : Options) (entry : Entry) :
    (block options entry).2 = (columnsLine options entry).text.toList := by
  rw [block]

section Image

variable {options : Options} {architecture : Architecture} {origin : Address} {image : List UInt8}
  {entry : Entry} (fits : origin.toNat + image.length ≤ addressSpace)
  (hentry : entry ∈ (finished image origin architecture).entries)

include fits hentry

theorem readLine?_labelLines :
    ∀ line ∈ entry.label.toList.flatMap (labelLines options), readLine? line.text.toList = none := by
  intro line hline
  rcases labelLines_cases fits hentry hline with ⟨label, rfl⟩ | ⟨kind, rfl⟩
  · exact readLine?_references label
  · exact readLine?_label kind _

theorem oneLine_columnsLine : OneLine (columnsLine options entry).text := by
  obtain ⟨hwordy, hremarked⟩ := statement_of_mem fits hentry
  have hbytes : OneLine (Line.padRight Line.hexColumnWidth entry.instruction.hexBytes) := by
    refine OneLine.append ?_ ?_
    · rw [OneLine, toList_hexBytes]
      exact notMem_spaced _
    · rw [OneLine, String.toList_ofList, List.mem_replicate]
      exact fun hblank => absurd hblank.2 (by decide)
  have hgap : OneLine "  " := by decide
  exact (((((Hex.compact_word _).oneLine.append hgap).append hbytes).append hgap).append
    hwordy.oneLine_text).append (oneLine_commentText hremarked)

/-- The lines of a label say from where it is referred to if that is asked for: it is never empty. -/
theorem texts_labelLines :
    (entry.label.toList.flatMap (labelLines options)).map Line.text =
      (finished image origin architecture).labels[entry.address]?.toList.flatMap
        (labelTexts options) := by
  rw [label_finished hentry]
  rcases hlabel : (finished image origin architecture).labels[entry.address]? with _ | label
  · rfl
  have hsources : label.sources.isEmpty = false :=
    List.isEmpty_eq_false_iff.mpr (sources_ne_nil fits hlabel)
  simp only [Option.toList_some, List.flatMap_singleton, labelLines, labelTexts, hsources,
    Bool.not_false, Bool.and_true]
  split <;> rfl

theorem above_block :
    (block options entry).1 = ((finished image origin architecture).labels[entry.address]?.toList.flatMap
      (labelTexts options)).map String.toList := by
  rw [← texts_labelLines fits hentry, List.map_map]
  rfl

theorem above_block_ne_nil_iff :
    (block options entry).1 ≠ [] ↔
      entry.address ∈ (finished image origin architecture).labels := by
  rw [above_block fits hentry, Std.TreeMap.mem_iff_isSome_getElem?]
  rcases (finished image origin architecture).labels[entry.address]? with _ | label
  · simp
  · simp [labelTexts]

theorem block_laidOut :
    Block options (finished image origin architecture).labels entry (block options entry) := by
  obtain ⟨hleast, hmost⟩ := (finished_covers architecture fits).size_bounds entry
    (Array.mem_toList_iff.mpr hentry)
  refine ⟨above_block fits hentry, above_block_ne_nil_iff fits hentry, ?_⟩
  rw [block_snd]
  exact aligned_columnsLine options hleast hmost

omit fits hentry in
theorem map_entryLines (hstyle : options.style = .listing) :
    (entryLines options entry).map (·.text.toList) =
      (block options entry).1 ++ [(block options entry).2] := by
  rw [entryLines_listing hstyle, List.map_append, List.map_singleton, block]

theorem notMem_block :
    ∀ line ∈ (block options entry).1 ++ [(block options entry).2], '\n' ∉ line := by
  intro text htext
  rcases List.mem_append.mp htext with habove | hlast
  · obtain ⟨line, hline, rfl⟩ := List.mem_map.mp habove
    exact (aside_of_mem_labelLines fits hentry hline).oneLine
  · rw [List.mem_singleton.mp hlast, block_snd]
    exact oneLine_columnsLine fits hentry

theorem filterMap_readLine?_block :
    ((block options entry).1 ++ [(block options entry).2]).filterMap readLine? =
      [entry.located] := by
  have habove : (block options entry).1.filterMap readLine? = [] := by
    rw [List.filterMap_eq_nil_iff]
    intro text htext
    obtain ⟨line, hline, rfl⟩ := List.mem_map.mp htext
    exact readLine?_labelLines fits hentry line hline
  have hread : readLine? (block options entry).2 = some entry.located :=
    (block_laidOut fits hentry).aligned.readLine?_eq
  rw [List.filterMap_append, habove, List.nil_append, List.filterMap_cons_some hread,
    List.filterMap_nil]

end Image

/-! ## The lines of a listing -/

section Image

variable {options : Options} {architecture : Architecture} {origin : Address} {image : List UInt8}
  (hstyle : options.style = .listing) (fits : origin.toNat + image.length ≤ addressSpace)

include hstyle fits

theorem textLines_listing :
    textLines (render options (finished image origin architecture)) =
      ((finished image origin architecture).entries.toList.map (block options)).flatMap
        (fun block => block.1 ++ [block.2]) ++ [[]] := by
  have hlines : (lines options (finished image origin architecture)).map (·.text.toList) =
      ((finished image origin architecture).entries.toList.map (block options)).flatMap
        fun block => block.1 ++ [block.2] := by
    unfold lines headerLines
    rw [hstyle, List.nil_append, List.map_flatMap, List.flatMap_map]
    exact List.flatMap_congr fun entry _ => map_entryLines hstyle
  have hone : ∀ line ∈ (lines options (finished image origin architecture)).map (·.text.toList),
      '\n' ∉ line := by
    rw [hlines]
    intro line hline
    obtain ⟨block, hblock, hline⟩ := List.mem_flatMap.mp hline
    obtain ⟨entry, hentry, rfl⟩ := List.mem_map.mp hblock
    exact notMem_block fits (Array.mem_toList_iff.mp hentry) line hline
  rw [textLines, toList_render, splitOn_lines hone, hlines]

/-- A listing reads back as the places and the bytes of its entries. -/
theorem readLines_render :
    readLines (render options (finished image origin architecture)) =
      (finished image origin architecture).entries.toList.map Entry.located := by
  have hblocks : ∀ entry ∈ (finished image origin architecture).entries.toList,
      ((block options entry).1 ++ [(block options entry).2]).filterMap readLine? =
        [entry.located] :=
    fun entry hentry => filterMap_readLine?_block fits (Array.mem_toList_iff.mp hentry)
  have hend : [[]].filterMap readLine? = [] := by decide
  rw [readLines, textLines_listing hstyle fits, List.filterMap_append, hend, List.append_nil,
    List.flatMap_map, List.filterMap_flatMap, List.flatMap_congr hblocks, ← List.map_eq_flatMap]

end Image

end Listing

/-- The places and the bytes of the entries determine an image. -/
theorem Covers.eq_of_located_eq {origin otherOrigin : Address} {image other : List UInt8}
    {entries others : List Entry} (hcovers : Covers image origin entries)
    (hothers : Covers other otherOrigin others)
    (h : entries.map Entry.located = others.map Entry.located) :
    image = other ∧ (image ≠ [] → origin = otherOrigin) := by
  constructor
  · have hbytes := congrArg (List.flatMap Prod.snd) h
    rw [List.flatMap_map, List.flatMap_map] at hbytes
    exact hcovers.bytes_eq.symm.trans (hbytes.trans hothers.bytes_eq)
  · intro hne
    rcases entries with _ | ⟨entry, entries⟩
    · exact absurd hcovers.bytes_eq.symm hne
    rcases others with _ | ⟨otherEntry, others⟩
    · cases h
    have haddress : entry.address = otherEntry.address := congrArg Prod.fst (List.cons.inj h).1
    rw [← hcovers.starts_at entry rfl, ← hothers.starts_at otherEntry rfl, haddress]

/-- A listing has one line for each entry, aligned in columns and with the lines of its label above it,
and nothing else. It tells the image and, unless the image is empty, the origin: whatever the
architectures and whatever else is shown, no other image has the same listing. -/
theorem listing_aligned {architecture : Architecture} {options : Listing.Options}
    {image : List UInt8} {origin : Address} {disassembly : Disassembly}
    (hstyle : options.style = .listing)
    (h : disassemble image origin architecture = .ok disassembly) :
    (∃ blocks, List.Forall₂ (Listing.Block options disassembly.labels) disassembly.entries.toList
        blocks ∧
      Listing.textLines (Listing.render options disassembly) =
        blocks.flatMap (fun block => block.1 ++ [block.2]) ++ [[]]) ∧
    ∀ (otherArchitecture : Architecture) (otherOptions : Listing.Options) (other : List UInt8)
      (otherOrigin : Address) (otherDisassembly : Disassembly),
      otherOptions.style = .listing →
      disassemble other otherOrigin otherArchitecture = .ok otherDisassembly →
      Listing.render options disassembly = Listing.render otherOptions otherDisassembly →
      image = other ∧ (image ≠ [] → origin = otherOrigin) := by
  obtain ⟨fits, rfl⟩ := eq_finished_of_disassemble h
  refine ⟨⟨_, ?_, Listing.textLines_listing hstyle fits⟩, ?_⟩
  · rw [List.forall₂_map_right_iff, List.forall₂_same]
    exact fun entry hentry => Listing.block_laidOut fits (Array.mem_toList_iff.mp hentry)
  · intro otherArchitecture otherOptions other otherOrigin otherDisassembly hotherStyle hother hrender
    obtain ⟨otherFits, rfl⟩ := eq_finished_of_disassemble hother
    refine (finished_covers architecture fits).eq_of_located_eq
      (finished_covers otherArchitecture otherFits) ?_
    rw [← Listing.readLines_render hstyle fits, hrender,
      Listing.readLines_render hotherStyle otherFits]

/-- A call of itself, which has its label above it. -/
theorem listing_aligned_call :
    ∃ disassembly, disassemble [0xCD, 0x00, 0x01] 0x0100 .z80 = .ok disassembly ∧
      Listing.textLines (Listing.render {} disassembly) =
        ["; referenced from $0100".toList, "S_0100:".toList,
          "0100  CD 00 01     CALL S_0100".toList, []] ∧
      ∃ blocks, List.Forall₂ (Listing.Block {} disassembly.labels) disassembly.entries.toList blocks ∧
        Listing.textLines (Listing.render {} disassembly) =
          blocks.flatMap (fun block => block.1 ++ [block.2]) ++ [[]] :=
  have h := disassemble_eq_ok .z80 (by decide)
  ⟨_, h, by decide +kernel, (listing_aligned rfl h).1⟩

/-- One image has the same listing on two architectures if comments are left out. -/
example : Listing.render {} (finished [0x00] 0x0100 .z80) =
    Listing.render { comments := false } (finished [0x00] 0x0100 .i8080) := by decide +kernel

end Disasm
