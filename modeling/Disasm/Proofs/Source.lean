import Mathlib.Data.List.Basic
import Disasm.Listing.Basic
import Disasm.Proofs.Statement

/-!
# Sources are lossless

A source is divided into its lines again, because no line holds a line feed
(`Listing.oneLine_of_mem_lines`). Its statements are the lines behind a tabulator, the first of which
sets the origin (`Listing.statements_eq_of_render_eq`). Two runs of the decoder that give the same
statements go through the same bytes, up to the first place where one has the other encoding of a load
or store (`Swept.same_or_diverge`).
-/

namespace Disasm

/-! ## Comments -/

/-- An instruction whose comment stays on its line. -/
def Instruction.Remarked (instruction : Instruction) : Prop :=
  ∀ comment, instruction.comment = some comment → OneLine comment

theorem Instruction.Remarked.addComment {instruction : Instruction} {text : String}
    (h : instruction.Remarked) (htext : OneLine text) : (instruction.addComment text).Remarked := by
  intro comment hcomment
  unfold Instruction.addComment at hcomment
  rcases hold : instruction.comment with _ | old
  · simp only [hold, Option.some.injEq] at hcomment
    exact hcomment ▸ htext
  · simp only [hold, Option.some.injEq] at hcomment
    subst hcomment
    exact ((h old hold).append (by decide)).append htext

theorem oneLine_warning (warning : Warning) : OneLine warning.text := by
  refine oneLine_of_bytes ?_
  cases warning with
  | z80Only => decide +kernel
  | i8085Only => decide +kernel
  | unsupported architecture => cases architecture <;> decide +kernel

theorem oneLine_dataComments (architecture : Architecture) :
    ∀ comment ∈ architecture.dataComments, OneLine comment := by
  have hbytes : ∀ comment ∈ architecture.dataComments,
      0x0A ∉ comment.toByteArray.data.toList := by
    cases architecture <;> decide +kernel
  exact fun comment hmem => oneLine_of_bytes (hbytes comment hmem)

theorem Decoded.remarked {architecture : Architecture} {offset : Nat} {bytes : List UInt8}
    {decoded : Instruction} (h : Decoded architecture offset bytes decoded) : decoded.Remarked := by
  intro comment hcomment
  cases h with
  | coded mem starts long => cases hcomment
  | data mem starts nonempty short =>
    obtain rfl := Option.some.inj hcomment
    exact oneLine_dataComments architecture _ mem

theorem Instruction.Remarked.place {instruction : Instruction} (h : instruction.Remarked)
    (offset origin : Address) (architecture : Architecture) :
    (instruction.place offset origin architecture).instruction.Remarked := by
  show Instruction.Remarked (Instruction.warn _ _)
  unfold Instruction.warn
  split
  · exact Instruction.Remarked.addComment h (oneLine_warning _)
  · exact h

theorem Instruction.Remarked.toIntel {instruction : Instruction} (h : instruction.Remarked)
    (htext : OneLine instruction.text) : instruction.toIntel.Remarked := by
  unfold Instruction.toIntel Instruction.toIntel?
  split
  · exact h
  · split
    · exact h
    · have hnote : OneLine ("Z80: " ++ instruction.text) := OneLine.append (by decide) htext
      exact Instruction.Remarked.addComment h hnote

/-! ## Finished entries -/

theorem shown_congr {instruction other : Instruction} (h : instruction.Shown)
    (hlabel : other.targetLabel = instruction.targetLabel)
    (htarget : other.target = instruction.target) : other.Shown := by
  intro name hname
  obtain ⟨kind, address, hdestination, rfl⟩ := h name (hlabel ▸ hname)
  exact ⟨kind, address, by rwa [destination?_eq_some, htarget, ← destination?_eq_some], rfl⟩

section Finish

variable {architecture : Architecture} {origin : Address} {offset : Nat} {bytes : List UInt8}
  {decoded : Instruction} {labels : LabelMap} {image : Span}

theorem presents_finish
    (h : ((decoded.place offset.toUInt16 origin architecture).finish architecture labels
      image).instruction.Shown) :
    Presents architecture origin offset decoded
      ((decoded.place offset.toUInt16 origin architecture).finish architecture labels
        image).instruction := by
  refine ⟨finish_spelling _ _ _ _, ?_, h⟩
  rw [finish_target, place_frame]

theorem remarked_finish (hdecoded : Decoded architecture offset bytes decoded)
    (h : ((decoded.place offset.toUInt16 origin architecture).finish architecture labels
      image).instruction.Shown) :
    ((decoded.place offset.toUInt16 origin architecture).finish architecture labels
      image).instruction.Remarked := by
  have hremarked : ((decoded.place offset.toUInt16 origin architecture).attach labels
      image).instruction.Remarked := by
    rw [attach_eq]
    exact hdecoded.remarked.place _ _ _
  unfold Entry.finish at h ⊢
  split at h
  case isTrue hprimary => rwa [if_pos hprimary]
  case isFalse hprimary =>
    rw [if_neg hprimary]
    -- The comment quotes the text from before, which shows the same target.
    have hshown := shown_congr h (toIntel_targetLabel _).symm (toIntel_target _).symm
    refine hremarked.toIntel (wordy_of_plain hshown ?_ ?_).oneLine_text
    · rw [attach_eq, place_frame]
      exact hdecoded.plain.1
    · rw [attach_eq, place_frame]
      exact hdecoded.plain.2

end Finish

section Image

variable {architecture : Architecture} {origin : Address} {image : List UInt8}
  (fits : origin.toNat + image.length ≤ addressSpace)

include fits

theorem shown_of_mem {entry : Entry} (h : entry ∈ (finished image origin architecture).entries) :
    entry.instruction.Shown := by
  intro name hname
  obtain ⟨target, label, hdestination, -, -, hlabel, rfl⟩ := (targetLabel_eq_some_iff h).mp hname
  obtain ⟨kind, hkind⟩ := name_of_getElem? fits hlabel
  exact ⟨kind, target, hdestination, hkind⟩

theorem statement_of_mem {entry : Entry}
    (h : entry ∈ (finished image origin architecture).entries) :
    entry.instruction.Wordy ∧ entry.instruction.Remarked := by
  have hshown := shown_of_mem fits h
  obtain ⟨offset, bytes, decoded, hdecoded, rfl⟩ := exists_decoded_of_mem h
  exact ⟨(presents_finish hshown).wordy hdecoded, remarked_finish hdecoded hshown⟩

theorem operands_plain_of_mem {entry : Entry}
    (h : entry ∈ (finished image origin architecture).entries) :
    ∀ operand ∈ entry.instruction.operands, operand.IsPlain := by
  have hshown := shown_of_mem fits h
  obtain ⟨offset, bytes, decoded, hdecoded, rfl⟩ := exists_decoded_of_mem h
  exact ((presents_finish hshown).plain hdecoded).2

theorem label_of_mem {entry : Entry} (h : entry ∈ (finished image origin architecture).entries)
    {label : Label} (hlabel : entry.label = some label) :
    ∃ kind : TargetKind, label.name = kind.tag ++ Hex.word entry.address := by
  obtain ⟨raw, hraw, rfl⟩ := List.mem_map.mp (Array.mem_toList_iff.mpr h)
  rw [finish_label] at hlabel
  rw [finish_address]
  exact name_of_getElem? fits hlabel

end Image

/-! ## Lines -/

namespace Listing

/-- Whether a line is a statement, which stands behind a tabulator. -/
def isStatement (line : Line) : Bool :=
  line.text.toList.head? = some '\t'

section Kinds

variable (kind : TargetKind) (address : Address)

theorem oneLine_name : OneLine (kind.tag ++ Hex.word address) := by
  refine OneLine.append ?_ (Hex.compact_word address).oneLine
  cases kind <;> decide

theorem head?_name (rest : String) :
    (kind.tag ++ Hex.word address ++ rest).toList.head? ≠ some '\t' := by
  rw [String.append_assoc, String.toList_append]
  cases kind <;> simp [TargetKind.tag]

end Kinds

theorem oneLine_sourcesText (label : Label) : OneLine label.sourcesText := by
  unfold OneLine Label.sourcesText
  rw [String.toList_intercalate]
  refine notMem_intercalate (by decide) fun word hword => ?_
  rw [List.map_map] at hword
  obtain ⟨source, -, rfl⟩ := List.mem_map.mp hword
  exact OneLine.append (show OneLine "$" by decide) (Hex.compact_word source).oneLine

/-- The line of a definition, or a remark on one: neither divided nor a statement. -/
structure Aside (line : Line) : Prop where
  oneLine : OneLine line.text
  notStatement : isStatement line = false

theorem aside_equate (kind : TargetKind) (address : Address) :
    Aside (.equate (kind.tag ++ Hex.word address) address) := by
  have htext : (Line.equate (kind.tag ++ Hex.word address) address).text =
      kind.tag ++ Hex.word address ++ ("\tEQU $" ++ Hex.word address) := by
    show _ ++ _ ++ _ = _
    rw [String.append_assoc]
  constructor
  · rw [htext]
    exact (oneLine_name kind address).append
      (OneLine.append (by decide) (Hex.compact_word address).oneLine)
  · rw [isStatement, htext]
    exact decide_eq_false (head?_name kind address _)

theorem aside_label (kind : TargetKind) (address : Address) :
    Aside (.label (kind.tag ++ Hex.word address)) := by
  refine ⟨(oneLine_name kind address).append (show OneLine ":" by decide), ?_⟩
  exact decide_eq_false (head?_name kind address ":")

theorem aside_references (label : Label) : Aside (.references label) := by
  refine ⟨OneLine.append (show OneLine "; referenced from " by decide) (oneLine_sourcesText label), ?_⟩
  refine decide_eq_false ?_
  show ("; referenced from " ++ label.sourcesText).toList.head? ≠ _
  rw [String.toList_append]
  simp

theorem aside_blank : Aside .blank := ⟨by decide, by decide⟩

section Image

variable {options : Options} {architecture : Architecture} {origin : Address} {image : List UInt8}

/-- The lines of a label are a remark on it and its definition. -/
theorem labelLines_cases {entry : Entry} {line : Line}
    (fits : origin.toNat + image.length ≤ addressSpace)
    (hentry : entry ∈ (finished image origin architecture).entries)
    (h : line ∈ entry.label.toList.flatMap (labelLines options)) :
    (∃ label, line = .references label) ∨
      ∃ kind : TargetKind, line = .label (kind.tag ++ Hex.word entry.address) := by
  obtain ⟨label, hlabel, hline⟩ := List.mem_flatMap.mp h
  obtain ⟨kind, hname⟩ := label_of_mem fits hentry (Option.mem_toList.mp hlabel)
  unfold labelLines at hline
  rw [hname] at hline
  split at hline
  · simp only [List.mem_cons, List.not_mem_nil, or_false] at hline
    rcases hline with rfl | rfl
    · exact .inl ⟨label, rfl⟩
    · exact .inr ⟨kind, rfl⟩
  · exact .inr ⟨kind, List.mem_singleton.mp hline⟩

theorem aside_of_mem_labelLines {entry : Entry} {line : Line}
    (fits : origin.toNat + image.length ≤ addressSpace)
    (hentry : entry ∈ (finished image origin architecture).entries)
    (h : line ∈ entry.label.toList.flatMap (labelLines options)) : Aside line := by
  rcases labelLines_cases fits hentry h with ⟨label, rfl⟩ | ⟨kind, rfl⟩
  · exact aside_references label
  · exact aside_label kind _

theorem aside_of_mem_equates {line : Line} (fits : origin.toNat + image.length ≤ addressSpace)
    (h : line ∈ equates (finished image origin architecture)) : Aside line := by
  obtain ⟨⟨address, label⟩, hmem, rfl⟩ := List.mem_map.mp h
  have hlabel := Std.TreeMap.mem_toList_iff_getElem?_eq_some.mp (List.mem_filter.mp hmem).1
  obtain ⟨kind, hname⟩ := name_of_getElem? fits hlabel
  show Aside (.equate label.name address)
  rw [hname]
  exact aside_equate kind address

/-- A source sets its origin; what else stands in its header is no statement. -/
theorem headerLines_source (architecture : Architecture) (hstyle : options.style = .source)
    (fits : origin.toNat + image.length ≤ addressSpace) :
    ∃ asides, headerLines options (finished image origin architecture) = .origin origin :: asides ∧
      ∀ line ∈ asides, Aside line := by
  unfold headerLines
  rw [hstyle]
  refine ⟨_, rfl, fun line hline => ?_⟩
  rcases List.mem_append.mp hline with hline | hline
  · exact aside_of_mem_equates fits hline
  · split at hline
    · cases hline
    · rw [List.mem_singleton.mp hline]
      exact aside_blank

def statementLine (options : Options) (entry : Entry) : Line :=
  .statement entry.instruction.text (if options.comments then entry.instruction.comment else none)

theorem entryLines_source (hstyle : options.style = .source) (entry : Entry) :
    entryLines options entry =
      entry.label.toList.flatMap (labelLines options) ++ [statementLine options entry] := by
  unfold entryLines instructionLine statementLine
  rw [hstyle]

theorem isStatement_statementLine (entry : Entry) :
    isStatement (statementLine options entry) = true := by
  rw [isStatement, statementLine, toList_statement]
  rfl

theorem isStatement_origin (address : Address) : isStatement (.origin address) = true := by
  refine decide_eq_true ?_
  show ("\tORG $" ++ Hex.word address).toList.head? = _
  rw [String.toList_append]
  simp

theorem oneLine_origin (address : Address) : OneLine (Line.origin address).text :=
  OneLine.append (show OneLine "\tORG $" by decide) (Hex.compact_word address).oneLine

theorem oneLine_commentText {instruction : Instruction} (h : instruction.Remarked) :
    OneLine (Line.commentText (if options.comments then instruction.comment else none)) := by
  split
  · rcases hcomment : instruction.comment with _ | comment
    · decide
    · exact OneLine.append (show OneLine " ; " by decide) (h comment hcomment)
  · decide

theorem oneLine_statementLine {entry : Entry} (fits : origin.toNat + image.length ≤ addressSpace)
    (h : entry ∈ (finished image origin architecture).entries) :
    OneLine (statementLine options entry).text := by
  obtain ⟨hwordy, hremarked⟩ := statement_of_mem fits h
  exact ((show OneLine "\t" by decide).append hwordy.oneLine_text).append
    (oneLine_commentText hremarked)

theorem oneLine_of_mem_lines (hstyle : options.style = .source)
    (fits : origin.toNat + image.length ≤ addressSpace) :
    ∀ line ∈ lines options (finished image origin architecture), OneLine line.text := by
  intro line hline
  obtain ⟨asides, hheader, hasides⟩ := headerLines_source architecture hstyle fits
  rw [lines, hheader] at hline
  rcases List.mem_append.mp hline with hline | hline
  · rcases List.mem_cons.mp hline with rfl | hline
    · exact oneLine_origin origin
    · exact (hasides line hline).oneLine
  · obtain ⟨entry, hentry, hline⟩ := List.mem_flatMap.mp hline
    have hmem := Array.mem_toList_iff.mp hentry
    rw [entryLines_source hstyle] at hline
    rcases List.mem_append.mp hline with hline | hline
    · exact (aside_of_mem_labelLines fits hmem hline).oneLine
    · rw [List.mem_singleton.mp hline]
      exact oneLine_statementLine fits hmem

theorem notMem_lineTexts (hstyle : options.style = .source)
    (fits : origin.toNat + image.length ≤ addressSpace) :
    ∀ line ∈ (lines options (finished image origin architecture)).map fun line => line.text.toList,
      '\n' ∉ line := by
  intro line hline
  obtain ⟨line, hmem, rfl⟩ := List.mem_map.mp hline
  exact oneLine_of_mem_lines hstyle fits line hmem

theorem filter_asides {asides : List Line} (h : ∀ line ∈ asides, Aside line) :
    asides.filter isStatement = [] := by
  rw [List.filter_eq_nil_iff]
  intro line hline
  rw [(h line hline).notStatement]
  exact Bool.false_ne_true

theorem filter_headerLines (hstyle : options.style = .source)
    (fits : origin.toNat + image.length ≤ addressSpace) :
    (headerLines options (finished image origin architecture)).filter isStatement =
      [.origin origin] := by
  obtain ⟨asides, hheader, hasides⟩ := headerLines_source architecture hstyle fits
  rw [hheader, List.filter_cons_of_pos (isStatement_origin origin), filter_asides hasides]

theorem filter_entryLines {entry : Entry} (hstyle : options.style = .source)
    (fits : origin.toNat + image.length ≤ addressSpace)
    (h : entry ∈ (finished image origin architecture).entries) :
    (entryLines options entry).filter isStatement = [statementLine options entry] := by
  rw [entryLines_source hstyle, List.filter_append,
    filter_asides fun line hline => aside_of_mem_labelLines fits h hline, List.nil_append,
    List.filter_cons_of_pos (isStatement_statementLine entry), List.filter_nil]

theorem filter_lines (hstyle : options.style = .source)
    (fits : origin.toNat + image.length ≤ addressSpace) :
    (lines options (finished image origin architecture)).filter isStatement =
      .origin origin ::
        (finished image origin architecture).entries.toList.map (statementLine options) := by
  have hentries : ∀ entry ∈ (finished image origin architecture).entries.toList,
      (entryLines options entry).filter isStatement = [statementLine options entry] :=
    fun entry hentry => filter_entryLines hstyle fits (Array.mem_toList_iff.mp hentry)
  rw [lines, List.filter_append, filter_headerLines hstyle fits, List.filter_flatMap,
    List.flatMap_congr hentries, ← List.map_eq_flatMap]
  rfl

theorem filter_lineTexts (hstyle : options.style = .source)
    (fits : origin.toNat + image.length ≤ addressSpace) :
    ((lines options (finished image origin architecture)).map fun line => line.text.toList).filter
        (fun line => decide (line.head? = some '\t')) =
      ((Line.origin origin).text ::
        (finished image origin architecture).entries.toList.map
          (fun entry => (statementLine options entry).text)).map String.toList := by
  rw [List.filter_map]
  refine (congrArg (List.map _) (filter_lines hstyle fits)).trans ?_
  rw [List.map_cons, List.map_map, List.map_cons, List.map_map]
  rfl

end Image

theorem toList_render (options : Options) (disassembly : Disassembly) :
    (render options disassembly).toList =
      ((lines options disassembly).map fun line => line.text.toList).flatMap (· ++ ['\n']) := by
  simp [render, String.toList_join, List.flatMap_map]

/-- The text of a source determines its origin and its statements. -/
theorem statements_eq_of_render_eq {options : Options} {architecture : Architecture}
    {origin otherOrigin : Address} {image other : List UInt8} (hstyle : options.style = .source)
    (fits : origin.toNat + image.length ≤ addressSpace)
    (otherFits : otherOrigin.toNat + other.length ≤ addressSpace)
    (h : render options (finished image origin architecture) =
      render options (finished other otherOrigin architecture)) :
    origin = otherOrigin ∧
      (finished image origin architecture).entries.toList.map
          (fun entry => (statementLine options entry).text) =
        (finished other otherOrigin architecture).entries.toList.map
          (fun entry => (statementLine options entry).text) := by
  have hlines := congrArg String.toList h
  rw [toList_render, toList_render] at hlines
  have hfilter := congrArg (List.filter fun line => decide (line.head? = some '\t'))
    (lines_inj (notMem_lineTexts hstyle fits) (notMem_lineTexts hstyle otherFits) hlines)
  rw [filter_lineTexts hstyle fits, filter_lineTexts hstyle otherFits] at hfilter
  have hall := List.map_injective_iff.mpr (fun _ _ => String.toList_inj.mp) hfilter
  obtain ⟨horigin, hrest⟩ := List.cons_eq_cons.mp hall
  refine ⟨Hex.word_inj (String.toList_inj.mp ?_), hrest⟩
  have hword : ("\tORG $" ++ Hex.word origin).toList =
    ("\tORG $" ++ Hex.word otherOrigin).toList := congrArg String.toList horigin
  rwa [String.toList_append, String.toList_append, List.append_cancel_left_eq] at hword

end Listing

/-! ## Two runs -/

/-- Where an entry stands and the bytes that it was decoded from. -/
def Entry.located (entry : Entry) : Address × List UInt8 :=
  (entry.address, entry.instruction.bytes)

/-- The first entries that differ are at one address the two encodings of a load or store. -/
def Diverge (entries others : List Entry) : Prop :=
  ∃ before otherBefore entry otherEntry after otherAfter,
    entries = before ++ entry :: after ∧ others = otherBefore ++ otherEntry :: otherAfter ∧
    before.map Entry.located = otherBefore.map Entry.located ∧
    entry.address = otherEntry.address ∧
    (Twin entry.instruction.bytes otherEntry.instruction.bytes ∨
      Twin otherEntry.instruction.bytes entry.instruction.bytes)

theorem Diverge.cons {entry otherEntry : Entry} {entries others : List Entry}
    (hlocated : entry.located = otherEntry.located) (h : Diverge entries others) :
    Diverge (entry :: entries) (otherEntry :: others) := by
  obtain ⟨before, otherBefore, first, otherFirst, after, otherAfter, rfl, rfl, hbefore, hrest⟩ := h
  refine ⟨entry :: before, otherEntry :: otherBefore, first, otherFirst, after, otherAfter, rfl, rfl,
    ?_, hrest⟩
  rw [List.map_cons, List.map_cons, hlocated, hbefore]

theorem located_finish (architecture : Architecture) (labels : LabelMap) (image : Span)
    (entry : Entry) : (entry.finish architecture labels image).located = entry.located := by
  rw [Entry.located, finish_address, finish_bytes]
  rfl

/-- Two runs whose statements are the same go through the same bytes, until one meets the other
encoding of a load or store. -/
theorem Swept.same_or_diverge {architecture : Architecture} {origin : Address} {offset : Nat}
    {options : Listing.Options} {labels otherLabels : LabelMap} {span otherSpan : Span}
    {bytes otherBytes : List UInt8} {entries others : List Entry}
    (h : Swept architecture origin offset bytes entries)
    (hother : Swept architecture origin offset otherBytes others)
    (hshown : ∀ entry ∈ entries, (entry.finish architecture labels span).instruction.Shown)
    (hotherShown : ∀ entry ∈ others,
      (entry.finish architecture otherLabels otherSpan).instruction.Shown)
    (hlines : (entries.map (Entry.finish architecture labels span)).map
        (fun entry => (Listing.statementLine options entry).text) =
      (others.map (Entry.finish architecture otherLabels otherSpan)).map
        (fun entry => (Listing.statementLine options entry).text)) :
    entries.map Entry.located = others.map Entry.located ∨
      architecture = .z80 ∧ Diverge (entries.map (Entry.finish architecture labels span))
        (others.map (Entry.finish architecture otherLabels otherSpan)) := by
  induction h generalizing otherBytes others with
  | done offset =>
    cases hother with
    | done => exact .inl rfl
    | step otherRun => cases hlines
  | @step offset first rest entries run ih =>
    cases hother with
    | done => cases hlines
    | @step _ otherFirst otherRest others otherRun =>
      obtain ⟨hline, hrest⟩ := List.cons_eq_cons.mp hlines
      have hdecoded := decoded_decodeFirst architecture offset first rest
      have hotherDecoded := decoded_decodeFirst architecture offset otherFirst otherRest
      have hpresents := presents_finish (hshown _ List.mem_cons_self)
      have hotherPresents := presents_finish (hotherShown _ List.mem_cons_self)
      obtain ⟨hmnemonic, htexts⟩ := statement_inj (hpresents.wordy hdecoded)
        (hotherPresents.wordy hotherDecoded) hline
      rcases hpresents.bytes_eq_or_twin hdecoded hotherDecoded hotherPresents hmnemonic htexts with
        hbytes | ⟨hz80, htwin⟩
      · -- Both cursors move on by the same distance.
        have hsize : (decodeFirst architecture offset otherFirst otherRest).size =
            (decodeFirst architecture offset first rest).size := congrArg List.length hbytes.symm
        rw [hsize] at otherRun
        have hlocated : ((decodeFirst architecture offset first rest).place offset.toUInt16 origin
            architecture).located = ((decodeFirst architecture offset otherFirst otherRest).place
              offset.toUInt16 origin architecture).located := by
          rw [Entry.located, Entry.located, place_bytes, place_bytes, hbytes]
          rfl
        rcases ih otherRun (fun entry hmem => hshown entry (List.mem_cons_of_mem _ hmem))
          (fun entry hmem => hotherShown entry (List.mem_cons_of_mem _ hmem)) hrest with
          hsame | ⟨hz80, hdiverge⟩
        · left
          rw [List.map_cons, List.map_cons, hlocated, hsame]
        · refine .inr ⟨hz80, hdiverge.cons ?_⟩
          rw [located_finish, located_finish, hlocated]
      · refine .inr ⟨hz80, [], [], _, _, _, _, rfl, rfl, rfl, ?_, ?_⟩
        · rw [finish_address, finish_address, place_address, place_address]
        · rw [finish_bytes, finish_bytes, place_bytes, place_bytes]
          exact htwin

/-! ## Sources -/

/-- The source of an image tells the origin and the image, except that the Z80 can store and load the
register pair `HL` by two encodings each. On the 8080 and the 8085 it tells the image. -/
theorem source_lossless {architecture : Architecture} {options : Listing.Options}
    {image other : List UInt8} {origin otherOrigin : Address}
    {disassembly otherDisassembly : Disassembly} (hstyle : options.style = .source)
    (h : disassemble image origin architecture = .ok disassembly)
    (hother : disassemble other otherOrigin architecture = .ok otherDisassembly)
    (hrender : Listing.render options disassembly = Listing.render options otherDisassembly) :
    origin = otherOrigin ∧
      (image = other ∨ architecture = .z80 ∧
        Diverge disassembly.entries.toList otherDisassembly.entries.toList) := by
  obtain ⟨fits, rfl⟩ := eq_finished_of_disassemble h
  obtain ⟨otherFits, rfl⟩ := eq_finished_of_disassemble hother
  obtain ⟨rfl, hlines⟩ := Listing.statements_eq_of_render_eq hstyle fits otherFits hrender
  have hrun := swept_rawEntries architecture origin image
  have hotherRun := swept_rawEntries architecture origin other
  have hshown : ∀ {image : List UInt8}, origin.toNat + image.length ≤ addressSpace →
      ∀ entry ∈ rawEntries architecture origin image, (entry.finish architecture
        (LabelMap.ofEntries (rawEntries architecture origin image))
          ⟨origin, image.length⟩).instruction.Shown := by
    intro image fits entry hentry
    exact shown_of_mem fits (Array.mem_toList_iff.mp (List.mem_map_of_mem hentry))
  refine ⟨rfl, ?_⟩
  rcases hrun.same_or_diverge hotherRun (hshown fits) (hshown otherFits) hlines with
    hsame | hdiverge
  · left
    have hbytes := congrArg (List.flatMap Prod.snd) hsame
    rw [List.flatMap_map, List.flatMap_map] at hbytes
    exact hrun.bytes_eq.symm.trans (hbytes.trans hotherRun.bytes_eq)
  · exact .inr hdiverge

theorem render_store_eq :
    Listing.render { style := .source } (finished [0x22, 0x34, 0x12] 0x0100 .z80) =
      Listing.render { style := .source } (finished [0xED, 0x63, 0x34, 0x12] 0x0100 .z80) := by
  decide +kernel

/-- Two images of one source: a store of `HL` in its short and in its long encoding. -/
theorem source_lossless_store :
    ∃ disassembly otherDisassembly,
      disassemble [0x22, 0x34, 0x12] 0x0100 .z80 = .ok disassembly ∧
      disassemble [0xED, 0x63, 0x34, 0x12] 0x0100 .z80 = .ok otherDisassembly ∧
      Listing.render { style := .source } disassembly =
        Listing.render { style := .source } otherDisassembly ∧
      Diverge disassembly.entries.toList otherDisassembly.entries.toList := by
  have hshort : disassemble [0x22, 0x34, 0x12] 0x0100 .z80 =
    .ok (finished [0x22, 0x34, 0x12] 0x0100 .z80) := disassemble_eq_ok .z80 (by decide)
  have hlong : disassemble [0xED, 0x63, 0x34, 0x12] 0x0100 .z80 =
    .ok (finished [0xED, 0x63, 0x34, 0x12] 0x0100 .z80) := disassemble_eq_ok .z80 (by decide)
  refine ⟨_, _, hshort, hlong, render_store_eq, ?_⟩
  obtain ⟨-, himage | ⟨-, hdiverge⟩⟩ := source_lossless rfl hshort hlong render_store_eq
  · exact absurd himage (by decide)
  · exact hdiverge

end Disasm
