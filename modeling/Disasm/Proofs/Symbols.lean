import Mathlib.Data.List.Nodup
import Disasm.Proofs.Lookup
import Disasm.Proofs.Source

/-!
# Symbols of a source

A line of a source defines the symbol in its first column, `symbol?`. Three passes have to agree on what
is defined: the header defines the labels that point into the middle of an entry, each entry has the
label of its address above it, and operands name labels of the image only.

`definitions` lists the labels that the first two define. They are the labels of the image
(`mem_definitions`), each of them once (`nodup_names`), and they are the symbols that the lines define
(`symbols_render`).
-/

namespace Disasm

namespace Listing

/-! ## Reading a source -/

/-- The characters that end a symbol. -/
def symbolEnds : List Char := [':', '\t']

/-- The symbol that a line defines: what stands from the first column up to a colon or a tabulator.
Statements start with a tabulator and remarks with a semicolon; they define nothing. -/
def symbol? : List Char → Option (List Char)
  | [] => none
  | first :: rest =>
    if first = '\t' ∨ first = ';' then none
    else some ((first :: rest).takeWhile (· ∉ symbolEnds))

/-- The symbols that lines define, definition by definition. -/
def symbols (lines : List (List Char)) : List (List Char) :=
  lines.filterMap symbol?

/-- Whether a line is a statement. -/
def isIndented (line : List Char) : Bool :=
  line.head? = some '\t'

/-- The operands of a statement: its words without the mnemonic and the commas between them. -/
def statementOperands (line : List Char) : List (List Char) :=
  dropCommas (statementWords line).tail
where
  dropCommas : List (List Char) → List (List Char)
    | [] => []
    | [word] => [word]
    | word :: next :: words => word.dropLast :: dropCommas (next :: words)

def textLines (text : String) : List (List Char) :=
  text.toList.splitOn '\n'

/-- The label has a line of its own, directly above the statement of the entry. Statements are counted
from the one that sets the origin. -/
def DefinedAbove (lines : List (List Char)) (label : Label) (index : Nat) (entry : Entry) : Prop :=
  ∃ before statement after, lines = before ++ (label.name ++ ":").toList :: statement :: after ∧
    before.countP isIndented = index + 1 ∧ '\t' :: entry.instruction.text.toList <+: statement

/-- The label is equated with an address, above the first instruction. -/
def DefinedInHeader (lines : List (List Char)) (label : Label) (address : Address) : Prop :=
  ∃ before after,
    lines = before ++ (label.name ++ "\tEQU $" ++ Hex.word address).toList :: after ∧
      before.countP isIndented = 1

/-- Lines that define each label of an image once, at its place, and no other symbol. -/
structure DefinesLabels (image : Span) (disassembly : Disassembly) (lines : List (List Char)) :
    Prop where
  once : ∀ address label, disassembly.labels[address]? = some label → image.contains address →
    (symbols lines).count label.name.toList = 1
  /-- A label stands above the entry at its address, or in the header if its address falls inside an
  entry. -/
  placed : ∀ address label, disassembly.labels[address]? = some label → image.contains address →
    ∃ index entry, disassembly.entries[index]? = some entry ∧
      (entry.address = address ∧ DefinedAbove lines label index entry ∨
        entry.address < address ∧ address.toNat < entry.address.toNat + entry.instruction.size ∧
          DefinedInHeader lines label address)
  outside : ∀ address label, disassembly.labels[address]? = some label →
    ¬ image.contains address → label.name.toList ∉ symbols lines
  /-- Nothing but labels of the image is defined. -/
  nothing_else : ∀ symbol ∈ symbols lines, ∃ (address : Address) (label : Label),
    disassembly.labels[address]? = some label ∧ image.contains address ∧
      label.name.toList = symbol
  /-- A label that is an operand is defined. -/
  operands : ∀ line ∈ lines, isIndented line → ∀ (address : Address) (label : Label),
    disassembly.labels[address]? = some label →
      label.name.toList ∈ statementOperands line → label.name.toList ∈ symbols lines
  /-- No other operand can be taken for a label. -/
  names : ∀ line ∈ lines, isIndented line → ∀ (kind : TargetKind) (address : Address),
    (kind.tag ++ Hex.word address).toList ∈ statementOperands line →
      (kind.tag ++ Hex.word address).toList ∈ symbols lines

/-! ## Symbols line by line -/

/-- The symbol that a line of a listing defines. -/
def lineSymbol? (line : Line) : Option (List Char) :=
  symbol? line.text.toList

section Kinds

variable (kind : TargetKind) (address : Address)

theorem notMem_symbolEnds {char : Char} (h : char ∈ (kind.tag ++ Hex.word address).toList) :
    char ∉ symbolEnds := by
  rw [String.toList_append, List.mem_append] at h
  rcases h with htag | hword
  · have htags : ∀ char ∈ kind.tag.toList, char ∉ symbolEnds := by
      cases kind <;> simp [TargetKind.tag, symbolEnds]
    exact htags char htag
  · rw [Hex.word, String.toList_ofList] at hword
    obtain ⟨number, hlt, rfl⟩ := Hex.exists_digit_of_mem_field hword
    have hdigits : ∀ number < 16, Hex.digit number ∉ symbolEnds := by decide
    exact hdigits number hlt

/-- A name in the first column is a symbol. -/
theorem symbol?_name {stop : Char} (hstop : stop ∈ symbolEnds) (rest : List Char) :
    symbol? ((kind.tag ++ Hex.word address).toList ++ stop :: rest) =
      some (kind.tag ++ Hex.word address).toList := by
  have htake : ((kind.tag ++ Hex.word address).toList ++ stop :: rest).takeWhile (· ∉ symbolEnds) =
      (kind.tag ++ Hex.word address).toList := by
    rw [List.takeWhile_append_of_pos, List.takeWhile_cons_of_neg (by simpa using hstop),
      List.append_nil]
    intro char hchar
    exact decide_eq_true (notMem_symbolEnds kind address hchar)
  obtain ⟨first, tail, hname, hfirst⟩ : ∃ first tail, (kind.tag ++ Hex.word address).toList =
      first :: tail ∧ ¬ (first = '\t' ∨ first = ';') := by
    rw [String.toList_append]
    cases kind <;> exact ⟨_, _, rfl, by decide⟩
  rw [hname] at htake ⊢
  rw [List.cons_append] at htake ⊢
  rw [symbol?, if_neg hfirst, htake]

theorem lineSymbol?_label :
    lineSymbol? (.label (kind.tag ++ Hex.word address)) =
      some (kind.tag ++ Hex.word address).toList := by
  show symbol? (kind.tag ++ Hex.word address ++ ":").toList = _
  rw [String.toList_append]
  exact symbol?_name kind address (by decide) []

theorem lineSymbol?_equate :
    lineSymbol? (.equate (kind.tag ++ Hex.word address) address) =
      some (kind.tag ++ Hex.word address).toList := by
  have hrest : ("\tEQU $" ++ Hex.word address).toList =
      '\t' :: ("EQU $".toList ++ (Hex.word address).toList) := by
    rw [String.toList_append]
    rfl
  show symbol? (kind.tag ++ Hex.word address ++ "\tEQU $" ++ Hex.word address).toList = _
  rw [String.append_assoc, String.toList_append, hrest]
  exact symbol?_name kind address (by decide) _

end Kinds

theorem lineSymbol?_references (label : Label) : lineSymbol? (.references label) = none := by
  show symbol? ("; referenced from " ++ label.sourcesText).toList = none
  rw [String.toList_append]
  rfl

theorem lineSymbol?_of_isStatement {line : Line} (h : isStatement line) :
    lineSymbol? line = none := by
  have hhead : line.text.toList.head? = some '\t' := of_decide_eq_true h
  obtain ⟨rest, hrest⟩ := List.head?_eq_some_iff.mp hhead
  rw [lineSymbol?, hrest]
  rfl

/-! ## The definitions -/

/-- The labels that the header defines. -/
def equated (disassembly : Disassembly) : List (Address × Label) :=
  disassembly.labels.toList.filter fun (address, _) =>
    disassembly.image.contains address && (disassembly.entryAt? address).isNone

def equateLine (definition : Address × Label) : Line :=
  .equate definition.2.name definition.1

theorem equates_eq (disassembly : Disassembly) :
    equates disassembly = (equated disassembly).map equateLine := rfl

/-- The labels that stand above their entries. -/
def above (disassembly : Disassembly) : List (Address × Label) :=
  disassembly.entries.toList.filterMap fun entry => entry.label.map (entry.address, ·)

/-- The labels that a source defines, with their addresses. -/
def definitions (disassembly : Disassembly) : List (Address × Label) :=
  equated disassembly ++ above disassembly

section Image

variable {architecture : Architecture} {origin : Address} {image : List UInt8}

theorem mem_above {address : Address} {label : Label} :
    (address, label) ∈ above (finished image origin architecture) ↔
      (finished image origin architecture).labels[address]? = some label ∧
        ∃ entry ∈ (finished image origin architecture).entries, entry.address = address := by
  unfold above
  rw [List.mem_filterMap]
  constructor
  · rintro ⟨entry, hentry, hmap⟩
    rw [Array.mem_toList_iff] at hentry
    obtain ⟨found, hfound, heq⟩ := Option.map_eq_some_iff.mp hmap
    obtain ⟨rfl, rfl⟩ := Prod.mk.inj heq
    exact ⟨label_finished hentry ▸ hfound, entry, hentry, rfl⟩
  · rintro ⟨hknown, entry, hentry, rfl⟩
    refine ⟨entry, Array.mem_toList_iff.mpr hentry, ?_⟩
    rw [label_finished hentry, hknown]
    rfl

theorem mem_equated (fits : origin.toNat + image.length ≤ addressSpace) {address : Address}
    {label : Label} :
    (address, label) ∈ equated (finished image origin architecture) ↔
      (finished image origin architecture).labels[address]? = some label ∧
        (finished image origin architecture).image.contains address ∧
        ∀ entry ∈ (finished image origin architecture).entries, entry.address ≠ address := by
  unfold equated
  rw [List.mem_filter, Std.TreeMap.mem_toList_iff_getElem?_eq_some, Bool.and_eq_true,
    Disassembly.entryAt?_isNone_iff (finished_covers architecture fits).ascends]

theorem mem_definitions (fits : origin.toNat + image.length ≤ addressSpace) {address : Address}
    {label : Label} :
    (address, label) ∈ definitions (finished image origin architecture) ↔
      (finished image origin architecture).labels[address]? = some label ∧
        (finished image origin architecture).image.contains address := by
  unfold definitions
  rw [List.mem_append, mem_above, mem_equated fits]
  constructor
  · rintro (⟨hlabel, hcontains, -⟩ | ⟨hlabel, entry, hentry, rfl⟩)
    · exact ⟨hlabel, hcontains⟩
    · exact ⟨hlabel, contains_of_mem fits hentry⟩
  · rintro ⟨hlabel, hcontains⟩
    by_cases hstarts : ∃ entry ∈ (finished image origin architecture).entries,
        entry.address = address
    · exact .inr ⟨hlabel, hstarts⟩
    · refine .inl ⟨hlabel, hcontains, fun entry hentry haddress => ?_⟩
      exact hstarts ⟨entry, hentry, haddress⟩

/-- No address is defined twice: the header defines none at which an entry starts. -/
theorem pairwise_definitions (fits : origin.toNat + image.length ≤ addressSpace) :
    (definitions (finished image origin architecture)).Pairwise fun definition later =>
      definition.1 ≠ later.1 := by
  unfold definitions
  refine List.pairwise_append.mpr ⟨?_, ?_, ?_⟩
  · refine List.Pairwise.sublist List.filter_sublist ?_
    refine Std.TreeMap.distinct_keys_toList.imp fun hne => ?_
    rwa [Std.compare_eq_iff_eq] at hne
  · unfold above
    rw [List.pairwise_filterMap]
    refine (finished_covers architecture fits).ascends.imp ?_
    intro entry later hlt definition hdefinition laterDefinition hlater
    obtain ⟨label, -, rfl⟩ := Option.map_eq_some_iff.mp hdefinition
    obtain ⟨laterLabel, -, rfl⟩ := Option.map_eq_some_iff.mp hlater
    exact UInt16.ne_of_lt hlt
  · rintro ⟨address, label⟩ hequated ⟨other, otherLabel⟩ habove rfl
    obtain ⟨-, -, hnone⟩ := (mem_equated fits).mp hequated
    obtain ⟨-, entry, hentry, haddress⟩ := mem_above.mp habove
    exact hnone entry hentry haddress

theorem nodup_names (fits : origin.toNat + image.length ≤ addressSpace) :
    ((definitions (finished image origin architecture)).map (·.2.name.toList)).Nodup := by
  refine List.pairwise_map.mpr ((pairwise_definitions fits).imp_of_mem ?_)
  rintro ⟨address, label⟩ ⟨other, otherLabel⟩ hmem hother hne hname
  obtain ⟨kind, hkind⟩ := name_of_getElem? fits ((mem_definitions fits).mp hmem).1
  obtain ⟨otherKind, hotherKind⟩ := name_of_getElem? fits ((mem_definitions fits).mp hother).1
  have hnames : label.name = otherLabel.name := String.toList_inj.mp hname
  rw [hkind, hotherKind] at hnames
  exact hne (name_inj hnames)

/-! ## The lines of a source -/

variable {options : Options}

theorem textLines_render (hstyle : options.style = .source)
    (fits : origin.toNat + image.length ≤ addressSpace) :
    textLines (render options (finished image origin architecture)) =
      (lines options (finished image origin architecture)).map (·.text.toList) ++ [[]] := by
  unfold textLines
  rw [toList_render, splitOn_lines (notMem_lineTexts hstyle fits)]

theorem headerLines_eq (hstyle : options.style = .source) (disassembly : Disassembly) :
    ∃ divider, headerLines options disassembly = .origin disassembly.image.origin ::
        (equated disassembly).map equateLine ++ divider ∧ ∀ line ∈ divider, line = .blank := by
  unfold headerLines
  rw [hstyle]
  refine ⟨_, rfl, fun line hline => ?_⟩
  split at hline
  · cases hline
  · exact List.mem_singleton.mp hline

theorem filterMap_lineSymbol?_headerLines (hstyle : options.style = .source)
    (fits : origin.toNat + image.length ≤ addressSpace) :
    (headerLines options (finished image origin architecture)).filterMap lineSymbol? =
      (equated (finished image origin architecture)).map (·.2.name.toList) := by
  obtain ⟨divider, hheader, hblank⟩ := headerLines_eq hstyle (finished image origin architecture)
  have hdivider : divider.filterMap lineSymbol? = [] := by
    rw [List.filterMap_eq_nil_iff]
    intro line hline
    rw [hblank line hline]
    rfl
  rw [hheader, List.filterMap_append, hdivider, List.append_nil,
    List.filterMap_cons_none (lineSymbol?_of_isStatement (isStatement_origin _)), List.filterMap_map,
    ← List.filterMap_eq_map]
  refine List.filterMap_congr ?_
  rintro ⟨address, label⟩ hmem
  obtain ⟨kind, hkind⟩ := name_of_getElem? fits ((mem_equated fits).mp hmem).1
  show lineSymbol? (.equate label.name address) = some label.name.toList
  rw [hkind]
  exact lineSymbol?_equate kind address

theorem filterMap_lineSymbol?_entryLines {entry : Entry} (hstyle : options.style = .source)
    (fits : origin.toNat + image.length ≤ addressSpace)
    (h : entry ∈ (finished image origin architecture).entries) :
    (entryLines options entry).filterMap lineSymbol? =
      (entry.label.map (·.name.toList)).toList := by
  rw [entryLines_source hstyle, List.filterMap_append,
    List.filterMap_cons_none (lineSymbol?_of_isStatement (isStatement_statementLine entry)),
    List.filterMap_nil, List.append_nil]
  rcases hlabel : entry.label with _ | label
  · rfl
  obtain ⟨kind, hkind⟩ := label_of_mem fits h hlabel
  have hsymbol : lineSymbol? (.label label.name) = some label.name.toList := by
    rw [hkind]
    exact lineSymbol?_label kind entry.address
  rw [Option.toList_some, List.flatMap_singleton]
  unfold labelLines
  split
  · rw [List.filterMap_cons_none (lineSymbol?_references label), List.filterMap_cons_some hsymbol]
    rfl
  · rw [List.filterMap_cons_some hsymbol]
    rfl

theorem symbols_render (hstyle : options.style = .source)
    (fits : origin.toNat + image.length ≤ addressSpace) :
    symbols (textLines (render options (finished image origin architecture))) =
      (definitions (finished image origin architecture)).map (·.2.name.toList) := by
  have hentries : ∀ entry ∈ (finished image origin architecture).entries.toList,
      (entryLines options entry).filterMap lineSymbol? =
        (entry.label.map (·.name.toList)).toList := fun entry hentry =>
    filterMap_lineSymbol?_entryLines hstyle fits (Array.mem_toList_iff.mp hentry)
  unfold symbols
  rw [textLines_render hstyle fits, List.filterMap_append, List.filterMap_map]
  show (lines options (finished image origin architecture)).filterMap lineSymbol? ++ [] = _
  rw [List.append_nil, lines, List.filterMap_append, filterMap_lineSymbol?_headerLines hstyle fits,
    List.filterMap_flatMap, List.flatMap_congr hentries, ← List.filterMap_eq_flatMap_toList]
  unfold definitions above
  rw [List.map_append, List.map_filterMap]
  congr 2
  funext entry
  rw [Option.map_map]
  rfl

/-! ## Places of the definitions -/

theorem countP_isIndented (lines : List Line) :
    (lines.map (·.text.toList)).countP isIndented = (lines.filter isStatement).length := by
  rw [List.countP_map, List.countP_eq_length_filter]
  rfl

/-- A label stands on the last of its lines. -/
theorem labelLines_eq (options : Options) (label : Label) :
    ∃ remarks, labelLines options label = remarks ++ [.label label.name] := by
  unfold labelLines
  split
  · exact ⟨[.references label], rfl⟩
  · exact ⟨[], rfl⟩

theorem definedAbove_of_label {index : Nat} {entry : Entry} {label : Label}
    (hstyle : options.style = .source) (fits : origin.toNat + image.length ≤ addressSpace)
    (hentry : (finished image origin architecture).entries[index]? = some entry)
    (hlabel : entry.label = some label) :
    DefinedAbove (textLines (render options (finished image origin architecture))) label index
      entry := by
  rw [← Array.getElem?_toList] at hentry
  obtain ⟨hindex, hget⟩ := List.getElem?_eq_some_iff.mp hentry
  have hsplit : (finished image origin architecture).entries.toList =
      (finished image origin architecture).entries.toList.take index ++
        entry :: (finished image origin architecture).entries.toList.drop (index + 1) := by
    rw [← hget, ← List.drop_eq_getElem_cons, List.take_append_drop]
  have hmem : entry ∈ (finished image origin architecture).entries :=
    Array.mem_toList_iff.mp (hget ▸ List.getElem_mem hindex)
  obtain ⟨remarks, hremarks⟩ := labelLines_eq options label
  have hlabelLines : entry.label.toList.flatMap (labelLines options) =
      remarks ++ [.label label.name] := by
    rw [hlabel, Option.toList_some, List.flatMap_singleton, hremarks]
  have hasides : remarks.filter isStatement = [] := by
    refine filter_asides fun line hline => ?_
    have hline : line ∈ entry.label.toList.flatMap (labelLines options) := by
      rw [hlabelLines]
      exact List.mem_append_left _ hline
    exact aside_of_mem_labelLines fits hmem hline
  have hearlier : ∀ entry ∈ (finished image origin architecture).entries.toList.take index,
      (entryLines options entry).filter isStatement = [statementLine options entry] :=
    fun entry hentry => filter_entryLines hstyle fits
      (Array.mem_toList_iff.mp (List.mem_of_mem_take hentry))
  refine ⟨(headerLines options (finished image origin architecture) ++
      ((finished image origin architecture).entries.toList.take index).flatMap
        (entryLines options) ++ remarks).map (·.text.toList),
    (statementLine options entry).text.toList,
    (((finished image origin architecture).entries.toList.drop (index + 1)).flatMap
      (entryLines options)).map (·.text.toList) ++ [[]], ?_, ?_, ?_⟩
  · rw [textLines_render hstyle fits, lines]
    conv_lhs => rw [hsplit]
    rw [List.flatMap_append, List.flatMap_cons, entryLines_source hstyle, hlabelLines]
    simp only [List.map_append, List.append_assoc, List.map_cons, List.cons_append,
      List.nil_append]
    rfl
  · rw [countP_isIndented, List.filter_append, List.filter_append, filter_headerLines hstyle fits,
      hasides, List.filter_flatMap, List.flatMap_congr hearlier, ← List.map_eq_flatMap,
      List.append_nil, List.length_append, List.length_map, List.length_take, List.length_singleton]
    omega
  · rw [statementLine, toList_statement, ← List.cons_append]
    exact List.prefix_append _ _

theorem definedInHeader_of_mem {address : Address} {label : Label}
    (hstyle : options.style = .source) (fits : origin.toNat + image.length ≤ addressSpace)
    (h : (address, label) ∈ equated (finished image origin architecture)) :
    DefinedInHeader (textLines (render options (finished image origin architecture))) label
      address := by
  obtain ⟨before, after, hequated⟩ := List.append_of_mem h
  obtain ⟨divider, hheader, -⟩ := headerLines_eq hstyle (finished image origin architecture)
  have hasides : (before.map equateLine).filter isStatement = [] := by
    refine filter_asides fun line hline => ?_
    have hline : line ∈ equates (finished image origin architecture) := by
      rw [equates_eq, hequated, List.map_append]
      exact List.mem_append_left _ hline
    exact aside_of_mem_equates fits hline
  refine ⟨(.origin origin :: before.map equateLine).map (·.text.toList),
    (after.map equateLine ++ divider ++
      (finished image origin architecture).entries.toList.flatMap (entryLines options)).map
        (·.text.toList) ++ [[]], ?_, ?_⟩
  · rw [textLines_render hstyle fits, lines, hheader, hequated]
    simp only [List.map_append, List.append_assoc, List.map_cons, List.cons_append]
    rfl
  · rw [countP_isIndented, List.filter_cons_of_pos (isStatement_origin origin), hasides]
    rfl

end Image

/-! ## Operands -/

theorem dropCommas_commaWords (words : List (List Char)) :
    statementOperands.dropCommas (commaWords words) = words := by
  induction words with
  | nil => rfl
  | cons word words ih =>
    rcases words with _ | ⟨next, words⟩
    · rfl
    · obtain ⟨first, rest, hrest⟩ : ∃ first rest, commaWords (next :: words) = first :: rest := by
        rcases words with _ | ⟨last, words⟩
        · exact ⟨_, _, rfl⟩
        · exact ⟨_, _, rfl⟩
      rw [commaWords, hrest, statementOperands.dropCommas, ← hrest, ih, List.dropLast_concat]

theorem statementOperands_statement {instruction : Instruction} (h : instruction.Wordy)
    (comment : Option String) :
    statementOperands (Line.statement instruction.text comment).text.toList =
      instruction.operandTexts.map String.toList := by
  rw [statementOperands, statementWords_statement h]
  exact dropCommas_commaWords _

/-- A statement sets the origin like an instruction with one operand. -/
def originInstruction (address : Address) : Instruction :=
  { mnemonic := "ORG", operands := [.imm16 address], bytes := [] }

theorem text_origin (address : Address) :
    (Line.origin address).text = (Line.statement (originInstruction address).text none).text := by
  rw [← String.toList_inj]
  show ("\tORG $" ++ Hex.word address).toList =
    ("\t" ++ ("ORG" ++ " " ++ ("$" ++ Hex.word address)) ++ "").toList
  simp

theorem wordy_originInstruction (address : Address) : (originInstruction address).Wordy := by
  refine wordy_of_plain ?_ (show Plain "ORG" by decide) ?_
  · intro name hname
    cases hname
  · intro operand hoperand
    rw [List.mem_singleton.mp hoperand]
    trivial

theorem underscore_mem_name (kind : TargetKind) (address : Address) :
    '_' ∈ (kind.tag ++ Hex.word address).toList := by
  rw [String.toList_append]
  refine List.mem_append_left _ ?_
  cases kind <;> decide

/-- An operand that is a name is the label of the target. -/
theorem targetLabel_of_name {instruction : Instruction} {operand : Operand} {kind : TargetKind}
    {address : Address} (hplain : operand.IsPlain)
    (h : instruction.renderOperand operand = kind.tag ++ Hex.word address) :
    instruction.targetLabel = some (kind.tag ++ Hex.word address) := by
  have hsymbolic : operand = .target ∨ operand = .vector →
      instruction.targetLabel = some (kind.tag ++ Hex.word address) := by
    intro hoperand
    rcases hlabel : instruction.targetLabel with _ | name
    · rcases htarget : instruction.target with _ | target
      · rcases hoperand with rfl | rfl <;>
          simp only [Instruction.renderOperand, hlabel, htarget] at h
        · exact absurd h.symm (tag_append_ne kind _ "????")
        · exact absurd h.symm (tag_append_ne kind _ "??")
      · rcases hoperand with rfl | rfl <;>
          simp only [Instruction.renderOperand, hlabel, htarget] at h
        · exact absurd h.symm (tag_append_ne kind _ _)
        · exact absurd h.symm (tag_append_ne kind _ _)
    · rcases hoperand with rfl | rfl <;> simp only [Instruction.renderOperand, hlabel] at h <;>
        rw [h]
  have hopen : ∀ digits, "($" ++ digits ++ ")" ≠ kind.tag ++ Hex.word address := by
    intro digits heq
    have hhead := congrArg (List.head? ∘ String.toList) heq
    cases kind <;> simp [TargetKind.tag] at hhead
  cases operand with
  | text fixed =>
    have hmark := underscore_mem_name kind address
    rw [← h] at hmark
    exact absurd hmark (Plain.notMem hplain '_' (by decide))
  | imm8 value => exact absurd h.symm (tag_append_ne kind _ _)
  | imm16 value => exact absurd h.symm (tag_append_ne kind _ _)
  | port value => exact absurd h (hopen _)
  | direct address => exact absurd h (hopen _)
  | target => exact hsymbolic (.inl rfl)
  | vector => exact hsymbolic (.inr rfl)

section Image

variable {architecture : Architecture} {origin : Address} {image : List UInt8} {options : Options}
  (hstyle : options.style = .source) (fits : origin.toNat + image.length ≤ addressSpace)

include hstyle fits

theorem mem_symbols_iff {symbol : List Char} :
    symbol ∈ symbols (textLines (render options (finished image origin architecture))) ↔
      ∃ (address : Address) (label : Label),
        (finished image origin architecture).labels[address]? = some label ∧
        (finished image origin architecture).image.contains address ∧ label.name.toList = symbol := by
  rw [symbols_render hstyle fits, List.mem_map]
  constructor
  · rintro ⟨⟨address, label⟩, hmem, rfl⟩
    obtain ⟨hlabel, hcontains⟩ := (mem_definitions fits).mp hmem
    exact ⟨address, label, hlabel, hcontains, rfl⟩
  · rintro ⟨address, label, hlabel, hcontains, rfl⟩
    exact ⟨(address, label), (mem_definitions fits).mpr ⟨hlabel, hcontains⟩, rfl⟩

/-- The statements of a source set the origin or are those of its entries. -/
theorem instruction_of_isIndented {line : List Char}
    (hline : line ∈ textLines (render options (finished image origin architecture)))
    (h : isIndented line) :
    line = (Line.origin origin).text.toList ∨
      ∃ entry ∈ (finished image origin architecture).entries,
        line = (statementLine options entry).text.toList := by
  rw [textLines_render hstyle fits, List.mem_append, List.mem_map] at hline
  rcases hline with ⟨line, hline, rfl⟩ | hline
  · have hfilter : line ∈ (lines options (finished image origin architecture)).filter isStatement :=
      List.mem_filter.mpr ⟨hline, h⟩
    rw [filter_lines hstyle fits] at hfilter
    rcases List.mem_cons.mp hfilter with rfl | hmem
    · exact .inl rfl
    · obtain ⟨entry, hentry, rfl⟩ := List.mem_map.mp hmem
      exact .inr ⟨entry, Array.mem_toList_iff.mp hentry, rfl⟩
  · rw [List.mem_singleton.mp hline] at h
    cases h

/-- A name that is an operand is the label of a target in the image. -/
theorem mem_symbols_of_operand {line : List Char}
    (hline : line ∈ textLines (render options (finished image origin architecture)))
    (hindented : isIndented line) {kind : TargetKind} {address : Address}
    (h : (kind.tag ++ Hex.word address).toList ∈ statementOperands line) :
    (kind.tag ++ Hex.word address).toList ∈
      symbols (textLines (render options (finished image origin architecture))) := by
  rcases instruction_of_isIndented hstyle fits hline hindented with rfl | ⟨entry, hentry, rfl⟩
  · rw [text_origin, statementOperands_statement (wordy_originInstruction origin)] at h
    obtain ⟨text, htext, heq⟩ := List.mem_map.mp h
    obtain rfl := List.mem_singleton.mp htext
    exact absurd (String.toList_inj.mp heq).symm (tag_append_ne kind _ _)
  · rw [statementLine, statementOperands_statement (statement_of_mem fits hentry).1] at h
    obtain ⟨text, htext, heq⟩ := List.mem_map.mp h
    obtain ⟨operand, hoperand, rfl⟩ := List.mem_map.mp htext
    have hlabel := targetLabel_of_name (operands_plain_of_mem fits hentry operand hoperand)
      (String.toList_inj.mp heq)
    obtain ⟨target, label, -, hlow, hhigh, hknown, hname⟩ :=
      (targetLabel_eq_some_iff hentry).mp hlabel
    refine (mem_symbols_iff hstyle fits).mpr ⟨target, label, hknown, ?_, ?_⟩
    · exact contains_iff.mpr ⟨hlow, hhigh⟩
    · rw [hname]

theorem placed_of_label {address : Address} {label : Label}
    (hlabel : (finished image origin architecture).labels[address]? = some label)
    (hcontains : (finished image origin architecture).image.contains address) :
    ∃ index entry, (finished image origin architecture).entries[index]? = some entry ∧
      (entry.address = address ∧ DefinedAbove
          (textLines (render options (finished image origin architecture))) label index entry ∨
        entry.address < address ∧ address.toNat < entry.address.toNat + entry.instruction.size ∧
          DefinedInHeader (textLines (render options (finished image origin architecture))) label
            address) := by
  rcases List.mem_append.mp ((mem_definitions fits).mpr ⟨hlabel, hcontains⟩) with hheader | habove
  · obtain ⟨-, -, hnone⟩ := (mem_equated fits).mp hheader
    obtain ⟨entry, hentry, hle, hlt⟩ := exists_covering fits hcontains
    obtain ⟨index, hindex⟩ := Array.mem_iff_getElem?.mp hentry
    refine ⟨index, entry, hindex, .inr ⟨?_, hlt, definedInHeader_of_mem hstyle fits hheader⟩⟩
    have hne : entry.address.toNat ≠ address.toNat := fun heq =>
      hnone entry hentry (UInt16.toNat_inj.mp heq)
    rw [UInt16.lt_iff_toNat_lt]
    omega
  · obtain ⟨entry, hentry, hdefinition⟩ := List.mem_filterMap.mp habove
    obtain ⟨found, hfound, heq⟩ := Option.map_eq_some_iff.mp hdefinition
    obtain ⟨haddress, rfl⟩ := Prod.mk.inj heq
    obtain ⟨index, hindex⟩ := Array.mem_iff_getElem?.mp (Array.mem_toList_iff.mp hentry)
    exact ⟨index, entry, hindex,
      .inl ⟨haddress, definedAbove_of_label hstyle fits hindex hfound⟩⟩

end Image

end Listing

/-- A source defines each label of the image exactly once: above the entry at its address, or in the
header if the address falls inside an entry. It defines no other symbol, and all symbols that its
statements use. -/
theorem source_defines_labels {architecture : Architecture} {options : Listing.Options}
    {image : List UInt8} {origin : Address} {disassembly : Disassembly}
    (hstyle : options.style = .source)
    (h : disassemble image origin architecture = .ok disassembly) :
    Listing.DefinesLabels ⟨origin, image.length⟩ disassembly
      (Listing.textLines (Listing.render options disassembly)) := by
  obtain ⟨fits, rfl⟩ := eq_finished_of_disassemble h
  constructor
  case once =>
    intro address label hlabel hcontains
    refine List.count_eq_one_of_mem ?_ ?_
    · rw [Listing.symbols_render hstyle fits]
      exact Listing.nodup_names fits
    · exact (Listing.mem_symbols_iff hstyle fits).mpr ⟨address, label, hlabel, hcontains, rfl⟩
  case placed => exact fun address label => Listing.placed_of_label hstyle fits
  case outside =>
    intro address label hlabel hcontains hsymbol
    obtain ⟨other, otherLabel, hother, hinside, hname⟩ :=
      (Listing.mem_symbols_iff hstyle fits).mp hsymbol
    obtain ⟨kind, hkind⟩ := name_of_getElem? fits hlabel
    obtain ⟨otherKind, hotherKind⟩ := name_of_getElem? fits hother
    rw [String.toList_inj, hkind, hotherKind] at hname
    exact hcontains (name_inj hname ▸ hinside)
  case nothing_else => exact fun symbol => (Listing.mem_symbols_iff hstyle fits).mp
  case operands =>
    intro line hline hindented address label hlabel hoperand
    obtain ⟨kind, hkind⟩ := name_of_getElem? fits hlabel
    rw [hkind] at hoperand ⊢
    exact Listing.mem_symbols_of_operand hstyle fits hline hindented hoperand
  case names =>
    intro line hline hindented kind address
    exact Listing.mem_symbols_of_operand hstyle fits hline hindented

/-- A jump to itself, and one into the middle of the first. -/
theorem source_defines_labels_inside :
    ∃ disassembly, disassemble [0x18, 0xFE, 0x18, 0xFD] 0x0100 .z80 = .ok disassembly ∧
      Listing.symbols (Listing.textLines (Listing.render { style := .source } disassembly)) =
        ["R_0101".toList, "R_0100".toList] ∧
      Listing.DefinesLabels ⟨0x0100, 4⟩ disassembly
        (Listing.textLines (Listing.render { style := .source } disassembly)) :=
  have h := disassemble_eq_ok .z80 (by decide)
  ⟨_, h, by decide +kernel, source_defines_labels rfl h⟩

end Disasm
