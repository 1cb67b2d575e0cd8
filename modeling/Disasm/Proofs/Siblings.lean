import Mathlib.Data.List.Forall2
import Disasm.Proofs.Simulation
import Disasm.Proofs.Z80Scheme

/-!
# The 8080 beside the 8085

The 8080 and the 8085 have pages of their own, which hold the same rules. What the architecture is shows
in two places only: an opcode without a rule is unknown to one architecture or the other, and what the
8085 adds is foreign to the 8080.

1. The decoders agree up to the comment (`decodeFirst_i8085_eq`), so the runs go through the same places
   (`Swept.beside`) and find the same labels.
2. The four bytes without a rule are the prefixes of the Z80 (`rule?_i8080_eq_none_iff`). Each
   architecture names itself there (`siblings_unknown`).
3. Of the rules only those of the additions are judged differently (`judged_of_mem_codes`,
   `siblings_coded`).
-/

namespace Disasm

/-- The instructions that the 8085 adds to the 8080. -/
def additions8085 : List String := ["RIM", "SIM"]

/-- The bytes that are opcodes of neither architecture. -/
def foreignPrefixes : List UInt8 := [0xCB, 0xDD, 0xED, 0xFD]

/-- What an entry of the 8080 is on the 8085. -/
structure Siblings (i8080 i8085 : Entry) : Prop where
  /-- They agree in all but the comment. -/
  eq_upToComment : EqUpToComment i8080 i8085
  /-- The 8080 warns of what only the 8085 has. -/
  addition : i8080.instruction.mnemonic ∈ additions8085 →
    i8080.instruction.comment = some "WARNING: 8085 ONLY" ∧ i8085.instruction.comment = none
  /-- Each architecture names itself where a byte is no opcode of its own. -/
  unknown : i8080.instruction.mnemonic = "DB" → ∀ byte ∈ foreignPrefixes,
    i8080.instruction.bytes = [byte] →
      i8080.instruction.comment = some "Unknown opcode, not supported on 8080" ∧
        i8085.instruction.comment = some "Unknown opcode, not supported on 8085"
  /-- In all other cases the comments agree as well. -/
  same : i8080.instruction.mnemonic ∉ additions8085 →
    ¬ (i8080.instruction.mnemonic = "DB" ∧
      ∃ byte ∈ foreignPrefixes, i8080.instruction.bytes = [byte]) →
    i8085.instruction.comment = i8080.instruction.comment

/-! ## Decoding -/

theorem rule?_i8085_eq (first : UInt8) :
    (Page.base .i8085).rule? first = (Page.base .i8080).rule? first := rfl

/-- The first instruction is the same up to its comment. -/
theorem decodeFirst_i8085_eq (offset : Nat) (first : UInt8) (rest : List UInt8) :
    ∃ comment, decodeFirst .i8085 offset first rest =
      { decodeFirst .i8080 offset first rest with comment } := by
  rw [decodeFirst_base (.inr rfl), decodeFirst_base (.inr rfl), rule?_i8085_eq]
  split
  · exact ⟨_, rfl⟩
  · exact ⟨_, rfl⟩

theorem ofByte?_eq_none_iff (first : UInt8) :
    Prefix.ofByte? first = none ↔ first ∉ foreignPrefixes := by
  constructor
  · intro hnone hmem
    have hprefixes : foreignPrefixes.all (fun byte => (Prefix.ofByte? byte).isSome) = true := by
      decide
    have hsome := List.all_eq_true.mp hprefixes first hmem
    rw [hnone] at hsome
    cases hsome
  · intro hmem
    rcases hlead : Prefix.ofByte? first with _ | lead
    · rfl
    · obtain rfl := Prefix.eq_byte_of_ofByte? hlead
      exact absurd (show lead.byte ∈ foreignPrefixes by cases lead <;> decide) hmem

/-- The prefixes of the Z80 are the only bytes without a rule. -/
theorem rule?_i8080_eq_none_iff (first : UInt8) :
    (Page.base .i8080).rule? first = none ↔ first ∈ foreignPrefixes := by
  have hpage : ∀ opcode, (Page.base .i8080).rule? opcode =
      [Base.shared, Base.z80Additions, Base.i8085Additions].flatten.reverse.lookup opcode :=
    Page.rule?_ofLayers _ _
  constructor
  · intro hnone
    by_contra hmem
    by_cases hdiverging : first ∈ divergingBytes
    · -- The additions of the 8085 stand in the place of two jumps.
      have hadditions : ∀ opcode ∈ divergingBytes, opcode ∉ foreignPrefixes →
          [Base.shared, Base.z80Additions, Base.i8085Additions].flatten.reverse.lookup opcode ≠
            none := by
        decide +kernel
      exact hadditions first hdiverging hmem (hpage first ▸ hnone)
    · obtain ⟨rule, hrule⟩ := exists_rule_z80 ((ofByte?_eq_none_iff first).mpr hmem)
      rw [rule?_base_eq hdiverging, hrule] at hnone
      cases hnone
  · intro hmem
    have hforeign : ∀ opcode ∈ foreignPrefixes,
        [Base.shared, Base.z80Additions, Base.i8085Additions].flatten.reverse.lookup opcode =
          none := by
      decide +kernel
    exact (hpage first).trans (hforeign first hmem)

/-! ## Comments -/

theorem judged_of_mem_codes : ∀ entry ∈ Architecture.i8080.codes,
    ((entry.2.pattern .i8080).mnemonic ∈ additions8085 ↔ entry.2.mnemonic ∈ additions8085) ∧
      if entry.2.mnemonic ∈ additions8085 then
        entry.2.support = .i8085Only ∧ Intel.spelling? (entry.2.instruction 0 0 []) = none
      else entry.2.support.warning? .i8085 = entry.2.support.warning? .i8080 := by
  decide +kernel

section Passes

variable {instruction : Instruction} {architecture : Architecture}

/-- What is not legal gets the warning as its comment. -/
theorem place_comment_of_warning {warning : Warning} (hcomment : instruction.comment = none)
    (h : instruction.support.warning? architecture = some warning) (offset origin : Address) :
    (instruction.place offset origin architecture).instruction.comment = some warning.text := by
  let moved := { instruction with target := instruction.target.map (.rebase origin) }
  have hwarning : moved.support.warning? architecture = some warning := h
  have hnone : moved.comment = none := hcomment
  show (moved.warn architecture).comment = some warning.text
  rw [Instruction.warn, hwarning]
  simp only [Instruction.addComment, hnone]

/-- Architectures that judge an instruction alike place it alike. -/
theorem place_congr {other : Architecture}
    (h : instruction.support.warning? other = instruction.support.warning? architecture)
    (offset origin : Address) :
    instruction.place offset origin other = instruction.place offset origin architecture := by
  let moved := { instruction with target := instruction.target.map (.rebase origin) }
  have hwarning : moved.support.warning? other = moved.support.warning? architecture := h
  have hwarn : moved.warn other = moved.warn architecture := by
    rw [Instruction.warn, Instruction.warn, hwarning]
  exact congrArg (Entry.mk (origin + offset) · none) hwarn

/-- The instruction of an entry with the label of its target. -/
def Entry.labelled (entry : Entry) (labels : LabelMap) (image : Span) : Instruction :=
  { entry.instruction with
    targetLabel :=
      ((entry.targetLabel? labels image).map Label.name).or entry.instruction.targetLabel }

theorem finish_eq_toIntel (h : architecture.isPrimary = false) (entry : Entry) (labels : LabelMap)
    (image : Span) :
    entry.finish architecture labels image =
      ⟨entry.address, (entry.labelled labels image).toIntel, labels[entry.address]?⟩ := by
  rw [Entry.finish, h, if_neg Bool.false_ne_true, attach_eq]
  rfl

/-- What has no other spelling keeps its comment. -/
theorem comment_finish {entry : Entry} (h : architecture.isPrimary = false)
    (hspelling : Intel.spelling? entry.instruction = none) (labels : LabelMap) (image : Span) :
    (entry.finish architecture labels image).instruction.comment = entry.instruction.comment := by
  have hlabelled : Intel.spelling? (entry.labelled labels image) = none := hspelling
  rw [finish_eq_toIntel h, Instruction.toIntel, Instruction.toIntel?, hlabelled]
  rfl

theorem EqUpToComment.finish {entry other : Entry} (h : EqUpToComment entry other)
    (labels : LabelMap) (image : Span) :
    EqUpToComment (entry.finish .i8080 labels image) (other.finish .i8085 labels image) := by
  obtain ⟨comment, rfl⟩ := h
  obtain ⟨remark, hremark⟩ := toIntel_remarked (entry.labelled labels image)
    (entry.labelled labels image).targetLabel comment
  refine ⟨remark, ?_⟩
  rw [finish_eq_toIntel rfl, finish_eq_toIntel rfl]
  refine congrArg (Entry.mk entry.address · labels[entry.address]?) (hremark.trans ?_)
  rw [← toIntel_targetLabel (entry.labelled labels image)]

end Passes

/-! ## Entries -/

section Entries

variable (offset : Nat) (origin : Address) (first : UInt8) (rest : List UInt8) (labels : LabelMap)
  (image : Span)

/-- What an architecture makes of the first instruction at a place. -/
def entryAtPlace (architecture : Architecture) : Entry :=
  ((decodeFirst architecture offset first rest).place offset.toUInt16 origin architecture).finish
    architecture labels image

theorem eqUpToComment_entryAtPlace :
    EqUpToComment (entryAtPlace offset origin first rest labels image .i8080)
      (entryAtPlace offset origin first rest labels image .i8085) := by
  obtain ⟨comment, heq⟩ := decodeFirst_i8085_eq offset first rest
  unfold entryAtPlace
  rw [heq]
  exact (eqUpToComment_place _ comment _ _ _ _).finish labels image

theorem entryAtPlace_data {architecture : Architecture} (hintel : architecture.isPrimary = false)
    {comment : String} (h : decodeFirst architecture offset first rest = .dataByte first comment) :
    (entryAtPlace offset origin first rest labels image architecture).instruction.mnemonic = "DB" ∧
      (entryAtPlace offset origin first rest labels image architecture).instruction.bytes = [first] ∧
      (entryAtPlace offset origin first rest labels image architecture).instruction.comment =
        some comment := by
  have hspelling := finish_spelling architecture labels image
    ((Instruction.dataByte first comment).place offset.toUInt16 origin architecture)
  have hplace : (Intel.spelling? ((Instruction.dataByte first comment).place offset.toUInt16 origin
      architecture).instruction) = none := by
    rw [place_frame]
    rfl
  unfold entryAtPlace
  rw [h]
  refine ⟨?_, ?_, ?_⟩
  · exact (congrArg Spelling.mnemonic hspelling).trans
      (congrArg Spelling.mnemonic (spelling_data architecture [first] comment _ origin))
  · rw [finish_bytes, place_bytes]
    rfl
  · rw [comment_finish hintel hplace]
    exact place_comment (if_pos (.inl rfl)) _ _

theorem siblings_unknown (h : (Page.base .i8080).rule? first = none) :
    Siblings (entryAtPlace offset origin first rest labels image .i8080)
      (entryAtPlace offset origin first rest labels image .i8085) := by
  have hdata : ∀ architecture, architecture = .i8080 ∨ architecture = .i8085 →
      decodeFirst architecture offset first rest =
        .dataByte first ("Unknown opcode, not supported on " ++ architecture.name) := by
    rintro architecture (rfl | rfl)
    · rw [decodeFirst_base (.inr rfl), h]
    · rw [decodeFirst_base (.inr rfl), rule?_i8085_eq, h]
  obtain ⟨hmnemonic, hbytes, hcomment⟩ :=
    entryAtPlace_data offset origin first rest labels image rfl (hdata .i8080 (.inl rfl))
  obtain ⟨-, -, hother⟩ :=
    entryAtPlace_data offset origin first rest labels image rfl (hdata .i8085 (.inr rfl))
  constructor
  case eq_upToComment => exact eqUpToComment_entryAtPlace offset origin first rest labels image
  case addition =>
    intro haddition
    rw [hmnemonic] at haddition
    exact absurd haddition (by decide)
  case unknown =>
    intro _ byte hbyte _
    exact ⟨hcomment, hother⟩
  case same =>
    intro _ hknown
    exact absurd ⟨hmnemonic, first, (rule?_i8080_eq_none_iff first).mp h, hbytes⟩ hknown

theorem siblings_of_eq {i8080 i8085 : Entry} (h : i8085 = i8080)
    (haddition : i8080.instruction.mnemonic ∉ additions8085)
    (hknown : i8080.instruction.mnemonic = "DB" → ∀ byte ∈ foreignPrefixes,
      i8080.instruction.bytes ≠ [byte]) : Siblings i8080 i8085 := by
  subst h
  refine ⟨⟨_, rfl⟩, fun hmem => absurd hmem haddition, ?_, fun _ _ => rfl⟩
  intro hdata byte hbyte hbytes
  exact absurd hbytes (hknown hdata byte hbyte)

theorem siblings_incomplete {rule : Rule} (hrule : (Page.base .i8080).rule? first = some rule)
    (hshort : ¬ rule.encodedLength 1 ≤ (first :: rest).length) :
    Siblings (entryAtPlace offset origin first rest labels image .i8080)
      (entryAtPlace offset origin first rest labels image .i8085) := by
  have hdata : decodeFirst .i8080 offset first rest =
      .dataByte first "Incomplete instruction at end of image" := by
    rw [decodeFirst_base (.inr rfl), hrule]
    exact if_neg hshort
  have hother : decodeFirst .i8085 offset first rest = decodeFirst .i8080 offset first rest := by
    rw [hdata, decodeFirst_base (.inr rfl), rule?_i8085_eq, hrule]
    exact if_neg hshort
  obtain ⟨hmnemonic, hbytes, -⟩ :=
    entryAtPlace_data offset origin first rest labels image rfl hdata
  refine siblings_of_eq ?_ ?_ ?_
  · unfold entryAtPlace
    rw [hother, hdata]
    rfl
  · rw [hmnemonic]
    decide
  · intro _ byte hbyte hsame
    rw [hbytes, List.singleton_inj] at hsame
    rw [← hsame, ← rule?_i8080_eq_none_iff, hrule] at hbyte
    cases hbyte

section Coded

variable {rule : Rule} (hmem : ([first], rule) ∈ Architecture.i8080.codes)
  {architecture : Architecture}
  (hdecode : decodeFirst architecture offset first rest = rule.instruction 1 offset (first :: rest))

include hmem hdecode

theorem mnemonic_entryAtPlace :
    (entryAtPlace offset origin first rest labels image architecture).instruction.mnemonic =
      (rule.pattern architecture).mnemonic := by
  have hspelling := (regular_of_mem_codes hmem).spelling_instruction architecture origin 1 offset
    (first :: rest)
  unfold entryAtPlace
  rw [hdecode]
  exact congrArg Spelling.mnemonic ((finish_spelling _ _ _ _).trans hspelling)

/-- An instruction that is spelled alike in both syntaxes has no comment but a warning. -/
theorem comment_entryAtPlace (hintel : architecture.isPrimary = false)
    (hnone : Intel.spelling? (rule.instruction 0 0 []) = none) :
    (entryAtPlace offset origin first rest labels image architecture).instruction.comment =
      ((rule.instruction 1 offset (first :: rest)).place offset.toUInt16 origin
        architecture).instruction.comment := by
  have hspelling : Intel.spelling? ((rule.instruction 1 offset (first :: rest)).place
      offset.toUInt16 origin architecture).instruction = none := by
    rw [(regular_of_mem_codes hmem).spelling?_instruction, hnone]
    rfl
  unfold entryAtPlace
  rw [hdecode, comment_finish hintel hspelling]

end Coded

theorem siblings_coded {rule : Rule} (hrule : (Page.base .i8080).rule? first = some rule)
    (hlong : rule.encodedLength 1 ≤ (first :: rest).length) :
    Siblings (entryAtPlace offset origin first rest labels image .i8080)
      (entryAtPlace offset origin first rest labels image .i8085) := by
  have hmem : ([first], rule) ∈ Architecture.i8080.codes := mem_codes_base hrule
  have hdecode : decodeFirst .i8080 offset first rest = rule.instruction 1 offset (first :: rest) := by
    rw [decodeFirst_base (.inr rfl), hrule]
    exact if_pos hlong
  have hother : decodeFirst .i8085 offset first rest = rule.instruction 1 offset (first :: rest) := by
    rw [decodeFirst_base (.inr rfl), rule?_i8085_eq, hrule]
    exact if_pos hlong
  have hmnemonic := mnemonic_entryAtPlace offset origin first rest labels image hmem hdecode
  have hdata : (entryAtPlace offset origin first rest labels image .i8080).instruction.mnemonic ≠
      "DB" := by
    rw [hmnemonic]
    exact (legible_of_mem_codes .i8080 _ hmem).mnemonic_ne
  obtain ⟨hpattern, hjudged⟩ := judged_of_mem_codes _ hmem
  by_cases haddition : rule.mnemonic ∈ additions8085
  · rw [if_pos haddition] at hjudged
    obtain ⟨hsupport, hnone⟩ := hjudged
    refine ⟨eqUpToComment_entryAtPlace offset origin first rest labels image, fun _ => ⟨?_, ?_⟩,
      fun hmnemonic => absurd hmnemonic hdata, fun hnot => ?_⟩
    · have hwarning : rule.support.warning? .i8080 = some .i8085Only := by
        rw [show rule.support = _ from hsupport]
        rfl
      rw [comment_entryAtPlace offset origin first rest labels image hmem hdecode rfl hnone]
      have hsilent : (rule.instruction 1 offset (first :: rest)).comment = none := rfl
      exact place_comment_of_warning hsilent hwarning _ _
    · have hlegal : rule.support.warning? .i8085 = none := by
        rw [show rule.support = _ from hsupport]
        rfl
      rw [comment_entryAtPlace offset origin first rest labels image hmem hother rfl hnone]
      exact place_comment hlegal _ _
    · rw [hmnemonic] at hnot
      exact absurd (hpattern.mpr haddition) hnot
  · rw [if_neg haddition] at hjudged
    refine siblings_of_eq ?_ ?_ fun hmnemonic => absurd hmnemonic hdata
    · unfold entryAtPlace
      rw [hother, hdecode, place_congr hjudged]
      rfl
    · rw [hmnemonic]
      exact fun hmem => haddition (hpattern.mp hmem)

theorem siblings_entryAtPlace :
    Siblings (entryAtPlace offset origin first rest labels image .i8080)
      (entryAtPlace offset origin first rest labels image .i8085) := by
  rcases hrule : (Page.base .i8080).rule? first with _ | rule
  · exact siblings_unknown offset origin first rest labels image hrule
  by_cases hlong : rule.encodedLength 1 ≤ (first :: rest).length
  · exact siblings_coded offset origin first rest labels image hrule hlong
  · exact siblings_incomplete offset origin first rest labels image hrule hlong

end Entries

/-! ## Runs -/

/-- Entries that the 8080 and the 8085 decode at one place. -/
inductive Beside (origin : Address) : Entry → Entry → Prop where
  | mk (offset : Nat) (first : UInt8) (rest : List UInt8) :
      Beside origin ((decodeFirst .i8080 offset first rest).place offset.toUInt16 origin .i8080)
        ((decodeFirst .i8085 offset first rest).place offset.toUInt16 origin .i8085)

section Runs

variable {origin : Address}

/-- The two runs visit the same places. -/
theorem Swept.beside {offset : Nat} {bytes : List UInt8} {entries others : List Entry}
    (h : Swept .i8080 origin offset bytes entries) (hother : Swept .i8085 origin offset bytes others) :
    List.Forall₂ (Beside origin) entries others := by
  induction h generalizing others with
  | done offset =>
    cases hother
    exact .nil
  | @step offset first rest entries run ih =>
    cases hother with
    | step otherRun =>
      have hsize : (decodeFirst .i8085 offset first rest).size =
          (decodeFirst .i8080 offset first rest).size := by
        obtain ⟨comment, heq⟩ := decodeFirst_i8085_eq offset first rest
        rw [heq]
        rfl
      rw [hsize] at otherRun
      exact .cons (.mk offset first rest) (ih otherRun)

theorem Beside.eqUpToComment {entry other : Entry} (h : Beside origin entry other) :
    EqUpToComment entry other := by
  cases h with
  | mk offset first rest =>
    obtain ⟨comment, heq⟩ := decodeFirst_i8085_eq offset first rest
    rw [heq]
    exact eqUpToComment_place _ comment _ _ _ _

theorem Beside.siblings {entry other : Entry} (h : Beside origin entry other) (labels : LabelMap)
    (image : Span) :
    Siblings (entry.finish .i8080 labels image) (other.finish .i8085 labels image) := by
  cases h with
  | mk offset first rest => exact siblings_entryAtPlace offset origin first rest labels image

end Runs

/-- The 8080 and the 8085 refuse the images that are too large, and give the same entries and labels for
the others. Only comments differ, and only where the 8080 meets an instruction of the 8085 or where both
meet a prefix of the Z80. -/
theorem disassemble_siblings (image : List UInt8) (origin : Address) :
    (addressSpace < origin.toNat + image.length ∧
      ∃ error, disassemble image origin .i8080 = .error error ∧
        disassemble image origin .i8085 = .error error) ∨
    ∃ i8080 i8085, disassemble image origin .i8080 = .ok i8080 ∧
      disassemble image origin .i8085 = .ok i8085 ∧ i8085.labels = i8080.labels ∧
      List.Forall₂ Siblings i8080.entries.toList i8085.entries.toList := by
  by_cases fits : origin.toNat + image.length ≤ addressSpace
  · right
    have hruns : List.Forall₂ (Beside origin) (rawEntries .i8080 origin image)
        (rawEntries .i8085 origin image) :=
      (swept_rawEntries .i8080 origin image).beside (swept_rawEntries .i8085 origin image)
    have hlabels : (finished image origin .i8085).labels = (finished image origin .i8080).labels :=
      labelMap_eq_of_comments (hruns.imp fun _ _ hbeside => hbeside.eqUpToComment)
    refine ⟨_, _, disassemble_eq_ok .i8080 fits, disassemble_eq_ok .i8085 fits, hlabels, ?_⟩
    show List.Forall₂ Siblings
      ((rawEntries .i8080 origin image).map
        (Entry.finish .i8080 (finished image origin .i8080).labels _))
      ((rawEntries .i8085 origin image).map
        (Entry.finish .i8085 (finished image origin .i8085).labels _))
    rw [hlabels, List.forall₂_map_left_iff, List.forall₂_map_right_iff]
    exact hruns.imp fun _ _ hbeside => hbeside.siblings _ _
  · have large := Nat.lt_of_not_le fits
    exact .inl ⟨large, _, disassemble_eq_error .i8080 large, disassemble_eq_error .i8085 large⟩

/-- What the 8085 adds, once as an operand, and a prefix of the Z80. -/
theorem disassemble_siblings_additions :
    ∃ i8080 i8085, disassemble [0x20, 0x3E, 0x30, 0x30, 0xED] 0x8000 .i8080 = .ok i8080 ∧
      disassemble [0x20, 0x3E, 0x30, 0x30, 0xED] 0x8000 .i8085 = .ok i8085 ∧
      i8080.entries.toList.map (fun entry => (entry.instruction.mnemonic, entry.instruction.comment)) =
        [("RIM", some "WARNING: 8085 ONLY"), ("MVI", some "Z80: LD A, $30"),
          ("SIM", some "WARNING: 8085 ONLY"), ("DB", some "Unknown opcode, not supported on 8080")] ∧
      i8085.entries.toList.map (fun entry => (entry.instruction.mnemonic, entry.instruction.comment)) =
        [("RIM", none), ("MVI", some "Z80: LD A, $30"), ("SIM", none),
          ("DB", some "Unknown opcode, not supported on 8085")] ∧
      i8085.labels = i8080.labels ∧
      List.Forall₂ Siblings i8080.entries.toList i8085.entries.toList := by
  rcases disassemble_siblings [0x20, 0x3E, 0x30, 0x30, 0xED] 0x8000 with
    ⟨large, -⟩ | ⟨i8080, i8085, h8080, h8085, hlabels, hentries⟩
  · exact absurd large (by decide)
  · obtain ⟨-, rfl⟩ := eq_finished_of_disassemble h8080
    obtain ⟨-, rfl⟩ := eq_finished_of_disassemble h8085
    exact ⟨_, _, h8080, h8085, by decide +kernel, by decide +kernel, hlabels, hentries⟩

end Disasm
