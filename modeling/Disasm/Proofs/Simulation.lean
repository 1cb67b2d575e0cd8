import Mathlib.Data.List.Forall2
import Disasm.Proofs.Patterns
import Disasm.Proofs.Resolution

/-!
# One image on two architectures

The 8080 and the 8085 have pages of their own and no prefixes, and spell their instructions anew. Only
four bytes lead to different instructions, the `divergingBytes`. While none of them starts an
instruction, the decoder of the Z80 and theirs run in step: they agree on every instruction up to its
comment (`decodeFirst_eq`, `Swept.inStep`). So they agree on the references and the labels, which are
found before anything is spelled anew (`labelMap_eq`), and an instruction that is spelled anew has its
Z80 text as the comment (`InStep.respelled`).
-/

namespace Disasm

/-! ## Decoding in step -/

/-- The first bytes on which the architectures part: two jumps of the Z80 in whose place the 8085 has
other instructions, and the prefixes that the Z80 decodes. -/
def divergingBytes : List UInt8 := [0x20, 0x30, 0xCB, 0xED]

section Decode

variable {architecture : Architecture} {first : UInt8}

/-- The additions of the 8085 are all that distinguishes the pages. -/
theorem rule?_base_eq (h : first ∉ divergingBytes) :
    (Page.base architecture).rule? first = (Page.base .z80).rule? first := by
  have hadditions : Base.i8085Additions.reverse.lookup first = none := by
    rw [List.lookup_eq_none_iff]
    intro entry hmem
    simp only [divergingBytes, List.mem_cons, not_or] at h
    simp only [Base.i8085Additions, List.mem_reverse, List.mem_cons, List.not_mem_nil, or_false]
      at hmem
    rcases hmem with rfl | rfl
    · exact bne_iff_ne.mpr h.1
    · exact bne_iff_ne.mpr h.2.1
  have hlayers : (Page.ofLayers 0 [Base.shared, Base.z80Additions, Base.i8085Additions]).rule? first =
      (Page.ofLayers 0 [Base.shared, Base.z80Additions]).rule? first := by
    rw [Page.rule?_ofLayers, Page.rule?_ofLayers]
    simp only [List.flatten_cons, List.flatten_nil, List.append_nil, List.reverse_append,
      List.append_assoc, List.lookup_append, hadditions, Option.none_or]
  cases architecture with
  | z80 => rfl
  | i8080 => exact hlayers
  | i8085 => exact hlayers

theorem rule?_byte (lead : Prefix) : (Page.base .z80).rule? lead.byte = none := by
  show (Page.ofLayers 0 [Base.shared, Base.z80Additions]).rule? lead.byte = none
  rw [Page.rule?_ofLayers]
  cases lead <;> decide +kernel

/-- The first instruction is the same up to its comment. A prefix of the index registers is one byte of
data everywhere, for one reason or the other. -/
theorem decodeFirst_eq (hintel : architecture ≠ .z80) (h : first ∉ divergingBytes) (offset : Nat)
    (rest : List UInt8) :
    ∃ comment, decodeFirst architecture offset first rest =
      { decodeFirst .z80 offset first rest with comment } := by
  have hprimary : architecture.isPrimary = false := decide_eq_false hintel
  rw [decodeFirst_base (.inr hprimary), rule?_base_eq h]
  rcases hlead : Prefix.ofByte? first with _ | lead
  · rw [decodeFirst_base (.inl hlead)]
    split
    · exact ⟨_, rfl⟩
    · exact ⟨_, rfl⟩
  · obtain rfl := Prefix.eq_byte_of_ofByte? hlead
    rw [rule?_byte]
    cases lead with
    | cb => exact absurd (by decide) h
    | ed => exact absurd (by decide) h
    | dd => exact ⟨_, rfl⟩
    | fd => exact ⟨_, rfl⟩

theorem decodeFirst_head? (architecture : Architecture) (offset : Nat) (first : UInt8)
    (rest : List UInt8) : (decodeFirst architecture offset first rest).bytes.head? = some first := by
  have hdecoded := decoded_decodeFirst architecture offset first rest
  have hpos := hdecoded.size_bounds.1
  obtain ⟨behind, hbytes⟩ := hdecoded.bytes_starts
  unfold Instruction.size at hpos
  rcases hcases : (decodeFirst architecture offset first rest).bytes with _ | ⟨head, tail⟩
  · rw [hcases] at hpos
    cases hpos
  · rw [hcases, List.cons_append, List.cons.injEq] at hbytes
    rw [hbytes.1]
    rfl

end Decode

/-! ## Comments -/

/-- Entries that differ in their comments at most. -/
def EqUpToComment (entry other : Entry) : Prop :=
  ∃ comment, other = { entry with instruction := { entry.instruction with comment } }

/-- Instructions that differ in their comments do so wherever they are placed. -/
theorem eqUpToComment_place (instruction : Instruction) (comment : Option String)
    (offset origin : Address) (architecture other : Architecture) :
    EqUpToComment (instruction.place offset origin architecture)
      ({ instruction with comment }.place offset origin other) := by
  let placed := { instruction with comment }.place offset origin other
  refine ⟨placed.instruction.comment, congrArg (Entry.mk (origin + offset) · none) ?_⟩
  show placed.instruction = _
  rw [place_frame, place_frame instruction]

/-- Comments have no part in the references. -/
theorem labelMap_eq_of_comments {entries others : List Entry}
    (h : List.Forall₂ EqUpToComment entries others) :
    LabelMap.ofEntries others = LabelMap.ofEntries entries := by
  apply labelMap_congr
  refine h.imp fun entry other hsame => ?_
  obtain ⟨comment, rfl⟩ := hsame
  exact ⟨rfl, rfl, rfl⟩

/-! ## Runs in step -/

/-- Entries that the Z80 and another architecture decode from the same bytes. -/
inductive InStep (architecture : Architecture) (origin : Address) : Entry → Entry → Prop where
  | mk (offset : Nat) {first : UInt8} (rest : List UInt8) (shared : first ∉ divergingBytes) :
      InStep architecture origin
        ((decodeFirst .z80 offset first rest).place offset.toUInt16 origin .z80)
        ((decodeFirst architecture offset first rest).place offset.toUInt16 origin architecture)

section Runs

variable {architecture : Architecture} {origin : Address}

/-- The two runs visit the same places. -/
theorem Swept.inStep (hintel : architecture ≠ .z80) {offset : Nat} {bytes : List UInt8}
    {entries others : List Entry} (h : Swept .z80 origin offset bytes entries)
    (hother : Swept architecture origin offset bytes others)
    (hshared : ∀ entry ∈ entries, ∀ first ∈ entry.instruction.bytes.head?,
      first ∉ divergingBytes) :
    List.Forall₂ (InStep architecture origin) entries others := by
  induction h generalizing others with
  | done offset =>
    cases hother
    exact .nil
  | @step offset first rest entries run ih =>
    have hfirst : first ∉ divergingBytes := by
      refine hshared _ List.mem_cons_self first ?_
      rw [place_bytes]
      exact decodeFirst_head? .z80 offset first rest
    cases hother with
    | step otherRun =>
      have hsize : (decodeFirst architecture offset first rest).size =
          (decodeFirst .z80 offset first rest).size := by
        obtain ⟨comment, heq⟩ := decodeFirst_eq hintel hfirst offset rest
        rw [heq]
        rfl
      -- Instructions of one size leave both runs at the same place.
      rw [hsize] at otherRun
      refine .cons (.mk offset rest hfirst) (ih otherRun fun entry hmem => ?_)
      exact hshared entry (List.mem_cons_of_mem _ hmem)

theorem InStep.eq_comment (hintel : architecture ≠ .z80) {z80 intel : Entry}
    (h : InStep architecture origin z80 intel) : EqUpToComment z80 intel := by
  cases h with
  | @mk offset first rest hfirst =>
    obtain ⟨comment, heq⟩ := decodeFirst_eq hintel hfirst offset rest
    rw [heq]
    exact eqUpToComment_place _ comment _ _ _ _

theorem labelMap_eq (hintel : architecture ≠ .z80) {entries others : List Entry}
    (h : List.Forall₂ (InStep architecture origin) entries others) :
    LabelMap.ofEntries others = LabelMap.ofEntries entries :=
  labelMap_eq_of_comments (h.imp fun _ _ hstep => hstep.eq_comment hintel)

end Runs

/-! ## Spelling -/

/-- What is spelled anew is legal everywhere. -/
theorem support_of_mem_codes {architecture : Architecture} (hintel : architecture ≠ .z80) :
    ∀ entry ∈ architecture.codes, Intel.spelling? (entry.2.instruction 0 0 []) = none ∨
      entry.2.support = .all := by
  have h8080 : ∀ entry ∈ Architecture.i8080.codes,
      Intel.spelling? (entry.2.instruction 0 0 []) = none ∨ entry.2.support = .all := by
    decide +kernel
  cases architecture with
  | z80 => exact absurd rfl hintel
  | i8080 => exact h8080
  | i8085 => exact h8080

theorem warning?_all (architecture : Architecture) : Support.all.warning? architecture = none := by
  cases architecture <;> rfl

/-- What is spelled anew carries no comment so far. -/
theorem Decoded.comment_eq_none {architecture : Architecture} (hintel : architecture ≠ .z80)
    {offset : Nat} {bytes : List UInt8} {instruction : Instruction}
    (h : Decoded architecture offset bytes instruction) (origin : Address) {spelling : Spelling}
    (hspelling : Intel.spelling? (instruction.place offset.toUInt16 origin
      architecture).instruction = some spelling) :
    (instruction.place offset.toUInt16 origin architecture).instruction.comment = none := by
  cases h with
  | @coded code rule mem starts long =>
    rcases support_of_mem_codes hintel _ mem with hnone | hall
    · rw [(regular_of_mem_codes mem).spelling?_instruction, hnone] at hspelling
      cases hspelling
    · have hlegal : rule.support.warning? architecture = none := by
        rw [show rule.support = .all from hall, warning?_all]
      exact place_comment hlegal offset.toUInt16 origin
  | data mem starts nonempty short =>
    rw [place_frame] at hspelling
    cases hspelling

/-- What an entry in Z80 syntax is in Intel syntax. -/
structure Respelled (z80 intel : Entry) : Prop where
  address : intel.address = z80.address
  bytes : intel.instruction.bytes = z80.instruction.bytes
  target : intel.instruction.target = z80.instruction.target
  targetLabel : intel.instruction.targetLabel = z80.instruction.targetLabel
  label : intel.label = z80.label
  /-- Either the spelling is kept, or the Z80 mnemonic is noted and the Z80 text is the comment. -/
  spelling :
    (intel.instruction.mnemonic = z80.instruction.mnemonic ∧
      intel.instruction.operands = z80.instruction.operands ∧
      intel.instruction.z80Mnemonic = none) ∨
    (intel.instruction.z80Mnemonic = some z80.instruction.mnemonic ∧
      intel.instruction.comment = some ("Z80: " ++ z80.instruction.text))

/-- An instruction with another comment, spelled anew. A comment may stand there only where the spelling
is kept. -/
theorem respelled_toIntel (instruction : Instruction) {comment : Option String}
    (hfresh : instruction.z80Mnemonic = none)
    (hcomment : ∀ spelling, Intel.spelling? instruction = some spelling → comment = none)
    (address : Address) (label : Option Label) :
    Respelled ⟨address, instruction, label⟩
      ⟨address, { instruction with comment }.toIntel, label⟩ := by
  have hspelling : Intel.spelling? { instruction with comment } = Intel.spelling? instruction := rfl
  have htext : { instruction with comment }.text = instruction.text := rfl
  refine ⟨rfl, toIntel_bytes _, toIntel_target _, toIntel_targetLabel _, rfl, ?_⟩
  unfold Instruction.toIntel Instruction.toIntel?
  rw [hspelling, htext]
  rcases hcase : Intel.spelling? instruction with _ | spelling
  · exact .inl ⟨rfl, rfl, hfresh⟩
  · by_cases hsame : spelling = ⟨instruction.mnemonic, instruction.operands⟩
    · simp only [if_pos hsame]
      exact .inl ⟨rfl, rfl, hfresh⟩
    · simp only [if_neg hsame]
      rw [hcomment spelling hcase]
      exact .inr ⟨rfl, rfl⟩

section Result

variable {architecture : Architecture} {origin : Address}

theorem InStep.fresh {z80 intel : Entry} (h : InStep architecture origin z80 intel) :
    z80.instruction.z80Mnemonic = none := by
  cases h with
  | @mk offset first rest hfirst =>
    rw [place_frame]
    exact (decoded_decodeFirst .z80 offset first rest).fresh.2

theorem InStep.comment_eq_none (hintel : architecture ≠ .z80) {z80 intel : Entry}
    (h : InStep architecture origin z80 intel) {spelling : Spelling}
    (hspelling : Intel.spelling? intel.instruction = some spelling) :
    intel.instruction.comment = none := by
  cases h with
  | @mk offset first rest hfirst =>
    exact (decoded_decodeFirst architecture offset first rest).comment_eq_none hintel origin hspelling

theorem InStep.respelled (hintel : architecture ≠ .z80) {z80 intel : Entry}
    (h : InStep architecture origin z80 intel) (labels : LabelMap) (image : Span) :
    Respelled (z80.finish .z80 labels image) (intel.finish architecture labels image) := by
  have hprimary : Architecture.z80.isPrimary = true := rfl
  have hother : ¬ architecture.isPrimary = true := by simpa [Architecture.isPrimary] using hintel
  have hcomment : ∀ spelling, Intel.spelling? intel.instruction = some spelling →
      intel.instruction.comment = none := fun spelling => h.comment_eq_none hintel
  obtain ⟨comment, rfl⟩ := h.eq_comment hintel
  rw [Entry.finish, if_pos hprimary, Entry.finish, if_neg hother, attach_eq, attach_eq]
  exact respelled_toIntel
    { z80.instruction with
      targetLabel :=
        ((z80.targetLabel? labels image).map Label.name).or z80.instruction.targetLabel }
    h.fresh hcomment z80.address labels[z80.address]?

end Result

/-- As long as no instruction starts with one of four bytes, the 8080 and the 8085 give what the Z80
gives: the same entries with the same labels, each spelled as on the Z80 or with the Z80 text as its
comment. -/
theorem disassemble_respelled {architecture : Architecture} (hintel : architecture ≠ .z80)
    {image : List UInt8} {origin : Address} {z80 : Disassembly}
    (h : disassemble image origin .z80 = .ok z80)
    (hshared : ∀ entry ∈ z80.entries, ∀ first ∈ entry.instruction.bytes.head?,
      first ∉ divergingBytes) :
    ∃ intel, disassemble image origin architecture = .ok intel ∧ intel.labels = z80.labels ∧
      List.Forall₂ Respelled z80.entries.toList intel.entries.toList := by
  obtain ⟨fits, rfl⟩ := eq_finished_of_disassemble h
  have hrun : List.Forall₂ (InStep architecture origin) (rawEntries .z80 origin image)
      (rawEntries architecture origin image) := by
    refine (swept_rawEntries .z80 origin image).inStep hintel (swept_rawEntries architecture origin image)
      fun raw hraw first hfirst => ?_
    refine hshared _ (Array.mem_toList_iff.mp (List.mem_map_of_mem hraw)) first ?_
    rw [finish_bytes]
    exact hfirst
  have hlabels : (finished image origin architecture).labels = (finished image origin .z80).labels :=
    labelMap_eq hintel hrun
  refine ⟨_, disassemble_eq_ok architecture fits, hlabels, ?_⟩
  show List.Forall₂ Respelled
    ((rawEntries .z80 origin image).map (Entry.finish .z80 (finished image origin .z80).labels _))
    ((rawEntries architecture origin image).map
      (Entry.finish architecture (finished image origin architecture).labels _))
  rw [hlabels, List.forall₂_map_left_iff, List.forall₂_map_right_iff]
  exact hrun.imp fun entry other hstep => hstep.respelled hintel _ _

/-- A restart, a jump to it, a prefix of the index registers and a load that is cut off. -/
theorem disassemble_respelled_restart :
    ∃ z80 intel, disassemble [0xFF, 0xC3, 0x38, 0x00, 0xDD, 0x3E] 0x0038 .z80 = .ok z80 ∧
      disassemble [0xFF, 0xC3, 0x38, 0x00, 0xDD, 0x3E] 0x0038 .i8085 = .ok intel ∧
      intel.entries.toList.map (·.instruction.comment) =
        [some "Z80: RST J_0038", some "Z80: JP J_0038",
          some "Unknown opcode, not supported on 8085",
          some "Incomplete instruction at end of image"] ∧
      intel.labels = z80.labels ∧ List.Forall₂ Respelled z80.entries.toList intel.entries.toList := by
  have hz80 : disassemble [0xFF, 0xC3, 0x38, 0x00, 0xDD, 0x3E] 0x0038 .z80 = .ok _ :=
    disassemble_eq_ok .z80 (by decide)
  obtain ⟨intel, hintel, hlabels, hentries⟩ :=
    disassemble_respelled (show Architecture.i8085 ≠ .z80 by decide) hz80 (by decide +kernel)
  obtain ⟨-, rfl⟩ := eq_finished_of_disassemble hintel
  exact ⟨_, _, hz80, hintel, by decide +kernel, hlabels, hentries⟩

end Disasm
