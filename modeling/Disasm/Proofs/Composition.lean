import Mathlib.Data.List.Forall2
import Disasm.Proofs.Spelling

/-!
# Decoding piece by piece

An image can be cut at the boundary of an instruction and its parts decoded apart.

1. An instruction depends on the bytes that it is read from and on nothing behind them, unless they
   end too early (`decodeFirst_of_starts`).
2. Where the image starts does not matter: what is counted from a later start is counted back when the
   instruction is placed (`decodeFirst_place_add`).
3. So a run of the decoding loop splits at every boundary (`Swept.tail`, `Swept.front`), and runs
   can be put together (`Swept.append`).
4. The passes behind the loop look at labels only for the text of operands and comments (`SameCode`).
-/

namespace Disasm

/-! ## Incomplete instructions -/

/-- A byte that is left as data because the image ends inside its instruction. -/
def Instruction.IsIncomplete (instruction : Instruction) : Prop :=
  instruction.mnemonic = "DB" ∧
    instruction.comment = some "Incomplete instruction at end of image"

instance (instruction : Instruction) : Decidable instruction.IsIncomplete :=
  inferInstanceAs (Decidable (_ ∧ _))

/-! ## What an instruction depends on -/

theorem Rule.instruction_congr {rule : Rule} {opcodeLength : Nat} {bytes others : List UInt8}
    (h : others.take (rule.encodedLength opcodeLength) = bytes.take (rule.encodedLength opcodeLength))
    (offset : Nat) :
    rule.instruction opcodeLength offset others = rule.instruction opcodeLength offset bytes := by
  have hslots : (others.drop opcodeLength).take (Slot.totalLength rule.slots) =
      (bytes.drop opcodeLength).take (Slot.totalLength rule.slots) := by
    have hdrop := congrArg (List.drop opcodeLength) h
    rwa [List.drop_take, List.drop_take, encodedLength, Nat.add_sub_cancel_left] at hdrop
  have hothers := Slot.operands_take offset.toUInt16 (others.drop opcodeLength)
    (Nat.le_refl (Slot.totalLength rule.slots))
  have hbytes := Slot.operands_take offset.toUInt16 (bytes.drop opcodeLength)
    (Nat.le_refl (Slot.totalLength rule.slots))
  rw [hslots] at hothers
  unfold Rule.instruction
  rw [h, ← hothers.1, ← hothers.2, hbytes.1, hbytes.2]

/-- What the first instruction of `first :: rest` is, wherever it stands: the same in front of any
bytes that start alike. Either a rule reads it, or it is data; only data that is incomplete depends
on where the bytes end. -/
inductive FirstRead (architecture : Architecture) (first : UInt8) (rest : List UInt8) : Prop where
  | coded (opcodeLength : Nat) (rule : Rule)
      (long : rule.encodedLength opcodeLength ≤ (first :: rest).length)
      (read : ∀ offset other, (first :: rest).take (rule.encodedLength opcodeLength) <+: first :: other →
        decodeFirst architecture offset first other =
          rule.instruction opcodeLength offset (first :: rest))
  | data (taken : List UInt8) (comment : String) (starts : taken <+: first :: rest)
      (read : ∀ offset other, taken <+: first :: other →
        decodeFirst architecture offset first other = .data taken comment)
  | incomplete (read : ∀ offset, decodeFirst architecture offset first rest =
      .dataByte first "Incomplete instruction at end of image")

section FirstRead

variable {architecture : Architecture} {first : UInt8} {rest : List UInt8}

theorem Rule.instruction_of_starts {rule : Rule} {opcodeLength : Nat} {bytes others : List UInt8}
    (long : rule.encodedLength opcodeLength ≤ bytes.length)
    (hstarts : bytes.take (rule.encodedLength opcodeLength) <+: others) (offset : Nat) :
    rule.encodedLength opcodeLength ≤ others.length ∧
      rule.instruction opcodeLength offset others = rule.instruction opcodeLength offset bytes := by
  have hlength := hstarts.length_le
  rw [List.length_take_of_le long] at hlength
  refine ⟨hlength, instruction_congr ?_ offset⟩
  have htake := List.prefix_iff_eq_take.mp hstarts
  rw [List.length_take_of_le long] at htake
  exact htake.symm

theorem FirstRead.of_base (h : Prefix.ofByte? first = none ∨ architecture.isPrimary = false) :
    FirstRead architecture first rest := by
  rcases hrule : (Page.base architecture).rule? first with _ | rule
  · refine .data [first] ("Unknown opcode, not supported on " ++ architecture.name) (by simp)
      fun offset other _ => ?_
    rw [decodeFirst_base h, hrule]
    rfl
  by_cases hlong : rule.encodedLength 1 ≤ (first :: rest).length
  · refine .coded 1 rule hlong fun offset other hstarts => ?_
    obtain ⟨hother, hsame⟩ := Rule.instruction_of_starts hlong hstarts offset
    rw [decodeFirst_base h, hrule]
    exact (if_pos hother).trans hsame
  · refine .incomplete fun offset => ?_
    rw [decodeFirst_base h, hrule]
    exact if_neg hlong

theorem FirstRead.of_prefixed {lead : Prefix} (page : Page) (hlead : page.lead = 1)
    (hdecode : ∀ offset bytes, lead.decode offset bytes = lead.decodePage page offset bytes) :
    FirstRead .z80 lead.byte rest := by
  rcases rest with _ | ⟨opcode, tail⟩
  · exact .incomplete fun offset => decodeFirst_prefixed hlead hdecode offset []
  -- The opcode behind the prefix is among the bytes of the instruction.
  have hopcode {other : List UInt8} (h : [lead.byte, opcode] <+: lead.byte :: other) :
      ∃ behind, other = opcode :: behind := by
    obtain ⟨behind, hbehind⟩ := List.cons_prefix_cons.mp h |>.2
    exact ⟨behind, hbehind.symm⟩
  rcases hrule : page.rule? opcode with _ | rule
  · refine .data [lead.byte, opcode] ("Unrecognized " ++ Hex.byte lead.byte ++ "-prefixed opcode")
      (by simp) fun offset other hstarts => ?_
    obtain ⟨behind, rfl⟩ := hopcode hstarts
    rw [decodeFirst_prefixed hlead hdecode]
    simp only [hrule]
    rfl
  by_cases hlong : rule.encodedLength 2 ≤ (lead.byte :: opcode :: tail).length
  · refine .coded 2 rule hlong fun offset other hstarts => ?_
    obtain ⟨hother, hsame⟩ := Rule.instruction_of_starts hlong hstarts offset
    have hcode : [lead.byte, opcode] <+: (lead.byte :: opcode :: tail).take (rule.encodedLength 2) := by
      rw [Rule.encodedLength, Nat.add_comm]
      exact List.cons_prefix_cons.mpr ⟨rfl, List.cons_prefix_cons.mpr ⟨rfl, List.nil_prefix⟩⟩
    obtain ⟨behind, rfl⟩ := hopcode (hcode.trans hstarts)
    rw [decodeFirst_prefixed hlead hdecode]
    simp only [hrule]
    exact (if_pos hother).trans hsame
  · refine .incomplete fun offset => ?_
    rw [decodeFirst_prefixed hlead hdecode]
    simp only [hrule]
    exact if_neg hlong

/-- Whatever the bytes are, one of the forms is read. -/
theorem firstRead (architecture : Architecture) (first : UInt8) (rest : List UInt8) :
    FirstRead architecture first rest := by
  rcases hlead : Prefix.ofByte? first with _ | lead
  · exact .of_base (.inl hlead)
  by_cases hprimary : architecture.isPrimary = true
  · obtain rfl : architecture = .z80 := by simpa [Architecture.isPrimary] using hprimary
    obtain rfl := Prefix.eq_byte_of_ofByte? hlead
    cases lead with
    | cb => exact .of_prefixed .bits rfl fun _ _ => rfl
    | ed => exact .of_prefixed .extended rfl fun _ _ => rfl
    | dd => exact .data [_] "IX extended instruction, not decoded" (by simp) fun _ _ _ => rfl
    | fd => exact .data [_] "IY extended instruction, not decoded" (by simp) fun _ _ _ => rfl
  · exact .of_base (.inr (Bool.eq_false_iff.mpr hprimary))

end FirstRead

section Decode

variable {architecture : Architecture} {first : UInt8} {rest other : List UInt8} {offset : Nat}

/-- An instruction that is not cut off is read again from any bytes that start with its own. -/
theorem decodeFirst_of_starts
    (hwhole : ¬ (decodeFirst architecture offset first rest).IsIncomplete)
    (hstarts : (decodeFirst architecture offset first rest).bytes <+: first :: other) :
    decodeFirst architecture offset first other = decodeFirst architecture offset first rest := by
  cases firstRead architecture first rest with
  | coded opcodeLength rule long read =>
    have hsame := read offset rest (List.take_prefix _ _)
    rw [hsame] at hstarts ⊢
    exact read offset other hstarts
  | data taken comment starts read =>
    have hsame := read offset rest starts
    rw [hsame] at hstarts ⊢
    exact read offset other hstarts
  | incomplete read =>
    rw [read offset] at hwhole
    exact absurd ⟨rfl, rfl⟩ hwhole

/-- The distance of a target from the start of the image grows with that of the instruction; the origin
makes up for it. -/
theorem Slot.target?_add (origin start step : Address) (slot : Slot) (bytes : List UInt8) :
    (slot.target? (start + step) bytes).map (Target.rebase origin) =
      (slot.target? start bytes).map (Target.rebase (origin + step)) := by
  cases slot with
  | relative =>
    simp only [target?, Option.map_some, Target.rebase, relativeTarget]
    ac_rfl
  | _ => rfl

theorem Slot.lastTarget?_add (origin start step : Address) (slots : List Slot) (bytes : List UInt8) :
    (lastTarget? (start + step) slots bytes).map (Target.rebase origin) =
      (lastTarget? start slots bytes).map (Target.rebase (origin + step)) := by
  induction slots generalizing bytes with
  | nil => rfl
  | cons slot slots ih =>
    rw [lastTarget?, lastTarget?, Option.map_or, Option.map_or, ih, target?_add]

/-- An instruction that stands later in an image stands as late in an image that is loaded later. -/
theorem decodeFirst_place_add (architecture : Architecture) (origin : Address) (offset step : Nat)
    (first : UInt8) (rest : List UInt8) :
    (decodeFirst architecture (offset + step) first rest).place (offset + step).toUInt16 origin
        architecture =
      (decodeFirst architecture offset first rest).place offset.toUInt16 (origin + step.toUInt16)
        architecture := by
  have hstep : (offset + step).toUInt16 = offset.toUInt16 + step.toUInt16 := UInt16.ofNat_add _ _
  have haddress : origin + (offset + step).toUInt16 = origin + step.toUInt16 + offset.toUInt16 := by
    rw [hstep]
    ac_rfl
  unfold Instruction.place
  rw [haddress]
  cases firstRead architecture first rest with
  | coded opcodeLength rule long read =>
    rw [read _ rest (List.take_prefix _ _), read _ rest (List.take_prefix _ _)]
    simp only [Rule.instruction, hstep, Slot.lastTarget?_add]
  | data taken comment starts read =>
    rw [read _ rest starts, read _ rest starts]
    rfl
  | incomplete read =>
    rw [read, read]
    rfl

theorem decodeFirst_size_add (architecture : Architecture) (offset step : Nat) (first : UInt8)
    (rest : List UInt8) :
    (decodeFirst architecture (offset + step) first rest).size =
      (decodeFirst architecture offset first rest).size := by
  have hplace := congrArg (·.instruction.size)
    (decodeFirst_place_add architecture 0 offset step first rest)
  simpa [Instruction.size] using hplace

theorem isIncomplete_place (h : (decodeFirst architecture offset first rest).IsIncomplete)
    (start origin : Address) :
    ((decodeFirst architecture offset first rest).place start origin
      architecture).instruction.IsIncomplete := by
  have hcomment {instruction : Instruction} (h : instruction.IsIncomplete)
      (hsupport : instruction.support = .none) :
      (instruction.place start origin architecture).instruction.IsIncomplete := by
    refine ⟨?_, ?_⟩
    · rw [place_frame]
      exact h.1
    · rw [place_comment (by rw [hsupport]; exact if_pos (.inl rfl))]
      exact h.2
  refine hcomment h ?_
  cases firstRead architecture first rest with
  | coded opcodeLength rule long read =>
    rw [read offset rest (List.take_prefix _ _)] at h
    cases h.2
  | data taken comment starts read =>
    rw [read offset rest starts]
    rfl
  | incomplete read =>
    rw [read]
    rfl

end Decode

/-! ## Runs -/

/-- The number of bytes in entries, which is the offset behind them. -/
def codeLength (entries : List Entry) : Nat :=
  (entries.flatMap (·.instruction.bytes)).length

theorem codeLength_cons (entry : Entry) (entries : List Entry) :
    codeLength (entry :: entries) = entry.instruction.size + codeLength entries := by
  rw [codeLength, List.flatMap_cons, List.length_append]
  rfl

@[simp]
theorem place_size (instruction : Instruction) (offset origin : Address) (architecture : Architecture) :
    (instruction.place offset origin architecture).instruction.size = instruction.size :=
  congrArg List.length (place_bytes instruction offset origin architecture)

section Runs

variable {architecture : Architecture} {origin : Address} {offset : Nat} {bytes : List UInt8}

theorem Swept.eq_rawEntries {entries : List Entry} (h : Swept architecture origin 0 bytes entries) :
    entries = rawEntries architecture origin bytes := by
  rw [rawEntries, sweep_eq_append bytes (by simpa using h)]
  rfl

/-- A run in a later image is a later run in the image. -/
theorem Swept.rebase {step : Nat} {entries : List Entry}
    (h : Swept architecture origin (offset + step) bytes entries) :
    Swept architecture (origin + step.toUInt16) offset bytes entries := by
  generalize hstart : offset + step = start at h
  induction h generalizing offset with
  | done start => exact .done offset
  | @step start first rest entries run ih =>
    subst hstart
    rw [decodeFirst_place_add]
    rw [decodeFirst_size_add] at run ih
    exact .step (ih (Nat.add_right_comm _ _ _))

/-- Behind some entries the run goes on with the bytes behind theirs. -/
theorem Swept.tail {before after : List Entry}
    (h : Swept architecture origin offset bytes (before ++ after)) :
    Swept architecture origin (offset + codeLength before) (bytes.drop (codeLength before)) after := by
  induction before generalizing offset bytes with
  | nil => exact h
  | cons entry before ih =>
    cases h with
    | @step _ first rest _ run =>
      rw [codeLength_cons, place_size, ← Nat.add_assoc, Nat.add_comm, ← List.drop_drop]
      rw [Nat.add_comm]
      exact ih run

/-- A step is taken again in front of any bytes that start with those of the instruction. -/
theorem Swept.step_of_starts {first : UInt8} {rest other : List UInt8} {entries : List Entry}
    (hwhole : ¬ ((decodeFirst architecture offset first rest).place offset.toUInt16 origin
      architecture).instruction.IsIncomplete)
    (hstarts : (decodeFirst architecture offset first rest).bytes <+: first :: other)
    (run : Swept architecture origin (offset + (decodeFirst architecture offset first rest).size)
      ((first :: other).drop (decodeFirst architecture offset first rest).size) entries) :
    Swept architecture origin offset (first :: other)
      ((decodeFirst architecture offset first rest).place offset.toUInt16 origin architecture ::
        entries) := by
  have hsame := decodeFirst_of_starts (fun h => hwhole (isIncomplete_place h _ _)) hstarts
  rw [← hsame] at run ⊢
  exact .step run

/-- Entries that are complete are read again from their own bytes. -/
theorem Swept.front {before after : List Entry}
    (h : Swept architecture origin offset bytes (before ++ after))
    (hwhole : ∀ entry ∈ before, ¬ entry.instruction.IsIncomplete) :
    Swept architecture origin offset (bytes.take (codeLength before)) before := by
  induction before generalizing offset bytes with
  | nil => exact .done offset
  | cons entry before ih =>
    cases h with
    | @step _ first rest _ run =>
      have hfront := ih run fun entry hmem => hwhole entry (List.mem_cons_of_mem _ hmem)
      have hstarts := (decoded_decodeFirst architecture offset first rest).bytes_starts
      obtain ⟨size, hsize⟩ :=
        Nat.exists_eq_add_of_le' (decodeFirst_size_pos architecture offset first rest)
      rw [codeLength_cons, place_size]
      have htake :
          (first :: rest).take
              ((decodeFirst architecture offset first rest).size + codeLength before) =
            first :: rest.take (size + codeLength before) := by
        rw [hsize, Nat.add_right_comm, List.take_succ_cons]
      rw [htake]
      refine .step_of_starts (hwhole _ List.mem_cons_self) ?_ ?_
      · rw [← htake]
        exact List.prefix_take_iff.mpr ⟨hstarts, Nat.le_add_right _ _⟩
      · rw [← htake, List.drop_take, Nat.add_sub_cancel_left]
        exact hfront

/-- Bytes behind a run that is complete are read as if they stood alone. -/
theorem Swept.append {entries others : List Entry} {more : List UInt8}
    (h : Swept architecture origin offset bytes entries)
    (hwhole : ∀ entry ∈ entries, ¬ entry.instruction.IsIncomplete)
    (hmore : Swept architecture origin (offset + bytes.length) more others) :
    Swept architecture origin offset (bytes ++ more) (entries ++ others) := by
  induction h with
  | done offset => exact hmore
  | @step offset first rest entries run ih =>
    have hstarts := (decoded_decodeFirst architecture offset first rest).bytes_starts
    have hle : (decodeFirst architecture offset first rest).size ≤ (first :: rest).length :=
      hstarts.length_le
    rw [List.cons_append, List.cons_append]
    refine .step_of_starts (hwhole _ List.mem_cons_self) ?_ ?_
    · exact hstarts.trans (List.prefix_append (first :: rest) more)
    · rw [← List.cons_append, List.drop_append_of_le_length hle]
      refine ih (fun entry hmem => hwhole entry (List.mem_cons_of_mem _ hmem)) ?_
      rw [List.length_drop, Nat.add_assoc]
      rwa [Nat.add_sub_cancel' hle]

end Runs

/-! ## Results -/

/-- Entries that agree in everything but labels and comments. -/
structure SameCode (entry other : Entry) : Prop where
  address : other.address = entry.address
  bytes : other.instruction.bytes = entry.instruction.bytes
  mnemonic : other.instruction.mnemonic = entry.instruction.mnemonic
  operands : other.instruction.operands = entry.instruction.operands
  z80Mnemonic : other.instruction.z80Mnemonic = entry.instruction.z80Mnemonic
  target : other.instruction.target = entry.instruction.target
  io : other.instruction.io = entry.instruction.io
  support : other.instruction.support = entry.instruction.support

/-- What an entry is finished to, up to labels and comments. -/
theorem finish_frame (architecture : Architecture) (labels : LabelMap) (image : Span) (entry : Entry) :
    ∃ targetLabel comment, entry.finish architecture labels image =
      { address := entry.address
        instruction :=
          { (if architecture.isPrimary then entry.instruction else entry.instruction.toIntel) with
            targetLabel, comment }
        label := labels[entry.address]? } := by
  unfold Entry.finish
  rw [attach_eq]
  split
  · exact ⟨_, _, rfl⟩
  · obtain ⟨comment, hcomment⟩ := toIntel_remarked entry.instruction
      (((entry.targetLabel? labels image).map Label.name).or entry.instruction.targetLabel)
      entry.instruction.comment
    exact ⟨_, comment, congrArg (Entry.mk entry.address · labels[entry.address]?) hcomment⟩

theorem sameCode_finish (architecture : Architecture) (entry : Entry) (labels others : LabelMap)
    (image other : Span) :
    SameCode (entry.finish architecture labels image) (entry.finish architecture others other) := by
  obtain ⟨_, _, hleft⟩ := finish_frame architecture labels image entry
  obtain ⟨_, _, hright⟩ := finish_frame architecture others other entry
  rw [hleft, hright]
  exact ⟨rfl, rfl, rfl, rfl, rfl, rfl, rfl, rfl⟩

/-- The passes behind the loop leave an incomplete instruction as it is. -/
theorem isIncomplete_finish {entry : Entry} (h : entry.instruction.IsIncomplete)
    (architecture : Architecture) (labels : LabelMap) (image : Span) :
    (entry.finish architecture labels image).instruction.IsIncomplete := by
  have hattach : (entry.attach labels image).instruction.IsIncomplete := by
    rw [attach_eq]
    exact h
  unfold Entry.finish
  split
  · exact hattach
  · have hspelling : Intel.spelling? (entry.attach labels image).instruction = none := by
      rw [Intel.spelling?, Intel.otherSpelling?, hattach.1]
      rfl
    have hkept : (entry.attach labels image).instruction.toIntel =
        (entry.attach labels image).instruction := by
      rw [Instruction.toIntel, Instruction.toIntel?, hspelling]
      rfl
    rw [hkept]
    exact hattach

theorem forall₂_sameCode_map (architecture : Architecture) (entries : List Entry)
    (labels others : LabelMap) (image other : Span) :
    List.Forall₂ SameCode (entries.map (Entry.finish architecture labels image))
      (entries.map (Entry.finish architecture others other)) := by
  rw [List.forall₂_map_left_iff, List.forall₂_map_right_iff]
  exact List.forall₂_same.mpr fun entry _ => sameCode_finish architecture entry labels others image other

section Finished

variable {image : List UInt8} {origin : Address} {architecture : Architecture}

theorem codeLength_map_finish (labels : LabelMap) (span : Span) (entries : List Entry) :
    codeLength (entries.map (Entry.finish architecture labels span)) = codeLength entries := by
  simp only [codeLength, List.flatMap_map, finish_bytes]

theorem exists_disassemble {entries : List Entry} (h : Swept architecture origin 0 image entries)
    (fits : origin.toNat + image.length ≤ addressSpace) (labels : LabelMap) (span : Span) :
    ∃ disassembly, disassemble image origin architecture = .ok disassembly ∧
      List.Forall₂ SameCode (entries.map (Entry.finish architecture labels span))
        disassembly.entries.toList := by
  refine ⟨_, disassemble_eq_ok architecture fits, ?_⟩
  rw [h.eq_rawEntries]
  exact forall₂_sameCode_map architecture _ labels _ span _

theorem exists_disassemble_tail {before after : List Entry}
    (hraw : rawEntries architecture origin image = before ++ after)
    (fits : origin.toNat + image.length ≤ addressSpace) (hinside : codeLength before < image.length)
    (labels : LabelMap) (span : Span) :
    ∃ tail, disassemble (image.drop (codeLength before)) (origin + (codeLength before).toUInt16)
        architecture = .ok tail ∧
      List.Forall₂ SameCode (after.map (Entry.finish architecture labels span)) tail.entries.toList := by
  have hrun := swept_rawEntries architecture origin image
  rw [hraw] at hrun
  refine exists_disassemble hrun.tail.rebase ?_ labels span
  rw [toNat_add_offset (by omega), List.length_drop]
  omega

theorem exists_disassemble_front {before after : List Entry}
    (hraw : rawEntries architecture origin image = before ++ after)
    (fits : origin.toNat + image.length ≤ addressSpace)
    (hwhole : ∀ entry ∈ before, ¬ entry.instruction.IsIncomplete) (labels : LabelMap) (span : Span) :
    ∃ front, disassemble (image.take (codeLength before)) origin architecture = .ok front ∧
      List.Forall₂ SameCode (before.map (Entry.finish architecture labels span))
        front.entries.toList := by
  have hrun := swept_rawEntries architecture origin image
  rw [hraw] at hrun
  have hlength := List.length_take_le' (codeLength before) image
  exact exists_disassemble (hrun.front hwhole) (by omega) labels span

theorem exists_disassemble_append
    (hwhole : ∀ entry ∈ rawEntries architecture origin image, ¬ entry.instruction.IsIncomplete)
    {more : List UInt8} (hmore : more ≠ [])
    (fits : origin.toNat + (image ++ more).length ≤ addressSpace) :
    ∃ next whole, disassemble more (origin + image.length.toUInt16) architecture = .ok next ∧
      disassemble (image ++ more) origin architecture = .ok whole ∧
      List.Forall₂ SameCode ((finished image origin architecture).entries.toList ++
        next.entries.toList) whole.entries.toList := by
  have hpos := List.length_pos_iff.mpr hmore
  rw [List.length_append] at fits
  obtain ⟨others, hothers⟩ := exists_swept architecture origin (0 + image.length) more
  have hnext := hothers.rebase.eq_rawEntries
  have hrun := (swept_rawEntries architecture origin image).append hwhole hothers
  have hplace : (origin + image.length.toUInt16).toNat = origin.toNat + image.length :=
    toNat_add_offset (by omega)
  refine ⟨_, _, disassemble_eq_ok architecture (by omega),
    disassemble_eq_ok architecture (by rw [List.length_append]; exact fits), ?_⟩
  show List.Forall₂ SameCode (List.map _ _ ++ List.map _ _) (List.map _ _)
  rw [← hrun.eq_rawEntries, hnext, List.map_append]
  exact List.rel_append (forall₂_sameCode_map _ _ _ _ _ _) (forall₂_sameCode_map _ _ _ _ _ _)

end Finished

/-- A disassembly can be cut at every boundary between entries. What comes behind it is the
disassembly of the bytes behind it. What stands before it is the disassembly of the bytes before it,
if none of these entries is cut off by the end of the image. In the same way the disassembly of more
bytes can be put behind it. -/
theorem disassemble_split {image : List UInt8} {origin : Address} {architecture : Architecture}
    {disassembly : Disassembly} (h : disassemble image origin architecture = .ok disassembly) :
    (∀ before after, disassembly.entries.toList = before ++ after →
      (codeLength before < image.length →
        ∃ tail, disassemble (image.drop (codeLength before)) (origin + (codeLength before).toUInt16)
            architecture = .ok tail ∧
          List.Forall₂ SameCode after tail.entries.toList) ∧
      ((∀ entry ∈ before, ¬ entry.instruction.IsIncomplete) →
        ∃ front, disassemble (image.take (codeLength before)) origin architecture = .ok front ∧
          List.Forall₂ SameCode before front.entries.toList)) ∧
    ((∀ entry ∈ disassembly.entries.toList, ¬ entry.instruction.IsIncomplete) →
      ∀ more, more ≠ [] → origin.toNat + (image ++ more).length ≤ addressSpace →
        ∃ next whole, disassemble more (origin + image.length.toUInt16) architecture = .ok next ∧
          disassemble (image ++ more) origin architecture = .ok whole ∧
          List.Forall₂ SameCode (disassembly.entries.toList ++ next.entries.toList)
            whole.entries.toList) := by
  obtain ⟨fits, rfl⟩ := eq_finished_of_disassemble h
  -- An entry of the loop that is incomplete is still so in the result.
  have hraw {entries : List Entry} (hwhole : ∀ entry ∈ entries.map (Entry.finish architecture
      (finished image origin architecture).labels ⟨origin, image.length⟩),
      ¬ entry.instruction.IsIncomplete) : ∀ entry ∈ entries, ¬ entry.instruction.IsIncomplete :=
    fun entry hmem hcut =>
      hwhole _ (List.mem_map_of_mem hmem) (isIncomplete_finish hcut architecture _ _)
  refine ⟨fun before after hsplit => ?_, fun hwhole more hmore hfits => ?_⟩
  · obtain ⟨rawBefore, rawAfter, hentries, rfl, rfl⟩ := List.map_eq_append_iff.mp hsplit
    rw [codeLength_map_finish]
    exact ⟨fun hinside => exists_disassemble_tail hentries fits hinside _ _,
      fun hwhole => exists_disassemble_front hentries fits (hraw hwhole) _ _⟩
  · exact exists_disassemble_append (hraw hwhole) hmore hfits

/-- A load and a jump back to it, cut between the two and continued by a restart. -/
theorem disassemble_split_loop :
    ∃ loop load jump restart whole,
      disassemble [0x3E, 0x01, 0x18, 0xFC] 0x8000 .i8080 = .ok loop ∧
      disassemble [0x3E, 0x01] 0x8000 .i8080 = .ok load ∧
      disassemble [0x18, 0xFC] 0x8002 .i8080 = .ok jump ∧
      disassemble [0xFF] 0x8004 .i8080 = .ok restart ∧
      disassemble [0x3E, 0x01, 0x18, 0xFC, 0xFF] 0x8000 .i8080 = .ok whole ∧
      whole.entries.toList.map (fun entry => (entry.address, entry.instruction.mnemonic)) =
        [(0x8000, "MVI"), (0x8002, "JR"), (0x8004, "RST")] ∧
      jump.entries.toList.map (·.instruction.destination?) = [some 0x8000] ∧
      List.Forall₂ SameCode (loop.entries.toList.take 1) load.entries.toList ∧
      List.Forall₂ SameCode (loop.entries.toList.drop 1) jump.entries.toList ∧
      List.Forall₂ SameCode (loop.entries.toList ++ restart.entries.toList) whole.entries.toList := by
  have hloop : disassemble [0x3E, 0x01, 0x18, 0xFC] 0x8000 .i8080 = .ok _ :=
    disassemble_eq_ok .i8080 (by decide)
  have hboundary : codeLength ((finished [0x3E, 0x01, 0x18, 0xFC] 0x8000 .i8080).entries.toList.take 1) =
      2 := by
    decide +kernel
  obtain ⟨hsplit, happend⟩ := disassemble_split hloop
  obtain ⟨htail, hfront⟩ := hsplit _ _ (List.take_append_drop 1 _).symm
  rw [hboundary] at htail hfront
  obtain ⟨jump, hjump, hafter⟩ := htail (by decide)
  obtain ⟨load, hload, hbefore⟩ := hfront (by decide +kernel)
  obtain ⟨restart, whole, hrestart, hwhole, hjoined⟩ :=
    happend (by decide +kernel) [0xFF] (by decide) (by decide)
  obtain ⟨-, rfl⟩ := eq_finished_of_disassemble hjump
  obtain ⟨-, rfl⟩ := eq_finished_of_disassemble hwhole
  exact ⟨_, load, _, restart, _, hloop, hload, hjump, hrestart, hwhole, by decide +kernel,
    by decide +kernel, hbefore, hafter, hjoined⟩

end Disasm
