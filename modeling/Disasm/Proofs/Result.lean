import Mathlib.Data.List.Chain
import Disasm.Proofs.Cursor

/-!
# The result of a disassembly

Behind the decoding loop come two passes over the entries: labels are attached, and on the 8080 and
the 8085 the instructions are spelled anew. `Entry.finish` is what both do to one entry, and
`disassemble_eq_ok` says that the result consists of the finished entries of the loop. The passes keep
addresses and bytes, so the result covers the image as the loop does (`finished_covers`).
-/

namespace Disasm

/-! ## What the passes keep -/

theorem toIntel_frame (instruction : Instruction) :
    instruction.toIntel =
      { instruction with
        mnemonic := instruction.toIntel.mnemonic
        operands := instruction.toIntel.operands
        comment := instruction.toIntel.comment
        z80Mnemonic := instruction.toIntel.z80Mnemonic } := by
  unfold Instruction.toIntel Instruction.toIntel?
  split
  · rfl
  · split <;> rfl

@[simp]
theorem toIntel_bytes (instruction : Instruction) :
    instruction.toIntel.bytes = instruction.bytes := by
  rw [toIntel_frame]

@[simp]
theorem toIntel_target (instruction : Instruction) :
    instruction.toIntel.target = instruction.target := by
  rw [toIntel_frame]

@[simp]
theorem toIntel_targetLabel (instruction : Instruction) :
    instruction.toIntel.targetLabel = instruction.targetLabel := by
  rw [toIntel_frame]

@[simp]
theorem toIntel_io (instruction : Instruction) : instruction.toIntel.io = instruction.io := by
  rw [toIntel_frame]

@[simp]
theorem toIntel_support (instruction : Instruction) :
    instruction.toIntel.support = instruction.support := by
  rw [toIntel_frame]

theorem attach_eq (labels : LabelMap) (image : Span) (entry : Entry) :
    entry.attach labels image =
      { entry with
        instruction :=
          { entry.instruction with
            targetLabel :=
              ((entry.targetLabel? labels image).map Label.name).or entry.instruction.targetLabel }
        label := labels[entry.address]? } := by
  unfold Entry.attach
  split
  case h_1 label h => simp [h]
  case h_2 h => simp [h]

/-! ## Finished entries -/

/-- What becomes of an entry behind the decoding loop. -/
def Entry.finish (architecture : Architecture) (labels : LabelMap) (image : Span) (entry : Entry) :
    Entry :=
  if architecture.isPrimary then entry.attach labels image
  else
    { entry.attach labels image with
      instruction := (entry.attach labels image).instruction.toIntel }

section Finish

variable (architecture : Architecture) (labels : LabelMap) (image : Span) (entry : Entry)

@[simp]
theorem finish_address : (entry.finish architecture labels image).address = entry.address := by
  unfold Entry.finish
  split <;> simp [attach_eq]

@[simp]
theorem finish_label : (entry.finish architecture labels image).label = labels[entry.address]? := by
  unfold Entry.finish
  split <;> simp [attach_eq]

@[simp]
theorem finish_bytes :
    (entry.finish architecture labels image).instruction.bytes = entry.instruction.bytes := by
  unfold Entry.finish
  split <;> simp [attach_eq]

@[simp]
theorem finish_target :
    (entry.finish architecture labels image).instruction.target = entry.instruction.target := by
  unfold Entry.finish
  split <;> simp [attach_eq]

@[simp]
theorem finish_targetLabel :
    (entry.finish architecture labels image).instruction.targetLabel =
      ((entry.targetLabel? labels image).map Label.name).or entry.instruction.targetLabel := by
  unfold Entry.finish
  split <;> simp [attach_eq]

@[simp]
theorem finish_io :
    (entry.finish architecture labels image).instruction.io = entry.instruction.io := by
  unfold Entry.finish
  split <;> simp [attach_eq]

@[simp]
theorem finish_support :
    (entry.finish architecture labels image).instruction.support = entry.instruction.support := by
  unfold Entry.finish
  split <;> simp [attach_eq]

@[simp]
theorem finish_size :
    (entry.finish architecture labels image).instruction.size = entry.instruction.size := by
  simp [Instruction.size]

end Finish

/-- The entries of an image before labels are attached. -/
def rawEntries (architecture : Architecture) (origin : Address) (image : List UInt8) : List Entry :=
  (sweep architecture origin 0 0 image #[]).toList

theorem swept_rawEntries (architecture : Architecture) (origin : Address) (image : List UInt8) :
    Swept architecture origin 0 image (rawEntries architecture origin image) :=
  swept_sweep architecture origin image

/-- The result for an image that fits. -/
def finished (image : List UInt8) (origin : Address) (architecture : Architecture) : Disassembly :=
  let raw := rawEntries architecture origin image
  let labels := LabelMap.ofEntries raw
  { image := ⟨origin, image.length⟩
    architecture
    entries := (raw.map (Entry.finish architecture labels ⟨origin, image.length⟩)).toArray
    labels }

/-- Every entry of a result is a decoded instruction at its place, finished. -/
theorem exists_decoded_of_mem {image : List UInt8} {origin : Address} {architecture : Architecture}
    {entry : Entry} (h : entry ∈ (finished image origin architecture).entries) :
    ∃ offset bytes decoded, Decoded architecture offset bytes decoded ∧
      entry = (decoded.place offset.toUInt16 origin architecture).finish architecture
        (finished image origin architecture).labels ⟨origin, image.length⟩ := by
  obtain ⟨raw, hraw, rfl⟩ := List.mem_map.mp (Array.mem_toList_iff.mpr h)
  obtain ⟨offset, bytes, decoded, hdecoded, rfl⟩ :=
    (swept_rawEntries architecture origin image).exists_decoded raw hraw
  exact ⟨offset, bytes, decoded, hdecoded, rfl⟩

theorem disassemble_eq_ok {image : List UInt8} {origin : Address} (architecture : Architecture)
    (fits : origin.toNat + image.length ≤ addressSpace) :
    disassemble image origin architecture = .ok (finished image origin architecture) := by
  have hfits : (⟨origin, image.length⟩ : Span).Fits := fits
  simp only [disassemble, if_pos hfits, resolve, finished, rawEntries, Except.ok.injEq,
    Disassembly.mk.injEq, true_and, and_true]
  congr 1
  by_cases hprimary : architecture.isPrimary
  · rw [if_pos hprimary]
    refine List.map_congr_left fun entry _ => ?_
    rw [Entry.finish, if_pos hprimary]
  · rw [if_neg hprimary, List.map_map]
    refine List.map_congr_left fun entry _ => ?_
    rw [Entry.finish, if_neg hprimary]
    rfl

theorem disassemble_eq_error {image : List UInt8} {origin : Address} (architecture : Architecture)
    (large : addressSpace < origin.toNat + image.length) :
    disassemble image origin architecture = .error ⟨⟨origin, image.length⟩⟩ := by
  have hlarge : ¬ (⟨origin, image.length⟩ : Span).Fits := Nat.not_le.mpr large
  simp only [disassemble, if_neg hlarge]

/-- Only images that fit are accepted. -/
theorem eq_finished_of_disassemble {image : List UInt8} {origin : Address}
    {architecture : Architecture} {disassembly : Disassembly}
    (h : disassemble image origin architecture = .ok disassembly) :
    origin.toNat + image.length ≤ addressSpace ∧
      disassembly = finished image origin architecture := by
  by_cases fits : origin.toNat + image.length ≤ addressSpace
  · rw [disassemble_eq_ok architecture fits, Except.ok.injEq] at h
    exact ⟨fits, h.symm⟩
  · rw [disassemble_eq_error architecture (Nat.lt_of_not_le fits)] at h
    cases h

/-! ## Coverage -/

/-- The entries take an image apart that is loaded at `origin`. -/
structure Covers (image : List UInt8) (origin : Address) (entries : List Entry) : Prop where
  size_bounds : ∀ entry ∈ entries,
    1 ≤ entry.instruction.bytes.length ∧ entry.instruction.bytes.length ≤ maxInstructionLength
  bytes_eq : entries.flatMap (·.instruction.bytes) = image
  starts_at : ∀ entry ∈ entries.head?, entry.address = origin
  follows : entries.IsChain fun entry next =>
    next.address.toNat = entry.address.toNat + entry.instruction.size
  ascends : entries.Pairwise fun entry later => entry.address < later.address

theorem Contiguous.map_finish {start : Nat} {entries : List Entry} (h : Contiguous start entries)
    (architecture : Architecture) (labels : LabelMap) (image : Span) :
    Contiguous start (entries.map (Entry.finish architecture labels image)) := by
  induction entries generalizing start with
  | nil => trivial
  | cons entry entries ih =>
    refine ⟨?_, ?_⟩
    · rw [finish_address]
      exact h.1
    · rw [finish_size]
      exact ih h.2

theorem finished_contiguous {image : List UInt8} {origin : Address} (architecture : Architecture)
    (fits : origin.toNat + image.length ≤ addressSpace) :
    Contiguous origin.toNat (finished image origin architecture).entries.toList :=
  Contiguous.map_finish ((swept_rawEntries architecture origin image).contiguous fits) _ _ _

theorem finished_covers {image : List UInt8} {origin : Address} (architecture : Architecture)
    (fits : origin.toNat + image.length ≤ addressSpace) :
    Covers image origin (finished image origin architecture).entries.toList := by
  have hrun := swept_rawEntries architecture origin image
  have hcontiguous := finished_contiguous architecture fits
  have hsize : ∀ entry ∈ (finished image origin architecture).entries.toList,
      1 ≤ entry.instruction.size ∧ entry.instruction.size ≤ maxInstructionLength := by
    intro entry hmem
    obtain ⟨raw, hraw, rfl⟩ := List.mem_map.mp hmem
    rw [finish_size]
    exact hrun.size_bounds raw hraw
  constructor
  case size_bounds => exact hsize
  case bytes_eq =>
    refine Eq.trans ?_ hrun.bytes_eq
    simp [finished, List.flatMap_map]
  case starts_at =>
    intro entry hmem
    exact UInt16.toNat_inj.mp (hcontiguous.head_address entry hmem)
  case follows => exact hcontiguous.isChain
  case ascends => exact hcontiguous.pairwise_lt fun entry hmem => (hsize entry hmem).1

/-- An image is refused exactly if it is too large. Otherwise the decoder runs to its end, without a
byte out of range or an instruction of a wrong length, and the entries cover the image. -/
theorem disassemble_covers_image (image : List UInt8) (origin : Address)
    (architecture : Architecture) :
    (addressSpace < origin.toNat + image.length ∧
      disassemble image origin architecture = .error ⟨⟨origin, image.length⟩⟩) ∨
    (origin.toNat + image.length ≤ addressSpace ∧
      Cursor.run architecture origin image 0 =
        .ok (sweep architecture origin 0 0 image #[]).toList ∧
      ∃ disassembly, disassemble image origin architecture = .ok disassembly ∧
        Covers image origin disassembly.entries.toList) := by
  by_cases fits : origin.toNat + image.length ≤ addressSpace
  · exact .inr ⟨fits, Cursor.run_eq architecture origin image, _,
      disassemble_eq_ok architecture fits, finished_covers architecture fits⟩
  · have large := Nat.lt_of_not_le fits
    exact .inl ⟨large, disassemble_eq_error architecture large⟩

end Disasm
