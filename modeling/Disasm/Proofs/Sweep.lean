import Mathlib.Data.List.Chain
import Disasm.Proofs.Decoding

/-!
# The decoding loop

`Swept` is the run of the decoding loop without its accumulator: each step decodes the instruction at
the cursor and moves the cursor behind it. `sweep` runs it (`swept_sweep`).

A run takes the image apart: the bytes of its entries are the image again (`Swept.bytes_eq`), and as
long as the image fits, each entry starts where the one before ends (`Swept.contiguous`). Addresses
have sixteen bits, so this is the place where it matters that they do not wrap.
-/

namespace Disasm

/-! ## Runs -/

/-- The entries of the bytes that start `offset` bytes into the image. -/
inductive Swept (architecture : Architecture) (origin : Address) :
    Nat → List UInt8 → List Entry → Prop where
  | done (offset : Nat) : Swept architecture origin offset [] []
  | step {offset : Nat} {first : UInt8} {rest : List UInt8} {entries : List Entry}
      (run : Swept architecture origin
        (offset + (decodeFirst architecture offset first rest).size)
        ((first :: rest).drop (decodeFirst architecture offset first rest).size) entries) :
      Swept architecture origin offset (first :: rest)
        ((decodeFirst architecture offset first rest).place offset.toUInt16 origin architecture ::
          entries)

section Runs

variable {architecture : Architecture} {origin : Address}

theorem decodeFirst_size_pos (architecture : Architecture) (offset : Nat) (first : UInt8)
    (rest : List UInt8) : 1 ≤ (decodeFirst architecture offset first rest).size :=
  (decoded_decodeFirst architecture offset first rest).size_bounds.1

/-- Every list of bytes has a run: the cursor moves on at each step. -/
theorem exists_swept (architecture : Architecture) (origin : Address) (offset : Nat)
    (bytes : List UInt8) : ∃ entries, Swept architecture origin offset bytes entries := by
  induction hlength : bytes.length using Nat.strong_induction_on generalizing offset bytes with
  | _ length ih =>
    cases bytes with
    | nil => exact ⟨[], .done offset⟩
    | cons first rest =>
      have hpos := decodeFirst_size_pos architecture offset first rest
      have hshorter : ((first :: rest).drop (decodeFirst architecture offset first rest).size).length
          < length := by
        rw [List.length_drop, hlength]
        rw [List.length_cons] at hlength
        omega
      obtain ⟨entries, hrun⟩ := ih _ hshorter _ _ rfl
      exact ⟨_, .step hrun⟩

/-- The loop appends the entries of the run that starts behind the pending bytes. -/
theorem sweep_eq_append (bytes : List UInt8) :
    ∀ {pending offset : Nat} {done : Array Entry} {entries : List Entry},
      Swept architecture origin (offset + pending) (bytes.drop pending) entries →
        (sweep architecture origin pending offset bytes done).toList = done.toList ++ entries := by
  induction bytes with
  | nil =>
    intro pending offset done entries hrun
    rw [List.drop_nil] at hrun
    cases hrun
    simp [sweep]
  | cons first rest ih =>
    intro pending offset done entries hrun
    cases pending with
    | succ pending =>
      rw [List.drop_succ_cons, ← Nat.add_assoc, Nat.add_right_comm] at hrun
      exact ih hrun
    | zero =>
      rw [List.drop_zero, Nat.add_zero] at hrun
      cases hrun with
      | step run =>
        obtain ⟨size, hsize⟩ :=
          Nat.exists_eq_add_of_le' (decodeFirst_size_pos architecture offset first rest)
        rw [hsize, List.drop_succ_cons, ← Nat.add_assoc, Nat.add_right_comm] at run
        rw [sweep, hsize, Nat.add_sub_cancel, ih run]
        simp

theorem swept_sweep (architecture : Architecture) (origin : Address) (image : List UInt8) :
    Swept architecture origin 0 image (sweep architecture origin 0 0 image #[]).toList := by
  obtain ⟨entries, hrun⟩ := exists_swept architecture origin 0 image
  rw [sweep_eq_append image (by simpa using hrun)]
  simpa using hrun

/-! ## Coverage -/

@[simp]
theorem place_address (instruction : Instruction) (offset origin : Address)
    (architecture : Architecture) :
    (instruction.place offset origin architecture).address = origin + offset := rfl

theorem warn_frame (instruction : Instruction) (architecture : Architecture) :
    instruction.warn architecture =
      { instruction with comment := (instruction.warn architecture).comment } := by
  unfold Instruction.warn
  split <;> rfl

theorem place_frame (instruction : Instruction) (offset origin : Address)
    (architecture : Architecture) :
    (instruction.place offset origin architecture).instruction =
      { instruction with
        target := instruction.target.map (.rebase origin)
        comment := (instruction.place offset origin architecture).instruction.comment } :=
  warn_frame _ _

@[simp]
theorem place_bytes (instruction : Instruction) (offset origin : Address)
    (architecture : Architecture) :
    (instruction.place offset origin architecture).instruction.bytes = instruction.bytes := by
  rw [place_frame]

@[simp]
theorem place_mnemonic (instruction : Instruction) (offset origin : Address)
    (architecture : Architecture) :
    (instruction.place offset origin architecture).instruction.mnemonic = instruction.mnemonic := by
  rw [place_frame]

@[simp]
theorem place_target (instruction : Instruction) (offset origin : Address)
    (architecture : Architecture) :
    (instruction.place offset origin architecture).instruction.target =
      instruction.target.map (.rebase origin) := by
  rw [place_frame]

theorem warn_eq_self {instruction : Instruction} {architecture : Architecture}
    (h : instruction.support.warning? architecture = none) :
    instruction.warn architecture = instruction := by
  rw [Instruction.warn, h]

theorem place_comment {instruction : Instruction} {architecture : Architecture}
    (h : instruction.support.warning? architecture = none) (offset origin : Address) :
    (instruction.place offset origin architecture).instruction.comment = instruction.comment := by
  let moved := { instruction with target := instruction.target.map (.rebase origin) }
  show (moved.warn architecture).comment = instruction.comment
  rw [warn_eq_self (show moved.support.warning? architecture = none from h)]

theorem decodeFirst_bytes_append (architecture : Architecture) (offset : Nat) (first : UInt8)
    (rest : List UInt8) :
    (decodeFirst architecture offset first rest).bytes ++
      (first :: rest).drop (decodeFirst architecture offset first rest).size = first :: rest := by
  have hprefix := (decoded_decodeFirst architecture offset first rest).bytes_starts
  conv_lhs => lhs; rw [List.prefix_iff_eq_take.mp hprefix]
  exact List.take_append_drop _ _

/-- The entries of a run keep all bytes, in order. -/
theorem Swept.bytes_eq {offset : Nat} {bytes : List UInt8} {entries : List Entry}
    (h : Swept architecture origin offset bytes entries) :
    entries.flatMap (·.instruction.bytes) = bytes := by
  induction h with
  | done offset => rfl
  | step run ih =>
    rw [List.flatMap_cons, place_bytes, ih]
    exact decodeFirst_bytes_append _ _ _ _

/-- Every entry of a run is the first instruction at its place. -/
theorem Swept.exists_decodeFirst {offset : Nat} {bytes : List UInt8} {entries : List Entry}
    (h : Swept architecture origin offset bytes entries) :
    ∀ entry ∈ entries, ∃ place first rest,
      entry = (decodeFirst architecture place first rest).place place.toUInt16 origin
        architecture := by
  induction h with
  | done offset => simp
  | step run ih =>
    intro entry hmem
    rcases List.mem_cons.mp hmem with rfl | hmem
    · exact ⟨_, _, _, rfl⟩
    · exact ih entry hmem

theorem Swept.exists_decoded {offset : Nat} {bytes : List UInt8} {entries : List Entry}
    (h : Swept architecture origin offset bytes entries) :
    ∀ entry ∈ entries, ∃ place bytes instruction, Decoded architecture place bytes instruction ∧
      entry = instruction.place place.toUInt16 origin architecture := by
  intro entry hmem
  obtain ⟨place, first, rest, rfl⟩ := h.exists_decodeFirst entry hmem
  exact ⟨_, _, _, decoded_decodeFirst _ _ _ _, rfl⟩

theorem Swept.size_bounds {offset : Nat} {bytes : List UInt8} {entries : List Entry}
    (h : Swept architecture origin offset bytes entries) :
    ∀ entry ∈ entries,
      1 ≤ entry.instruction.size ∧ entry.instruction.size ≤ maxInstructionLength := by
  intro entry hmem
  obtain ⟨place, bytes, instruction, hdecoded, rfl⟩ := h.exists_decoded entry hmem
  rw [Instruction.size, place_bytes]
  exact hdecoded.size_bounds

end Runs

/-! ## Contiguous entries -/

/-- The first entry starts at `start`, and each next one where the one before ends. Addresses
are compared as numbers, so nothing wraps. -/
def Contiguous : (start : Nat) → List Entry → Prop
  | _, [] => True
  | start, entry :: entries =>
    entry.address.toNat = start ∧ Contiguous (start + entry.instruction.size) entries

/-- In an image that fits, the entries follow each other without gaps. -/
theorem Swept.contiguous {architecture : Architecture} {origin : Address} {offset : Nat}
    {bytes : List UInt8} {entries : List Entry}
    (h : Swept architecture origin offset bytes entries)
    (fits : origin.toNat + offset + bytes.length ≤ addressSpace) :
    Contiguous (origin.toNat + offset) entries := by
  induction h with
  | done offset => trivial
  | @step offset first rest entries run ih =>
    have hsize : (decodeFirst architecture offset first rest).size ≤ (first :: rest).length :=
      (decoded_decodeFirst architecture offset first rest).bytes_starts.length_le
    have hstart : origin.toNat + offset < addressSpace := by
      rw [List.length_cons] at fits
      omega
    refine ⟨toNat_add_offset hstart, ?_⟩
    rw [Instruction.size, place_bytes, Nat.add_assoc]
    refine ih ?_
    rw [List.length_drop]
    omega

section Contiguous

variable {start : Nat} {entries : List Entry}

theorem Contiguous.start_le (h : Contiguous start entries) :
    ∀ entry ∈ entries, start ≤ entry.address.toNat := by
  induction entries generalizing start with
  | nil => simp
  | cons head tail ih =>
    intro entry hmem
    rcases List.mem_cons.mp hmem with rfl | hmem
    · exact h.1.ge
    · exact (Nat.le_add_right _ _).trans (ih h.2 entry hmem)

theorem Contiguous.head_address (h : Contiguous start entries) :
    ∀ entry ∈ entries.head?, entry.address.toNat = start := by
  cases entries with
  | nil => simp
  | cons head tail =>
    intro entry hmem
    obtain rfl : head = entry := by simpa using hmem
    exact h.1

theorem Contiguous.isChain (h : Contiguous start entries) :
    entries.IsChain fun entry next =>
      next.address.toNat = entry.address.toNat + entry.instruction.size := by
  induction entries generalizing start with
  | nil => exact .nil
  | cons head tail ih =>
    rw [List.isChain_cons]
    refine ⟨fun next hnext => ?_, ih h.2⟩
    rw [h.2.head_address next hnext, h.1]

theorem Contiguous.pairwise_end_le (h : Contiguous start entries) :
    entries.Pairwise fun entry later =>
      entry.address.toNat + entry.instruction.size ≤ later.address.toNat := by
  induction entries generalizing start with
  | nil => exact .nil
  | cons head tail ih =>
    refine .cons (fun later hlater => ?_) (ih h.2)
    rw [h.1]
    exact h.2.start_le later hlater

theorem Contiguous.pairwise_lt (h : Contiguous start entries)
    (hsize : ∀ entry ∈ entries, 1 ≤ entry.instruction.size) :
    entries.Pairwise fun entry later => entry.address < later.address := by
  refine h.pairwise_end_le.imp_of_mem fun hentry _ hend => ?_
  have hpos := hsize _ hentry
  rw [UInt16.lt_iff_toNat_lt]
  omega

end Contiguous

end Disasm
