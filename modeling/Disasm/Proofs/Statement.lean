import Mathlib.Data.List.Basic
import Disasm.Proofs.Operands

/-!
# Instructions from their statements

The shape of a statement leads back to the opcode, and the numbers in it to the bytes behind the
opcode. So two instructions at one place that are shown alike were decoded from the same bytes, or
from the two encodings of one load or store (`Presents.bytes_eq_or_twin`).
-/

namespace Disasm

/-! ## Bytes -/

theorem take_one {bytes : List UInt8} (h : 1 ≤ bytes.length) : bytes.take 1 = [firstByte bytes] := by
  rcases bytes with _ | ⟨first, rest⟩
  · cases h
  · rfl

theorem take_two {bytes : List UInt8} (h : 2 ≤ bytes.length) :
    bytes.take 2 = [bytes.getD 0 0, bytes.getD 1 0] := by
  rcases bytes with _ | ⟨first, _ | ⟨second, rest⟩⟩
  · cases h
  · rw [List.length_singleton] at h
    omega
  · rfl

theorem littleEndian_inj {low high low' high' : UInt8}
    (h : Slot.littleEndian low high = Slot.littleEndian low' high') : low = low' ∧ high = high' := by
  have hnat := congrArg UInt16.toNat h
  rw [Slot.toNat_littleEndian, Slot.toNat_littleEndian] at hnat
  have := low.toNat_lt
  have := high.toNat_lt
  have := low'.toNat_lt
  have := high'.toNat_lt
  constructor
  · exact UInt8.toNat_inj.mp (by omega)
  · exact UInt8.toNat_inj.mp (by omega)

/-- A displacement is a signed byte, so it can be told from the target even if that wraps. -/
theorem relativeTarget_inj {address : Address} {displacement other : UInt8}
    (h : relativeTarget address displacement = relativeTarget address other) :
    displacement = other := by
  have hdistance := (UInt16.add_right_inj _).mp h
  have hnat := congrArg UInt16.toNat hdistance
  have hlt := displacement.toNat_lt
  have hotherLt := other.toNat_lt
  refine UInt8.toNat_inj.mp ?_
  simp only [UInt8.lt_iff_toNat_lt, UInt8.reduceToNat] at hnat
  split at hnat <;> split at hnat <;>
    simp only [UInt16.toNat_sub, UInt8.toNat_toUInt16, UInt16.reduceToNat] at hnat <;> omega

/-- The bytes of a slot can be told from what it is read as. -/
theorem Slot.take_eq_of_read_eq {slot : Slot} {offset : Address} {bytes other : List UInt8}
    (hlong : slot.length ≤ bytes.length) (hlongOther : slot.length ≤ other.length)
    (hoperand : slot.operand bytes = slot.operand other)
    (htarget : slot.target? offset bytes = slot.target? offset other) :
    bytes.take slot.length = other.take slot.length := by
  have hword : littleEndian (bytes.getD 0 0) (bytes.getD 1 0) =
      littleEndian (other.getD 0 0) (other.getD 1 0) → 2 ≤ bytes.length → 2 ≤ other.length →
      bytes.take 2 = other.take 2 := by
    intro heq hbytes hother
    obtain ⟨hlow, hhigh⟩ := littleEndian_inj heq
    rw [take_two hbytes, take_two hother, hlow, hhigh]
  have hbyte : firstByte bytes = firstByte other → 1 ≤ bytes.length → 1 ≤ other.length →
      bytes.take 1 = other.take 1 := by
    intro heq hbytes hother
    rw [take_one hbytes, take_one hother, heq]
  cases slot with
  | text fixed => rfl
  | vector address => rfl
  | imm8 => exact hbyte (Operand.imm8.inj hoperand) hlong hlongOther
  | port => exact hbyte (Operand.port.inj hoperand) hlong hlongOther
  | imm16 => exact hword (Operand.imm16.inj hoperand) hlong hlongOther
  | direct => exact hword (Operand.direct.inj hoperand) hlong hlongOther
  | absolute =>
    exact hword (Target.absolute.inj (Option.some.inj htarget)) hlong hlongOther
  | relative =>
    refine hbyte ?_ hlong hlongOther
    exact relativeTarget_inj (Target.offset.inj (Option.some.inj htarget))

/-! ## Statements -/

/-- The finished form of an instruction that was decoded in an image at `origin`. -/
structure Presents (architecture : Architecture) (origin : Address) (offset : Nat)
    (decoded shown : Instruction) : Prop where
  spelling : shown.spelling =
    architecture.spelling (decoded.place offset.toUInt16 origin architecture).instruction
  target : shown.target = decoded.target.map (.rebase origin)
  label : shown.Shown

/-- The two encodings of one load or store. -/
inductive Twin : List UInt8 → List UInt8 → Prop where
  | store (low high : UInt8) : Twin [0x22, low, high] [0xED, 0x63, low, high]
  | load (low high : UInt8) : Twin [0x2A, low, high] [0xED, 0x6B, low, high]

section Statements

variable {architecture : Architecture} {origin : Address} {offset : Nat}

/-- The bytes behind the opcode `code`. -/
def Rule.operandBytes (rule : Rule) (code bytes : List UInt8) : List UInt8 :=
  (bytes.drop code.length).take (Slot.totalLength rule.slots)

/-- What an instruction with an opcode is decoded from and shown as. -/
structure Coded (architecture : Architecture) (origin : Address) (offset : Nat)
    (code : List UInt8) (rule : Rule) (bytes : List UInt8) (shown : Instruction) : Prop where
  mem : (code, rule) ∈ architecture.codes
  starts : code <+: bytes
  long : rule.encodedLength code.length ≤ bytes.length
  presents : Presents architecture origin offset (rule.instruction code.length offset bytes) shown

namespace Coded

variable {code bytes : List UInt8} {rule : Rule} {shown : Instruction}

theorem bytes_eq (h : Coded architecture origin offset code rule bytes shown) :
    (rule.instruction code.length offset bytes).bytes = code ++ rule.operandBytes code bytes := by
  obtain ⟨rest, rfl⟩ := h.starts
  show (code ++ rest).take (code.length + Slot.totalLength rule.slots) = _
  rw [List.take_length_add_append, Rule.operandBytes, List.drop_left]

theorem length_operandBytes (h : Coded architecture origin offset code rule bytes shown) :
    (rule.operandBytes code bytes).length = Slot.totalLength rule.slots := by
  have hlong := h.long
  unfold Rule.encodedLength at hlong
  rw [Rule.operandBytes, List.length_take, List.length_drop]
  omega

theorem spelling (h : Coded architecture origin offset code rule bytes shown) :
    shown.spelling = (rule.pattern architecture).fill (firstByte (bytes.drop code.length))
      (firstWord (bytes.drop code.length)) := by
  rw [h.presents.spelling]
  exact (regular_of_mem_codes h.mem).spelling_instruction architecture origin _ _ _

theorem mnemonic (h : Coded architecture origin offset code rule bytes shown) :
    shown.mnemonic = (rule.pattern architecture).mnemonic :=
  congrArg Spelling.mnemonic h.spelling

theorem operands (h : Coded architecture origin offset code rule bytes shown) :
    shown.operands = (rule.pattern architecture).operands.map
      (.fill (firstByte (bytes.drop code.length)) (firstWord (bytes.drop code.length))) :=
  congrArg Spelling.operands h.spelling

theorem target {slot : Slot} (h : Coded architecture origin offset code rule bytes shown)
    (hhole : Slot.hole? rule.slots = some slot) :
    shown.target =
      (slot.target? offset.toUInt16 (bytes.drop code.length)).map (.rebase origin) := by
  have htarget : (rule.instruction code.length offset bytes).target =
      slot.target? offset.toUInt16 (bytes.drop code.length) := by
    show Slot.lastTarget? _ _ _ = _
    rw [(regular_of_mem_codes h.mem).single.lastTarget?_eq, hhole]
    rfl
  rw [h.presents.target, htarget]

end Coded

theorem Presents.data {taken : List UInt8} {comment : String} {shown : Instruction}
    (h : Presents architecture origin offset (.data taken comment) shown) :
    shown.mnemonic = "DB" ∧ shown.operands = taken.map .imm8 := by
  have hspelling : shown.spelling = ⟨"DB", taken.map .imm8⟩ :=
    h.spelling.trans (spelling_data architecture taken comment _ _)
  exact ⟨congrArg Spelling.mnemonic hspelling, congrArg Spelling.operands hspelling⟩

theorem Decoded.plain {bytes : List UInt8} {decoded : Instruction}
    (h : Decoded architecture offset bytes decoded) :
    Plain decoded.mnemonic ∧ ∀ operand ∈ decoded.operands, operand.IsPlain := by
  cases h with
  | @coded code rule mem starts long =>
    obtain ⟨hmnemonic, hoperands⟩ := plain_of_mem_codes architecture _ mem
    refine ⟨hmnemonic, fun operand hmem => ?_⟩
    have hfill : (rule.instruction code.length offset bytes).operands = _ :=
      (regular_of_mem_codes mem).single.operands_eq_fill _
    rw [hfill] at hmem
    obtain ⟨blank, hblank, rfl⟩ := List.mem_map.mp hmem
    exact Operand.isPlain_fill _ _ (hoperands blank hblank)
  | data mem starts nonempty short =>
    refine ⟨show Plain "DB" by decide, fun operand hmem => ?_⟩
    obtain ⟨byte, -, rfl⟩ := List.mem_map.mp hmem
    trivial

theorem Presents.plain {bytes : List UInt8} {decoded shown : Instruction}
    (hdecoded : Decoded architecture offset bytes decoded)
    (h : Presents architecture origin offset decoded shown) :
    Plain shown.mnemonic ∧ ∀ operand ∈ shown.operands, operand.IsPlain := by
  cases hdecoded with
  | coded mem starts long =>
    have hlegible := legible_of_mem_codes architecture _ mem
    have hcoded : Coded _ _ _ _ _ _ shown := ⟨mem, starts, long, h⟩
    rw [hcoded.mnemonic, hcoded.operands]
    refine ⟨hlegible.mnemonic_plain, fun operand hmem => ?_⟩
    obtain ⟨blank, hblank, rfl⟩ := List.mem_map.mp hmem
    exact Operand.isPlain_fill _ _ (hlegible.operands_plain blank hblank)
  | data mem starts nonempty short =>
    obtain ⟨hmnemonic, hoperands⟩ := h.data
    rw [hmnemonic, hoperands]
    refine ⟨show Plain "DB" by decide, fun operand hmem => ?_⟩
    obtain ⟨byte, -, rfl⟩ := List.mem_map.mp hmem
    trivial

theorem Presents.wordy {bytes : List UInt8} {decoded shown : Instruction}
    (hdecoded : Decoded architecture offset bytes decoded)
    (h : Presents architecture origin offset decoded shown) : shown.Wordy := by
  obtain ⟨hmnemonic, hoperands⟩ := h.plain hdecoded
  exact wordy_of_plain h.label hmnemonic hoperands

theorem Coded.operands_plain {code bytes : List UInt8} {rule : Rule} {shown : Instruction}
    (h : Coded architecture origin offset code rule bytes shown) :
    ∀ operand ∈ shown.operands, operand.IsPlain :=
  (h.presents.plain (.coded h.mem h.starts h.long)).2

theorem eq_target_of_kind {operand : Operand} (h : operand.kind = .target) : operand = .target := by
  cases operand with
  | target => rfl
  | _ => cases h

/-- A hole that takes bytes is read the same if the statements read the same. -/
theorem hole_eq {slot : Slot} {operand : Operand} {tail otherTail : List UInt8}
    {left right : Instruction}
    (hlength : slot.length ≠ 0) (hkind : operand.kind = (slot.operand []).kind)
    (hleft : left.Shown) (hright : right.Shown)
    (htarget : left.target = (slot.target? offset.toUInt16 tail).map (.rebase origin))
    (hotherTarget : right.target = (slot.target? offset.toUInt16 otherTail).map (.rebase origin))
    (htext : left.renderOperand (operand.fill (firstByte tail) (firstWord tail)) =
      right.renderOperand (operand.fill (firstByte otherTail) (firstWord otherTail))) :
    slot.operand tail = slot.operand otherTail ∧
      slot.target? offset.toUInt16 tail = slot.target? offset.toUInt16 otherTail := by
  cases slot with
  | text fixed => exact absurd rfl hlength
  | vector address => exact absurd rfl hlength
  | imm8 => exact ⟨congrArg Operand.imm8 (byte_eq_of_render_eq hkind htext), rfl⟩
  | port => exact ⟨congrArg Operand.port (byte_eq_of_render_eq hkind htext), rfl⟩
  | imm16 => exact ⟨congrArg Operand.imm16 (word_eq_of_render_eq hkind htext), rfl⟩
  | direct => exact ⟨congrArg Operand.direct (word_eq_of_render_eq hkind htext), rfl⟩
  | absolute =>
    obtain rfl := eq_target_of_kind hkind
    have haddress := address_eq_of_render_target_eq hleft hright (destination?_eq_some.mpr htarget)
      (destination?_eq_some.mpr hotherTarget) htext
    exact ⟨rfl, congrArg (some ∘ Target.absolute) haddress⟩
  | relative =>
    obtain rfl := eq_target_of_kind hkind
    have haddress := address_eq_of_render_target_eq hleft hright (destination?_eq_some.mpr htarget)
      (destination?_eq_some.mpr hotherTarget) htext
    exact ⟨rfl, congrArg (some ∘ Target.offset) ((UInt16.add_right_inj origin).mp haddress)⟩

section Pairs

variable {code otherCode bytes otherBytes : List UInt8} {rule other : Rule}
  {left right : Instruction}

theorem shape_eq (hleft : Coded architecture origin offset code rule bytes left)
    (hright : Coded architecture origin offset otherCode other otherBytes right)
    (hmnemonic : left.mnemonic = right.mnemonic) (htexts : left.operandTexts = right.operandTexts) :
    (rule.pattern architecture).shape = (other.pattern architecture).shape := by
  have hshape := shape_eq_of_texts_eq hleft.presents.label hright.presents.label
    hleft.operands_plain hright.operands_plain hmnemonic htexts
  rwa [hleft.spelling, hright.spelling, shape_fill, shape_fill] at hshape

/-- The bytes behind the opcode can be told from the statement. -/
theorem operandBytes_eq (hleft : Coded architecture origin offset code rule bytes left)
    (hright : Coded architecture origin offset otherCode other otherBytes right)
    (hslots : rule.slots = other.slots)
    (hpattern : rule.pattern architecture = other.pattern architecture)
    (htexts : left.operandTexts = right.operandTexts) :
    rule.operandBytes code bytes = other.operandBytes otherCode otherBytes := by
  have hsame : ∀ operand ∈ (rule.pattern architecture).operands,
      left.renderOperand (operand.fill (firstByte (bytes.drop code.length))
        (firstWord (bytes.drop code.length))) =
      right.renderOperand (operand.fill (firstByte (otherBytes.drop otherCode.length))
        (firstWord (otherBytes.drop otherCode.length))) := by
    rw [Instruction.operandTexts, Instruction.operandTexts, hleft.operands, hright.operands,
      ← hpattern, List.map_map, List.map_map] at htexts
    exact List.map_inj_left.mp htexts
  have htotal := (regular_of_mem_codes hleft.mem).single.totalLength_eq
  have hlong := hleft.length_operandBytes
  have hotherLong := hright.length_operandBytes
  unfold Rule.operandBytes at hlong hotherLong ⊢
  rw [← hslots, htotal] at hotherLong ⊢
  rw [htotal] at hlong
  rcases hhole : Slot.hole? rule.slots with _ | slot
  · rfl
  rw [hhole, Option.elim_some, List.length_take] at hlong hotherLong
  rw [Option.elim_some]
  by_cases hlength : slot.length = 0
  · rw [hlength]
    rfl
  -- The pattern shows what the hole reads, on the 8080 and the 8085 in another place.
  obtain ⟨operand, hoperand, hkind⟩ := List.mem_map.mp
    ((legible_of_mem_codes architecture _ hleft.mem).shows_hole slot hhole hlength)
  obtain ⟨hread, htarget⟩ := hole_eq hlength hkind hleft.presents.label hright.presents.label
    (hleft.target hhole) (hright.target (hslots ▸ hhole)) (hsame operand hoperand)
  exact Slot.take_eq_of_read_eq (by omega) (by omega) hread htarget

/-! ## Shared shapes of the Z80 -/

theorem pattern_z80 (rule : Rule) :
    rule.pattern .z80 = ⟨rule.mnemonic, Slot.operands rule.slots []⟩ := rfl

theorem Coded.restart (h : Coded .z80 origin offset code rule bytes left)
    (hrestart : IsRestart (code, rule)) :
    left.operands = [.vector] ∧ left.destination? = some (firstByte code - 0xC7).toUInt16 ∧
      rule.operandBytes code bytes = [] := by
  have hslots : rule.slots = [.vector (firstByte code - 0xC7)] := hrestart.2
  have hhole : Slot.hole? rule.slots = some (.vector (firstByte code - 0xC7)) := by
    rw [hslots]
    rfl
  refine ⟨?_, destination?_eq_some.mpr (h.target hhole), ?_⟩
  · rw [h.operands, pattern_z80, hslots]
    rfl
  · rw [Rule.operandBytes, hslots]
    rfl

/-- A restart of the Z80 is told from the others by its vector. -/
theorem restart_eq (hleft : Coded .z80 origin offset code rule bytes left)
    (hright : Coded .z80 origin offset otherCode other otherBytes right)
    (hrestart : IsRestart (code, rule)) (hotherRestart : IsRestart (otherCode, other))
    (htexts : left.operandTexts = right.operandTexts) :
    code ++ rule.operandBytes code bytes = otherCode ++ other.operandBytes otherCode otherBytes := by
  obtain ⟨hoperands, hdestination, hnil⟩ := hleft.restart hrestart
  obtain ⟨hotherOperands, hotherDestination, hotherNil⟩ := hright.restart hotherRestart
  rw [Instruction.operandTexts, Instruction.operandTexts, hoperands, hotherOperands] at htexts
  have hlow := low_eq_of_render_vector_eq hleft.presents.label hright.presents.label hdestination
    hotherDestination (List.singleton_inj.mp htexts)
  rw [UInt8.toUInt8_toUInt16, UInt8.toUInt8_toUInt16, UInt8.sub_left_inj] at hlow
  have hcode : code = [firstByte code] := hrestart.1
  have hotherCode : otherCode = [firstByte otherCode] := hotherRestart.1
  rw [hnil, hotherNil, hcode, hotherCode, hlow]

/-- Opcodes of which one is the twin of the other, with the same two bytes behind them. -/
theorem eq_or_twin_of_mem {short long : List UInt8} {low high : UInt8}
    (htwin : Twin (short ++ [low, high]) (long ++ [low, high])) (hcode : code ∈ [short, long])
    (hotherCode : otherCode ∈ [short, long]) :
    code ++ [low, high] = otherCode ++ [low, high] ∨
      Twin (code ++ [low, high]) (otherCode ++ [low, high]) ∨
        Twin (otherCode ++ [low, high]) (code ++ [low, high]) := by
  simp only [List.mem_cons, List.not_mem_nil, or_false] at hcode hotherCode
  rcases hcode with rfl | rfl <;> rcases hotherCode with rfl | rfl
  · exact .inl rfl
  · exact .inr (.inl htwin)
  · exact .inr (.inr htwin)
  · exact .inl rfl

/-- Opcodes with the same slots of two bytes that are twins of each other. -/
theorem bytes_eq_or_twin_of_slots_eq {short long : List UInt8} {slots : List Slot}
    (htwin : ∀ low high, Twin (short ++ [low, high]) (long ++ [low, high]))
    (hlength : Slot.totalLength slots = 2)
    (hleft : Coded .z80 origin offset code rule bytes left)
    (hright : Coded .z80 origin offset otherCode other otherBytes right)
    (hshape : (rule.pattern .z80).shape = (other.pattern .z80).shape)
    (htexts : left.operandTexts = right.operandTexts)
    (hthis : code ∈ [short, long] ∧ rule.slots = slots)
    (hthat : otherCode ∈ [short, long] ∧ other.slots = slots) :
    code ++ rule.operandBytes code bytes = otherCode ++ other.operandBytes otherCode otherBytes ∨
      Twin (code ++ rule.operandBytes code bytes)
          (otherCode ++ other.operandBytes otherCode otherBytes) ∨
        Twin (otherCode ++ other.operandBytes otherCode otherBytes)
          (code ++ rule.operandBytes code bytes) := by
  have hname : rule.mnemonic = other.mnemonic := congrArg Prod.fst hshape
  have hslots : rule.slots = other.slots := hthis.2.trans hthat.2.symm
  have hpattern : rule.pattern .z80 = other.pattern .z80 := by
    rw [pattern_z80, pattern_z80, hname, hslots]
  have htwo : (other.operandBytes otherCode otherBytes).length = 2 := by
    rw [hright.length_operandBytes, hthat.2, hlength]
  obtain ⟨low, high, hlast⟩ := List.length_eq_two.mp htwo
  rw [operandBytes_eq hleft hright hslots hpattern htexts, hlast]
  exact eq_or_twin_of_mem (htwin low high) hthis.1 hthat.1

/-- Statements of opcodes that read the same come from the same bytes or from twins. -/
theorem Coded.bytes_eq_or_twin (hleft : Coded architecture origin offset code rule bytes left)
    (hright : Coded architecture origin offset otherCode other otherBytes right)
    (hmnemonic : left.mnemonic = right.mnemonic) (htexts : left.operandTexts = right.operandTexts) :
    code ++ rule.operandBytes code bytes = otherCode ++ other.operandBytes otherCode otherBytes ∨
      architecture = .z80 ∧
        (Twin (code ++ rule.operandBytes code bytes)
            (otherCode ++ other.operandBytes otherCode otherBytes) ∨
          Twin (otherCode ++ other.operandBytes otherCode otherBytes)
            (code ++ rule.operandBytes code bytes)) := by
  have hshape := shape_eq hleft hright hmnemonic htexts
  rcases eq_or_shared_of_shape_eq hleft.mem hright.mem hshape with heq | ⟨rfl, hshared, hthis, hthat⟩
  · obtain ⟨rfl, rfl⟩ := Prod.mk.inj heq
    left
    rw [operandBytes_eq hleft hright rfl rfl htexts]
  rw [eq_self, true_and]
  generalize Architecture.shape _ _ = shape at hshared hthis hthat
  simp only [sharedShapes, List.mem_cons, List.not_mem_nil, or_false] at hshared
  rcases hshared with rfl | rfl | rfl
  · exact .inl (restart_eq hleft hright (hthis.restart rfl) (hthat.restart rfl) htexts)
  · exact bytes_eq_or_twin_of_slots_eq .store rfl hleft hright hshape htexts (hthis.store rfl)
      (hthat.store rfl)
  · exact bytes_eq_or_twin_of_slots_eq .load rfl hleft hright hshape htexts (hthis.load rfl)
      (hthat.load rfl)

end Pairs

/-! ## All instructions -/

theorem Coded.mnemonic_ne {code bytes : List UInt8} {rule : Rule} {shown : Instruction}
    (h : Coded architecture origin offset code rule bytes shown) : shown.mnemonic ≠ "DB" := by
  rw [h.mnemonic]
  exact (legible_of_mem_codes architecture _ h.mem).mnemonic_ne

theorem data_bytes_eq {taken other : List UInt8} {left right : Instruction}
    (hleft : left.operands = taken.map .imm8) (hright : right.operands = other.map .imm8)
    (htexts : left.operandTexts = right.operandTexts) : taken = other := by
  rw [Instruction.operandTexts, Instruction.operandTexts, hleft, hright, List.map_map,
    List.map_map] at htexts
  refine List.map_injective_iff.mpr (fun byte otherByte heq => ?_) htexts
  exact @byte_eq_of_render_eq left left (.imm8 0) byte otherByte 0 0 rfl heq

/-- Two instructions at one place that are shown alike have the same bytes, or are twins. -/
theorem Presents.bytes_eq_or_twin {bytes otherBytes : List UInt8}
    {decoded otherDecoded left right : Instruction}
    (hdecoded : Decoded architecture offset bytes decoded)
    (hotherDecoded : Decoded architecture offset otherBytes otherDecoded)
    (hleft : Presents architecture origin offset decoded left)
    (hright : Presents architecture origin offset otherDecoded right)
    (hmnemonic : left.mnemonic = right.mnemonic) (htexts : left.operandTexts = right.operandTexts) :
    decoded.bytes = otherDecoded.bytes ∨
      architecture = .z80 ∧
        (Twin decoded.bytes otherDecoded.bytes ∨ Twin otherDecoded.bytes decoded.bytes) := by
  cases hdecoded with
  | coded mem starts long =>
    have hcoded : Coded _ _ _ _ _ _ left := ⟨mem, starts, long, hleft⟩
    cases hotherDecoded with
    | coded otherMem otherStarts otherLong =>
      have hotherCoded : Coded _ _ _ _ _ _ right := ⟨otherMem, otherStarts, otherLong, hright⟩
      rw [hcoded.bytes_eq, hotherCoded.bytes_eq]
      exact hcoded.bytes_eq_or_twin hotherCoded hmnemonic htexts
    | data otherMem otherStarts nonempty short =>
      exact absurd (hmnemonic.trans hright.data.1) hcoded.mnemonic_ne
  | data mem starts nonempty short =>
    cases hotherDecoded with
    | coded otherMem otherStarts otherLong =>
      have hotherCoded : Coded _ _ _ _ _ _ right := ⟨otherMem, otherStarts, otherLong, hright⟩
      exact absurd (hmnemonic.symm.trans hleft.data.1) hotherCoded.mnemonic_ne
    | data otherMem otherStarts otherNonempty otherShort =>
      left
      exact data_bytes_eq hleft.data.2 hright.data.2 htexts

end Statements

end Disasm
