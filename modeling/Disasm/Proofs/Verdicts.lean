import Mathlib.Data.List.Forall2
import Disasm.Proofs.Acceptance

/-!
# Where reading stops

Reading goes over lines that are blank or hold the next data record (`Passes`) until a line decides the
result. If the result is an error, that line is the first one that is neither passed nor the end of the
image, and `Offends` says what is wrong with it (`fails_of_decodeLines`). Without such a line, the end of
the image is missing.

Only the single record is held against the end of the address space.

1. Every record starts where the one before ends, so the image ends where its last record does, and an
   image that is read fits (`fits_of_decode`).
2. A record that ends too high ends above every base, wherever it starts. The length that is reported with
   it is the difference (`overruns_of_decode`).
-/

namespace Disasm.IntelHex

/-! ## The lines before the verdict -/

/-- Lines that are passed, the data records that they hold, and the block behind them. -/
inductive Passes : Option Block → List (List Char) → List Record → Option Block → Prop where
  | nil (block : Option Block) : Passes block [] [] block
  | blank {block next : Option Block} {text : List Char} {rest : List (List Char)}
      {records : List Record} (blank : Text.trim text = [])
      (more : Passes block rest records next) : Passes block (text :: rest) records next
  | data {block next : Option Block} {middle : Block} {text : List Char}
      {rest : List (List Char)} {record : Record} {records : List Record}
      (read : IsRecord (Text.trim text) record) (type : record.type = Record.dataType) (line : Nat)
      (step : extend line block record = .ok middle) (more : Passes (some middle) rest records next) :
      Passes block (text :: rest) (record :: records) next

/-- What is wrong with the text of line number `line` behind a block. -/
inductive Offends (line : Nat) (block : Option Block) (text : List Char) : Error → Prop where
  | malformed {error : Record.Error} (parse : Record.parse text = .error error) :
      Offends line block text (.ofRecord line error)
  | misplaced {record : Record} {error : Error} (read : IsRecord text record)
      (type : record.type = Record.dataType) (step : extend line block record = .error error) :
      Offends line block text error
  | unsupported {record : Record} (read : IsRecord text record)
      (notData : record.type ≠ Record.dataType) (notEnd : record.type ≠ Record.endType) :
      Offends line block text (.unsupportedType line record.type)

/-- Why reading ends with an error: no line is left, or a line offends. -/
inductive Fails (line : Nat) (block : Option Block) : List (List Char) → Error → Prop where
  | unfinished {lines : List (List Char)} {records : List Record} {next : Option Block}
      (passed : Passes block lines records next) : Fails line block lines .missingEndOfFile
  | offence {before after : List (List Char)} {text : List Char} {records : List Record}
      {next : Option Block} {error : Error} (passed : Passes block before records next)
      (written : Text.trim text ≠ [])
      (offends : Offends (line + before.length) next (Text.trim text) error) :
      Fails line block (before ++ text :: after) error

theorem Fails.cons {line : Nat} {block middle : Option Block} {text : List Char}
    {rest : List (List Char)} {error : Error} (h : Fails (line + 1) middle rest error)
    (hpass : ∀ {before records next}, Passes middle before records next →
      ∃ held, Passes block (text :: before) held next) : Fails line block (text :: rest) error := by
  cases h with
  | unfinished passed =>
    obtain ⟨held, hheld⟩ := hpass passed
    exact .unfinished hheld
  | @offence before after other _ _ _ passed hother hoffends =>
    obtain ⟨held, hheld⟩ := hpass passed
    have hline : line + 1 + before.length = line + (text :: before).length := by
      rw [List.length_cons]
      omega
    rw [hline] at hoffends
    exact .offence hheld hother hoffends

theorem fails_of_decodeLines {line : Nat} {block : Option Block} {lines : List (List Char)}
    {error : Error} (h : decodeLines line block lines = .error error) :
    Fails line block lines error := by
  induction lines generalizing line block with
  | nil =>
    obtain rfl := Except.error.inj h
    exact .unfinished (.nil block)
  | cons text rest ih =>
    by_cases hblank : Text.trim text = []
    · rw [decodeLines_blank hblank] at h
      exact (ih h).cons fun hbefore => ⟨_, .blank hblank hbefore⟩
    have hhere {cause : Error} (hoffends : Offends line block (Text.trim text) cause) :
        Fails line block (text :: rest) cause := .offence (.nil block) hblank hoffends
    rw [decodeLines_cons hblank] at h
    split at h
    case h_1 cause hparse =>
      obtain rfl := Except.error.inj h
      exact hhere (.malformed hparse)
    case h_2 record hparse =>
      have hread := parse_eq_ok_iff_isRecord.mp hparse
      split at h
      case isTrue hdata =>
        split at h
        case h_1 cause hstep =>
          obtain rfl := Except.error.inj h
          exact hhere (.misplaced hread hdata hstep)
        case h_2 middle hstep =>
          exact (ih h).cons fun hbefore => ⟨_, .data hread hdata line hstep hbefore⟩
      case isFalse hdata =>
        split at h
        case isTrue => cases h
        case isFalse hend =>
          obtain rfl := Except.error.inj h
          exact hhere (.unsupported hread hdata hend)

section Passes

variable {block next : Option Block} {lines : List (List Char)} {records : List Record}

theorem Passes.isRecord (h : Passes block lines records next) :
    List.Forall₂ IsRecord (written lines) records := by
  induction h with
  | nil => exact .nil
  | blank hblank more ih => rwa [written_cons_blank hblank]
  | data hread type line step more ih =>
    rw [written_cons fun hnil => not_isRecord_nil _ (hnil ▸ hread)]
    exact .cons hread ih

theorem Passes.isData (h : Passes block lines records next) :
    ∀ record ∈ records, record.type = Record.dataType := by
  induction h with
  | nil => simp
  | blank hblank more ih => exact ih
  | data read htype line step more ih => exact List.forall_mem_cons.mpr ⟨htype, ih⟩

theorem Passes.joins (h : Passes block lines records next) :
    Joins block records ((next.map Block.image).getD .empty) := by
  induction h with
  | nil block => exact .nil block
  | blank hblank more ih => exact ih
  | data read type line hstep more ih => exact .cons line hstep ih

/-- A block is there as soon as a record is. -/
theorem Passes.eq_none_iff (h : Passes block lines records next) :
    next = none ↔ block = none ∧ records = [] := by
  induction h with
  | nil => simp
  | blank hblank more ih => exact ih
  | data read type line step more ih => simp [ih]

theorem Passes.image_eq {last : Block} (h : Passes none lines records (some last)) :
    last.image = ⟨firstAddress records, payloads records⟩ :=
  ((joins_none_iff _ _).mp h.joins).2

/-- The base of what is read is the address of the first record, whether or not that one is passed. -/
theorem Passes.base_eq (h : Passes none lines records next) (record : Record) :
    (next.getD ⟨record.address, #[]⟩).base = firstAddress (records ++ [record]) := by
  cases next with
  | none =>
    obtain ⟨-, rfl⟩ := h.eq_none_iff.mp rfl
    rfl
  | some next =>
    have hfirst : next.base = firstAddress records := congrArg Image.base h.image_eq
    cases records with
    | nil => exact absurd (h.eq_none_iff.mpr ⟨rfl, rfl⟩) (Option.some_ne_none next)
    | cons first records => exact hfirst

end Passes

/-! ## Images fit -/

theorem Follow.end_le {start : Nat} {records : List Record} (h : Follow start records)
    (hstart : start ≤ addressSpace) : start + (payloads records).length ≤ addressSpace := by
  induction records generalizing start with
  | nil => exact hstart
  | cons record records ih =>
    obtain ⟨-, hfits, hmore⟩ := h
    have hend := ih hmore hfits
    unfold payloads at hend ⊢
    rw [List.flatMap_cons, List.length_append]
    omega

theorem fits_of_decode {text : String} {image : Image} (h : decode text = .ok image) :
    image.span.Fits := by
  obtain ⟨records, -, hjoins⟩ := (decodeLines_eq_ok_iff _ _ _ _).mp h
  obtain ⟨hfollow, rfl⟩ := (joins_none_iff _ _).mp hjoins
  exact hfollow.end_le (Nat.le_of_lt (firstAddress records).toNat_lt)

/-! ## Records that do not fit -/

theorem extend_eq_error {line : Nat} {block : Option Block} {record : Record} {error : Error}
    (h : extend line block record = .error error) :
    (addressSpace < record.address.toNat + record.payload.length ∧
      error = .imageTooLarge ⟨(block.getD ⟨record.address, #[]⟩).base,
        record.address.toNat + record.payload.length -
          (block.getD ⟨record.address, #[]⟩).base.toNat⟩) ∨
    ∃ expected, expected = (block.getD ⟨record.address, #[]⟩).base.toNat +
        (block.getD ⟨record.address, #[]⟩).data.size ∧
      record.address.toNat ≠ expected ∧ error = .notContiguous line record.address expected := by
  unfold extend at h
  dsimp only at h
  split at h
  case isTrue hlarge => exact .inl ⟨hlarge, (Except.error.inj h).symm⟩
  case isFalse =>
    split at h
    case isTrue => cases h
    case isFalse hplace => exact .inr ⟨_, rfl, hplace, (Except.error.inj h).symm⟩

/-- Lines with a data record that ends behind the address space, the data records before it, and what is
reported as the image. -/
structure Overruns (lines : List (List Char)) (records : List Record) (record : Record)
    (image : Span) : Prop where
  /-- The record stands in a line behind those of the other records. -/
  found : ∃ before text after, lines = before ++ text :: after ∧
    List.Forall₂ IsRecord (written before) records ∧ IsRecord (Text.trim text) record
  isData : ∀ other ∈ records ++ [record], other.type = Record.dataType
  /-- The other records are in place. -/
  follow : Follow (firstAddress records).toNat records
  /-- The base is the one of the image so far, or the record's own. -/
  origin_eq : image.origin = firstAddress (records ++ [record])
  /-- The record ends above the base, so there is a difference. -/
  origin_le : image.origin.toNat ≤ record.address.toNat + record.payload.length
  length_eq : image.length = record.address.toNat + record.payload.length - image.origin.toNat
  exceeds : addressSpace < image.origin.toNat + image.length

theorem overruns_of_decode {text : String} {image : Span}
    (h : decode text = .error (.imageTooLarge image)) :
    ∃ records record, Overruns (text.toList.splitOn '\n') records record image := by
  generalize hlines : text.toList.splitOn '\n' = lines
  generalize herror : Error.imageTooLarge image = error at h
  rw [decode, hlines] at h
  cases fails_of_decodeLines h with
  | unfinished => cases herror
  | @offence before after line records next _ hbefore _ hoffends =>
    cases hoffends with
    | @malformed cause => cases cause <;> cases herror
    | unsupported => cases herror
    | @misplaced record _ hread htype hstep =>
      rcases extend_eq_error hstep with ⟨hlarge, rfl⟩ | ⟨expected, -, -, rfl⟩
      · obtain rfl := Error.imageTooLarge.inj herror
        have hbase := (next.getD ⟨record.address, #[]⟩).base.toNat_lt
        unfold addressSpace at hlarge
        refine ⟨records, record, ?_⟩
        constructor
        case found => exact ⟨before, line, after, rfl, hbefore.isRecord, hread⟩
        case isData => exact List.forall_mem_append.mpr ⟨hbefore.isData, by simpa using htype⟩
        case follow => exact ((joins_none_iff _ _).mp hbefore.joins).1
        case origin_eq => exact hbefore.base_eq record
        case origin_le =>
          dsimp only
          omega
        case length_eq => rfl
        case exceeds =>
          dsimp only [addressSpace]
          omega
      · cases herror

/-! ## Images again -/

/-- Whatever the text, an image that is read from it fits, so that it can be written, and reads back unless
it is empty. An image that is refused for its size is reported with the difference between the end of
the record and the base as its length, and does not fit. -/
theorem decode_bounded (text : String) :
    (∀ image, decode text = .ok image →
      image.base.toNat + image.data.length ≤ addressSpace ∧
        ∃ normal, encode image = .ok normal ∧ (image.data ≠ [] → decode normal = .ok image)) ∧
    ∀ image, decode text = .error (.imageTooLarge image) →
      ∃ records record, Overruns (text.toList.splitOn '\n') records record image := by
  constructor
  · intro image h
    have hfits := fits_of_decode h
    obtain ⟨normal, hencode, hdecode⟩ := exists_encode_of_fits hfits
    refine ⟨hfits, normal, hencode, fun hdata => ?_⟩
    rw [hdecode, if_neg hdata]
  · intro image h
    exact overruns_of_decode h

/-- Two records with blanks and small letters become one. A record at the end of the address space is measured
from the base of the image, however far that lies below. -/
theorem decode_bounded_unrelated :
    (decode ":0110000001EE\n\n :02100100abcd75\n:00000001FF" = .ok ⟨0x1000, [0x01, 0xAB, 0xCD]⟩ ∧
      ∃ normal, encode ⟨0x1000, [0x01, 0xAB, 0xCD]⟩ = .ok normal ∧
        decode normal = .ok ⟨0x1000, [0x01, 0xAB, 0xCD]⟩) ∧
    decode ":0110000001EE\n:02FFFF000102FD\n" = .error (.imageTooLarge ⟨0x1000, 0xF001⟩) ∧
      ∃ records record, Overruns (":0110000001EE\n:02FFFF000102FD\n".toList.splitOn '\n') records
        record ⟨0x1000, 0xF001⟩ := by
  have hread : decode ":0110000001EE\n\n :02100100abcd75\n:00000001FF" =
      .ok ⟨0x1000, [0x01, 0xAB, 0xCD]⟩ := by decide +kernel
  have hlarge : decode ":0110000001EE\n:02FFFF000102FD\n" =
      .error (.imageTooLarge ⟨0x1000, 0xF001⟩) := by decide +kernel
  obtain ⟨-, normal, hencode, hdecode⟩ := (decode_bounded _).1 _ hread
  exact ⟨⟨hread, normal, hencode, hdecode (by decide)⟩, hlarge, (decode_bounded _).2 _ hlarge⟩

end Disasm.IntelHex
