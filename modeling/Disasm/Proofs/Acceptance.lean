import Mathlib.Data.List.Forall2
import Disasm.Proofs.RecordLine

/-!
# Which texts are images

`decode_eq_ok_iff` says which texts are read as an image, and as which one, without the reader's loop.

1. The lines spell data records up to the first end-of-file record (`Spells`), and the loop puts these
   records together (`Joins`): `decodeLines_eq_ok_iff`.
2. Lines spell records if they can be cut before the end-of-file record (`spells_iff`).
3. Records are put together if each one starts where the one before ends (`joins_none_iff`). The first
   record may stand anywhere.
-/

namespace Disasm.IntelHex

/-- Text that is a record. -/
def IsRecord (text : List Char) (record : Record) : Prop :=
  ∃ bytes, ValidLine text bytes ∧ record = .ofSpelling bytes

theorem parse_eq_ok_iff_isRecord {text : List Char} {record : Record} :
    Record.parse text = .ok record ↔ IsRecord text record :=
  Record.parse_eq_ok_iff text record

theorem not_isRecord_nil (record : Record) : ¬ IsRecord [] record := by
  rintro ⟨bytes, ⟨⟨chars, htext, -⟩, -⟩, -⟩
  cases htext

/-! ## The loop -/

/-- The data records that the lines before the end-of-file record hold. -/
inductive Spells : List (List Char) → List Record → Prop where
  | blank {text : List Char} {rest : List (List Char)} {records : List Record}
      (blank : Text.trim text = []) (more : Spells rest records) : Spells (text :: rest) records
  | data {text : List Char} {rest : List (List Char)} {record : Record} {records : List Record}
      (line : IsRecord (Text.trim text) record) (type : record.type = Record.dataType)
      (more : Spells rest records) : Spells (text :: rest) (record :: records)
  | last {text : List Char} {rest : List (List Char)} {record : Record}
      (line : IsRecord (Text.trim text) record) (type : record.type = Record.endType) :
      Spells (text :: rest) []

/-- The image that records give behind the block that is read already. -/
inductive Joins : Option Block → List Record → Image → Prop where
  | nil (block : Option Block) : Joins block [] ((block.map Block.image).getD .empty)
  | cons {block : Option Block} {record : Record} {next : Block} {records : List Record}
      {image : Image} (line : Nat) (step : extend line block record = .ok next)
      (more : Joins (some next) records image) : Joins block (record :: records) image

/-- A data record is added unless it ends too high or starts at the wrong place, in whichever line it
stands. -/
theorem extend_eq_ok_iff {line : Nat} {block : Option Block} {record : Record} {next : Block} :
    extend line block record = .ok next ↔
      record.address.toNat + record.payload.length ≤ addressSpace ∧
      record.address.toNat = (block.getD ⟨record.address, #[]⟩).base.toNat +
        (block.getD ⟨record.address, #[]⟩).data.size ∧
      next = ⟨(block.getD ⟨record.address, #[]⟩).base,
        (block.getD ⟨record.address, #[]⟩).data ++ record.payload⟩ := by
  unfold extend
  dsimp only
  split
  case isTrue hlarge => exact iff_of_false (fun h => by cases h) fun h => by omega
  case isFalse hfits =>
    split
    case isTrue hplace =>
      rw [Except.ok.injEq, eq_comm]
      exact ⟨fun h => ⟨Nat.le_of_not_lt hfits, hplace, h⟩, fun h => h.2.2⟩
    case isFalse hplace => exact iff_of_false (fun h => by cases h) fun h => hplace h.2.1

theorem decodeLines_cons {line : Nat} {block : Option Block} {text : List Char}
    {rest : List (List Char)} (h : Text.trim text ≠ []) :
    decodeLines line block (text :: rest) =
      match Record.parse (Text.trim text) with
      | .error error => .error (.ofRecord line error)
      | .ok record =>
        if record.type = Record.dataType then
          match extend line block record with
          | .error error => .error error
          | .ok block => decodeLines (line + 1) (some block) rest
        else if record.type = Record.endType then .ok ((block.map Block.image).getD .empty)
        else .error (.unsupportedType line record.type) := by
  rw [decodeLines]
  generalize Text.trim text = trimmed at h ⊢
  cases trimmed with
  | nil => exact absurd rfl h
  | cons first more => rfl

theorem decodeLines_blank {line : Nat} {block : Option Block} {text : List Char}
    {rest : List (List Char)} (h : Text.trim text = []) :
    decodeLines line block (text :: rest) = decodeLines (line + 1) block rest := by
  rw [decodeLines, h]

/-- What some lines do does not depend on the lines behind them: either they decide the result, or
the loop goes on behind them with a block of their making. -/
theorem decodeLines_append (lines : List (List Char)) (line : Nat) (block : Option Block) :
    (∃ verdict, ∀ rest, decodeLines line block (lines ++ rest) = verdict) ∨
      ∃ next, ∀ rest,
        decodeLines line block (lines ++ rest) = decodeLines (line + lines.length) next rest := by
  induction lines generalizing line block with
  | nil => exact .inr ⟨block, fun rest => rfl⟩
  | cons text lines ih =>
    -- A line that is passed leaves the decision to the lines behind it.
    have hpass {next : Option Block} (h : ∀ rest, decodeLines line block (text :: lines ++ rest) =
        decodeLines (line + 1) next (lines ++ rest)) :
        (∃ verdict, ∀ rest, decodeLines line block (text :: lines ++ rest) = verdict) ∨
          ∃ next, ∀ rest, decodeLines line block (text :: lines ++ rest) =
            decodeLines (line + (text :: lines).length) next rest := by
      simp only [h, List.length_cons, ← Nat.add_assoc, Nat.add_right_comm line _ 1]
      exact ih (line + 1) next
    by_cases hblank : Text.trim text = []
    · exact hpass fun rest => decodeLines_blank hblank
    simp only [List.cons_append, decodeLines_cons hblank] at hpass ⊢
    rcases hparse : Record.parse (Text.trim text) with error | record
    · exact .inl ⟨_, fun rest => rfl⟩
    simp only [hparse] at hpass ⊢
    by_cases hdata : record.type = Record.dataType
    · simp only [if_pos hdata] at hpass ⊢
      rcases hextend : extend line block record with error | next
      · exact .inl ⟨_, fun rest => rfl⟩
      · simp only [hextend] at hpass ⊢
        exact hpass fun rest => rfl
    · simp only [if_neg hdata]
      exact .inl ⟨_, fun rest => rfl⟩

theorem decodeLines_concat_nil (lines : List (List Char)) (line : Nat) (block : Option Block) :
    decodeLines line block (lines ++ [[]]) = decodeLines line block lines := by
  rcases decodeLines_append lines line block with ⟨verdict, hverdict⟩ | ⟨next, hnext⟩
  · rw [hverdict, ← hverdict [], List.append_nil]
  · rw [hnext, decodeLines_blank rfl, ← List.append_nil lines, hnext]
    rfl

/-- The loop gives an image if the lines spell records that can be put together. -/
theorem decodeLines_eq_ok_iff (lines : List (List Char)) (line : Nat) (block : Option Block)
    (image : Image) :
    decodeLines line block lines = .ok image ↔
      ∃ records, Spells lines records ∧ Joins block records image := by
  induction lines generalizing line block with
  | nil =>
    refine iff_of_false (fun h => by cases h) ?_
    rintro ⟨records, hspells, -⟩
    cases hspells
  | cons text rest ih =>
    by_cases hblank : Text.trim text = []
    · rw [decodeLines_blank hblank, ih]
      constructor
      · rintro ⟨records, hspells, hjoins⟩
        exact ⟨records, .blank hblank hspells, hjoins⟩
      · rintro ⟨records, hspells, hjoins⟩
        cases hspells with
        | blank _ more => exact ⟨records, more, hjoins⟩
        | data hline => exact absurd (hblank ▸ hline) (not_isRecord_nil _)
        | last hline => exact absurd (hblank ▸ hline) (not_isRecord_nil _)
    rw [decodeLines_cons hblank]
    constructor
    · intro h
      split at h
      case h_1 => cases h
      case h_2 record hparse =>
        have hline := parse_eq_ok_iff_isRecord.mp hparse
        split at h
        case isTrue hdata =>
          split at h
          case h_1 => cases h
          case h_2 next hextend =>
            obtain ⟨records, hspells, hjoins⟩ := (ih _ _).mp h
            exact ⟨record :: records, .data hline hdata hspells, .cons line hextend hjoins⟩
        case isFalse hdata =>
          split at h
          case isTrue hend =>
            obtain rfl := Except.ok.inj h
            exact ⟨[], .last hline hend, .nil block⟩
          case isFalse => cases h
    · rintro ⟨records, hspells, hjoins⟩
      cases hspells with
      | blank hnil => exact absurd hnil hblank
      | @data _ _ record records hline htype more =>
        cases hjoins with
        | @cons _ _ next _ _ other step joins =>
          have hstep : extend line block record = .ok next :=
            extend_eq_ok_iff.mpr (extend_eq_ok_iff.mp step)
          simp only [parse_eq_ok_iff_isRecord.mpr hline, if_pos htype, hstep]
          exact (ih _ _).mpr ⟨records, more, joins⟩
      | @last _ _ record hline htype =>
        have hdata : ¬ record.type = Record.dataType := by
          rw [htype]
          decide
        cases hjoins
        simp only [parse_eq_ok_iff_isRecord.mpr hline, if_neg hdata, if_pos htype]

/-! ## Lines -/

/-- The lines that are not blank, without the blanks around them. -/
def written (lines : List (List Char)) : List (List Char) :=
  (lines.map Text.trim).filter (· ≠ [])

theorem written_cons_blank {text : List Char} {rest : List (List Char)} (h : Text.trim text = []) :
    written (text :: rest) = written rest := by
  simp [written, h]

theorem written_cons {text : List Char} {rest : List (List Char)} (h : Text.trim text ≠ []) :
    written (text :: rest) = Text.trim text :: written rest := by
  simp [written, h]

/-- Lines spell data records if these stand before an end-of-file record. -/
theorem spells_iff (lines : List (List Char)) (records : List Record) :
    Spells lines records ↔
      ∃ before last after, lines = before ++ last :: after ∧
        List.Forall₂ IsRecord (written before) records ∧
        (∀ record ∈ records, record.type = Record.dataType) ∧
        ∃ record, IsRecord (Text.trim last) record ∧ record.type = Record.endType := by
  constructor
  · intro h
    induction h with
    | @blank text rest records hblank more ih =>
      obtain ⟨before, last, after, rfl, hrecords, htypes, hlast⟩ := ih
      exact ⟨text :: before, last, after, rfl, by rwa [written_cons_blank hblank], htypes, hlast⟩
    | @data text rest record records hline htype more ih =>
      obtain ⟨before, last, after, rfl, hrecords, htypes, hlast⟩ := ih
      have hwritten : Text.trim text ≠ [] := fun hnil => not_isRecord_nil record (hnil ▸ hline)
      refine ⟨text :: before, last, after, rfl, ?_, ?_, hlast⟩
      · rw [written_cons hwritten]
        exact .cons hline hrecords
      · exact List.forall_mem_cons.mpr ⟨htype, htypes⟩
    | @last text rest record hline htype =>
      exact ⟨[], text, rest, rfl, .nil, by simp, record, hline, htype⟩
  · rintro ⟨before, last, after, rfl, hrecords, htypes, record, hline, htype⟩
    induction before generalizing records with
    | nil =>
      cases hrecords
      exact .last hline htype
    | cons text before ih =>
      by_cases hblank : Text.trim text = []
      · rw [written_cons_blank hblank] at hrecords
        exact .blank hblank (ih records hrecords htypes)
      · rw [written_cons hblank] at hrecords
        cases hrecords with
        | cons hhead htail =>
          obtain ⟨hfirst, hmore⟩ := List.forall_mem_cons.mp htypes
          exact .data hhead hfirst (ih _ htail hmore)

/-! ## Records in place -/

def payloads (records : List Record) : List UInt8 :=
  records.flatMap (·.payload)

def firstAddress (records : List Record) : Address :=
  (records.head?.map Record.address).getD 0

/-- The first record starts at `start` and each next one where the one before ends, all inside the
address space. -/
def Follow : (start : Nat) → List Record → Prop
  | _, [] => True
  | start, record :: records =>
    record.address.toNat = start ∧ start + record.payload.length ≤ addressSpace ∧
      Follow (start + record.payload.length) records

theorem follow_iff (start : Nat) (records : List Record) :
    Follow start records ↔ ∀ earlier record later, records = earlier ++ record :: later →
      record.address.toNat = start + (payloads earlier).length ∧
        record.address.toNat + record.payload.length ≤ addressSpace := by
  induction records generalizing start with
  | nil => exact iff_of_true trivial fun earlier record later h => by simp at h
  | cons head tail ih =>
    unfold Follow
    rw [ih]
    constructor
    · rintro ⟨hhead, hfits, htail⟩ earlier record later hsplit
      rcases List.cons_eq_append_iff.mp hsplit with ⟨rfl, hcons⟩ | ⟨rest, rfl, hrest⟩
      · obtain ⟨rfl, rfl⟩ := List.cons.inj hcons
        exact ⟨hhead, by omega⟩
      · obtain ⟨hplace, hend⟩ := htail rest record later hrest
        refine ⟨?_, hend⟩
        rw [hplace, payloads, payloads, List.flatMap_cons, List.length_append]
        omega
    · intro h
      obtain ⟨hhead, hfits⟩ := h [] head tail rfl
      have hstart : head.address.toNat = start := hhead
      refine ⟨hstart, by omega, fun earlier record later hsplit => ?_⟩
      obtain ⟨hplace, hend⟩ := h (head :: earlier) record later (by rw [hsplit]; rfl)
      refine ⟨?_, hend⟩
      rw [hplace, payloads, payloads, List.flatMap_cons, List.length_append]
      omega

theorem joins_some_iff (records : List Record) (block : Block) (image : Image) :
    Joins (some block) records image ↔
      Follow (block.base.toNat + block.data.size) records ∧
        image = ⟨block.base, block.data.toList ++ payloads records⟩ := by
  induction records generalizing block with
  | nil =>
    constructor
    · intro h
      cases h
      exact ⟨trivial, by simp [payloads, Block.image]⟩
    · rintro ⟨-, rfl⟩
      simpa [payloads, Block.image] using Joins.nil (some block)
  | cons record records ih =>
    have hsize : (block.data ++ record.payload).size = block.data.size + record.payload.length := by
      rw [← Array.length_toList, Array.toList_appendList, List.length_append, Array.length_toList]
    have himage : (block.data ++ record.payload).toList ++ payloads records =
        block.data.toList ++ payloads (record :: records) := by
      rw [Array.toList_appendList, List.append_assoc]
      rfl
    unfold Follow
    constructor
    · intro h
      cases h with
      | cons line step more =>
        obtain ⟨hfits, hplace, rfl⟩ := extend_eq_ok_iff.mp step
        simp only [Option.getD_some] at hplace hfits more
        obtain ⟨hfollow, rfl⟩ := (ih _).mp more
        rw [hsize, ← Nat.add_assoc] at hfollow
        exact ⟨⟨hplace, by omega, hfollow⟩, by rw [himage]⟩
    · rintro ⟨⟨hplace, hfits, hfollow⟩, rfl⟩
      have hstep : extend 0 (some block) record = .ok ⟨block.base, block.data ++ record.payload⟩ :=
        extend_eq_ok_iff.mpr ⟨by omega, hplace, rfl⟩
      refine .cons 0 hstep ((ih _).mpr ⟨?_, ?_⟩)
      · rw [hsize, ← Nat.add_assoc]
        exact hfollow
      · rw [himage]

/-- The first record decides where the image starts. -/
theorem joins_none_iff (records : List Record) (image : Image) :
    Joins none records image ↔
      Follow (firstAddress records).toNat records ∧
        image = ⟨firstAddress records, payloads records⟩ := by
  cases records with
  | nil =>
    constructor
    · intro h
      cases h
      exact ⟨trivial, rfl⟩
    · rintro ⟨-, rfl⟩
      exact .nil none
  | cons record records =>
    -- An empty block in front of the first record is continued as no block is.
    have hstart : Joins none (record :: records) image ↔
        Joins (some ⟨record.address, #[]⟩) (record :: records) image := by
      constructor
      · intro h
        cases h with
        | cons line step more => exact .cons line step more
      · intro h
        cases h with
        | cons line step more => exact .cons line step more
    rw [hstart, joins_some_iff]
    rfl

/-! ## Images -/

/-- A text is read as an image exactly if its lines up to an end-of-file record are blank or data
records, each of which starts where the one before ends. The first record gives the base, and the
payloads give the bytes. -/
theorem decode_eq_ok_iff (text : String) (image : Image) :
    decode text = .ok image ↔
      ∃ before last after records, text.toList.splitOn '\n' = before ++ last :: after ∧
        List.Forall₂ IsRecord (written before) records ∧
        (∀ record ∈ records, record.type = Record.dataType) ∧
        (∃ record, IsRecord (Text.trim last) record ∧ record.type = Record.endType) ∧
        (∀ earlier record later, records = earlier ++ record :: later →
          record.address.toNat = (firstAddress records).toNat + (payloads earlier).length ∧
            record.address.toNat + record.payload.length ≤ addressSpace) ∧
        image = ⟨firstAddress records, payloads records⟩ := by
  rw [decode, decodeLines_eq_ok_iff]
  constructor
  · rintro ⟨records, hspells, hjoins⟩
    obtain ⟨before, last, after, hlines, hrecords, htypes, hlast⟩ := (spells_iff _ _).mp hspells
    obtain ⟨hfollow, himage⟩ := (joins_none_iff _ _).mp hjoins
    exact ⟨before, last, after, records, hlines, hrecords, htypes, hlast, (follow_iff _ _).mp hfollow,
      himage⟩
  · rintro ⟨before, last, after, records, hlines, hrecords, htypes, hlast, hplaced, himage⟩
    refine ⟨records, (spells_iff _ _).mpr ⟨before, last, after, hlines, hrecords, htypes, hlast⟩, ?_⟩
    exact (joins_none_iff _ _).mpr ⟨(follow_iff _ _).mpr hplaced, himage⟩

end Disasm.IntelHex
