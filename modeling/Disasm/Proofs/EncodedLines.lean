import Disasm.Proofs.RecordLine

/-!
# The lines of a written image

Writing goes through the image record by record, with an address that wraps. `DataLine` says what stands
in the line at an index without going through the lines before it.

1. The record at an index holds what the full records before it leave, sixteen bytes at most, and its
   address is the base plus the number of bytes before it, modulo the address space
   (`dataRecords_eq_map`).
2. Every data line holds a byte of the image. If the image fits, that byte stands inside the address space,
   so the address of the line does not wrap (`toNat_address_recordAt`).
3. A record is spelled by two upper-case digits for each byte (`toList_text_eq`), and its bytes sum to zero
   (`byteSum_allBytes`).
-/

namespace Disasm.IntelHex

/-! ## The form of a line -/

/-- The two digits of a byte in upper case. -/
def upperPair (byte : UInt8) : List Char :=
  [byte.toNat / 16, byte.toNat % 16].map ("0123456789ABCDEF".toList.getD · ' ')

/-- The bytes of the data line at `index`: the number of bytes of the image in it, the address, the type
zero, these bytes and the checksum. -/
def lineBytes (data : List UInt8) (index : Nat) (high low check : UInt8) : List UInt8 :=
  let count := min 16 (data.length - 16 * index)
  [count.toUInt8, high, low, 0x00] ++ (data.drop (16 * index)).take count ++ [check]

/-- The data line at `index` of an image at `base`. -/
structure DataLine (base : Address) (data : List UInt8) (index : Nat) (high low check : UInt8)
    (line : String) : Prop where
  /-- A colon and the bytes in hexadecimal. -/
  text_eq : line.toList = ':' :: (lineBytes data index high low check).flatMap upperPair
  /-- The address does not wrap. -/
  address_eq : high.toNat * 256 + low.toNat = base.toNat + 16 * index
  balanced : byteSum (lineBytes data index high low check) % 256 = 0

/-! ## Records in closed form -/

/-- The data record at `index` of an image. -/
def recordAt (base : Address) (data : List UInt8) (index : Nat) : Record :=
  ⟨base + (recordLength * index).toUInt16, Record.dataType,
    (data.drop (recordLength * index)).take recordLength⟩

theorem recordAt_succ (base : Address) (data : List UInt8) (index : Nat) :
    recordAt (base + recordLength.toUInt16) (data.drop recordLength) index =
      recordAt base data (index + 1) := by
  have haddress : base + recordLength.toUInt16 + (recordLength * index).toUInt16 =
      base + (recordLength * (index + 1)).toUInt16 := by
    rw [Nat.mul_succ, Nat.add_comm (recordLength * index), Nat.toUInt16_eq, Nat.toUInt16_eq,
      Nat.toUInt16_eq, UInt16.ofNat_add, UInt16.add_assoc]
  unfold recordAt
  rw [haddress, List.drop_drop, Nat.mul_succ, Nat.add_comm recordLength]

theorem dataRecords_eq_map (count : Nat) (base : Address) (data : List UInt8) :
    dataRecords count base data = (List.range count).map (recordAt base data) := by
  induction count generalizing base data with
  | zero => rfl
  | succ count ih =>
    have hfirst : recordAt base data 0 =
        ⟨base, Record.dataType, data.take recordLength⟩ := by
      unfold recordAt
      rw [Nat.mul_zero, List.drop_zero]
      congr 1
      exact UInt16.add_zero base
    rw [dataRecords, ih, List.range_succ_eq_map, List.map_cons, List.map_map, hfirst]
    congr 1
    apply List.map_congr_left
    exact fun index _ => recordAt_succ base data index

section Record

variable {base : Address} {data : List UInt8} {index : Nat}

theorem toNat_address_recordAt (fits : base.toNat + data.length ≤ addressSpace)
    (h : 16 * index < data.length) :
    (recordAt base data index).address.toNat = base.toNat + 16 * index := by
  apply toNat_add_offset
  unfold recordLength
  omega

theorem payload_recordAt :
    (recordAt base data index).payload =
      (data.drop (16 * index)).take (min 16 (data.length - 16 * index)) := by
  rw [← List.length_drop, ← List.take_eq_take_min]
  rfl

theorem length_payload_recordAt :
    (recordAt base data index).payload.length = min 16 (data.length - 16 * index) := by
  unfold recordAt recordLength
  rw [List.length_take, List.length_drop]

theorem toNat_halves (address : Address) :
    (address >>> 8).toUInt8.toNat * 256 + address.toUInt8.toNat = address.toNat := by
  have hlt := address.toNat_lt
  rw [UInt16.toNat_toUInt8, UInt16.toNat_toUInt8, UInt16.toNat_shiftRight]
  show address.toNat >>> 8 % 2 ^ 8 * 256 + address.toNat % 2 ^ 8 = address.toNat
  rw [Nat.shiftRight_eq_div_pow]
  omega

end Record

/-! ## The text of a record -/

theorem digit_eq_getD : ∀ value < 16, Hex.digit value = "0123456789ABCDEF".toList.getD value ' ' := by
  decide

theorem digits_eq_flatMap (bytes : List UInt8) : digits bytes = bytes.flatMap upperPair := by
  unfold digits
  congr 1
  funext byte
  have hbyte := byte.toNat_lt
  rw [Hex.toList_byte, digit_eq_getD _ (Nat.mod_lt _ (by decide)),
    digit_eq_getD _ (Nat.mod_lt _ (by decide)), Nat.mod_eq_of_lt (by omega : byte.toNat / 16 < 16)]
  rfl

theorem toList_text_eq (record : Record) :
    record.text.toList = ':' :: record.allBytes.flatMap upperPair := by
  rw [Record.toList_text, digits_eq_flatMap]

theorem byteSum_allBytes (record : Record) : byteSum record.allBytes % 256 = 0 :=
  (checksum_eq_iff _ _).mp rfl

/-! ## Images -/

theorem allBytes_recordAt (base : Address) (data : List UInt8) (index : Nat) :
    (recordAt base data index).allBytes =
      lineBytes data index ((recordAt base data index).address >>> 8).toUInt8
        (recordAt base data index).address.toUInt8 (checksum (recordAt base data index).body) := by
  unfold Record.allBytes lineBytes
  dsimp only
  rw [← payload_recordAt, ← length_payload_recordAt]
  rfl

theorem dataLine_recordAt {base : Address} {data : List UInt8} {index : Nat}
    (fits : base.toNat + data.length ≤ addressSpace) (h : 16 * index < data.length) :
    ∃ high low check, DataLine base data index high low check (recordAt base data index).text := by
  have hbytes := allBytes_recordAt base data index
  refine ⟨((recordAt base data index).address >>> 8).toUInt8,
    (recordAt base data index).address.toUInt8, checksum (recordAt base data index).body, ?_, ?_, ?_⟩
  · rw [toList_text_eq, hbytes]
  · rw [toNat_halves, toNat_address_recordAt fits h]
  · rw [← hbytes, byteSum_allBytes]

theorem text_endOfFile : Record.endOfFile.text = ":00000001FF" := by
  decide +kernel

/-- An image that fits is written as one data line for every sixteen bytes, of which the last may hold
less, and the end-of-file line. All lines end with a line feed. -/
theorem encode_eq_lines {data : List UInt8} {base : Address}
    (fits : base.toNat + data.length ≤ addressSpace) :
    ∃ lines : List String,
      encode ⟨base, data⟩ =
        .ok (String.join ((lines ++ [":00000001FF"]).map fun line => line ++ "\n")) ∧
      lines.length = (data.length + 15) / 16 ∧
      ∀ index line, lines[index]? = some line →
        ∃ high low check, DataLine base data index high low check line := by
  refine ⟨(List.range ((data.length + 15) / 16)).map fun index => (recordAt base data index).text,
    ?_, ?_, ?_⟩
  · have hspan : (⟨base, data⟩ : Image).span.Fits := fits
    have hrecords : (⟨base, data⟩ : Image).records =
        (List.range ((data.length + 15) / 16)).map (recordAt base data) ++ [.endOfFile] := by
      unfold Image.records
      dsimp only
      rw [dataRecords_eq_map]
      rfl
    unfold encode
    rw [if_pos hspan, hrecords, List.map_append, List.map_append, List.map_map, List.map_map,
      ← text_endOfFile]
    rfl
  · rw [List.length_map, List.length_range]
  · intro index line hline
    rw [List.getElem?_map, Option.map_eq_some_iff] at hline
    obtain ⟨found, hfound, rfl⟩ := hline
    obtain ⟨hindex, rfl⟩ := List.getElem?_eq_some_iff.mp hfound
    rw [List.length_range] at hindex
    rw [List.getElem_range]
    -- no data line is without bytes of the image
    exact dataLine_recordAt fits (by omega)

/-- Eighteen bytes up to the last address: the second line holds two of them. -/
theorem encode_eq_lines_top :
    (0xFFEE : Address).toNat + (List.replicate 18 0xA5).length ≤ addressSpace ∧
      ∃ lines : List String,
        encode ⟨0xFFEE, List.replicate 18 0xA5⟩ =
          .ok (String.join ((lines ++ [":00000001FF"]).map fun line => line ++ "\n")) ∧
        lines.length = 2 ∧
        ∀ index line, lines[index]? = some line →
          ∃ high low check,
            DataLine 0xFFEE (List.replicate 18 0xA5) index high low check line :=
  ⟨by decide, encode_eq_lines (by decide)⟩

end Disasm.IntelHex
