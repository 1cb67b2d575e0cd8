import Mathlib.Data.List.Basic
import Disasm.IntelHex.Image
import Disasm.Proofs.Text

/-!
# Intel HEX reads back what it writes

A written record reads back as itself (`Record.parse_text`): its pairs of digits give its bytes, the
count matches the payload, and the checksum is the one that is computed. The data records of an
image then extend the block that is read so far by their payloads (`decodeLines_dataRecords`); the
address of the next record wraps only behind the last one. Altogether an image that fits reads back
from its own text.
-/

namespace Disasm.IntelHex

/-! ## Digits -/

theorem digit_ne_plus : ∀ value < 16, Hex.digit value ≠ '+' := by decide

theorem digit_lt_0x80 : ∀ value < 16, (Hex.digit value).toNat < 0x80 := by decide

theorem isBlank_digit : ∀ value < 16, Text.isBlank (Hex.digit value) = false := by decide

theorem digit_ne_newline : ∀ value < 16, Hex.digit value ≠ '\n' := by decide

theorem digit?_digit {value : Nat} (h : value < 16) :
    Numeral.digit? 16 (Hex.digit value) = some value := by
  simp [Numeral.digit?, Hex.value?_digit value h, h]

end Disasm.IntelHex

namespace Disasm.Numeral

/-! ## Numerals -/

theorem extend_append (radix bound value : Nat) (front back : List Char) :
    extend radix bound value (front ++ back) =
      (extend radix bound value front).bind (extend radix bound · back) := by
  induction front generalizing value with
  | nil => rfl
  | cons char front ih =>
    rw [List.cons_append, extend, extend]
    split
    · rfl
    · split
      · exact ih _
      · rfl

theorem extend_field {bound value width number : Nat} (hnumber : number < 16 ^ width)
    (hbound : value * 16 ^ width + number < bound) :
    extend 16 bound value (Hex.field width number) = .ok (value * 16 ^ width + number) := by
  induction width generalizing number with
  | zero =>
    obtain rfl : number = 0 := by simpa using hnumber
    simp [Hex.field, extend]
  | succ width ih =>
    have hpower : value * 16 ^ (width + 1) + number =
        (value * 16 ^ width + number / 16) * 16 + number % 16 := by
      rw [Nat.pow_succ, ← Nat.mul_assoc]
      omega
    rw [hpower] at hbound ⊢
    have hhigh : number / 16 < 16 ^ width := by
      rw [Nat.pow_succ] at hnumber
      omega
    rw [Hex.field, extend_append, ih hhigh (by omega)]
    simp only [Except.bind, extend, IntelHex.digit?_digit (Nat.mod_lt number (by decide : 0 < 16)),
      if_pos hbound]

/-- A field of at least one digit is the numeral of its number. -/
theorem parse_field {bound width number : Nat} (hnumber : number < 16 ^ (width + 1))
    (hbound : number < bound) : parse 16 bound (Hex.field (width + 1) number) = .ok number := by
  have hextend : extend 16 bound 0 (Hex.field (width + 1) number) = .ok number := by
    rw [extend_field hnumber (by omega), Nat.zero_mul, Nat.zero_add]
  have hplus : '+' ∉ Hex.field (width + 1) number := by
    intro hmem
    obtain ⟨digit, hdigit, heq⟩ := Hex.exists_digit_of_mem_field hmem
    exact IntelHex.digit_ne_plus digit hdigit heq.symm
  unfold parse
  split
  case h_1 heq => exact absurd (congrArg List.length heq) (by simp [Hex.length_field])
  case h_2 heq => simp [heq] at hplus
  case h_3 heq => simp [heq] at hplus
  case h_4 => exact hextend

theorem parse_cons_eq_error {radix bound : Nat} {first : Char} {rest : List Char}
    (hdigit : digit? radix first = none) (hplus : first ≠ '+') :
    parse radix bound (first :: rest) = .error .invalidDigit := by
  unfold parse
  split
  case h_1 heq => cases heq
  case h_2 heq => rfl
  case h_3 heq => exact absurd (List.cons.inj heq).1 hplus
  case h_4 => rw [extend, hdigit]

end Disasm.Numeral

namespace Disasm.IntelHex

theorem parse_digits {high low : Nat} (hhigh : high < 16) (hlow : low < 16) :
    Numeral.parse 16 0x100 [Hex.digit high, Hex.digit low] = .ok (16 * high + low) := by
  have hfield : Hex.field 2 (16 * high + low) = [Hex.digit high, Hex.digit low] := by
    have hdiv : (16 * high + low) / 16 % 16 = high := by omega
    have hmod : (16 * high + low) % 16 = low := by omega
    rw [Hex.field, Hex.field, Hex.field, hdiv, hmod]
    rfl
  rw [← hfield]
  exact Numeral.parse_field (by omega) (by omega)

def digits (bytes : List UInt8) : List Char :=
  bytes.flatMap fun byte => (Hex.byte byte).toList

theorem digits_cons (byte : UInt8) (bytes : List UInt8) :
    digits (byte :: bytes) =
      Hex.digit (byte.toNat / 16 % 16) :: Hex.digit (byte.toNat % 16) :: digits bytes := by
  rw [digits, List.flatMap_cons, Hex.toList_byte]
  rfl

theorem length_digits (bytes : List UInt8) : (digits bytes).length = 2 * bytes.length := by
  induction bytes with
  | nil => rfl
  | cons byte bytes ih =>
    rw [digits_cons, List.length_cons, List.length_cons, List.length_cons, ih]
    omega

theorem exists_digit_of_mem_digits {bytes : List UInt8} {char : Char} (h : char ∈ digits bytes) :
    ∃ value < 16, char = Hex.digit value := by
  obtain ⟨byte, -, hchar⟩ := List.mem_flatMap.mp h
  rw [Hex.byte, String.toList_ofList] at hchar
  exact Hex.exists_digit_of_mem_field hchar

namespace Record

theorem readPairs_digits (bytes : List UInt8) (done : Array UInt8) :
    readPairs (digits bytes) done = some (done.toList ++ bytes) := by
  induction bytes generalizing done with
  | nil => simp [digits, readPairs]
  | cons byte bytes ih =>
    have hbyte := byte.toNat_lt
    have hvalue : (16 * (byte.toNat / 16 % 16) + byte.toNat % 16).toUInt8 = byte := by
      rw [show 16 * (byte.toNat / 16 % 16) + byte.toNat % 16 = byte.toNat by omega]
      exact UInt8.ofNat_toNat
    rw [digits_cons, readPairs,
      parse_digits (Nat.mod_lt _ (by decide)) (Nat.mod_lt _ (by decide))]
    simp only [hvalue, ih, Array.toList_push, List.append_assoc, List.singleton_append]

/-! ## Records -/

/-- The bytes of a record, the checksum included. -/
def allBytes (record : Record) : List UInt8 :=
  record.body ++ [checksum record.body]

theorem toList_text (record : Record) : record.text.toList = ':' :: digits record.allBytes := by
  rw [text, String.toList_append, String.toList_join, List.flatMap_map]
  rfl

theorem address_of_halves (address : Address) :
    (address >>> 8).toUInt8.toUInt16 <<< 8 ||| address.toUInt8.toUInt16 = address := by
  have hlt := address.toNat_lt
  apply UInt16.toNat_inj.mp
  simp only [UInt16.toNat_or, UInt16.toNat_shiftLeft, UInt8.toNat_toUInt16, UInt16.toNat_toUInt8,
    UInt16.toNat_shiftRight]
  show (address.toNat >>> 8 % 2 ^ 8) <<< 8 % 2 ^ 16 ||| address.toNat % 2 ^ 8 = address.toNat
  have hhigh : (address.toNat >>> 8 % 2 ^ 8) <<< 8 < 2 ^ 16 := by
    rw [Nat.shiftLeft_eq]
    omega
  rw [Nat.mod_eq_of_lt hhigh, ← Nat.shiftLeft_add_eq_or_of_lt (Nat.mod_lt _ (by decide)),
    Nat.shiftLeft_eq, Nat.shiftRight_eq_div_pow]
  omega

theorem ofBytes_allBytes {record : Record} (h : record.payload.length < 256) :
    ofBytes record.allBytes = .ok record := by
  have hcount : record.payload.length.toUInt8.toNat = record.payload.length := by
    rw [Nat.toUInt8_eq, UInt8.toNat_ofNat']
    omega
  obtain ⟨first, rest, htail⟩ : ∃ first rest, record.payload ++ [checksum record.body] =
      first :: rest := List.exists_cons_of_ne_nil (by simp)
  have hall : record.allBytes = record.payload.length.toUInt8 :: (record.address >>> 8).toUInt8 ::
      record.address.toUInt8 :: record.type :: first :: rest := by
    rw [← htail]
    rfl
  have hrest : rest.length = record.payload.length := by
    have hlength := congrArg List.length htail
    simp only [List.length_append, List.length_cons, List.length_nil] at hlength
    omega
  have hpayload : (first :: rest).dropLast = record.payload := by
    rw [← htail, List.dropLast_concat]
  have hlast : (first :: rest).getLast (List.cons_ne_nil _ _) = checksum record.body := by
    simp only [← htail, List.getLast_concat]
  rw [hall, ofBytes, if_pos (by rw [hrest, hcount])]
  simp only [hpayload, hlast, address_of_halves]
  exact if_pos rfl

/-- A written record reads back. -/
theorem parse_text {record : Record} (h : record.payload.length < 256) :
    parse record.text.toList = .ok record := by
  have hascii : (digits record.allBytes).all (·.toNat < 0x80) = true := by
    rw [List.all_eq_true]
    intro char hmem
    obtain ⟨value, hvalue, rfl⟩ := exists_digit_of_mem_digits hmem
    exact decide_eq_true (digit_lt_0x80 value hvalue)
  have heven : (digits record.allBytes).length % 2 = 0 := by
    rw [length_digits]
    omega
  rw [toList_text, parse, if_pos (by rw [hascii, heven]; rfl), readPairs_digits,
    List.nil_append]
  exact ofBytes_allBytes h

theorem isBlank_of_mem_text {record : Record} {char : Char} (h : char ∈ record.text.toList) :
    Text.isBlank char = false := by
  rw [toList_text] at h
  rcases List.mem_cons.mp h with rfl | hmem
  · decide
  · obtain ⟨value, hvalue, rfl⟩ := exists_digit_of_mem_digits hmem
    exact isBlank_digit value hvalue

theorem trim_text (record : Record) : Text.trim record.text.toList = record.text.toList :=
  trim_eq_self fun _ => isBlank_of_mem_text

theorem newline_not_mem_text (record : Record) : '\n' ∉ record.text.toList := by
  rw [toList_text]
  intro hmem
  rcases List.mem_cons.mp hmem with heq | hmem
  · cases heq
  · obtain ⟨value, hvalue, heq⟩ := exists_digit_of_mem_digits hmem
    exact digit_ne_newline value hvalue heq.symm

end Record

/-! ## Lines of records -/

theorem decodeLines_data {line : Nat} {block : Option Block} {record : Record}
    {rest : List (List Char)} {extended : Block} (hlength : record.payload.length < 256)
    (htype : record.type = Record.dataType) (hextend : extend line block record = .ok extended) :
    decodeLines line block (record.text.toList :: rest) =
      decodeLines (line + 1) (some extended) rest := by
  have hparse := Record.parse_text hlength
  rw [decodeLines, Record.trim_text]
  rw [Record.toList_text] at hparse ⊢
  simp only [hparse, if_pos htype, hextend]

theorem decodeLines_first {line : Nat} {record : Record} {rest : List (List Char)}
    (hlength : record.payload.length < 256) (htype : record.type = Record.dataType) :
    decodeLines line none (record.text.toList :: rest) =
      decodeLines line (some ⟨record.address, #[]⟩) (record.text.toList :: rest) := by
  have hparse := Record.parse_text hlength
  rw [decodeLines, decodeLines, Record.trim_text]
  rw [Record.toList_text] at hparse ⊢
  simp only [hparse, if_pos htype]
  rfl

theorem decodeLines_endOfFile (line : Nat) (block : Option Block) (rest : List (List Char)) :
    decodeLines line block (Record.endOfFile.text.toList :: rest) =
      .ok ((block.map Block.image).getD .empty) := by
  have hparse : Record.parse Record.endOfFile.text.toList = .ok .endOfFile :=
    Record.parse_text (by decide)
  rw [decodeLines, Record.trim_text]
  rw [Record.toList_text] at hparse ⊢
  simp only [hparse]
  rfl

/-! ## Images -/

/-- The data records continue a block, if they start at its end and the rest of the image fits. The
number of records is the one that holds all bytes. -/
theorem decodeLines_dataRecords {base : Address} {rest : List (List Char)} (count : Nat) :
    ∀ {line : Nat} {done : Array UInt8} {address : Address} {data : List UInt8},
      data.length ≤ 16 * count → 16 * count < data.length + 16 →
      (data ≠ [] → address.toNat = base.toNat + done.size) →
      base.toNat + done.size + data.length ≤ addressSpace →
      decodeLines line (some ⟨base, done⟩)
          ((dataRecords count address data).map (·.text.toList) ++ rest) =
        decodeLines (line + count) (some ⟨base, done ++ data⟩) rest := by
  unfold addressSpace
  induction count with
  | zero =>
    intro line done address data hmost _ _ _
    obtain rfl : data = [] := List.length_eq_zero_iff.mp (by omega)
    simp [dataRecords]
  | succ count ih =>
    intro line done address data hmost hleast haddress hfits
    have hnonempty : data ≠ [] := fun hnil => by
      rw [hnil, List.length_nil] at hleast
      omega
    have hstart := haddress hnonempty
    have htake : (data.take 16).length = min 16 data.length := List.length_take
    have hdrop : (data.drop 16).length = data.length - 16 := List.length_drop
    have hsize : (done ++ data.take 16).size = done.size + (data.take 16).length := by
      rw [← Array.length_toList, Array.toList_appendList, List.length_append, Array.length_toList]
    have hextend : extend line (some ⟨base, done⟩) ⟨address, Record.dataType, data.take 16⟩ =
        .ok ⟨base, done ++ data.take 16⟩ := by
      have hbound : ¬ addressSpace < address.toNat + (data.take 16).length := by
        unfold addressSpace
        omega
      simp only [extend, if_neg hbound, Option.getD_some, if_pos hstart]
    have hjoin : done ++ data.take 16 ++ data.drop 16 = done ++ data := by
      apply Array.toList_inj.mp
      simp
    rw [dataRecords, List.map_cons, List.cons_append]
    unfold recordLength
    rw [decodeLines_data (by show (data.take 16).length < 256; omega) rfl hextend,
      ih (by omega) (by omega), hjoin, Nat.add_right_comm, Nat.add_assoc]
    · -- the address wraps only if no byte is left
      intro hmore
      have hpos := List.length_pos_iff.mpr hmore
      rw [UInt16.toNat_add, show (Nat.toUInt16 16).toNat = 16 from rfl, hsize, hstart]
      omega
    · omega

theorem decode_records (image : Image) :
    decode (String.join (image.records.map fun record => record.text ++ "\n")) =
      decodeLines 1 none
        ((dataRecords ((image.data.length + recordLength - 1) / recordLength) image.base
          image.data).map (·.text.toList) ++ [Record.endOfFile.text.toList, []]) := by
  have htext : (String.join (image.records.map fun record => record.text ++ "\n")).toList =
      (image.records.map (·.text.toList)).flatMap (· ++ ['\n']) := by
    simp [String.toList_join, List.flatMap_map]
  rw [decode, htext, splitOn_lines]
  · simp [Image.records]
  · intro line hmem
    obtain ⟨record, -, rfl⟩ := List.mem_map.mp hmem
    exact record.newline_not_mem_text

/-- A fitting image reads back from its records. The base of an empty image is lost. -/
theorem decode_records_of_fits {image : Image} (fits : image.span.Fits) :
    decode (String.join (image.records.map fun record => record.text ++ "\n")) =
      .ok (if image.data = [] then .empty else image) := by
  obtain ⟨base, data⟩ := image
  have hfits : base.toNat + data.length ≤ addressSpace := fits
  rw [decode_records]
  by_cases hnil : data = []
  · subst hnil
    have hcount : (0 + recordLength - 1) / recordLength = 0 := rfl
    simp only [List.length_nil, hcount, dataRecords, if_true]
    exact decodeLines_endOfFile 1 none [[]]
  · rw [if_neg hnil]
    have hpos := List.length_pos_iff.mpr hnil
    unfold recordLength
    obtain ⟨count, hcount⟩ : ∃ count, (data.length + 16 - 1) / 16 = count + 1 :=
      Nat.exists_eq_succ_of_ne_zero (by omega)
    have hfirst : (data.take recordLength).length < 256 := by
      rw [List.length_take]
      unfold recordLength
      omega
    -- the first record decides the base, the others continue it
    have hstart : ∀ rest, decodeLines 1 none
        ((dataRecords (count + 1) base data).map (·.text.toList) ++ rest) =
        decodeLines 1 (some ⟨base, #[]⟩)
          ((dataRecords (count + 1) base data).map (·.text.toList) ++ rest) :=
      fun rest => decodeLines_first hfirst rfl
    simp only [hcount, hstart]
    rw [decodeLines_dataRecords (count + 1) (by omega) (by omega) (fun _ => rfl) (by simpa),
      decodeLines_endOfFile]
    simp [Block.image]

theorem exists_encode_of_fits {image : Image} (fits : image.span.Fits) :
    ∃ text, encode image = .ok text ∧
      decode text = .ok (if image.data = [] then .empty else image) :=
  ⟨_, if_pos fits, decode_records_of_fits fits⟩

/-- An image that fits is written, and reads back as itself; only the base of an empty image is
lost. An image that does not fit is refused. -/
theorem decode_encode (data : List UInt8) (base : Address) :
    (base.toNat + data.length ≤ addressSpace ∧
      ∃ text, encode ⟨base, data⟩ = .ok text ∧
        decode text = .ok (if data = [] then ⟨0, []⟩ else ⟨base, data⟩)) ∨
    (addressSpace < base.toNat + data.length ∧
      encode ⟨base, data⟩ = .error (.imageTooLarge ⟨base, data.length⟩)) := by
  by_cases fits : base.toNat + data.length ≤ addressSpace
  · have hspan : (⟨base, data⟩ : Image).span.Fits := fits
    refine .inl ⟨fits, _, if_pos hspan, ?_⟩
    exact decode_records_of_fits hspan
  · have hspan : ¬ (⟨base, data⟩ : Image).span.Fits := fits
    exact .inr ⟨Nat.lt_of_not_le fits, if_neg hspan⟩

end Disasm.IntelHex
