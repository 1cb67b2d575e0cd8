import Disasm.Proofs.Finality

/-!
# Which characters a record may have

Behind the colon of a record stand pairs of characters, and each pair is read like any numeral of two
characters. So it consists of two digits, or of a plus sign and one digit: `+F` is fifteen.

1. The pairs that are read are exactly these (`exists_pairs_iff`).
2. A line with any other character in it, or without its colon, is refused for its characters and for
   nothing else (`refused_characters_iff`). Neither the count nor the checksum comes into play.
3. Behind intact lines, the line that is refused decides the result (`Intact.decodeLines_append`).
-/

namespace Disasm.IntelHex

/-! ## Pairs -/

/-- A hexadecimal digit in either case. -/
def IsHexDigit (char : Char) : Prop :=
  char ∈ "0123456789ABCDEFabcdef".toList

instance (char : Char) : Decidable (IsHexDigit char) :=
  inferInstanceAs (Decidable (_ ∈ _))

/-- Two digits, of which the first may be a plus sign instead. -/
def IsBytePair (high low : Char) : Prop :=
  (IsHexDigit high ∨ high = '+') ∧ IsHexDigit low

instance (high low : Char) : Decidable (IsBytePair high low) :=
  inferInstanceAs (Decidable (_ ∧ _))

/-- Text that consists of such pairs. -/
def Paired : List Char → Prop
  | [] => True
  | [_] => False
  | high :: low :: rest => IsBytePair high low ∧ Paired rest

/-- A colon and pairs. -/
def HexLine (text : List Char) : Prop :=
  ∃ chars, text = ':' :: chars ∧ Paired chars

theorem isHexDigit_iff {char : Char} : IsHexDigit char ↔ ∃ digit < 16, Hex.IsDigit char digit := by
  constructor
  · intro h
    have hsubset : "0123456789ABCDEFabcdef".toList ⊆
        "0123456789ABCDEF".toList ++ "0123456789abcdef".toList := by decide
    have hdigit : ∃ digit, Hex.IsDigit char digit := by
      rcases List.mem_append.mp (hsubset h) with hupper | hlower
      · exact (List.mem_iff_getElem?.mp hupper).imp fun digit => .inl
      · exact (List.mem_iff_getElem?.mp hlower).imp fun digit => .inr
    obtain ⟨digit, hdigit⟩ := hdigit
    exact ⟨digit, hdigit.lt, hdigit⟩
  · rintro ⟨digit, -, hupper | hlower⟩
    · have hsubset : "0123456789ABCDEF".toList ⊆ "0123456789ABCDEFabcdef".toList := by decide
      exact hsubset (List.mem_of_getElem? hupper)
    · have hsubset : "0123456789abcdef".toList ⊆ "0123456789ABCDEFabcdef".toList := by decide
      exact hsubset (List.mem_of_getElem? hlower)

theorem exists_writes_iff (chars : List Char) :
    (∃ value, Numeral.Writes 16 chars value) ↔ ∀ char ∈ chars, IsHexDigit char := by
  simp only [isHexDigit_iff]
  constructor
  · rintro ⟨value, digits, hspelled, hdigits, -⟩ char hmem
    obtain ⟨digit, hdigit, hchar⟩ := exists_of_mem_of_forall₂ hspelled hmem
    exact ⟨digit, hdigits digit hdigit, hchar⟩
  · intro h
    induction chars with
    | nil => exact ⟨0, [], .nil, by simp, rfl⟩
    | cons char chars ih =>
      obtain ⟨⟨digit, hdigit, hchar⟩, hmore⟩ := List.forall_mem_cons.mp h
      obtain ⟨-, digits, hspelled, hdigits, -⟩ := ih hmore
      exact ⟨_, digit :: digits, .cons hchar hspelled, List.forall_mem_cons.mpr ⟨hdigit, hdigits⟩, rfl⟩

/-- A pair is a numeral exactly if it is one of digits or of a sign and a digit. -/
theorem denotes_pair_iff {high low : Char} :
    (∃ value, Numeral.Denotes 16 [high, low] value) ↔ IsBytePair high low := by
  constructor
  · rintro ⟨value, chars, -, htext | htext, hwrites⟩
    · have hdigits := (exists_writes_iff chars).mp ⟨value, hwrites⟩
      subst htext
      exact ⟨.inl (hdigits high (by simp)), hdigits low (by simp)⟩
    · have hdigits := (exists_writes_iff chars).mp ⟨value, hwrites⟩
      obtain ⟨rfl, rfl⟩ := List.cons.inj htext
      exact ⟨.inr rfl, hdigits low (by simp)⟩
  · rintro ⟨hhigh | rfl, hlow⟩
    · obtain ⟨value, hwrites⟩ := (exists_writes_iff [high, low]).mpr (by simp [hhigh, hlow])
      exact ⟨value, _, by simp, .inl rfl, hwrites⟩
    · obtain ⟨value, hwrites⟩ := (exists_writes_iff [low]).mpr (by simp [hlow])
      exact ⟨value, _, by simp, .inr rfl, hwrites⟩

theorem lt_of_denotes_pair {high low : Char} {value : Nat} (h : Numeral.Denotes 16 [high, low] value) :
    value < 0x100 := by
  obtain ⟨chars, -, htext, hwrites⟩ := h
  have hlength : chars.length ≤ 2 := by
    rcases htext with rfl | htext
    · exact Nat.le_refl 2
    · rw [← (List.cons.inj htext).2]
      exact Nat.le_succ 1
  calc value < 16 ^ chars.length := hwrites.lt (by decide)
    _ ≤ 16 ^ 2 := Nat.pow_le_pow_right (by decide) hlength

theorem exists_pair_iff {high low : Char} :
    (∃ byte : UInt8, Numeral.parse 16 0x100 [high, low] = .ok byte.toNat) ↔ IsBytePair high low := by
  rw [← denotes_pair_iff]
  constructor
  · rintro ⟨byte, hparse⟩
    exact ⟨_, ((Numeral.parse_eq_ok_iff_denotes (by decide) (by decide)).mp hparse).1⟩
  · rintro ⟨value, hdenotes⟩
    have hlt := lt_of_denotes_pair hdenotes
    refine ⟨.ofNat value, ?_⟩
    rw [UInt8.toNat_ofNat', Nat.mod_eq_of_lt hlt]
    exact (Numeral.parse_eq_ok_iff_denotes (by decide) (by decide)).mpr ⟨hdenotes, hlt⟩

/-- Text is read pair by pair as long as its pairs are such. -/
theorem exists_pairs_iff (chars : List Char) : (∃ bytes, Pairs chars bytes) ↔ Paired chars := by
  fun_induction Paired chars with
  | case1 => exact iff_of_true ⟨[], .nil⟩ trivial
  | case2 char =>
    refine iff_of_false ?_ id
    rintro ⟨bytes, hpairs⟩
    cases hpairs
  | case3 high low rest ih =>
    rw [← exists_pair_iff, ← ih]
    constructor
    · rintro ⟨bytes, hpairs⟩
      cases hpairs with
      | cons pair more => exact ⟨⟨_, pair⟩, _, more⟩
    · rintro ⟨⟨byte, pair⟩, bytes, more⟩
      exact ⟨byte :: bytes, .cons pair more⟩

/-! ## Lines -/

theorem IsRecord.hexLine {text : List Char} {record : Record} (h : IsRecord text record) :
    HexLine text := by
  obtain ⟨bytes, ⟨⟨chars, htext, -, -, hpairs⟩, -⟩, -⟩ := h
  exact ⟨chars, htext, (exists_pairs_iff chars).mp ⟨bytes, hpairs⟩⟩

/-- The reasons for which the characters of a line are to blame. -/
def Record.Malformed.ofCharacters : List Record.Malformed :=
  [.missingColon, .notBytePairs, .invalidDigit]

theorem Record.ofBytes_ne_ofCharacters {bytes : List UInt8} {reason : Record.Malformed}
    (h : Record.ofBytes bytes = .error (.malformed reason)) :
    reason ∉ Record.Malformed.ofCharacters := by
  unfold Record.ofBytes at h
  dsimp only at h
  split at h
  case h_1 =>
    split at h
    case isTrue => split at h <;> cases h
    case isFalse =>
      cases h
      decide
  case h_2 =>
    cases h
    decide

theorem Pairs.toNat_lt {chars : List Char} {bytes : List UInt8} (h : Pairs chars bytes) :
    ∀ char ∈ chars, char.toNat < 0x80 := by
  intro char hmem
  rcases h.digit_or_plus char hmem with rfl | ⟨digit, -, hdigit⟩
  · decide
  · exact Nat.lt_of_le_of_lt (Hex.toNat_of_value? (Hex.value?_eq_some_iff.mpr hdigit)).2 (by decide)

/-- A line is refused for its characters exactly if it is no colon with pairs behind it. -/
theorem refused_characters_iff (text : List Char) :
    (∃ reason ∈ Record.Malformed.ofCharacters, Record.parse text = .error (.malformed reason)) ↔
      ¬ HexLine text := by
  unfold Record.parse
  split
  case h_1 chars =>
    have hline : HexLine (':' :: chars) ↔ Paired chars := by
      simp [HexLine]
    rw [hline, ← exists_pairs_iff]
    split
    case isTrue hform =>
      split
      case h_1 bytes hread =>
        obtain ⟨bytes, hpairs, rfl⟩ := (Record.readPairs_eq_some_iff _ _).mp hread
        refine iff_of_false ?_ fun hnone => hnone ⟨bytes, hpairs⟩
        rintro ⟨reason, hmem, hrefused⟩
        exact Record.ofBytes_ne_ofCharacters hrefused hmem
      case h_2 hread =>
        refine iff_of_true ⟨_, by decide, rfl⟩ ?_
        rintro ⟨bytes, hpairs⟩
        rw [(Record.readPairs_eq_some_iff #[] bytes).mpr ⟨bytes, hpairs, rfl⟩] at hread
        cases hread
    case isFalse hform =>
      refine iff_of_true ⟨_, by decide, rfl⟩ ?_
      rintro ⟨bytes, hpairs⟩
      have heven : chars.length % 2 = 0 := by
        rw [hpairs.length_eq]
        omega
      exact hform (by simpa using ⟨hpairs.toNat_lt, heven⟩)
  case h_2 hcolon =>
    refine iff_of_true ⟨_, by decide, rfl⟩ ?_
    rintro ⟨chars, hchars, -⟩
    exact hcolon chars hchars

theorem written_append (before after : List (List Char)) :
    written (before ++ after) = written before ++ written after := by
  simp [written]

/-! ## Lines behind intact ones -/

/-- The loop goes over lines that are passed. -/
theorem Passes.decodeLines_append {block next : Option Block} {lines : List (List Char)}
    {records : List Record} (h : Passes block lines records next) (line : Nat)
    (rest : List (List Char)) :
    decodeLines line block (lines ++ rest) = decodeLines (line + lines.length) next rest := by
  induction h generalizing line with
  | nil => rfl
  | @blank block next text lines records hblank more ih =>
    rw [List.cons_append, decodeLines_blank hblank, ih, List.length_cons]
    congr 1
    omega
  | @data block next middle text lines record records hread htype other hstep more ih =>
    have hwritten : Text.trim text ≠ [] := fun hnil => not_isRecord_nil record (hnil ▸ hread)
    have hhere : extend line block record = .ok middle :=
      extend_eq_ok_iff.mpr (extend_eq_ok_iff.mp hstep)
    rw [List.cons_append, decodeLines_cons hwritten, parse_eq_ok_iff_isRecord.mpr hread]
    simp only [if_pos htype, hhere, ih, List.length_cons]
    congr 1
    omega

/-- Data records that can be put together are passed. -/
theorem exists_passes {block : Option Block} {lines : List (List Char)} {records : List Record}
    {image : Image} (hspelled : List.Forall₂ IsRecord (written lines) records)
    (hdata : ∀ record ∈ records, record.type = Record.dataType) (hjoins : Joins block records image) :
    ∃ next, Passes block lines records next := by
  induction lines generalizing block records with
  | nil =>
    cases hspelled
    exact ⟨block, .nil block⟩
  | cons text lines ih =>
    by_cases hblank : Text.trim text = []
    · rw [written_cons_blank hblank] at hspelled
      obtain ⟨next, hnext⟩ := ih hspelled hdata hjoins
      exact ⟨next, .blank hblank hnext⟩
    · rw [written_cons hblank] at hspelled
      cases hspelled with
      | cons hread hmore =>
        obtain ⟨htype, htypes⟩ := List.forall_mem_cons.mp hdata
        cases hjoins with
        | cons line hstep hjoins =>
          obtain ⟨next, hnext⟩ := ih hmore htypes hjoins
          exact ⟨next, .data hread htype line hstep hnext⟩

/-- What stands behind intact lines is read as if these had been read already. -/
theorem Intact.decodeLines_append {lines : List (List Char)} {records : List Record}
    (h : Intact lines records) :
    ∃ next, ∀ rest, decodeLines 1 none (lines ++ rest) = decodeLines (lines.length + 1) next rest := by
  obtain ⟨next, hnext⟩ := exists_passes h.spelled h.isData ((joins_none_iff _ _).mpr ⟨h.placed, rfl⟩)
  refine ⟨next, fun rest => ?_⟩
  rw [hnext.decodeLines_append, Nat.add_comm]

/-! ## Texts -/

/-- In a text that is read, all lines up to the end-of-file record are blank, or they consist of a colon
and pairs of digits, of which the first may be a plus sign. A line that is not like this is refused as
malformed, at its own number if the lines in front of it are intact. -/
theorem decode_hexLines (text : String) :
    (∀ image, decode text = .ok image →
      ∃ before last after records, text.toList.splitOn '\n' = before ++ last :: after ∧
        Intact before records ∧ (∃ record, IsRecord (Text.trim last) record ∧
          record.type = Record.endType) ∧
        ∀ line ∈ written (before ++ [last]), HexLine line) ∧
    ∀ before offender after records, text.toList.splitOn '\n' = before ++ offender :: after →
      Intact before records → Text.trim offender ≠ [] → ¬ HexLine (Text.trim offender) →
        ∃ reason ∈ Record.Malformed.ofCharacters,
          decode text = .error (.malformedRecord (before.length + 1) reason) := by
  constructor
  · intro image h
    obtain ⟨records, hspells, hjoins⟩ := (decodeLines_eq_ok_iff _ _ _ _).mp h
    obtain ⟨before, last, after, hlines, hspelled, hdata, record, hlast, htype⟩ :=
      (spells_iff _ _).mp hspells
    have hintact : Intact before records := ⟨hspelled, hdata, ((joins_none_iff _ _).mp hjoins).1⟩
    refine ⟨before, last, after, records, hlines, hintact, ⟨record, hlast, htype⟩, ?_⟩
    intro line hmem
    rw [written_append, List.mem_append] at hmem
    rcases hmem with hbefore | hend
    · obtain ⟨_, -, hrecord⟩ := exists_of_mem_of_forall₂ hspelled hbefore
      exact hrecord.hexLine
    · have hnotBlank : Text.trim last ≠ [] := fun hnil => not_isRecord_nil record (hnil ▸ hlast)
      rw [written_cons hnotBlank] at hend
      obtain rfl := List.mem_singleton.mp hend
      exact hlast.hexLine
  · intro before offender after records hlines hintact hwritten hoffender
    obtain ⟨next, hnext⟩ := hintact.decodeLines_append
    obtain ⟨reason, hmem, hparse⟩ := (refused_characters_iff _).mpr hoffender
    refine ⟨reason, hmem, ?_⟩
    rw [decode, hlines, hnext, decodeLines_cons hwritten, hparse]
    rfl

/-- An image with a plus sign in a pair, and a letter that is no digit behind a record and a blank
line. -/
theorem decode_hexLines_letter :
    (decode ":01000000+FF0\n:00000001FF" = .ok ⟨0, [0x0F]⟩ ∧
      ∃ before last after records,
        ":01000000+FF0\n:00000001FF".toList.splitOn '\n' = before ++ last :: after ∧
        Intact before records ∧ (∃ record, IsRecord (Text.trim last) record ∧
          record.type = Record.endType) ∧
        ∀ line ∈ written (before ++ [last]), HexLine line) ∧
    Intact [":0100000001FE".toList, []] [⟨0, Record.dataType, [0x01]⟩] ∧
      Text.trim ":000000G1FF".toList ≠ [] ∧ ¬ HexLine (Text.trim ":000000G1FF".toList) ∧
      ∃ reason ∈ Record.Malformed.ofCharacters,
        decode ":0100000001FE\n\n:000000G1FF" = .error (.malformedRecord 3 reason) := by
  have hread : decode ":01000000+FF0\n:00000001FF" = .ok ⟨0, [0x0F]⟩ := by decide +kernel
  have hrecord : IsRecord ":0100000001FE".toList ⟨0, Record.dataType, [0x01]⟩ :=
    parse_eq_ok_iff_isRecord.mp (by decide +kernel)
  have hintact : Intact [":0100000001FE".toList, []] [⟨0, Record.dataType, [0x01]⟩] :=
    ⟨.cons hrecord .nil, by decide, by decide, by decide, trivial⟩
  have hletter : ¬ HexLine (Text.trim ":000000G1FF".toList) :=
    (refused_characters_iff _).mp ⟨.invalidDigit, by decide, by decide +kernel⟩
  exact ⟨⟨hread, (decode_hexLines _).1 _ hread⟩, hintact, by decide, hletter,
    (decode_hexLines _).2 _ _ [] _ (by decide +kernel) hintact (by decide) hletter⟩

/-- A record in which the plus sign stands for a digit is read. -/
theorem decode_plus_pair :
    decode ":01000000+FF0\n:00000001FF" = .ok ⟨0, [0x0F]⟩ ∧
      ":01000000+FF0".toList ∈ written (":01000000+FF0\n:00000001FF".toList.splitOn '\n') ∧
      ¬ ∀ char ∈ ":01000000+FF0".toList.tail, IsHexDigit char := by
  refine ⟨by decide +kernel, by decide +kernel, fun h => ?_⟩
  exact absurd (h '+' (by decide)) (by decide)

end Disasm.IntelHex
