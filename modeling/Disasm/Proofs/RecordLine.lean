import Mathlib.Data.List.Basic
import Disasm.Proofs.IntelHex
import Disasm.Proofs.Numeral

/-!
# Lines that are records

`ValidLine` says which text is a record: a colon, pairs of characters that read as bytes, as many bytes
as the first one announces, and a sum of zero. It is what `Record.parse` accepts
(`Record.parse_eq_ok_iff`). A pair is read like any numeral, so a plus sign may stand for its first
digit; nothing else but digits occurs in it (`Pairs.digit_or_plus`).
-/

namespace Disasm

/-! ## Digits -/

theorem Hex.ne_colon_of_isDigit {char : Char} {value : Nat} (h : IsDigit char value) : char ≠ ':' := by
  rintro rfl
  cases value?_eq_some_iff.mpr h

namespace IntelHex

/-! ## Pairs of characters -/

/-- Text that reads as bytes, pair by pair. -/
inductive Pairs : List Char → List UInt8 → Prop where
  | nil : Pairs [] []
  | cons {high low : Char} {byte : UInt8} {chars : List Char} {bytes : List UInt8}
      (pair : Numeral.parse 16 0x100 [high, low] = .ok byte.toNat) (rest : Pairs chars bytes) :
      Pairs (high :: low :: chars) (byte :: bytes)

section Pairs

variable {chars : List Char} {bytes : List UInt8}

theorem Pairs.length_eq (h : Pairs chars bytes) : chars.length = 2 * bytes.length := by
  induction h with
  | nil => rfl
  | cons pair rest ih =>
    rw [List.length_cons, List.length_cons, List.length_cons, ih]
    omega

theorem Pairs.digit_or_plus (h : Pairs chars bytes) :
    ∀ char ∈ chars, char = '+' ∨ ∃ digit < 16, Hex.IsDigit char digit := by
  induction h with
  | nil => simp
  | cons pair rest ih =>
    have hpair :=
      ((Numeral.parse_eq_ok_iff_denotes (by decide) (by decide)).mp pair).1.digit_or_plus
    intro char hmem
    rcases List.mem_cons.mp hmem with rfl | hmem
    · exact hpair char (by simp)
    rcases List.mem_cons.mp hmem with rfl | hmem
    · exact hpair char (by simp)
    · exact ih char hmem

theorem Pairs.isBlank_eq_false (h : Pairs chars bytes) :
    ∀ char ∈ chars, Text.isBlank char = false :=
  fun char hmem => Numeral.isBlank_of_digit_or_plus (h.digit_or_plus char hmem)

theorem Pairs.colon_not_mem (h : Pairs chars bytes) : ':' ∉ chars := by
  intro hmem
  rcases h.digit_or_plus ':' hmem with heq | ⟨digit, -, hdigit⟩
  · cases heq
  · exact Hex.ne_colon_of_isDigit hdigit rfl

/-- The text determines the bytes. -/
theorem Pairs.unique (h : Pairs chars bytes) {others : List UInt8} (hothers : Pairs chars others) :
    others = bytes := by
  induction h generalizing others with
  | nil =>
    cases hothers
    rfl
  | cons pair rest ih =>
    cases hothers with
    | cons otherPair otherRest =>
      rw [pair, Except.ok.injEq, UInt8.toNat_inj] at otherPair
      rw [ih otherRest, otherPair]

/-- Pairs are read as long as each one is a byte. -/
theorem Record.readPairs_eq_some_iff (done : Array UInt8) (result : List UInt8) :
    readPairs chars done = some result ↔
      ∃ bytes, Pairs chars bytes ∧ result = done.toList ++ bytes := by
  fun_induction readPairs chars done with
  | case1 done =>
    constructor
    · intro h
      exact ⟨[], .nil, by rw [List.append_nil, Option.some.inj h]⟩
    · rintro ⟨bytes, hpairs, rfl⟩
      cases hpairs
      rw [List.append_nil]
  | case2 char done =>
    constructor
    · intro h
      cases h
    · rintro ⟨bytes, hpairs, -⟩
      cases hpairs
  | case3 high low rest done value hvalue ih =>
    have hlt : value < 0x100 :=
      ((Numeral.parse_eq_ok_iff_denotes (by decide) (by decide)).mp hvalue).2
    have hbyte : value.toUInt8.toNat = value := by
      rw [Nat.toUInt8_eq, UInt8.toNat_ofNat']
      omega
    rw [ih]
    constructor
    · rintro ⟨bytes, hpairs, rfl⟩
      exact ⟨value.toUInt8 :: bytes, .cons (by rw [hvalue, hbyte]) hpairs, by simp⟩
    · rintro ⟨bytes, hpairs, rfl⟩
      cases hpairs with
      | @cons _ _ byte _ bytes pair rest =>
        rw [hvalue, Except.ok.injEq, ← hbyte, UInt8.toNat_inj] at pair
        exact ⟨bytes, rest, by simp [pair]⟩
  | case4 high low rest done error herror =>
    constructor
    · intro h
      cases h
    · rintro ⟨bytes, hpairs, -⟩
      cases hpairs with
      | cons pair rest =>
        rw [herror] at pair
        cases pair

end Pairs

/-! ## Checksums -/

/-- The sum of bytes as numbers. -/
def byteSum : List UInt8 → Nat
  | [] => 0
  | byte :: bytes => byte.toNat + byteSum bytes

theorem byteSum_concat (bytes : List UInt8) (byte : UInt8) :
    byteSum (bytes ++ [byte]) = byteSum bytes + byte.toNat := by
  induction bytes with
  | nil => exact Nat.add_comm _ _
  | cons first bytes ih => rw [List.cons_append, byteSum, ih, byteSum, Nat.add_assoc]

theorem toNat_foldl_add (bytes : List UInt8) (start : UInt8) :
    (bytes.foldl (· + ·) start).toNat = (start.toNat + byteSum bytes) % 256 := by
  induction bytes generalizing start with
  | nil => exact (Nat.mod_eq_of_lt start.toNat_lt).symm
  | cons byte bytes ih =>
    rw [List.foldl_cons, ih, UInt8.toNat_add, byteSum]
    omega

/-- The checksum is the byte that makes the sum zero. -/
theorem checksum_eq_iff (bytes : List UInt8) (byte : UInt8) :
    checksum bytes = byte ↔ byteSum (bytes ++ [byte]) % 256 = 0 := by
  have hbyte := byte.toNat_lt
  have hfold := toNat_foldl_add bytes 0
  rw [UInt8.toNat_zero, Nat.zero_add] at hfold
  rw [← UInt8.toNat_inj, checksum, UInt8.toNat_neg, hfold, byteSum_concat]
  simp only [UInt8.size]
  omega

/-! ## Records -/

/-- A record as it stands in a line without blanks around it, and the bytes that it is spelled by. -/
structure ValidLine (text : List Char) (bytes : List UInt8) : Prop where
  spelled : ∃ chars, text = ':' :: chars ∧ chars.length % 2 = 0 ∧ (∀ char ∈ chars, char.toNat < 0x80) ∧
    Pairs chars bytes
  long : 5 ≤ bytes.length
  /-- The first byte counts the payload. -/
  counted : bytes.length = (bytes.getD 0 0).toNat + 5
  balanced : byteSum bytes % 256 = 0

namespace Record

/-- The record that bytes spell: behind the count stand the address with its high byte first, the
type and the payload, and the checksum comes last. -/
def ofSpelling (bytes : List UInt8) : Record :=
  ⟨(bytes.getD 1 0).toUInt16 * 0x100 + (bytes.getD 2 0).toUInt16, bytes.getD 3 0,
    (bytes.drop 4).dropLast⟩

theorem shiftLeft_or_eq (high low : UInt8) :
    high.toUInt16 <<< 8 ||| low.toUInt16 = high.toUInt16 * 0x100 + low.toUInt16 := by
  have hhigh := high.toNat_lt
  have hlow := low.toNat_lt
  apply UInt16.toNat_inj.mp
  simp only [UInt16.toNat_or, UInt16.toNat_shiftLeft, UInt8.toNat_toUInt16, UInt16.toNat_add,
    UInt16.toNat_mul]
  show high.toNat <<< 8 % 2 ^ 16 ||| low.toNat = (high.toNat * 256 % 2 ^ 16 + low.toNat) % 2 ^ 16
  have hshift : high.toNat <<< 8 < 2 ^ 16 := by
    rw [Nat.shiftLeft_eq]
    omega
  rw [Nat.mod_eq_of_lt hshift, ← Nat.shiftLeft_add_eq_or_of_lt hlow, Nat.shiftLeft_eq]
  omega

/-- Bytes are a record if the count is right and they sum to zero. -/
theorem ofBytes_eq_ok_iff (bytes : List UInt8) (record : Record) :
    ofBytes bytes = .ok record ↔
      5 ≤ bytes.length ∧ bytes.length = (bytes.getD 0 0).toNat + 5 ∧ byteSum bytes % 256 = 0 ∧
        record = ofSpelling bytes := by
  unfold ofBytes
  split
  case h_1 count high low type first rest =>
    have hsplit : count :: high :: low :: type :: (first :: rest).dropLast ++
        [(first :: rest).getLast (List.cons_ne_nil _ _)] =
        count :: high :: low :: type :: first :: rest := by
      simp only [List.cons_append, List.dropLast_append_getLast]
    have hsum := checksum_eq_iff (count :: high :: low :: type :: (first :: rest).dropLast)
      ((first :: rest).getLast (List.cons_ne_nil _ _))
    rw [hsplit] at hsum
    have hrecord : ofSpelling (count :: high :: low :: type :: first :: rest) =
        ⟨high.toUInt16 <<< 8 ||| low.toUInt16, type, (first :: rest).dropLast⟩ := by
      rw [shiftLeft_or_eq]
      rfl
    have hcount : (count :: high :: low :: type :: first :: rest).length = count.toNat + 5 ↔
        rest.length = count.toNat := by
      simp only [List.length_cons]
      omega
    rw [hrecord, List.getD_cons_zero, hcount, ← hsum]
    split
    case isTrue hlength =>
      dsimp only
      split
      case isTrue hchecksum =>
        simp only [Except.ok.injEq, List.length_cons, hlength, hchecksum, true_and]
        exact ⟨fun h => ⟨by omega, h.symm⟩, fun h => h.2.symm⟩
      case isFalse hchecksum => simp [hchecksum]
    case isFalse hlength => simp [hlength]
  case h_2 hshort =>
    refine iff_of_false (fun h => by cases h) fun ⟨hlong, _⟩ => ?_
    rcases bytes with _ | ⟨_, _ | ⟨_, _ | ⟨_, _ | ⟨_, _ | ⟨_, _⟩⟩⟩⟩⟩
    case cons.cons.cons.cons.cons => exact hshort _ _ _ _ _ _ rfl
    all_goals
      simp only [List.length_cons, List.length_nil] at hlong
      omega

/-- A line is read as a record exactly if it is one. -/
theorem parse_eq_ok_iff (text : List Char) (record : Record) :
    parse text = .ok record ↔ ∃ bytes, ValidLine text bytes ∧ record = ofSpelling bytes := by
  unfold parse
  split
  case h_1 chars =>
    split
    case isTrue hform =>
      obtain ⟨hascii, heven⟩ : (∀ char ∈ chars, char.toNat < 0x80) ∧ chars.length % 2 = 0 := by
        simpa using hform
      constructor
      · intro h
        split at h
        case h_1 bytes hread =>
          obtain ⟨bytes, hpairs, rfl⟩ := (readPairs_eq_some_iff _ _).mp hread
          obtain ⟨hlong, hcount, hsum, rfl⟩ := (ofBytes_eq_ok_iff _ _).mp h
          exact ⟨bytes, ⟨⟨chars, rfl, heven, hascii, hpairs⟩, hlong, hcount, hsum⟩, rfl⟩
        case h_2 => cases h
      · rintro ⟨bytes, ⟨⟨_, hchars, -, -, hpairs⟩, hlong, hcount, hsum⟩, rfl⟩
        obtain rfl := (List.cons.inj hchars).2
        rw [(readPairs_eq_some_iff #[] bytes).mpr ⟨bytes, hpairs, rfl⟩]
        exact (ofBytes_eq_ok_iff _ _).mpr ⟨hlong, hcount, hsum, rfl⟩
    case isFalse hform =>
      refine iff_of_false (fun h => by cases h) ?_
      rintro ⟨bytes, ⟨⟨_, hchars, heven, hascii, -⟩, -, -, -⟩, -⟩
      obtain rfl := (List.cons.inj hchars).2
      exact hform (by simpa using ⟨hascii, heven⟩)
  case h_2 hcolon =>
    refine iff_of_false (fun h => by cases h) ?_
    rintro ⟨bytes, ⟨⟨chars, hchars, -⟩, -, -, -⟩, -⟩
    exact hcolon chars hchars

end Record

end IntelHex

end Disasm
