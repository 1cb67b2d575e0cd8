import Mathlib.Data.List.GetD
import Disasm.Proofs.Acceptance
import Disasm.Proofs.EncodedLines

/-!
# One changed character

A written text in which one character is replaced is refused, or it still reads as the same image.

The reader comes to the changed line as it came to the line before the change (`decodeLines_append`), so
only that line matters.

1. Inside a line the change reaches one pair. The line is refused, or the pair is another spelling of the
   same byte: another byte would change the sum (`eq_of_isRecord_set`).
2. A line feed inside a line leaves fewer bytes in front of it than the first byte counts
   (`refused_take`), or a line without a colon behind it (`refused_of_colon_not_mem`).
3. A line without its line feed runs into the colon of the next line (`refused_merged`) or ends with one
   character too many (`refused_or_isRecord_concat`).
-/

namespace Disasm.IntelHex

/-! ## Pairs with a change -/

section Pairs

variable {chars : List Char} {bytes others : List UInt8}

/-- One changed character reaches one byte. -/
theorem Pairs.exists_set (h : Pairs chars bytes) {index : Nat} {char : Char}
    (hothers : Pairs (chars.set index char) others) :
    ∃ byte, others = bytes.set (index / 2) byte := by
  induction h generalizing index others with
  | nil =>
    cases hothers
    exact ⟨0, rfl⟩
  | @cons high low byte chars bytes pair rest ih =>
    rcases index with _ | _ | index
    · cases hothers with
      | @cons _ _ other _ others otherPair otherRest =>
        exact ⟨other, congrArg _ (rest.unique otherRest)⟩
    · cases hothers with
      | @cons _ _ other _ others otherPair otherRest =>
        exact ⟨other, congrArg _ (rest.unique otherRest)⟩
    · cases hothers with
      | @cons _ _ other _ others otherPair otherRest =>
        rw [pair, Except.ok.injEq, UInt8.toNat_inj] at otherPair
        obtain ⟨changed, rfl⟩ := ih otherRest
        refine ⟨changed, ?_⟩
        rw [show (index + 1 + 1) / 2 = index / 2 + 1 by omega, List.set_cons_succ, otherPair]

/-- Text in front of text has its bytes in front. -/
theorem Pairs.isPrefix_of_take (h : Pairs chars bytes) {count : Nat}
    (hothers : Pairs (chars.take count) others) : others <+: bytes := by
  induction h generalizing count others with
  | nil =>
    rw [List.take_nil] at hothers
    cases hothers
    exact List.prefix_refl []
  | @cons high low byte chars bytes pair rest ih =>
    rcases count with _ | _ | count
    · cases hothers
      exact List.nil_prefix
    · cases hothers
    · cases hothers with
      | @cons _ _ other _ others otherPair otherRest =>
        rw [pair, Except.ok.injEq, UInt8.toNat_inj] at otherPair
        rw [otherPair]
        exact List.cons_prefix_cons.mpr ⟨rfl, ih otherRest⟩

theorem pairs_digits (bytes : List UInt8) : Pairs (digits bytes) bytes := by
  obtain ⟨others, hpairs, heq⟩ :=
    (Record.readPairs_eq_some_iff #[] bytes).mp (Record.readPairs_digits bytes #[])
  obtain rfl : bytes = others := heq
  exact hpairs

end Pairs

/-- The sum shows a changed byte. -/
theorem set_eq_of_byteSum_eq {bytes : List UInt8} {index : Nat} {byte : UInt8}
    (h : byteSum (bytes.set index byte) % 256 = byteSum bytes % 256) :
    bytes.set index byte = bytes := by
  have hbyte := byte.toNat_lt
  induction bytes generalizing index with
  | nil => rfl
  | cons first rest ih =>
    have hfirst := first.toNat_lt
    cases index with
    | zero =>
      rw [List.set_cons_zero, byteSum, byteSum] at h
      have hsame : byte = first := UInt8.toNat_inj.mp (by omega)
      rw [hsame, List.set_cons_zero]
    | succ index =>
      rw [List.set_cons_succ, byteSum, byteSum] at h
      rw [List.set_cons_succ, ih (by omega)]

/-! ## Refused lines -/

theorem digit_ne_colon : ∀ value < 16, Hex.digit value ≠ ':' := by decide

theorem colon_not_mem_digits (bytes : List UInt8) : ':' ∉ digits bytes := by
  intro hmem
  obtain ⟨value, hvalue, heq⟩ := exists_digit_of_mem_digits hmem
  exact digit_ne_colon value hvalue heq.symm

/-- A line that is neither blank nor a record. -/
structure Refused (text : List Char) : Prop where
  notBlank : Text.trim text ≠ []
  invalid : ∀ record, ¬ IsRecord (Text.trim text) record

theorem Refused.decodeLines_eq_error {text : List Char} (h : Refused text) (line : Nat)
    (block : Option Block) (rest : List (List Char)) :
    ∃ error, decodeLines line block (text :: rest) = .error error := by
  rw [decodeLines_cons h.notBlank]
  rcases hparse : Record.parse (Text.trim text) with error | record
  · exact ⟨_, rfl⟩
  · exact absurd (parse_eq_ok_iff_isRecord.mp hparse) (h.invalid record)

theorem decodeLines_congr {text other : List Char} {record : Record}
    (htext : IsRecord (Text.trim text) record) (hother : IsRecord (Text.trim other) record) (line : Nat)
    (block : Option Block) (rest : List (List Char)) :
    decodeLines line block (other :: rest) = decodeLines line block (text :: rest) := by
  have hne {line : List Char} (h : IsRecord (Text.trim line) record) : Text.trim line ≠ [] :=
    fun hnil => not_isRecord_nil record (hnil ▸ h)
  rw [decodeLines_cons (hne htext), decodeLines_cons (hne hother),
    parse_eq_ok_iff_isRecord.mpr htext, parse_eq_ok_iff_isRecord.mpr hother]

theorem IsRecord.colon_mem {text : List Char} {record : Record} (h : IsRecord text record) :
    ':' ∈ text := by
  obtain ⟨bytes, ⟨⟨chars, rfl, -⟩, -⟩, -⟩ := h
  exact List.mem_cons_self

theorem IsRecord.pairs {chars : List Char} {record : Record} (h : IsRecord (':' :: chars) record) :
    ∃ bytes, Pairs chars bytes ∧ 5 ≤ bytes.length ∧ bytes.length = (bytes.getD 0 0).toNat + 5 ∧
      byteSum bytes % 256 = 0 ∧ record = .ofSpelling bytes := by
  obtain ⟨bytes, ⟨⟨_, hchars, -, -, hpairs⟩, hlong, hcount, hsum⟩, hrecord⟩ := h
  obtain rfl := (List.cons.inj hchars).2
  exact ⟨bytes, hpairs, hlong, hcount, hsum, hrecord⟩

/-! ## Lines with a change -/

section Lines

variable {record : Record}

/-- Digits without a colon are no record. -/
theorem refused_of_colon_not_mem {chars : List Char} (hdigits : digits record.allBytes ⊆ chars)
    (hcolon : ':' ∉ chars) : Refused chars := by
  have hmem : Hex.digit (record.payload.length.toUInt8.toNat / 16 % 16) ∈ digits record.allBytes := by
    rw [Record.allBytes, Record.body, List.cons_append, digits_cons]
    exact List.mem_cons_self
  have hwritten := mem_trim (hdigits hmem) (isBlank_digit _ (Nat.mod_lt _ (by decide)))
  exact ⟨List.ne_nil_of_mem hwritten, fun other hother => hcolon (mem_of_mem_trim hother.colon_mem)⟩

/-- One more character leaves a line free of blanks if it is none itself. -/
theorem trim_eq_self_of_text (record : Record) {chars : List Char} {char : Char}
    (hblank : ¬ Text.isBlank char = true)
    (h : ∀ other ∈ chars, other ∈ record.text.toList ∨ other = char) : Text.trim chars = chars := by
  refine trim_eq_self fun other hother => ?_
  rcases h other hother with hmem | rfl
  · exact Record.isBlank_of_mem_text hmem
  · exact Bool.eq_false_iff.mpr hblank

theorem trim_ne_nil_of_colon (chars : List Char) : Text.trim (':' :: chars) ≠ [] :=
  List.ne_nil_of_mem (mem_trim List.mem_cons_self (by decide))

theorem trim_append_text (chars : List Char) :
    Text.trim (':' :: chars ++ record.text.toList) = ':' :: chars ++ record.text.toList := by
  refine trim_eq_self_of_ends (fun char hchar => ?_) fun char hchar => ?_
  · cases hchar
    decide
  · rw [List.getLast?_append_of_ne_nil _ (by simp [Record.toList_text])] at hchar
    exact Record.isBlank_of_mem_text (List.mem_of_mem_getLast? hchar)

/-- A line that runs into the next one is no record: there is a colon in it. -/
theorem refused_merged (next : Record) (char : Char) :
    Refused (record.text.toList ++ char :: next.text.toList) := by
  have hline : record.text.toList ++ char :: next.text.toList =
      ':' :: (digits record.allBytes ++ [char]) ++ next.text.toList := by
    simp [Record.toList_text]
  rw [hline]
  refine ⟨trim_ne_nil_of_colon _, fun other hother => ?_⟩
  rw [trim_append_text, List.cons_append] at hother
  obtain ⟨bytes, hpairs, -⟩ := hother.pairs
  refine hpairs.colon_not_mem (List.mem_append_right _ ?_)
  rw [Record.toList_text]
  exact List.mem_cons_self

section Written

variable (hlength : record.payload.length < 256)

include hlength

theorem isRecord_text : IsRecord (Text.trim record.text.toList) record := by
  rw [Record.trim_text]
  exact parse_eq_ok_iff_isRecord.mp (Record.parse_text hlength)

/-- A record without its end is none: its first byte counts more bytes. -/
theorem refused_take {count : Nat} (hpos : 0 < count) (hcount : count < record.text.toList.length) :
    Refused (record.text.toList.take count) := by
  obtain ⟨-, hcounted, -⟩ := (Record.ofBytes_eq_ok_iff _ _).mp (Record.ofBytes_allBytes hlength)
  obtain ⟨count, rfl⟩ := Nat.exists_eq_add_of_le' hpos
  have htrim : Text.trim (record.text.toList.take (count + 1)) = record.text.toList.take (count + 1) :=
    trim_eq_self fun char hchar => Record.isBlank_of_mem_text (List.mem_of_mem_take hchar)
  rw [Record.toList_text, List.take_succ_cons] at *
  refine ⟨trim_ne_nil_of_colon _, fun other hother => ?_⟩
  rw [htrim] at hother
  obtain ⟨bytes, hpairs, hlong, hbytes, -⟩ := hother.pairs
  obtain ⟨rest, hrest⟩ := (pairs_digits record.allBytes).isPrefix_of_take hpairs
  have hfirst : record.allBytes.getD 0 0 = bytes.getD 0 0 := by
    rw [← hrest, List.getD_append _ _ _ _ (by omega)]
  have hchars := hpairs.length_eq
  rw [List.length_take] at hchars
  rw [List.length_cons, length_digits] at hcount
  rw [length_digits] at hchars
  rw [hfirst] at hcounted
  omega

/-- A character behind a record is blank, or the pairs do not come out even. -/
theorem refused_or_isRecord_concat (char : Char) :
    Refused (record.text.toList ++ [char]) ∨
      IsRecord (Text.trim (record.text.toList ++ [char])) record := by
  by_cases hblank : Text.isBlank char = true
  · rw [trim_concat (fun _ => Record.isBlank_of_mem_text) hblank, ← Record.trim_text]
    exact .inr (isRecord_text hlength)
  · have htrim : Text.trim (record.text.toList ++ [char]) = record.text.toList ++ [char] :=
      trim_eq_self_of_text record hblank fun _ hmem =>
        (List.mem_append.mp hmem).imp_right List.mem_singleton.mp
    rw [Record.toList_text] at *
    refine .inl ⟨trim_ne_nil_of_colon _, fun other hother => ?_⟩
    rw [htrim, List.cons_append] at hother
    obtain ⟨bytes, hpairs, -⟩ := hother.pairs
    have hchars := hpairs.length_eq
    rw [List.length_append, length_digits, List.length_singleton] at hchars
    omega

omit hlength in
/-- A blank among the digits is found: inside the line it is no digit, and at its end a digit is
missing. -/
theorem not_isRecord_set_blank {index : Nat} (hindex : index < (digits record.allBytes).length)
    {blank : Char} (hblank : Text.isBlank blank = true) (other : Record) :
    ¬ IsRecord (Text.trim (':' :: (digits record.allBytes).set index blank)) other := by
  intro h
  have hdigits : ∀ char ∈ ':' :: digits record.allBytes, Text.isBlank char = false := by
    rw [← Record.toList_text]
    exact fun _ => Record.isBlank_of_mem_text
  have hlength := length_digits record.allBytes
  rw [List.set_eq_take_append_cons_drop, if_pos hindex] at h
  rcases hback : (digits record.allBytes).drop (index + 1) with _ | ⟨next, back⟩
  · have hlast := List.drop_eq_nil_iff.mp hback
    rw [hback, ← List.cons_append, trim_concat _ hblank] at h
    · obtain ⟨bytes, hpairs, -⟩ := h.pairs
      have hchars := hpairs.length_eq
      rw [List.length_take] at hchars
      omega
    · intro char hchar
      exact hdigits char (List.cons_subset_cons _ (List.take_subset _ _) hchar)
  · rw [hback, trim_eq_self_of_ends] at h
    · obtain ⟨bytes, hpairs, -⟩ := h.pairs
      rw [hpairs.isBlank_eq_false blank (by simp)] at hblank
      cases hblank
    · intro char hchar
      cases hchar
      decide
    · intro char hchar
      have hmem : char ∈ (digits record.allBytes).drop (index + 1) := by
        rw [hback]
        rw [← List.cons_append, List.getLast?_append_of_ne_nil _ (List.cons_ne_nil _ _),
          List.getLast?_cons_cons] at hchar
        exact List.mem_of_mem_getLast? hchar
      exact hdigits char (List.mem_cons_of_mem _ (List.mem_of_mem_drop hmem))

/-- A line in which one digit is changed holds the same record or none: the sum would show another
byte. -/
theorem eq_of_isRecord_set {index : Nat} {char : Char} {other : Record}
    (hindex : index < (digits record.allBytes).length)
    (h : IsRecord (Text.trim (':' :: (digits record.allBytes).set index char)) other) :
    other = record := by
  by_cases hblank : Text.isBlank char = true
  · exact absurd h (not_isRecord_set_blank hindex hblank other)
  have htrim : Text.trim (':' :: (digits record.allBytes).set index char) =
      ':' :: (digits record.allBytes).set index char := by
    refine trim_eq_self_of_text record hblank fun changed hchanged => ?_
    rw [← List.set_cons_succ, ← Record.toList_text] at hchanged
    exact List.mem_or_eq_of_mem_set hchanged
  rw [htrim] at h
  obtain ⟨-, -, hsum, hrecord⟩ :=
    (Record.ofBytes_eq_ok_iff _ _).mp (Record.ofBytes_allBytes hlength)
  obtain ⟨bytes, hpairs, -, -, hbalanced, rfl⟩ := h.pairs
  obtain ⟨byte, rfl⟩ := (pairs_digits record.allBytes).exists_set hpairs
  rw [set_eq_of_byteSum_eq (hbalanced.trans hsum.symm)]
  exact hrecord.symm

theorem refused_or_isRecord_set {index : Nat} (hindex : index < record.text.toList.length)
    (char : Char) :
    Refused (record.text.toList.set index char) ∨
      IsRecord (Text.trim (record.text.toList.set index char)) record := by
  have hsame := isRecord_text hlength
  rw [Record.toList_text] at *
  cases index with
  | zero =>
    rw [List.set_cons_zero]
    by_cases hcolon : char = ':'
    · rw [hcolon]
      exact .inr hsame
    · refine .inl (refused_of_colon_not_mem (List.subset_cons_self _ _) fun hmem => ?_)
      rcases List.mem_cons.mp hmem with heq | hmem
      · exact hcolon heq.symm
      · exact colon_not_mem_digits _ hmem
  | succ index =>
    rw [List.set_cons_succ]
    rw [List.length_cons] at hindex
    by_cases hrecord : ∃ other,
        IsRecord (Text.trim (':' :: (digits record.allBytes).set index char)) other
    · obtain ⟨other, hother⟩ := hrecord
      obtain rfl := eq_of_isRecord_set hlength (by omega) hother
      exact .inr hother
    · exact .inl ⟨trim_ne_nil_of_colon _, not_exists.mp hrecord⟩

end Written

end Lines

/-! ## Texts with a change -/

/-- A change in lines that each end with a line feed is a change in one of them or of its line feed. -/
theorem exists_set_line {lines : List (List Char)} {position : Nat}
    (h : position < (lines.flatMap (· ++ ['\n'])).length) (char : Char) :
    ∃ before line after index, lines = before ++ line :: after ∧ index ≤ line.length ∧
      (lines.flatMap (· ++ ['\n'])).set position char =
        before.flatMap (· ++ ['\n']) ++
          ((line ++ ['\n']).set index char ++ after.flatMap (· ++ ['\n'])) := by
  induction lines generalizing position with
  | nil => cases h
  | cons line lines ih =>
    rw [List.flatMap_cons] at h ⊢
    by_cases hfirst : position < (line ++ ['\n']).length
    · refine ⟨[], line, lines, position, rfl, ?_, ?_⟩
      · rw [List.length_append, List.length_singleton] at hfirst
        omega
      · rw [List.set_append_left _ _ hfirst]
        rfl
    · have hskip := Nat.le_of_not_lt hfirst
      rw [List.length_append] at h
      obtain ⟨before, found, after, index, rfl, hindex, hset⟩ :=
        ih (show position - (line ++ ['\n']).length < _ by omega)
      refine ⟨line :: before, found, after, index, rfl, hindex, ?_⟩
      rw [List.set_append_right _ _ hskip, hset, List.flatMap_cons]
      simp only [List.append_assoc]

/-- The lines of records. -/
def textLines (records : List Record) : List (List Char) :=
  records.map (·.text.toList)

/-- The text of records, in which each line ends with a line feed. -/
def joined (records : List Record) : List Char :=
  (textLines records).flatMap (· ++ ['\n'])

theorem newline_not_mem_textLines (records : List Record) :
    ∀ line ∈ textLines records, '\n' ∉ line := by
  intro line hline
  obtain ⟨record, -, rfl⟩ := List.mem_map.mp hline
  exact record.newline_not_mem_text

theorem splitOn_joined (records : List Record) :
    (joined records).splitOn '\n' = textLines records ++ [[]] :=
  splitOn_lines (newline_not_mem_textLines records)

theorem splitOn_line {text : List Char} (h : '\n' ∉ text) (rest : List Char) :
    (text ++ '\n' :: rest).splitOn '\n' = text :: rest.splitOn '\n' := by
  rw [List.splitOn_append_cons_self, List.splitOn_eq_singleton h]
  rfl

/-- The reader refuses what it is given now, or reads it as before. -/
def RefusedOrSame (now before : Except Error Image) : Prop :=
  (∃ error, now = .error error) ∨ now = before

section Texts

variable {record : Record} (hlength : record.payload.length < 256) (after : List Record) (line : Nat)
  (block : Option Block)

include hlength

theorem refusedOrSame_split {index : Nat} (hindex : index < record.text.toList.length) :
    RefusedOrSame
      (decodeLines line block
        ((record.text.toList.set index '\n' ++ '\n' :: joined after).splitOn '\n'))
      (decodeLines line block (record.text.toList :: (textLines after ++ [[]]))) := by
  have hnewline := record.newline_not_mem_text
  have hfront : '\n' ∉ record.text.toList.take index := fun h => hnewline (List.mem_of_mem_take h)
  have hback : '\n' ∉ record.text.toList.drop (index + 1) := fun h => hnewline (List.mem_of_mem_drop h)
  rw [List.set_eq_take_append_cons_drop, if_pos hindex, List.append_assoc, List.cons_append,
    splitOn_line hfront, splitOn_line hback]
  cases index with
  | zero =>
    rw [List.take_zero, decodeLines_blank rfl, Record.toList_text]
    exact .inl ((refused_of_colon_not_mem (List.Subset.refl _)
      (colon_not_mem_digits record.allBytes)).decodeLines_eq_error _ _ _)
  | succ index =>
    exact .inl ((refused_take hlength (Nat.succ_pos index) hindex).decodeLines_eq_error _ _ _)

theorem refusedOrSame_set {index : Nat} (hindex : index < record.text.toList.length) {char : Char}
    (hchar : char ≠ '\n') :
    RefusedOrSame
      (decodeLines line block
        ((record.text.toList.set index char ++ '\n' :: joined after).splitOn '\n'))
      (decodeLines line block (record.text.toList :: (textLines after ++ [[]]))) := by
  have hnewline : '\n' ∉ record.text.toList.set index char := fun hmem =>
    (List.mem_or_eq_of_mem_set hmem).elim record.newline_not_mem_text hchar.symm
  rw [splitOn_line hnewline, splitOn_joined]
  rcases refused_or_isRecord_set hlength hindex char with hrefused | hsame
  · exact .inl (hrefused.decodeLines_eq_error _ _ _)
  · exact .inr (decodeLines_congr (isRecord_text hlength) hsame _ _ _)

theorem refusedOrSame_merge {char : Char} (hchar : char ≠ '\n') :
    RefusedOrSame
      (decodeLines line block ((record.text.toList ++ char :: joined after).splitOn '\n'))
      (decodeLines line block (record.text.toList :: (textLines after ++ [[]]))) := by
  have hnewline := record.newline_not_mem_text
  cases after with
  | nil =>
    have hline : '\n' ∉ record.text.toList ++ [char] := by
      simpa [hnewline] using hchar.symm
    rw [show joined [] = [] from rfl, List.splitOn_eq_singleton hline]
    rcases refused_or_isRecord_concat hlength char with hrefused | hsame
    · exact .inl (hrefused.decodeLines_eq_error _ _ _)
    · refine .inr ?_
      rw [decodeLines_congr (isRecord_text hlength) hsame]
      exact (decodeLines_concat_nil [record.text.toList] line block).symm
  | cons next after =>
    have hline : '\n' ∉ record.text.toList ++ char :: next.text.toList := by
      simpa [hnewline, next.newline_not_mem_text] using hchar.symm
    have hjoined : record.text.toList ++ char :: joined (next :: after) =
        (record.text.toList ++ char :: next.text.toList) ++ '\n' :: joined after := by
      simp [joined, textLines]
    rw [hjoined, splitOn_line hline]
    exact .inl ((refused_merged next char).decodeLines_eq_error _ _ _)

/-- Whatever is changed in the line of a record or behind it. -/
theorem refusedOrSame_line {index : Nat} (hindex : index ≤ record.text.toList.length) (char : Char) :
    RefusedOrSame
      (decodeLines line block
        (((record.text.toList ++ ['\n']).set index char ++ joined after).splitOn '\n'))
      (decodeLines line block (record.text.toList :: (textLines after ++ [[]]))) := by
  rcases Nat.lt_or_eq_of_le hindex with hinside | rfl
  · rw [List.set_append_left _ _ hinside, List.append_assoc, List.singleton_append]
    by_cases hchar : char = '\n'
    · rw [hchar]
      exact refusedOrSame_split hlength after line block hinside
    · exact refusedOrSame_set hlength after line block hinside hchar
  · rw [List.set_append_right _ _ (Nat.le_refl _), Nat.sub_self, List.set_cons_zero, List.append_assoc,
      List.singleton_append]
    by_cases hchar : char = '\n'
    · rw [hchar, splitOn_line record.newline_not_mem_text, splitOn_joined]
      exact .inr rfl
    · exact refusedOrSame_merge hlength after line block hchar

end Texts

theorem refusedOrSame_decode {records : List Record}
    (hlength : ∀ record ∈ records, record.payload.length < 256) (position : Nat) (char : Char) :
    RefusedOrSame (decode (String.ofList ((joined records).set position char)))
      (decode (String.ofList (joined records))) := by
  rw [decode, decode, String.toList_ofList, String.toList_ofList, splitOn_joined]
  rcases Nat.lt_or_ge position (joined records).length with hposition | hposition
  · obtain ⟨before, text, after, index, hlines, hindex, hset⟩ := exists_set_line hposition char
    obtain ⟨front, rest, rfl, rfl, hrest⟩ := List.map_eq_append_iff.mp hlines
    obtain ⟨record, back, rfl, rfl, rfl⟩ := List.map_eq_cons_iff.mp hrest
    have hchanged : ((joined (front ++ record :: back)).set position char).splitOn '\n' =
        textLines front ++
          ((record.text.toList ++ ['\n']).set index char ++ joined back).splitOn '\n' :=
      (congrArg _ hset).trans (splitOn_lines_append (newline_not_mem_textLines front) _)
    have hbefore : textLines (front ++ record :: back) ++ [[]] =
        textLines front ++ record.text.toList :: (textLines back ++ [[]]) := by
      simp [textLines]
    rw [hchanged, hbefore]
    -- The lines before the change decide the result, or they leave it to the changed line.
    rcases decodeLines_append (textLines front) 1 none with ⟨verdict, hverdict⟩ | ⟨next, hnext⟩
    · exact .inr (by rw [hverdict, hverdict])
    · rw [hnext, hnext]
      exact refusedOrSame_line (hlength record (by simp)) back _ next hindex char
  · rw [List.set_eq_of_length_le hposition, splitOn_joined]
    exact .inr rfl

/-! ## Images -/

theorem payload_length_of_mem_dataRecords {count : Nat} {address : Address} {data : List UInt8} :
    ∀ record ∈ dataRecords count address data, record.payload.length < 256 := by
  intro record hmem
  rw [dataRecords_eq_map] at hmem
  obtain ⟨index, -, rfl⟩ := List.mem_map.mp hmem
  have hshort := List.length_take_le recordLength (data.drop (recordLength * index))
  exact Nat.lt_of_le_of_lt hshort (by decide)

theorem payload_length_of_mem_records (image : Image) :
    ∀ record ∈ image.records, record.payload.length < 256 := by
  intro record hmem
  rcases List.mem_append.mp hmem with hmem | hmem
  · exact payload_length_of_mem_dataRecords record hmem
  · rw [List.mem_singleton.mp hmem]
    decide

/-- Whichever character of a written image is replaced by whichever other, the text is refused or
still reads as the image that it was read as before. -/
theorem decode_replace {data : List UInt8} {base : Address}
    (fits : base.toNat + data.length ≤ addressSpace) :
    ∃ text image, encode ⟨base, data⟩ = .ok text ∧ decode text = .ok image ∧
      ∀ position < text.toList.length, ∀ char,
        (∃ error, decode (String.ofList (text.toList.set position char)) = .error error) ∨
          decode (String.ofList (text.toList.set position char)) = .ok image := by
  have hspan : (⟨base, data⟩ : Image).span.Fits := fits
  refine ⟨_, _, if_pos hspan, decode_records_of_fits hspan, fun position _ char => ?_⟩
  have htext :
      (String.join ((⟨base, data⟩ : Image).records.map fun record => record.text ++ "\n")).toList =
        joined (⟨base, data⟩ : Image).records := by
    simp [joined, textLines, String.toList_join, List.flatMap_map]
  have hchange := refusedOrSame_decode (payload_length_of_mem_records ⟨base, data⟩) position char
  rw [← htext, String.ofList_toList, decode_records_of_fits hspan] at hchange
  exact hchange

/-- An image of two data records that ends with the address space. -/
theorem decode_replace_top :
    (0xFFEF : Address).toNat + (List.replicate 17 0x0F).length ≤ addressSpace ∧
      ∃ text image, encode ⟨0xFFEF, List.replicate 17 0x0F⟩ = .ok text ∧ decode text = .ok image ∧
        ∀ position < text.toList.length, ∀ char,
          (∃ error, decode (String.ofList (text.toList.set position char)) = .error error) ∨
            decode (String.ofList (text.toList.set position char)) = .ok image :=
  ⟨by decide, decode_replace (by decide)⟩

/-- A plus sign in place of a leading zero is harmless, a minus sign is refused. -/
example : decode ":01000000+FF0\n:00000001FF\n" = .ok ⟨0, [0x0F]⟩ ∧
    decode ":01000000-FF0\n:00000001FF\n" = .error (.malformedRecord 1 .invalidDigit) := by
  decide +kernel

end Disasm.IntelHex
