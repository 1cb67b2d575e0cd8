import Mathlib.Data.List.TakeWhile
import Disasm.Proofs.JsonReader

/-!
# JSON text reads back

The text of a value is read as that value (`parse_text`). Numbers are digits without leading zeros,
strings are escaped character by character (`read_escape`), and what is written inside of arrays and
objects is put together by the lemmas about `Reads`.

Values are written behind a text that is already there, so each writer is described by the characters
that it appends.
-/

namespace Disasm.Json

/-! ## Numbers -/

theorem isDigit_of_mem_toDigits {value : Nat} :
    ∀ char ∈ Nat.toDigits 10 value, char.isDigit = true :=
  fun _ => Nat.isDigit_of_mem_toDigits (by decide) (by decide)

/-- Only zero starts with the digit zero. -/
theorem head?_toDigits_ne {value : Nat} (h : 0 < value) :
    (Nat.toDigits 10 value).head? ≠ some '0' := by
  induction value using Nat.strongRecOn with
  | ind value ih =>
    by_cases hlt : value < 10
    · have hdigits : ∀ digit < 10, 0 < digit → [Nat.digitChar digit].head? ≠ some '0' := by decide
      rw [Nat.toDigits_of_lt_base hlt]
      exact hdigits value hlt h
    · have hhigh := ih (value / 10) (by omega) (by omega)
      rw [Nat.toDigits_of_base_le (by decide) (by omega), List.head?_append]
      rcases hhead : (Nat.toDigits 10 (value / 10)).head? with _ | char
      · exact absurd (List.head?_eq_none_iff.mp hhead) Nat.toDigits_ne_nil
      · rwa [hhead] at hhigh

theorem isWhole_toDigits (value : Nat) : isWhole (Nat.toDigits 10 value) = true := by
  rcases Nat.eq_zero_or_pos value with rfl | hpos
  · decide
  · simp [isWhole, head?_toDigits_ne hpos, Nat.toDigits_ne_nil]

theorem unsigned?_toDigits (value : Nat) : unsigned? (Nat.toDigits 10 value) = some (value : Rat) := by
  have htake : (Nat.toDigits 10 value).takeWhile Char.isDigit = Nat.toDigits 10 value :=
    List.takeWhile_eq_self_iff.mpr isDigit_of_mem_toDigits
  have hdrop : (Nat.toDigits 10 value).dropWhile Char.isDigit = [] :=
    List.dropWhile_eq_nil_iff.mpr isDigit_of_mem_toDigits
  simp [unsigned?, htake, hdrop, isWhole_toDigits, fraction?, exponent?]

theorem isWord_of_isDigit {char : Char} (h : char.isDigit = true) : isWord char = true := by
  have hmark : mark? char = none := by
    unfold mark?
    split
    case h_7 => rfl
    all_goals exact absurd h (by decide)
  have hspace : char ∉ spaces := by
    intro hmem
    rcases mem_spaces.mp hmem with rfl | rfl | rfl | rfl <;> cases h
  have hquote : char ≠ '"' := by
    rintro rfl
    cases h
  simp [isWord, hmark, hspace, hquote]

theorem toDigits_ne {value : Nat} {chars : List Char} {char : Char} (hmem : char ∈ chars)
    (hchar : char.isDigit = false) : Nat.toDigits 10 value ≠ chars := by
  rintro rfl
  rw [isDigit_of_mem_toDigits char hmem] at hchar
  cases hchar

theorem numeral?_toDigits (value : Nat) : numeral? (Nat.toDigits 10 value) = some (value : Rat) := by
  unfold numeral?
  split
  case h_1 heq => exact absurd heq (toDigits_ne List.mem_cons_self (by decide))
  case h_2 => exact unsigned?_toDigits value

theorem word?_toDigits (value : Nat) :
    word? (Nat.toDigits 10 value) = some (.number (value : Rat)) := by
  have hnull : Nat.toDigits 10 value ≠ "null".toList :=
    toDigits_ne (show 'n' ∈ _ by decide) (by decide)
  have htrue : Nat.toDigits 10 value ≠ "true".toList :=
    toDigits_ne (show 't' ∈ _ by decide) (by decide)
  have hfalse : Nat.toDigits 10 value ≠ "false".toList :=
    toDigits_ne (show 'f' ∈ _ by decide) (by decide)
  rw [word?, if_neg hnull, if_neg htrue, if_neg hfalse, numeral?_toDigits, Option.map_some]

theorem reads_repr (value : Nat) : Reads value.repr.toList (.number (value : Rat)) := by
  rw [Nat.toList_repr]
  refine Reads.word Nat.toDigits_ne_nil (List.all_eq_true.mpr fun char hchar => ?_)
    (word?_toDigits value)
  exact isWord_of_isDigit (isDigit_of_mem_toDigits char hchar)

/-! ## Strings -/

theorem read_of_step {parser : Parser} {char : Char} {rest : List Char} {scanner next : Scanner}
    (h : scanner.step char = some ([], next)) :
    read parser scanner (char :: rest) = read parser next rest := by
  rw [read, h]
  rfl

theorem value?_toLower : ∀ digit < 16, Hex.value? (Hex.digit digit).toLower = some digit := by
  decide

theorem step_unit {done : List Char} {missing value digit : Nat} (h : digit < 16) :
    (Scanner.unit done none (missing + 1) value).step (Hex.digit digit).toLower =
      some ([], .unit done none missing (16 * value + digit)) := by
  rw [Scanner.step, value?_toLower digit h]
  rfl

theorem step_unit_zero {done : List Char} {value digit : Nat} (h : digit < 16)
    (hunit : 16 * value + digit < 0xD800) :
    (Scanner.unit done none 0 value).step (Hex.digit digit).toLower =
      some ([], .text (done ++ [Char.ofNat (16 * value + digit)])) := by
  have hlead : ¬ (0xD800 ≤ 16 * value + digit ∧ 16 * value + digit < 0xDC00) := by omega
  have htrail : ¬ (0xDC00 ≤ 16 * value + digit ∧ 16 * value + digit < 0xE000) := by omega
  rw [Scanner.step, value?_toLower digit h]
  simp only [Option.bind_some, Scanner.finishUnit, if_neg hlead, if_neg htrail, Option.map_some]

theorem read_unit {parser : Parser} {done rest : List Char} {unit : Nat} (h : unit < 0xD800) :
    read parser (.unit done none 3 0) ((Hex.field 4 unit).map Char.toLower ++ rest) =
      read parser (.text (done ++ [Char.ofNat unit])) rest := by
  have hdigit : ∀ value : Nat, value % 16 < 16 := fun value => Nat.mod_lt value (by decide)
  have hunit : 16 * (16 * (16 * (16 * 0 + unit / 16 / 16 / 16 % 16) + unit / 16 / 16 % 16) +
      unit / 16 % 16) + unit % 16 = unit := by omega
  simp only [Hex.field, List.nil_append, List.cons_append, List.map_cons, List.map_nil]
  rw [read_of_step (step_unit (hdigit _)), read_of_step (step_unit (hdigit _)),
    read_of_step (step_unit (hdigit _)), read_of_step (step_unit_zero (hdigit _) (by omega)), hunit]

theorem read_escape (parser : Parser) (done : List Char) (char : Char) (rest : List Char) :
    read parser (.text done) ((escape char).toList ++ rest) =
      read parser (.text (done ++ [char])) rest := by
  unfold escape
  split
  case h_8 hquote hbackslash _ _ _ _ _ =>
    split
    case isTrue hcontrol =>
      have hchars : ("\\u" ++ String.ofList ((Hex.field 4 char.toNat).map Char.toLower)).toList ++ rest =
          '\\' :: 'u' :: ((Hex.field 4 char.toNat).map Char.toLower ++ rest) := by
        simp
      rw [hchars, read_of_step rfl, read_of_step rfl, read_unit (by omega), Char.ofNat_toNat]
    case isFalse hcontrol =>
      have hstep : (Scanner.text done).step char = some ([], .text (done ++ [char])) := by
        rw [Scanner.step, if_neg hquote, if_neg hbackslash, if_neg hcontrol]
      have hchars : char.toString.toList = [char] := by simp
      rw [hchars]
      exact read_of_step hstep
  all_goals rfl

theorem read_escapes (parser : Parser) (done text rest : List Char) :
    read parser (.text done) (text.flatMap (fun char => (escape char).toList) ++ '"' :: rest) =
      (parser.step (.scalar (.string (String.ofList (done ++ text))))).bind
        (read · .between rest) := by
  induction text generalizing done with
  | nil =>
    rw [List.append_nil]
    simp only [List.flatMap_nil, List.nil_append, read, Scanner.step, if_pos, Option.bind_some,
      List.foldlM_cons, List.foldlM_nil, Option.bind_eq_bind, Option.bind_assoc]
    rfl
  | cons char text ih =>
    rw [List.flatMap_cons, List.append_assoc, read_escape, ih, List.append_assoc]
    rfl

theorem scans_quote (text : String) : Scans (quote text).toList (.scalar (.string text)) := by
  intro parser rest
  have hquote : (quote text).toList =
      '"' :: (text.toList.flatMap (fun char => (escape char).toList) ++ ['"']) := by
    simp [quote, String.toList_join, List.flatMap_map]
  have hread := read_escapes parser [] text.toList rest
  rw [List.nil_append, String.ofList_toList] at hread
  rw [hquote, List.cons_append, List.append_assoc, List.singleton_append, ← hread]
  exact read_of_step rfl

/-! ## Layout -/

theorem newLine_spaces (level : Nat) : ∀ char ∈ (newLine level).toList, char ∈ spaces := by
  intro char hchar
  rw [newLine, String.toList_append] at hchar
  rcases List.mem_append.mp hchar with hfeed | hblank
  · rw [List.mem_singleton.mp hfeed]
    decide
  · rw [String.toList_ofList] at hblank
    rw [List.eq_of_mem_replicate hblank]
    decide

/-! ## Values -/

mutual

/-- The value that a text is to be read as. -/
def Value.datum : Value → Datum
  | .bool value => .bool value
  | .number value => .number value
  | .string value => .string value
  | .array items => .array (itemData items)
  | .object members => .object (memberData members)

def itemData : List Value → List Datum
  | [] => []
  | item :: rest => item.datum :: itemData rest

def memberData : List (String × Value) → List (String × Datum)
  | [] => []
  | (key, value) :: rest => (key, value.datum) :: memberData rest

end

theorem itemData_eq_map (items : List Value) : itemData items = items.map Value.datum := by
  induction items with
  | nil => rfl
  | cons item items ih => rw [itemData, ih, List.map_cons]

mutual

/-- What is written for a value reads as the value. -/
theorem reads_write (level : Nat) : ∀ (value : Value) (before : String),
    ∃ chars, (value.write level before).toList = before.toList ++ chars ∧ Reads chars value.datum
  | .bool true, before => ⟨_, String.toList_append, .word (by decide) (by decide) rfl⟩
  | .bool false, before => ⟨_, String.toList_append, .word (by decide) (by decide) rfl⟩
  | .number value, before => ⟨_, String.toList_append, reads_repr value⟩
  | .string value, before => ⟨_, String.toList_append, (scans_quote value).reads⟩
  | .array [], before => ⟨_, String.toList_append, reads_array_nil⟩
  | .array (first :: rest), before => by
    obtain ⟨chars, hfirst, hvalue⟩ :=
      reads_write (level + 1) first (before ++ "[" ++ newLine (level + 1))
    obtain ⟨others, hrest, hitems⟩ := reads_writeItems (level + 1) rest
      (first.write (level + 1) (before ++ "[" ++ newLine (level + 1)))
    refine ⟨_, ?_, .array (newLine_spaces (level + 1)) hvalue hitems (newLine_spaces level)⟩
    rw [Value.write]
    simp only [String.toList_append, hrest, hfirst, List.append_assoc]
    rfl
  | .object [], before => ⟨_, String.toList_append, reads_object_nil⟩
  | .object ((key, value) :: rest), before => by
    obtain ⟨chars, hfirst, hmember⟩ :=
      reads_writeMember (level + 1) (key, value) (before ++ "\x7b" ++ newLine (level + 1))
    obtain ⟨others, hrest, hmembers⟩ := reads_writeMembers (level + 1) rest
      (writeMember (level + 1) (key, value) (before ++ "\x7b" ++ newLine (level + 1)))
    refine ⟨_, ?_, .object (newLine_spaces (level + 1)) hmember hmembers (newLine_spaces level)⟩
    rw [Value.write]
    simp only [String.toList_append, hrest, hfirst, List.append_assoc]
    rfl

theorem reads_writeItems (level : Nat) : ∀ (items : List Value) (before : String),
    ∃ chars, (writeItems level items before).toList = before.toList ++ chars ∧
      ReadsItems chars (itemData items)
  | [], before => ⟨[], (List.append_nil _).symm, fun _ => readsParts_nil⟩
  | item :: rest, before => by
    obtain ⟨chars, hfirst, hvalue⟩ := reads_write level item (before ++ "," ++ newLine level)
    obtain ⟨others, hrest, hitems⟩ := reads_writeItems level rest
      (item.write level (before ++ "," ++ newLine level))
    refine ⟨_, ?_, .cons (newLine_spaces level) hvalue hitems⟩
    rw [writeItems, hrest, hfirst]
    simp only [String.toList_append, List.append_assoc]
    rfl

theorem reads_writeMembers (level : Nat) : ∀ (members : List (String × Value)) (before : String),
    ∃ chars, (writeMembers level members before).toList = before.toList ++ chars ∧
      ReadsMembers chars (memberData members)
  | [], before => ⟨[], (List.append_nil _).symm, fun _ => readsParts_nil⟩
  | (key, value) :: rest, before => by
    obtain ⟨chars, hfirst, hmember⟩ :=
      reads_writeMember level (key, value) (before ++ "," ++ newLine level)
    obtain ⟨others, hrest, hmembers⟩ := reads_writeMembers level rest
      (writeMember level (key, value) (before ++ "," ++ newLine level))
    refine ⟨_, ?_, .cons (newLine_spaces level) hmember hmembers⟩
    rw [writeMembers, hrest, hfirst]
    simp only [String.toList_append, List.append_assoc]
    rfl

theorem reads_writeMember (level : Nat) : ∀ (member : String × Value) (before : String),
    ∃ chars, (writeMember level member before).toList = before.toList ++ chars ∧
      ReadsMember chars member.1 member.2.datum
  | (key, value), before => by
    obtain ⟨chars, hvalue, hreads⟩ := reads_write level value (before ++ quote key ++ ": ")
    have hblank : ∀ char ∈ [' '], char ∈ spaces := List.forall_mem_singleton.mpr (by decide)
    refine ⟨_, ?_, (scans_quote key).member hblank hreads⟩
    rw [writeMember, hvalue]
    simp only [String.toList_append, List.append_assoc]
    rfl

end

/-- A value is read back from its text. -/
theorem parse_text (value : Value) : parse value.text = some value.datum := by
  obtain ⟨chars, hchars, hreads⟩ := reads_write 0 value ""
  refine Reads.parse_eq ?_
  rw [Value.text, hchars]
  exact hreads

end Disasm.Json
