import Disasm.Origin
import Disasm.Proofs.Numeral
import Disasm.Proofs.Text

/-!
# Which texts are origins

`Spells` says which texts stand for which number: a hexadecimal numeral with one of five marks or a
decimal numeral, and blanks around it. The argument is this:

1. The marks are looked for in a fixed order, and the first one that is found is taken away. None of
   them occurs in a numeral, so the order does not matter: a text has one of the forms exactly if what is
   left of it is a numeral of the radix that goes with the mark (`form_iff_unmark`). A second mark is left
   among the digits, where it is refused.
2. A form contains no blanks, so what surrounds it is just what is trimmed (`spells_iff_form_trim`).
3. A numeral is read as its value or refused for its size, first against the bound of the reader and then
   against the address space. Its length does not matter (`parse_of_spells`).
-/

namespace Disasm.Origin

/-! ## Forms -/

/-- The marks that stand before a hexadecimal numeral. -/
def leadingMarks : List (List Char) := ["0x".toList, "0X".toList, "$".toList]

/-- The marks that stand behind a hexadecimal numeral. -/
def trailingMarks : List Char := ['h', 'H']

/-- The forms of an origin: a hexadecimal numeral with one mark, or a decimal one with none. -/
inductive Form : List Char → Nat → Prop where
  | leading {mark digits : List Char} {value : Nat} (marked : mark ∈ leadingMarks)
      (numeral : Numeral.Denotes 16 digits value) : Form (mark ++ digits) value
  | trailing {mark : Char} {digits : List Char} {value : Nat} (marked : mark ∈ trailingMarks)
      (numeral : Numeral.Denotes 16 digits value) : Form (digits ++ [mark]) value
  | decimal {digits : List Char} {value : Nat} (numeral : Numeral.Denotes 10 digits value) :
      Form digits value

/-- The number that a text stands for, whatever its size: one of the forms, and blanks around it. -/
def Spells (text : String) (value : Nat) : Prop :=
  ∃ left core right, text.toList = left ++ core ++ right ∧ Form core value ∧
    (∀ char ∈ left, Text.isBlank char = true) ∧ ∀ char ∈ right, Text.isBlank char = true

/-- The characters that tell a hexadecimal numeral. -/
def marks : List Char := ['x', 'X', '$', 'h', 'H']

/-- Whether a character tells a hexadecimal numeral. -/
def isMark (char : Char) : Bool := char ∈ marks

theorem apart_of_mem_marks :
    ∀ mark ∈ marks, mark ≠ '+' ∧ Hex.value? mark = none ∧ Text.isBlank mark = false := by
  simp only [marks, List.forall_mem_cons, List.not_mem_nil, false_implies, implies_true]
  decide

section Numeral

variable {radix value : Nat} {text : List Char}

/-- Digits are no marks, and neither is the sign. -/
theorem not_isMark_of_denotes (h : Numeral.Denotes radix text value) :
    ∀ char ∈ text, ¬ isMark char = true := by
  intro char hmem hmark
  obtain ⟨hplus, hnone, -⟩ := apart_of_mem_marks char (of_decide_eq_true hmark)
  rcases h.digit_or_plus char hmem with heq | ⟨digit, -, hdigit⟩
  · exact hplus heq
  · rw [Hex.value?_eq_some_iff.mpr hdigit] at hnone
    cases hnone

theorem countP_isMark_of_denotes (h : Numeral.Denotes radix text value) : text.countP isMark = 0 :=
  List.countP_eq_zero.mpr (not_isMark_of_denotes h)

end Numeral

/-! ## Marks -/

section Marks

variable {text digits : List Char} {value : Nat}

theorem unmark_leading {mark : List Char} (h : mark ∈ leadingMarks) (digits : List Char) :
    unmark (mark ++ digits) = (16, digits) := by
  simp only [leadingMarks, List.mem_cons, List.not_mem_nil, or_false] at h
  rcases h with rfl | rfl | rfl
  · rfl
  · rfl
  · rfl

/-- Where no mark can stand in front, the last character decides. -/
theorem unmark_of_trailing (h : ∀ char ∈ text, isMark char = true → char ∈ trailingMarks) :
    unmark text = match text.getLast? with
      | some 'h' | some 'H' => (16, text.dropLast)
      | _ => (10, text) := by
  unfold unmark
  split
  case h_1 => exact absurd (h 'x' (by simp) rfl) (by decide)
  case h_2 => exact absurd (h 'X' (by simp) rfl) (by decide)
  case h_3 => exact absurd (h '$' (by simp) rfl) (by decide)
  case h_4 => rfl

theorem unmark_trailing {mark : Char} (h : mark ∈ trailingMarks)
    (hdigits : ∀ char ∈ digits, ¬ isMark char = true) : unmark (digits ++ [mark]) = (16, digits) := by
  rw [unmark_of_trailing, List.getLast?_concat, List.dropLast_concat]
  · simp only [trailingMarks, List.mem_cons, List.not_mem_nil, or_false] at h
    rcases h with rfl | rfl
    · rfl
    · rfl
  · intro char hmem hchar
    rcases List.mem_append.mp hmem with hmem | hmem
    · exact absurd hchar (hdigits char hmem)
    · exact List.mem_singleton.mp hmem ▸ h

theorem unmark_decimal (hdigits : ∀ char ∈ digits, ¬ isMark char = true) :
    unmark digits = (10, digits) := by
  rw [unmark_of_trailing fun char hmem hchar => absurd hchar (hdigits char hmem)]
  split
  case h_1 hlast => exact absurd rfl (hdigits 'h' (List.mem_of_getLast? hlast))
  case h_2 hlast => exact absurd rfl (hdigits 'H' (List.mem_of_getLast? hlast))
  case h_3 => rfl

/-- A text has one of the forms exactly if a numeral is left of it without its mark. -/
theorem form_iff_unmark : Form text value ↔ Numeral.Denotes (unmark text).1 (unmark text).2 value := by
  constructor
  · intro h
    cases h with
    | leading marked numeral => rwa [unmark_leading marked]
    | trailing marked numeral => rwa [unmark_trailing marked (not_isMark_of_denotes numeral)]
    | decimal numeral => rwa [unmark_decimal (not_isMark_of_denotes numeral)]
  · -- What `unmark` took away tells the form.
    intro h
    unfold unmark at h
    split at h
    case h_1 digits => exact @Form.leading "0x".toList digits value (by decide) h
    case h_2 digits => exact @Form.leading "0X".toList digits value (by decide) h
    case h_3 digits => exact @Form.leading "$".toList digits value (by decide) h
    case h_4 =>
      split at h
      case h_1 hlast =>
        rw [← List.dropLast_append_getLast? 'h' hlast]
        exact .trailing (by decide) h
      case h_2 hlast =>
        rw [← List.dropLast_append_getLast? 'H' hlast]
        exact .trailing (by decide) h
      case h_3 => exact .decimal h

theorem Form.countP_isMark_le (h : Form text value) : text.countP isMark ≤ 1 := by
  cases h with
  | leading marked numeral =>
    have hmarks : ∀ mark ∈ leadingMarks, mark.countP isMark ≤ 1 := by decide
    rw [List.countP_append, countP_isMark_of_denotes numeral]
    exact hmarks _ marked
  | trailing marked numeral =>
    rw [List.countP_append, countP_isMark_of_denotes numeral, Nat.zero_add]
    exact List.countP_le_length
  | decimal numeral =>
    rw [countP_isMark_of_denotes numeral]
    exact Nat.zero_le 1

/-! ## Blanks -/

theorem Form.isBlank_eq_false (h : Form text value) : ∀ char ∈ text, Text.isBlank char = false := by
  have hnumeral : ∀ {radix : Nat} {digits : List Char}, Numeral.Denotes radix digits value →
      ∀ char ∈ digits, Text.isBlank char = false := fun numeral char hmem =>
    Numeral.isBlank_of_digit_or_plus (numeral.digit_or_plus char hmem)
  cases h with
  | leading marked numeral =>
    have hmarks : ∀ mark ∈ leadingMarks, mark.all (!Text.isBlank ·) := by decide
    have hmark := List.all_eq_true.mp (hmarks _ marked)
    exact List.forall_mem_append.mpr ⟨by simpa using hmark, hnumeral numeral⟩
  | trailing marked numeral =>
    have hmarks : trailingMarks ⊆ marks := by decide
    have hmark := (apart_of_mem_marks _ (hmarks marked)).2.2
    exact List.forall_mem_append.mpr ⟨hnumeral numeral, by simpa using hmark⟩
  | decimal numeral => exact hnumeral numeral

/-- What stands around a form is what is trimmed. -/
theorem spells_iff_form_trim {text : String} :
    Spells text value ↔ Form (Text.trim text.toList) value := by
  constructor
  · rintro ⟨left, core, right, htext, hform, hleft, hright⟩
    rwa [htext, trim_append hform.isBlank_eq_false hleft hright]
  · intro h
    obtain ⟨left, right, htext, hleft, hright⟩ := exists_trim text.toList
    exact ⟨left, _, right, htext, h, hleft, hright⟩

theorem Spells.countP_isMark_le {text : String} (h : Spells text value) :
    text.toList.countP isMark ≤ 1 := by
  have hblank : ∀ {blanks : List Char}, (∀ char ∈ blanks, Text.isBlank char = true) →
      blanks.countP isMark = 0 := by
    intro blanks hblanks
    refine List.countP_eq_zero.mpr fun char hmem hchar => ?_
    obtain ⟨-, -, hnot⟩ := apart_of_mem_marks char (of_decide_eq_true hchar)
    rw [hblanks char hmem] at hnot
    cases hnot
  obtain ⟨left, core, right, htext, hform, hleft, hright⟩ := h
  rw [htext, List.countP_append, List.countP_append, hblank hleft, hblank hright]
  simpa using hform.countP_isMark_le

end Marks

/-! ## Reading -/

/-- The text that errors show. -/
def shown (text : String) : String := String.ofList (Text.trim text.toList)

theorem parse_eq (text : String) :
    parse text =
      match Numeral.parse (unmark (Text.trim text.toList)).1 numeralBound
        (unmark (Text.trim text.toList)).2 with
      | .error cause => .error (.invalid (shown text) cause)
      | .ok value =>
        if value < addressSpace then .ok value.toUInt16
        else .error (.outsideAddressSpace (shown text)) :=
  rfl

theorem unmark_radix_pos (text : List Char) : 0 < (unmark text).1 := by
  unfold unmark
  split
  case h_4 =>
    split
    all_goals exact Nat.zero_lt_succ _
  all_goals exact Nat.zero_lt_succ _

/-- A text that stands for a number is read as that number, or refused for its size. -/
theorem parse_of_spells {text : String} {value : Nat} (h : Spells text value) :
    parse text =
      if value < addressSpace then .ok value.toUInt16
      else if value < numeralBound then .error (.outsideAddressSpace (shown text))
      else .error (.invalid (shown text) .tooLarge) := by
  have hspace : addressSpace ≤ numeralBound := by decide
  have hnumeral := form_iff_unmark.mp (spells_iff_form_trim.mp h)
  rw [parse_eq, Numeral.parse_of_denotes (unmark_radix_pos _) (by decide) hnumeral]
  by_cases hbound : value < numeralBound
  · rw [if_pos hbound, if_pos hbound]
  · rw [if_neg hbound, if_neg hbound, if_neg (by omega)]

theorem parse_of_not_spells {text : String} (h : ∀ value, ¬ Spells text value) :
    ∃ cause, parse text = .error (.invalid (shown text) cause) := by
  rw [parse_eq]
  cases hparse : Numeral.parse (unmark (Text.trim text.toList)).1 numeralBound
      (unmark (Text.trim text.toList)).2 with
  | error cause => exact ⟨cause, rfl⟩
  | ok value =>
    have hnumeral :=
      ((Numeral.parse_eq_ok_iff_denotes (unmark_radix_pos _) (by decide)).mp hparse).1
    exact absurd (spells_iff_form_trim.mpr (form_iff_unmark.mpr hnumeral)) (h value)

theorem spells_of_parse {text : String} {address : Address} (h : parse text = .ok address) :
    Spells text address.toNat := by
  by_cases hspells : ∃ value, Spells text value
  · obtain ⟨value, hvalue⟩ := hspells
    rw [parse_of_spells hvalue] at h
    split at h
    case isTrue hlt =>
      obtain rfl := Except.ok.inj h
      rwa [Nat.toUInt16_eq, UInt16.toNat_ofNat_of_lt' hlt]
    case isFalse =>
      split at h
      all_goals cases h
  · obtain ⟨cause, hcause⟩ := parse_of_not_spells (not_exists.mp hspells)
    rw [hcause] at h
    cases h

/-- The origins are the texts that stand for a number of sixteen bits, and each is read as that number. A
larger number is refused and not wrapped, however long its numeral is; so is every text that stands for
no number, and every text with more than one mark is among these. -/
theorem parse_decided (text : String) :
    (∀ value, (∃ address, parse text = .ok address ∧ address.toNat = value) ↔
      Spells text value ∧ value ≤ 65535) ∧
    (∀ value, Spells text value → 65535 < value →
      parse text = .error
        (if value < 2 ^ 32 then .outsideAddressSpace (shown text) else .invalid (shown text) .tooLarge)) ∧
    ((∀ value, ¬ Spells text value) → ∃ cause, parse text = .error (.invalid (shown text) cause)) ∧
    (1 < text.toList.countP isMark → ∃ cause, parse text = .error (.invalid (shown text) cause)) := by
  refine ⟨fun value => ⟨?_, ?_⟩, ?_, parse_of_not_spells, fun hmarks => ?_⟩
  · rintro ⟨address, h, rfl⟩
    exact ⟨spells_of_parse h, Nat.le_of_lt_succ address.toNat_lt⟩
  · rintro ⟨hspells, hle⟩
    have hlt : value < addressSpace := Nat.lt_succ_of_le hle
    refine ⟨value.toUInt16, ?_, ?_⟩
    · rw [parse_of_spells hspells, if_pos hlt]
    · rw [Nat.toUInt16_eq, UInt16.toNat_ofNat_of_lt' hlt]
  · intro value hspells hlarge
    have hspace : ¬ value < addressSpace := Nat.not_lt_of_le hlarge
    rw [parse_of_spells hspells, if_neg hspace, apply_ite Except.error]
    rfl
  · exact parse_of_not_spells fun value hspells => Nat.not_le_of_lt hmarks hspells.countP_isMark_le

/-- A sign and zeros between the mark and the digits and blanks around them, a numeral that does not fit
in thirty-two bits, and a mark on either side. -/
theorem parse_decided_marked :
    (∃ address, parse " $+00fF\t" = .ok address ∧ address.toNat = 255) ∧
    parse "+100000000h" = .error (.invalid "+100000000h" .tooLarge) ∧
    ∃ cause, parse "$12h" = .error (.invalid "$12h" cause) := by
  have hsmall : Spells " $+00fF\t" 255 :=
    ⟨[' '], "$+00fF".toList, ['\t'], by decide,
      @Form.leading "$".toList "+00fF".toList 255 (by decide)
        ⟨"00fF".toList, by decide, .inr rfl, [0, 0, 15, 15], by decide, by decide, by decide⟩,
      List.forall_mem_singleton.mpr (by decide), List.forall_mem_singleton.mpr (by decide)⟩
  have hlarge : Spells "+100000000h" 4294967296 :=
    ⟨[], "+100000000h".toList, [], by decide,
      @Form.trailing 'h' "+100000000".toList 4294967296 (by decide)
        ⟨"100000000".toList, by decide, .inr rfl, [1, 0, 0, 0, 0, 0, 0, 0, 0], by decide, by decide,
          by decide⟩,
      by simp, by simp⟩
  exact ⟨((parse_decided _).1 255).mpr ⟨hsmall, by decide⟩,
    (parse_decided _).2.1 4294967296 hlarge (by decide), (parse_decided "$12h").2.2.2 (by decide)⟩

end Disasm.Origin
