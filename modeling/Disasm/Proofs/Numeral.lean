import Mathlib.Data.List.Forall2
import Mathlib.Data.Nat.Digits.Defs
import Disasm.Text

/-!
# What a numeral denotes

`Denotes` says which texts are numerals of a radix and what their values are, without a bound and
without an accumulator. Reading keeps the value below the bound after every digit. From digit to digit
the value does not shrink, so it stays below the bound all the way exactly if it ends there: a numeral is
read as its value or refused for its size, however long it is (`parse_of_denotes`), and no other text is
read (`parse_eq_ok_iff_denotes`).
-/

namespace Disasm

theorem exists_of_mem_of_forall₂ {α β : Type} {related : α → β → Prop} {left : List α}
    {right : List β} (h : List.Forall₂ related left right) {item : α} (hmem : item ∈ left) :
    ∃ other ∈ right, related item other := by
  induction h with
  | nil => cases hmem
  | cons hfirst hrest ih =>
    rcases List.mem_cons.mp hmem with rfl | hmem
    · exact ⟨_, List.mem_cons_self, hfirst⟩
    · obtain ⟨other, hother, hrelated⟩ := ih hmem
      exact ⟨other, List.mem_cons_of_mem _ hother, hrelated⟩

/-! ## Digits -/

namespace Hex

theorem toNat_of_value? {char : Char} {value : Nat} (h : value? char = some value) :
    '0'.toNat ≤ char.toNat ∧ char.toNat ≤ 'f'.toNat := by
  unfold value? at h
  simp only [Char.le_def, UInt32.le_iff_toNat_le] at h
  split at h
  case isTrue hdigit => exact ⟨hdigit.1, Nat.le_trans hdigit.2 (by decide)⟩
  case isFalse =>
    split at h
    case isTrue hupper =>
      exact ⟨Nat.le_trans (by decide) hupper.1, Nat.le_trans hupper.2 (by decide)⟩
    case isFalse =>
      split at h
      case isTrue hlower => exact ⟨Nat.le_trans (by decide) hlower.1, hlower.2⟩
      case isFalse => cases h

/-- The digits by their values, in either case. -/
def IsDigit (char : Char) (value : Nat) : Prop :=
  "0123456789ABCDEF".toList[value]? = some char ∨ "0123456789abcdef".toList[value]? = some char

instance (char : Char) (value : Nat) : Decidable (IsDigit char value) :=
  inferInstanceAs (Decidable (_ ∨ _))

theorem IsDigit.lt {char : Char} {value : Nat} (h : IsDigit char value) : value < 16 := by
  rcases h with h | h
  · exact (List.getElem?_eq_some_iff.mp h).1
  · exact (List.getElem?_eq_some_iff.mp h).1

theorem value?_eq_some_iff {char : Char} {value : Nat} :
    value? char = some value ↔ IsDigit char value := by
  constructor
  · intro h
    have hcodes : ∀ code ≤ 'f'.toNat, ∀ value ∈ value? (.ofNat code),
        IsDigit (.ofNat code) value := by decide
    have hdigit := hcodes char.toNat (toNat_of_value? h).2
    rw [Char.ofNat_toNat] at hdigit
    exact hdigit value h
  · intro h
    have hvalues : ∀ value < 16, "0123456789ABCDEF".toList[value]?.bind value? = some value ∧
        "0123456789abcdef".toList[value]?.bind value? = some value := by decide
    obtain ⟨hupper, hlower⟩ := hvalues value h.lt
    rcases h with h | h
    · rwa [h] at hupper
    · rwa [h] at hlower

theorem isBlank_of_isDigit {char : Char} {value : Nat} (h : IsDigit char value) :
    Text.isBlank char = false := by
  obtain ⟨hleast, hmost⟩ := toNat_of_value? (value?_eq_some_iff.mpr h)
  simp only [Char.reduceToNat] at hleast hmost
  simp only [Text.isBlank, Text.blankRanges, List.any_cons, List.any_nil, Bool.or_false,
    Bool.or_eq_false_iff, Bool.and_eq_false_iff, decide_eq_false_iff_not]
  omega

end Hex

namespace Numeral

theorem digit?_eq_some_iff {radix : Nat} {char : Char} {value : Nat} :
    digit? radix char = some value ↔ Hex.IsDigit char value ∧ value < radix := by
  rw [digit?, Option.filter_eq_some_iff, Hex.value?_eq_some_iff, decide_eq_true_eq]

/-! ## Values -/

/-- The number that is written by digits of a radix, the most significant first. -/
def Writes (radix : Nat) (chars : List Char) (value : Nat) : Prop :=
  ∃ digits, List.Forall₂ Hex.IsDigit chars digits ∧ (∀ digit ∈ digits, digit < radix) ∧
    value = Nat.ofDigits radix digits.reverse

/-- The number that a numeral denotes: a plus sign or none, and at least one digit. -/
def Denotes (radix : Nat) (text : List Char) (value : Nat) : Prop :=
  ∃ chars, chars ≠ [] ∧ (text = chars ∨ text = '+' :: chars) ∧ Writes radix chars value

/-- Continues a number with further digits. -/
def append (radix : Nat) : (value : Nat) → List Nat → Nat :=
  List.foldl fun value digit => value * radix + digit

theorem append_zero (radix : Nat) (digits : List Nat) :
    append radix 0 digits = Nat.ofDigits radix digits.reverse := by
  rw [Nat.ofDigits_eq_foldr, List.foldr_reverse, append]
  congr 1
  funext value digit
  rw [Nat.cast_id, Nat.mul_comm, Nat.add_comm]

section Values

variable {radix bound : Nat}

theorem le_append (hradix : 0 < radix) (value : Nat) (digits : List Nat) :
    value ≤ append radix value digits := by
  induction digits generalizing value with
  | nil => exact Nat.le_refl value
  | cons digit digits ih =>
    calc value ≤ value * radix := Nat.le_mul_of_pos_right value hradix
      _ ≤ value * radix + digit := Nat.le_add_right _ _
      _ ≤ append radix (value * radix + digit) digits := ih _

/-- Digits are read unless the number that they make is too large. -/
theorem extend_of_digits (hradix : 0 < radix) {value : Nat} {chars : List Char} {digits : List Nat}
    (hchars : List.Forall₂ Hex.IsDigit chars digits) (hdigits : ∀ digit ∈ digits, digit < radix)
    (hvalue : value < bound) :
    extend radix bound value chars =
      if append radix value digits < bound then .ok (append radix value digits)
      else .error .tooLarge := by
  induction hchars generalizing value with
  | nil => exact (if_pos hvalue).symm
  | @cons char digit chars digits hchar hrest ih =>
    obtain ⟨hdigit, hmore⟩ := List.forall_mem_cons.mp hdigits
    have hstep : append radix value (digit :: digits) =
        append radix (value * radix + digit) digits := rfl
    rw [extend, digit?_eq_some_iff.mpr ⟨hchar, hdigit⟩, hstep]
    dsimp only
    by_cases hlt : value * radix + digit < bound
    · rw [if_pos hlt, ih hmore hlt]
    · have hle := le_append hradix (value * radix + digit) digits
      rw [if_neg hlt, if_neg (by omega)]

theorem digits_of_extend {value result : Nat} {chars : List Char}
    (h : extend radix bound value chars = .ok result) :
    ∃ digits, List.Forall₂ Hex.IsDigit chars digits ∧ ∀ digit ∈ digits, digit < radix := by
  induction chars generalizing value with
  | nil => exact ⟨[], .nil, by simp⟩
  | cons char rest ih =>
    unfold extend at h
    split at h
    case h_1 => cases h
    case h_2 digit hdigit =>
      split at h
      case isTrue =>
        obtain ⟨digits, hrest, hdigits⟩ := ih h
        obtain ⟨hchar, hlt⟩ := digit?_eq_some_iff.mp hdigit
        exact ⟨digit :: digits, .cons hchar hrest, List.forall_mem_cons.mpr ⟨hlt, hdigits⟩⟩
      case isFalse => cases h

theorem Writes.lt {chars : List Char} {value : Nat} (h : Writes radix chars value) (hradix : 1 < radix) :
    value < radix ^ chars.length := by
  obtain ⟨digits, hspelled, hdigits, rfl⟩ := h
  rw [hspelled.length_eq, ← List.length_reverse]
  exact Nat.ofDigits_lt_base_pow_length hradix (by simpa using hdigits)

/-! ## Numerals -/

theorem not_isDigit_plus (value : Nat) : ¬ Hex.IsDigit '+' value := by
  rw [← Hex.value?_eq_some_iff]
  exact fun h => by cases h

/-- A sign in front of digits is skipped. -/
theorem parse_eq_extend {text chars : List Char} (hchars : chars ≠ []) (hplus : '+' ∉ chars)
    (htext : text = chars ∨ text = '+' :: chars) :
    parse radix bound text = extend radix bound 0 chars := by
  obtain ⟨first, rest, rfl⟩ := List.exists_cons_of_ne_nil hchars
  have hfirst : first ≠ '+' := fun heq => hplus (heq ▸ List.mem_cons_self)
  rcases htext with rfl | rfl
  · unfold parse
    split
    case h_1 heq => cases heq
    case h_2 heq => exact absurd (List.cons.inj heq).1 hfirst
    case h_3 heq => exact absurd (List.cons.inj heq).1 hfirst
    case h_4 => rfl
  · rfl

/-- A numeral is read as what it denotes, or refused for its size. -/
theorem parse_of_denotes (hradix : 0 < radix) (hbound : 0 < bound) {text : List Char} {value : Nat}
    (h : Denotes radix text value) :
    parse radix bound text = if value < bound then .ok value else .error .tooLarge := by
  obtain ⟨chars, hchars, htext, digits, hspelled, hdigits, rfl⟩ := h
  have hplus : '+' ∉ chars := by
    intro hmem
    obtain ⟨digit, -, hdigit⟩ := exists_of_mem_of_forall₂ hspelled hmem
    exact not_isDigit_plus digit hdigit
  rw [parse_eq_extend hchars hplus htext, extend_of_digits hradix hspelled hdigits hbound, append_zero]

theorem Denotes.digit_or_plus {text : List Char} {value : Nat} (h : Denotes radix text value) :
    ∀ char ∈ text, char = '+' ∨ ∃ digit < radix, Hex.IsDigit char digit := by
  obtain ⟨chars, -, htext, digits, hspelled, hdigits, -⟩ := h
  have hchars : ∀ char ∈ chars, ∃ digit < radix, Hex.IsDigit char digit := by
    intro char hmem
    obtain ⟨digit, hdigit, hchar⟩ := exists_of_mem_of_forall₂ hspelled hmem
    exact ⟨digit, hdigits digit hdigit, hchar⟩
  intro char hmem
  rcases htext with rfl | rfl
  · exact .inr (hchars char hmem)
  · rcases List.mem_cons.mp hmem with rfl | hmem
    · exact .inl rfl
    · exact .inr (hchars char hmem)

theorem isBlank_of_digit_or_plus {char : Char}
    (h : char = '+' ∨ ∃ digit < radix, Hex.IsDigit char digit) : Text.isBlank char = false := by
  rcases h with rfl | ⟨digit, -, hdigit⟩
  · decide
  · exact Hex.isBlank_of_isDigit hdigit

/-- A text is read exactly if it denotes a number below the bound. -/
theorem parse_eq_ok_iff_denotes (hradix : 0 < radix) (hbound : 0 < bound) {text : List Char}
    {value : Nat} :
    parse radix bound text = .ok value ↔ Denotes radix text value ∧ value < bound := by
  constructor
  · intro h
    have hcases : ∃ chars, chars ≠ [] ∧ (text = chars ∨ text = '+' :: chars) ∧
        extend radix bound 0 chars = .ok value := by
      unfold parse at h
      split at h
      case h_1 => cases h
      case h_2 => cases h
      case h_3 chars hchars => exact ⟨chars, fun hnil => hchars (by rw [hnil]), .inr rfl, h⟩
      case h_4 hempty _ _ => exact ⟨text, hempty, .inl rfl, h⟩
    obtain ⟨chars, hchars, htext, hextend⟩ := hcases
    obtain ⟨digits, hspelled, hdigits⟩ := digits_of_extend hextend
    have hdenotes : Denotes radix text (Nat.ofDigits radix digits.reverse) :=
      ⟨chars, hchars, htext, digits, hspelled, hdigits, rfl⟩
    rw [parse_of_denotes hradix hbound hdenotes] at h
    split at h
    case isTrue hlt =>
      obtain rfl := Except.ok.inj h
      exact ⟨hdenotes, hlt⟩
    case isFalse => cases h
  · rintro ⟨hdenotes, hlt⟩
    rw [parse_of_denotes hradix hbound hdenotes, if_pos hlt]

end Values

end Numeral

end Disasm
