import Mathlib.Algebra.Group.Nat.Defs
import Mathlib.Data.List.Basic
import Disasm.Text

/-!
# Text that can be read back

Hexadecimal fields and lines of text: a field of fixed width determines its number up to the width
(`Hex.field_inj`), and lines that contain no line feed are found again in the text that they form
(`splitOn_lines`).
-/

namespace Disasm

/-! ## Hexadecimal fields -/

namespace Hex

theorem digit_inj {left right : Nat} (hleft : left < 16) (hright : right < 16)
    (h : digit left = digit right) : left = right := by
  have hvalue := value?_digit left hleft
  rw [h, value?_digit right hright] at hvalue
  exact (Option.some.inj hvalue).symm

theorem exists_digit_of_mem_field {width value : Nat} {char : Char} (h : char ∈ field width value) :
    ∃ number < 16, char = digit number := by
  induction width generalizing value with
  | zero => cases h
  | succ width ih =>
    rcases List.mem_append.mp h with hmem | hmem
    · exact ih hmem
    · exact ⟨value % 16, Nat.mod_lt _ (by decide), List.mem_singleton.mp hmem⟩

/-- A field shows its number modulo the power of its width. -/
theorem field_inj {width left right : Nat} (hleft : left < 16 ^ width) (hright : right < 16 ^ width)
    (h : field width left = field width right) : left = right := by
  induction width generalizing left right with
  | zero =>
    rw [Nat.pow_zero] at hleft hright
    omega
  | succ width ih =>
    obtain ⟨hinit, hlast⟩ := List.append_inj' h rfl
    rw [Nat.pow_succ] at hleft hright
    have hhigh := ih (Nat.div_lt_of_lt_mul (by omega)) (Nat.div_lt_of_lt_mul (by omega)) hinit
    have hlow := digit_inj (Nat.mod_lt _ (by decide)) (Nat.mod_lt _ (by decide))
      (List.singleton_inj.mp hlast)
    omega

theorem toList_byte (value : UInt8) :
    (byte value).toList = [digit (value.toNat / 16 % 16), digit (value.toNat % 16)] := by
  simp [byte, field]

theorem byte_inj {left right : UInt8} (h : byte left = byte right) : left = right := by
  have hfield := String.ofList_injective h
  exact UInt8.toNat_inj.mp (field_inj left.toNat_lt right.toNat_lt hfield)

theorem word_inj {left right : UInt16} (h : word left = word right) : left = right := by
  have hfield := String.ofList_injective h
  exact UInt16.toNat_inj.mp (field_inj left.toNat_lt right.toNat_lt hfield)

end Hex

/-! ## Lines -/

/-- Lines that each end with a line feed are split off one by one. -/
theorem splitOn_lines_append {lines : List (List Char)} (h : ∀ line ∈ lines, '\n' ∉ line)
    (rest : List Char) :
    (lines.flatMap (· ++ ['\n']) ++ rest).splitOn '\n' = lines ++ rest.splitOn '\n' := by
  induction lines with
  | nil => rfl
  | cons line lines ih =>
    have hline := h line (by simp)
    rw [List.flatMap_cons, List.append_assoc, List.append_assoc, List.singleton_append,
      List.splitOn_append_cons_self, List.splitOn_eq_singleton hline,
      ih fun other hmem => h other (by simp [hmem])]
    rfl

theorem splitOn_lines {lines : List (List Char)} (h : ∀ line ∈ lines, '\n' ∉ line) :
    (lines.flatMap (· ++ ['\n'])).splitOn '\n' = lines ++ [[]] := by
  have hsplit := splitOn_lines_append h []
  rwa [List.append_nil] at hsplit

theorem lines_inj {left right : List (List Char)} (hleft : ∀ line ∈ left, '\n' ∉ line)
    (hright : ∀ line ∈ right, '\n' ∉ line)
    (h : left.flatMap (· ++ ['\n']) = right.flatMap (· ++ ['\n'])) : left = right := by
  have hsplit := splitOn_lines hleft
  rw [h, splitOn_lines hright] at hsplit
  exact (List.append_cancel_right hsplit).symm

/-! ## Characters -/

theorem notMem_intercalate {char : Char} {divider : List Char} {words : List (List Char)}
    (hdivider : char ∉ divider) (hwords : ∀ word ∈ words, char ∉ word) :
    char ∉ List.intercalate divider words := by
  induction words with
  | nil => simp
  | cons word words ih =>
    rcases words with _ | ⟨next, words⟩
    · rw [List.intercalate_singleton]
      exact hwords word List.mem_cons_self
    · rw [List.intercalate_cons_cons, List.mem_append, List.mem_append]
      rintro ((hmem | hmem) | hmem)
      · exact hwords word List.mem_cons_self hmem
      · exact hdivider hmem
      · exact ih (fun later hlater => hwords later (List.mem_cons_of_mem _ hlater)) hmem

theorem notMem_append {char : Char} {left right : String} (hleft : char ∉ left.toList)
    (hright : char ∉ right.toList) : char ∉ (left ++ right).toList := by
  rw [String.toList_append, List.mem_append]
  rintro (hmem | hmem)
  · exact hleft hmem
  · exact hright hmem

/-- The bytes of a character are found among the bytes of the text. -/
theorem mem_bytes_of_mem {text : String} {char : Char} {byte : UInt8} (hchar : char ∈ text.toList)
    (hbyte : byte ∈ String.utf8EncodeChar char) : byte ∈ text.toByteArray.data.toList := by
  rw [← String.utf8Encode_toList, List.utf8Encode]
  simp only [List.data_toByteArray, List.mem_flatMap]
  exact ⟨char, hchar, hbyte⟩

/-! ## Blanks -/

theorem dropWhile_isBlank_eq_self {text : List Char}
    (h : ∀ char ∈ text.head?, Text.isBlank char = false) : text.dropWhile Text.isBlank = text := by
  cases text with
  | nil => rfl
  | cons char rest => rw [List.dropWhile_cons_of_neg (by simp [h char rfl])]

/-- Text without blanks at its ends is not trimmed. -/
theorem trim_eq_self_of_ends {text : List Char} (hfirst : ∀ char ∈ text.head?, Text.isBlank char = false)
    (hlast : ∀ char ∈ text.getLast?, Text.isBlank char = false) : Text.trim text = text := by
  rw [Text.trim, dropWhile_isBlank_eq_self hfirst, dropWhile_isBlank_eq_self, List.reverse_reverse]
  rwa [List.head?_reverse]

theorem trim_eq_self {text : List Char} (h : ∀ char ∈ text, Text.isBlank char = false) :
    Text.trim text = text :=
  trim_eq_self_of_ends (fun char hmem => h char (List.mem_of_mem_head? hmem))
    fun char hmem => h char (List.mem_of_mem_getLast? hmem)

theorem trim_append {text left right : List Char} (h : ∀ char ∈ text, Text.isBlank char = false)
    (hleft : ∀ char ∈ left, Text.isBlank char = true)
    (hright : ∀ char ∈ right, Text.isBlank char = true) :
    Text.trim (left ++ text ++ right) = text := by
  cases text with
  | nil =>
    rw [Text.trim, List.append_nil, List.dropWhile_append_of_pos hleft, ← List.append_nil right,
      List.dropWhile_append_of_pos hright]
    rfl
  | cons first rest =>
    have hstart : (first :: rest ++ right).dropWhile Text.isBlank = first :: rest ++ right :=
      dropWhile_isBlank_eq_self fun char hchar => h char (by simp_all)
    rw [Text.trim, List.append_assoc, List.dropWhile_append_of_pos hleft, hstart, List.reverse_append,
      List.dropWhile_append_of_pos (by simpa using hright), dropWhile_isBlank_eq_self,
      List.reverse_reverse]
    exact fun char hchar => h char (List.mem_reverse.mp (List.mem_of_mem_head? hchar))

theorem trim_concat {text : List Char} (h : ∀ char ∈ text, Text.isBlank char = false) {blank : Char}
    (hblank : Text.isBlank blank = true) : Text.trim (text ++ [blank]) = text :=
  @trim_append text [] [blank] h (by simp) (by simpa using hblank)

/-- Text is what it is trimmed to, with blanks around it. -/
theorem exists_trim (text : List Char) :
    ∃ left right, text = left ++ Text.trim text ++ right ∧
      (∀ char ∈ left, Text.isBlank char = true) ∧ ∀ char ∈ right, Text.isBlank char = true := by
  have hends : ∀ chars : List Char, ∃ blanks, chars = blanks ++ chars.dropWhile Text.isBlank ∧
      ∀ char ∈ blanks, Text.isBlank char = true := fun chars =>
    ⟨chars.takeWhile Text.isBlank, List.takeWhile_append_dropWhile.symm,
      List.all_eq_true.mp List.all_takeWhile⟩
  obtain ⟨left, htext, hleft⟩ := hends text
  obtain ⟨right, hrest, hright⟩ := hends (text.dropWhile Text.isBlank).reverse
  refine ⟨left, right.reverse, ?_, hleft, by simpa using hright⟩
  rw [Text.trim, List.append_assoc, ← List.reverse_append, ← hrest, List.reverse_reverse]
  exact htext

theorem mem_of_mem_trim {text : List Char} {char : Char} (h : char ∈ Text.trim text) :
    char ∈ text := by
  rw [Text.trim, List.mem_reverse] at h
  have hrest := (List.dropWhile_suffix _).subset h
  exact (List.dropWhile_suffix _).subset (List.mem_reverse.mp hrest)

theorem mem_dropWhile_isBlank {text : List Char} {char : Char} (hmem : char ∈ text)
    (hchar : Text.isBlank char = false) : char ∈ text.dropWhile Text.isBlank := by
  rw [← List.takeWhile_append_dropWhile (p := Text.isBlank) (l := text), List.mem_append] at hmem
  refine hmem.resolve_left fun hblank => ?_
  rw [List.all_eq_true.mp List.all_takeWhile char hblank] at hchar
  cases hchar

theorem mem_trim {text : List Char} {char : Char} (hmem : char ∈ text)
    (hchar : Text.isBlank char = false) : char ∈ Text.trim text := by
  have hrest := mem_dropWhile_isBlank hmem hchar
  exact List.mem_reverse.mpr (mem_dropWhile_isBlank (List.mem_reverse.mpr hrest) hchar)

end Disasm
