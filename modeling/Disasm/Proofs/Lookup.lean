import Mathlib.Data.List.Basic
import Disasm.Proofs.Labels

/-!
# Finding entries

The entries of a result ascend and leave no gap, so both questions about an address have a definite
answer.

1. The search halves what is left and finds an entry exactly if one starts at the address
   (`entryAt?_isNone_iff`), which is what a scan finds (`entryAt?_eq_find?`).
2. Every address of the image belongs to an entry (`exists_covering`), and to one only: an entry ends before
   the later ones start (`Contiguous.pairwise_end_le`).

Neither would hold if an address wrapped inside the image.
-/

namespace Disasm

/-! ## Search -/

namespace Disassembly

section Search

variable {entries : Array Entry} {address : Address} {low high : Nat} {bound : high ≤ entries.size}

theorem searchEntry_eq_some {entry : Entry}
    (h : searchEntry entries address low high bound = some entry) :
    entry ∈ entries ∧ entry.address = address := by
  fun_induction searchEntry entries address low high bound with
  | case1 low high bound hlt middle hmiddle heq =>
    obtain rfl := Option.some.inj h
    exact ⟨Array.getElem_mem hmiddle, heq⟩
  | case2 low high bound hlt middle hmiddle hne hless ih => exact ih h
  | case3 low high bound hlt middle hmiddle hne hless ih => exact ih h
  | case4 => cases h

theorem address_lt_of_index_lt
    (ascends : entries.toList.Pairwise fun entry later => entry.address < later.address)
    {index later : Nat} {entry laterEntry : Entry} (hlt : index < later)
    (hentry : entries[index]? = some entry) (hlater : entries[later]? = some laterEntry) :
    entry.address < laterEntry.address := by
  obtain ⟨hindex, rfl⟩ := Array.getElem?_eq_some_iff.mp hentry
  obtain ⟨hbound, rfl⟩ := Array.getElem?_eq_some_iff.mp hlater
  have hpair := List.pairwise_iff_getElem.mp ascends index later (by simpa using hindex)
    (by simpa using hbound) hlt
  simpa using hpair

/-- The search does not miss an entry between its bounds. -/
theorem searchEntry_ne_none
    (ascends : entries.toList.Pairwise fun entry later => entry.address < later.address)
    {index : Nat} {entry : Entry} (hlow : low ≤ index) (hhigh : index < high)
    (hentry : entries[index]? = some entry) (haddress : entry.address = address) :
    searchEntry entries address low high bound ≠ none := by
  fun_induction searchEntry entries address low high bound with
  | case1 => exact Option.some_ne_none _
  | case2 low high bound hlt middle hmiddle hne hless ih =>
    -- What stands at the middle is too small, so the entry stands behind it.
    apply ih _ hhigh
    by_contra hle
    rcases Nat.lt_or_eq_of_le (show index ≤ middle by omega) with hbefore | rfl
    · have hsmall := address_lt_of_index_lt ascends hbefore hentry
        (Array.getElem?_eq_getElem hmiddle)
      rw [haddress] at hsmall
      exact UInt16.lt_asymm hless hsmall
    · rw [Array.getElem?_eq_getElem hmiddle, Option.some.injEq] at hentry
      exact hne (hentry ▸ haddress)
  | case3 low high bound hlt middle hmiddle hne hless ih =>
    apply ih hlow
    by_contra hge
    rcases Nat.lt_or_eq_of_le (show middle ≤ index by omega) with hafter | rfl
    · have hlarge := address_lt_of_index_lt ascends hafter
        (Array.getElem?_eq_getElem hmiddle) hentry
      rw [haddress] at hlarge
      exact hless hlarge
    · rw [Array.getElem?_eq_getElem hmiddle, Option.some.injEq] at hentry
      exact hne (hentry ▸ haddress)
  | case4 => omega

end Search

theorem entryAt?_isNone_iff {disassembly : Disassembly}
    (ascends : disassembly.entries.toList.Pairwise fun entry later =>
      entry.address < later.address) (address : Address) :
    (disassembly.entryAt? address).isNone ↔
      ∀ entry ∈ disassembly.entries, entry.address ≠ address := by
  unfold entryAt?
  constructor
  · intro hnone entry hentry haddress
    obtain ⟨index, hindex, rfl⟩ := Array.mem_iff_getElem.mp hentry
    have hnothing := Option.isNone_iff_eq_none.mp hnone
    exact searchEntry_ne_none ascends (Nat.zero_le index) hindex
      (Array.getElem?_eq_getElem hindex) haddress hnothing
  · intro hnot
    rcases hsearch : searchEntry _ _ _ _ _ with _ | entry
    · rfl
    · obtain ⟨hentry, haddress⟩ := searchEntry_eq_some hsearch
      exact absurd haddress (hnot entry hentry)

section Scan

variable {disassembly : Disassembly}
  (ascends : disassembly.entries.toList.Pairwise fun entry later => entry.address < later.address)

include ascends

theorem eq_of_address_eq {entry other : Entry} (hentry : entry ∈ disassembly.entries)
    (hother : other ∈ disassembly.entries) (h : entry.address = other.address) : entry = other := by
  obtain ⟨index, hindex, rfl⟩ := Array.mem_iff_getElem.mp hentry
  obtain ⟨later, hlater, rfl⟩ := Array.mem_iff_getElem.mp hother
  have hthis := Array.getElem?_eq_getElem hindex
  have hthat := Array.getElem?_eq_getElem hlater
  rcases Nat.lt_trichotomy index later with hlt | rfl | hgt
  · exact absurd h (UInt16.ne_of_lt (address_lt_of_index_lt ascends hlt hthis hthat))
  · rfl
  · exact absurd h.symm (UInt16.ne_of_lt (address_lt_of_index_lt ascends hgt hthat hthis))

theorem entryAt?_eq_some_iff (address : Address) (entry : Entry) :
    disassembly.entryAt? address = some entry ↔
      entry ∈ disassembly.entries ∧ entry.address = address := by
  constructor
  · exact searchEntry_eq_some
  · rintro ⟨hentry, rfl⟩
    rcases hfound : disassembly.entryAt? entry.address with _ | found
    · have hnot := (entryAt?_isNone_iff ascends entry.address).mp (by rw [hfound]; rfl)
      exact absurd rfl (hnot entry hentry)
    · obtain ⟨hmem, haddress⟩ := searchEntry_eq_some hfound
      rw [eq_of_address_eq ascends hmem hentry haddress]

/-- The search finds what a scan from the first entry on finds. -/
theorem entryAt?_eq_find? (address : Address) :
    disassembly.entryAt? address =
      disassembly.entries.find? fun entry => entry.address = address := by
  ext entry
  rw [entryAt?_eq_some_iff ascends]
  constructor
  · rintro ⟨hentry, rfl⟩
    rcases hfound : disassembly.entries.find? _ with _ | found
    · have hnot := Array.find?_eq_none.mp hfound entry hentry
      simp at hnot
    · have haddress := Array.find?_some hfound
      rw [decide_eq_true_iff] at haddress
      rw [eq_of_address_eq ascends (Array.mem_of_find?_eq_some hfound) hentry haddress]
  · intro hfound
    have haddress := Array.find?_some hfound
    exact ⟨Array.mem_of_find?_eq_some hfound, of_decide_eq_true haddress⟩

end Scan

end Disassembly

/-! ## Coverage -/

section Contiguous

variable {start : Nat} {entries : List Entry}

theorem length_flatMap_bytes (entry : Entry) (entries : List Entry) :
    ((entry :: entries).flatMap (·.instruction.bytes)).length =
      entry.instruction.size + (entries.flatMap (·.instruction.bytes)).length := by
  rw [List.flatMap_cons, List.length_append]
  rfl

theorem Contiguous.end_le (h : Contiguous start entries) :
    ∀ entry ∈ entries, entry.address.toNat + entry.instruction.size ≤
      start + (entries.flatMap (·.instruction.bytes)).length := by
  induction entries generalizing start with
  | nil => simp
  | cons head tail ih =>
    intro entry hmem
    rw [length_flatMap_bytes]
    rcases List.mem_cons.mp hmem with rfl | hmem
    · have hstart := h.1
      omega
    · have hlater := ih h.2 entry hmem
      omega

/-- Every place up to the end belongs to an entry. -/
theorem Contiguous.exists_covering {place : Nat} (h : Contiguous start entries)
    (hlow : start ≤ place)
    (hhigh : place < start + (entries.flatMap (·.instruction.bytes)).length) :
    ∃ entry ∈ entries, entry.address.toNat ≤ place ∧
      place < entry.address.toNat + entry.instruction.size := by
  induction entries generalizing start with
  | nil =>
    rw [List.flatMap_nil, List.length_nil] at hhigh
    omega
  | cons head tail ih =>
    by_cases hhead : place < start + head.instruction.size
    · refine ⟨head, List.mem_cons_self, ?_⟩
      have hstart := h.1
      omega
    · rw [length_flatMap_bytes] at hhigh
      obtain ⟨entry, hmem, hcovers⟩ := ih h.2 (by omega) (by omega)
      exact ⟨entry, List.mem_cons_of_mem _ hmem, hcovers⟩

end Contiguous

section Image

variable {image : List UInt8} {origin : Address} {architecture : Architecture}
  (fits : origin.toNat + image.length ≤ addressSpace)

include fits

theorem end_le_of_mem {entry : Entry} (h : entry ∈ (finished image origin architecture).entries) :
    entry.address.toNat + entry.instruction.size ≤ origin.toNat + image.length := by
  have hend := (finished_contiguous architecture fits).end_le entry (Array.mem_toList_iff.mpr h)
  rwa [(finished_covers architecture fits).bytes_eq] at hend

theorem contains_of_mem {entry : Entry}
    (h : entry ∈ (finished image origin architecture).entries) :
    (finished image origin architecture).image.contains entry.address := by
  have hmem := Array.mem_toList_iff.mpr h
  have hstart := (finished_contiguous architecture fits).start_le entry hmem
  have hend := end_le_of_mem fits h
  have hsize := (finished_covers architecture fits).size_bounds entry hmem
  rw [Instruction.size] at hend
  refine contains_iff.mpr ⟨hstart, ?_⟩
  show entry.address.toNat < origin.toNat + image.length
  omega

theorem exists_covering {address : Address}
    (h : (finished image origin architecture).image.contains address) :
    ∃ entry ∈ (finished image origin architecture).entries,
      entry.address.toNat ≤ address.toNat ∧
        address.toNat < entry.address.toNat + entry.instruction.size := by
  obtain ⟨hlow, hhigh⟩ := contains_iff.mp h
  have hend : address.toNat < origin.toNat +
      ((finished image origin architecture).entries.toList.flatMap
        (·.instruction.bytes)).length := by
    rw [(finished_covers architecture fits).bytes_eq]
    exact hhigh
  obtain ⟨entry, hmem, hcovers⟩ :=
    (finished_contiguous architecture fits).exists_covering hlow hend
  exact ⟨entry, Array.mem_toList_iff.mp hmem, hcovers⟩

end Image

/-! ## Queries -/

/-- Whether one of the bytes of an entry stands at an address. -/
def Entry.Holds (entry : Entry) (address : Address) : Prop :=
  entry.address.toNat ≤ address.toNat ∧
    address.toNat < entry.address.toNat + entry.instruction.size

theorem Contiguous.index_eq_of_holds {start : Nat} {entries : List Entry}
    (h : Contiguous start entries) {address : Address} {index other : Nat} {entry otherEntry : Entry}
    (hentry : entries[index]? = some entry) (hother : entries[other]? = some otherEntry)
    (hholds : entry.Holds address) (hotherHolds : otherEntry.Holds address) : index = other := by
  obtain ⟨hindex, rfl⟩ := List.getElem?_eq_some_iff.mp hentry
  obtain ⟨hbound, rfl⟩ := List.getElem?_eq_some_iff.mp hother
  have hapart := List.pairwise_iff_getElem.mp h.pairwise_end_le
  unfold Entry.Holds at hholds hotherHolds
  rcases Nat.lt_trichotomy index other with hlt | rfl | hgt
  · have hend := hapart index other hindex hbound hlt
    omega
  · rfl
  · have hend := hapart other index hbound hindex hgt
    omega

/-- What a disassembly answers about an address, told from its entries. -/
structure Answers (disassembly : Disassembly) (address : Address) : Prop where
  /-- The image holds an address if one of its entries does. -/
  contains_iff : disassembly.image.contains address ↔
    ∃ entry ∈ disassembly.entries, entry.Holds address
  /-- No two entries hold the same address. -/
  holder_unique : ∀ (index other : Nat) (entry otherEntry : Entry),
    disassembly.entries[index]? = some entry → disassembly.entries[other]? = some otherEntry →
      entry.Holds address → otherEntry.Holds address → index = other
  /-- An entry is found if it starts at the address. -/
  entryAt?_iff : ∀ entry, disassembly.entryAt? address = some entry ↔
    entry ∈ disassembly.entries ∧ entry.address = address
  /-- A scan of the entries from the first one on finds the same. -/
  entryAt?_eq : disassembly.entryAt? address =
    disassembly.entries.find? fun entry => entry.address = address

/-- Questions about an address are answered as the entries of the image are laid out. -/
theorem disassemble_answers {image : List UInt8} {origin : Address} {architecture : Architecture}
    {disassembly : Disassembly} (h : disassemble image origin architecture = .ok disassembly)
    (address : Address) : Answers disassembly address := by
  obtain ⟨fits, rfl⟩ := eq_finished_of_disassemble h
  have hascends := (finished_covers architecture fits).ascends
  constructor
  case contains_iff =>
    constructor
    · exact exists_covering fits
    · rintro ⟨entry, hentry, hlow, hhigh⟩
      have hstart := contains_iff.mp (contains_of_mem fits hentry)
      refine contains_iff.mpr ⟨hstart.1.trans hlow, ?_⟩
      exact Nat.lt_of_lt_of_le hhigh (end_le_of_mem fits hentry)
  case holder_unique =>
    intro index other entry otherEntry hentry hother
    rw [← Array.getElem?_toList] at hentry hother
    exact (finished_contiguous architecture fits).index_eq_of_holds hentry hother
  case entryAt?_iff => exact Disassembly.entryAt?_eq_some_iff hascends address
  case entryAt?_eq => exact Disassembly.entryAt?_eq_find? hascends address

/-- A jump at the very end of the address space: its last byte stands at the last address. -/
theorem disassemble_answers_top :
    ∃ disassembly, disassemble [0x00, 0xC3, 0x34, 0x12] 0xFFFC .z80 = .ok disassembly ∧
      disassembly.image.contains 0xFFFF ∧ disassembly.entryAt? 0xFFFF = none ∧
      (disassembly.entryAt? 0xFFFD).map (·.instruction.bytes) = some [0xC3, 0x34, 0x12] ∧
      Answers disassembly 0xFFFF ∧ Answers disassembly 0xFFFD := by
  have h : disassemble [0x00, 0xC3, 0x34, 0x12] 0xFFFC .z80 = .ok _ :=
    disassemble_eq_ok .z80 (by decide)
  exact ⟨_, h, by decide +kernel, by decide +kernel, by decide +kernel,
    disassemble_answers h 0xFFFF, disassemble_answers h 0xFFFD⟩

end Disasm
