import Mathlib.Data.List.Induction
import Disasm.Proofs.Operands

/-!
# Discovery does not depend on the order

What is known about a target grows reference by reference. Two things are kept: how the target is
referred to, and from where.

1. The first can be kept as three marks instead of a kind. A reference sets its mark unless a stronger
   one stands, and takes weaker ones away (`Marks.add`). Whatever the order, this comes to the dominant
   kind (`marks_dominant`, `marks_addAll`), so no two marks ever stand together.
2. The second is the list of the sources without later repetitions (`sources_addAll_empty`).

Both hold for entries of any kind, in any order and at any addresses. Who refers to a target is the same
for all orders of the entries, so the name of the target and the set of its sources are the same too.
-/

namespace Disasm

/-! ## Marks -/

/-- How a target is referred to, as three marks. -/
structure Marks where
  relative : Bool := false
  jump : Bool := false
  subroutine : Bool := false
  deriving DecidableEq

namespace Marks

/-- Adds a reference. A stronger mark stays, and a weaker one gives way. -/
def add (marks : Marks) : ReferenceKind → Marks
  | .relative => { marks with relative := true, jump := false, subroutine := false }
  | .jump => if marks.relative then marks else { marks with jump := true, subroutine := false }
  | .call | .restart =>
    if marks.relative || marks.jump then marks else { marks with subroutine := true }
  | .data => marks

def addAll (marks : Marks) (entries : List Entry) : Marks :=
  entries.foldl (fun known entry => known.add (.ofMnemonic entry.instruction.mnemonic)) marks

def count (marks : Marks) : Nat :=
  [marks.relative, marks.jump, marks.subroutine].count true

end Marks

/-- The mark of a kind. A mere location has none. -/
def TargetKind.marks : TargetKind → Marks
  | .location => {}
  | .subroutine => { subroutine := true }
  | .jump => { jump := true }
  | .relative => { relative := true }

theorem count_marks_le (kind : TargetKind) : kind.marks.count ≤ 1 := by
  cases kind <;> decide

/-- One reference does to the marks what it does to the kind. -/
theorem marks_dominant (kind : TargetKind) (reference : ReferenceKind) :
    (kind.dominant (.ofReference reference)).marks = kind.marks.add reference := by
  cases kind <;> cases reference <;> rfl

theorem marks_addAll (references : References) (entries : List Entry) :
    (references.addAll entries).kind.marks = references.kind.marks.addAll entries := by
  induction entries generalizing references with
  | nil => rfl
  | cons entry entries ih =>
    have hstep : (references.add (.ofMnemonic entry.instruction.mnemonic)
        entry.address).kind.marks =
          references.kind.marks.add (.ofMnemonic entry.instruction.mnemonic) := marks_dominant _ _
    unfold Marks.addAll
    rw [List.foldl_cons, ← hstep]
    exact ih _

/-! ## Sources -/

theorem addAll_concat (references : References) (entries : List Entry) (entry : Entry) :
    references.addAll (entries ++ [entry]) =
      (references.addAll entries).add (.ofMnemonic entry.instruction.mnemonic) entry.address := by
  unfold References.addAll
  rw [List.foldl_append]
  rfl

theorem eraseDups_concat (addresses : List Address) (address : Address) :
    (addresses ++ [address]).eraseDups =
      if address ∈ addresses then addresses.eraseDups else addresses.eraseDups ++ [address] := by
  rw [List.eraseDups_append, List.cons_removeAll]
  by_cases hmem : address ∈ addresses
  · simp [List.removeAll, hmem]
  · simp [List.removeAll, hmem, List.eraseDups_cons]

/-- The sources are the addresses of the entries, each where it occurs first. -/
theorem sources_addAll_empty (entries : List Entry) :
    (References.empty.addAll entries).sources.toList = (entries.map (·.address)).eraseDups := by
  -- The last reference is added last, so the induction goes by the end of the list.
  induction entries using List.reverseRecOn with
  | nil => rfl
  | append_singleton entries entry ih =>
    rw [addAll_concat, List.map_append, List.map_singleton, eraseDups_concat]
    refine (AddressSet.toList_insert _ entry.address).trans ?_
    simp only [ih, List.mem_eraseDups]

/-! ## The map -/

/-- What is known about an address that entries refer to. -/
structure Discovered (entries : List Entry) (address : Address) (references : References) :
    Prop where
  /-- The kind says which marks the references leave behind, one after the other. -/
  marks_eq : references.kind.marks = Marks.addAll {} (referencing entries address)
  count_le : references.kind.marks.count ≤ 1
  /-- The letters before the address go by the strongest reference. -/
  tag_eq : references.kind.tag =
    labelTag ((referencing entries address).map (·.instruction.mnemonic))
  /-- The sources stand in the order of their first occurrence. -/
  sources_eq : references.sources.toList =
    ((referencing entries address).map (·.address)).eraseDups

theorem kind_addAll_empty (entries : List Entry) :
    (References.empty.addAll entries).kind = .highest (entries.map Entry.targetKind) := by
  rw [kind_addAll]
  cases TargetKind.highest (entries.map Entry.targetKind) <;> rfl

theorem mem_referenceMap {entries : List Entry} {address : Address} :
    address ∈ ReferenceMap.ofEntries entries ↔
      ∃ entry ∈ entries, entry.instruction.target = some (.absolute address) := by
  rw [Std.TreeMap.mem_iff_isSome_getElem?, getElem?_referenceMap]
  constructor
  · intro hsome
    split at hsome
    case isTrue => cases hsome
    case isFalse hne =>
      obtain ⟨entry, hmem⟩ := List.exists_mem_of_ne_nil _ hne
      obtain ⟨hentry, hdestination⟩ := mem_referencing.mp hmem
      exact ⟨entry, hentry, destination?_eq_some.mp hdestination⟩
  · rintro ⟨entry, hentry, htarget⟩
    have hmem := mem_referencing.mpr ⟨hentry, destination?_eq_some.mpr htarget⟩
    rw [if_neg (List.ne_nil_of_mem hmem)]
    rfl

theorem discovered_of_getElem? {entries : List Entry} {address : Address} {references : References}
    (h : (ReferenceMap.ofEntries entries)[address]? = some references) :
    Discovered entries address references := by
  rw [getElem?_referenceMap] at h
  split at h
  case isTrue => cases h
  case isFalse =>
    obtain rfl := Option.some.inj h
    constructor
    case marks_eq => exact marks_addAll References.empty _
    case count_le => exact count_marks_le _
    case tag_eq => rw [kind_addAll_empty, tag_highest]
    case sources_eq => exact sources_addAll_empty _

/-! ## Other orders -/

theorem labelTag_congr {left right : List String} (h : ∀ mnemonic, mnemonic ∈ left ↔ mnemonic ∈ right) :
    labelTag left = labelTag right := by
  unfold labelTag
  simp only [h]

section Perm

variable {entries others : List Entry} (h : entries.Perm others) {address : Address}

include h

theorem referencing_perm (address : Address) :
    (referencing entries address).Perm (referencing others address) :=
  h.filter _

theorem mem_referenceMap_perm :
    address ∈ ReferenceMap.ofEntries others ↔ address ∈ ReferenceMap.ofEntries entries := by
  rw [mem_referenceMap, mem_referenceMap]
  constructor
  · rintro ⟨entry, hentry, htarget⟩
    exact ⟨entry, h.mem_iff.mpr hentry, htarget⟩
  · rintro ⟨entry, hentry, htarget⟩
    exact ⟨entry, h.mem_iff.mp hentry, htarget⟩

/-- Entries in another order give a target the same name and the same set of sources. -/
theorem Discovered.perm {references other : References} (hthis : Discovered entries address references)
    (hother : Discovered others address other) :
    other.name address = references.name address ∧
      ∀ source, source ∈ other.sources.toList ↔ source ∈ references.sources.toList := by
  have hperm := referencing_perm h address
  constructor
  · have htag : other.kind.tag = references.kind.tag := by
      rw [hother.tag_eq, hthis.tag_eq]
      apply labelTag_congr
      intro mnemonic
      exact (hperm.map _).symm.mem_iff
    unfold References.name
    rw [htag]
  · intro source
    rw [hother.sources_eq, hthis.sources_eq, List.mem_eraseDups, List.mem_eraseDups]
    exact (hperm.map _).symm.mem_iff

end Perm

/-- Whatever the entries are, discovery knows exactly the absolute targets among them. A target is named
after the strongest reference to it, its sources stand in the order of their first occurrence, and the
order of the entries has no part in which targets there are, how they are named or what their sources
are. -/
theorem referenceMap_discovered (entries : List Entry) :
    (∀ address, address ∈ ReferenceMap.ofEntries entries ↔
      ∃ entry ∈ entries, entry.instruction.target = some (.absolute address)) ∧
    (∀ (address : Address) (references : References),
      (ReferenceMap.ofEntries entries)[address]? = some references →
        Discovered entries address references) ∧
    ∀ others, entries.Perm others →
      (∀ address, address ∈ ReferenceMap.ofEntries others ↔
        address ∈ ReferenceMap.ofEntries entries) ∧
      ∀ (address : Address) (references other : References),
        (ReferenceMap.ofEntries entries)[address]? = some references →
        (ReferenceMap.ofEntries others)[address]? = some other →
          other.name address = references.name address ∧
            ∀ source, source ∈ other.sources.toList ↔ source ∈ references.sources.toList := by
  refine ⟨fun address => mem_referenceMap, fun address references => discovered_of_getElem?, ?_⟩
  intro others hperm
  refine ⟨fun address => mem_referenceMap_perm hperm, ?_⟩
  intro address references other hreferences hother
  exact (discovered_of_getElem? hreferences).perm hperm (discovered_of_getElem? hother)

/-- An entry that refers to an address. -/
def Entry.referringTo (target address : Address) (mnemonic : String) : Entry :=
  { address
    instruction := { mnemonic, operands := [.target], bytes := [0], target := some (.absolute target) } }

/-- A call, a relative jump and a jump from the place of the call. In another order the jump comes first;
the relative jump still gives the name. -/
theorem referenceMap_discovered_mixed :
    ∃ references other,
      (ReferenceMap.ofEntries [.referringTo 0x38 5 "CALL", .referringTo 0x38 2 "JR",
        .referringTo 0x38 5 "JP"])[(0x38 : Address)]? = some references ∧
      (ReferenceMap.ofEntries [.referringTo 0x38 5 "JP", .referringTo 0x38 2 "JR",
        .referringTo 0x38 5 "CALL"])[(0x38 : Address)]? = some other ∧
      references.kind.tag = "R_" ∧ references.sources.toList = [5, 2] ∧
      other.name 0x38 = references.name 0x38 := by
  obtain ⟨hmem, hknown, hperm⟩ := referenceMap_discovered [.referringTo 0x38 5 "CALL",
    .referringTo 0x38 2 "JR", .referringTo 0x38 5 "JP"]
  obtain ⟨hkeys, hsame⟩ := hperm [.referringTo 0x38 5 "JP", .referringTo 0x38 2 "JR",
    .referringTo 0x38 5 "CALL"] (by decide)
  have hfirst := (hmem 0x38).mpr ⟨_, List.mem_cons_self, rfl⟩
  have hsecond := (hkeys 0x38).mpr hfirst
  rw [Std.TreeMap.mem_iff_isSome_getElem?, Option.isSome_iff_exists] at hfirst hsecond
  obtain ⟨references, hreferences⟩ := hfirst
  obtain ⟨other, hother⟩ := hsecond
  have hdiscovered := hknown 0x38 references hreferences
  refine ⟨references, other, hreferences, hother, ?_, ?_, ?_⟩
  · exact hdiscovered.tag_eq.trans (by decide)
  · exact hdiscovered.sources_eq.trans (by decide)
  · exact (hsame 0x38 references other hreferences hother).1

end Disasm
