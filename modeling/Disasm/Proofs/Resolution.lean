import Mathlib.Data.List.Forall2
import Disasm.Proofs.Operands

/-!
# Resolution touches labels only

The second pass writes nothing that the first one reads.

1. Discovery reads of an entry where it stands, by which mnemonic it refers and to which address.
   Entries that agree in these give the same labels (`labelMap_congr`).
2. Attaching labels keeps all three (`refersAlike_attach`), so resolved entries give the labels that
   they were resolved with.
3. A label that was attached once is attached again without effect (`attach_attach`).

The entries may stand anywhere, in any order and repeatedly, and may carry labels from before.
-/

namespace Disasm

/-! ## What discovery reads -/

/-- Entries at one address that refer to one target in one way. -/
structure RefersAlike (entry other : Entry) : Prop where
  address_eq : other.address = entry.address
  mnemonic_eq : other.instruction.mnemonic = entry.instruction.mnemonic
  destination_eq : other.instruction.destination? = entry.instruction.destination?

theorem RefersAlike.add_eq {entry other : Entry} (h : RefersAlike entry other)
    (map : ReferenceMap) : map.add other = map.add entry := by
  unfold ReferenceMap.add
  rw [h.address_eq, h.mnemonic_eq, h.destination_eq]

theorem foldl_add_congr {entries others : List Entry} (h : List.Forall₂ RefersAlike entries others)
    (map : ReferenceMap) :
    others.foldl ReferenceMap.add map = entries.foldl ReferenceMap.add map := by
  induction h generalizing map with
  | nil => rfl
  | cons hstep htail ih => rw [List.foldl_cons, List.foldl_cons, hstep.add_eq, ih]

theorem labelMap_congr {entries others : List Entry}
    (h : List.Forall₂ RefersAlike entries others) :
    LabelMap.ofEntries others = LabelMap.ofEntries entries := by
  unfold LabelMap.ofEntries ReferenceMap.ofEntries
  rw [foldl_add_congr h]

/-! ## One entry -/

section Attach

variable (labels : LabelMap) (image : Span) (entry : Entry)

theorem refersAlike_attach : RefersAlike entry (entry.attach labels image) := by
  rw [attach_eq]
  exact ⟨rfl, rfl, rfl⟩

theorem targetLabel?_attach :
    (entry.attach labels image).targetLabel? labels image = entry.targetLabel? labels image := by
  unfold Entry.targetLabel?
  rw [(refersAlike_attach labels image entry).destination_eq]

theorem attach_attach :
    (entry.attach labels image).attach labels image = entry.attach labels image := by
  rw [attach_eq labels image (entry.attach labels image), targetLabel?_attach, attach_eq]
  simp only [← Option.or_assoc, Option.or_self]

end Attach

section Target

variable {labels : LabelMap} {image : Span} {entry : Entry}

/-- A target in the image is named, if it has a label. -/
theorem targetLabel?_of_contains {target : Address}
    (htarget : entry.instruction.destination? = some target) (hinside : image.contains target) :
    entry.targetLabel? labels image = labels[target]? := by
  unfold Entry.targetLabel?
  rw [htarget, Option.filter_some_pos hinside, Option.bind_some]

theorem targetLabel?_eq_none
    (h : ∀ target, entry.instruction.destination? = some target → image.contains target = false) :
    entry.targetLabel? labels image = none := by
  unfold Entry.targetLabel?
  rcases hdestination : entry.instruction.destination? with _ | target
  · rfl
  · rw [Option.filter_some_neg (by simp [h target hdestination]), Option.bind_none]

end Target

theorem exists_label_of_mem {entries : List Entry} {entry : Entry} {target : Address}
    (hentry : entry ∈ entries) (htarget : entry.instruction.destination? = some target) :
    ∃ label, (LabelMap.ofEntries entries)[target]? = some label := by
  have hmem := mem_referencing.mpr ⟨hentry, htarget⟩
  rw [getElem?_labelMap, if_neg (List.ne_nil_of_mem hmem)]
  exact ⟨_, rfl⟩

/-! ## All entries -/

/-- What resolution with some labels makes of an entry, in an image of `length` bytes at `origin`. -/
structure Resolves (origin : Address) (length : Nat) (labels : LabelMap) (entry resolved : Entry) :
    Prop where
  /-- Nothing but the two labels differs. -/
  frame : resolved =
    { entry with
      instruction :=
        { entry.instruction with targetLabel := resolved.instruction.targetLabel }
      label := resolved.label }
  /-- The entry has the label of its address. -/
  label_eq : resolved.label = labels[entry.address]?
  /-- A target in the image is shown by its label, whatever it was shown by before. -/
  targetLabel_inside : ∀ target, entry.instruction.target = some (.absolute target) →
    origin.toNat ≤ target.toNat → target.toNat < origin.toNat + length →
      ∃ label, labels[target]? = some label ∧
        resolved.instruction.targetLabel = some label.name
  /-- Without a target in the image, the instruction shows what it showed before. -/
  targetLabel_outside :
    (¬ ∃ target, entry.instruction.target = some (.absolute target) ∧
      origin.toNat ≤ target.toNat ∧ target.toNat < origin.toNat + length) →
      resolved.instruction.targetLabel = entry.instruction.targetLabel

theorem resolves_attach {origin : Address} {length : Nat} {entries : List Entry} {entry : Entry}
    (hentry : entry ∈ entries) :
    Resolves origin length (LabelMap.ofEntries entries) entry
      (entry.attach (LabelMap.ofEntries entries) ⟨origin, length⟩) := by
  rw [attach_eq]
  constructor
  case frame => rfl
  case label_eq => rfl
  case targetLabel_inside =>
    intro target htarget hlow hhigh
    have hdestination := destination?_eq_some.mpr htarget
    obtain ⟨label, hlabel⟩ := exists_label_of_mem hentry hdestination
    refine ⟨label, hlabel, ?_⟩
    dsimp only
    rw [targetLabel?_of_contains hdestination (contains_iff.mpr ⟨hlow, hhigh⟩), hlabel,
      Option.map_some, Option.some_or]
  case targetLabel_outside =>
    intro hnowhere
    dsimp only
    rw [targetLabel?_eq_none, Option.map_none, Option.none_or]
    intro target hdestination
    refine Bool.eq_false_iff.mpr fun hinside => hnowhere ?_
    exact ⟨target, destination?_eq_some.mp hdestination, contains_iff.mp hinside⟩

/-- Whatever the entries are, resolution changes nothing but their labels, one entry after the other,
and resolving the result once more changes nothing at all. -/
theorem resolve_stable (origin : Address) (length : Nat) (entries : List Entry) :
    List.Forall₂ (Resolves origin length (resolve ⟨origin, length⟩ entries).2) entries
        (resolve ⟨origin, length⟩ entries).1 ∧
      resolve ⟨origin, length⟩ (resolve ⟨origin, length⟩ entries).1 =
        resolve ⟨origin, length⟩ entries := by
  unfold resolve
  dsimp only
  have hlabels : LabelMap.ofEntries
      (entries.map (Entry.attach (LabelMap.ofEntries entries) ⟨origin, length⟩)) =
        LabelMap.ofEntries entries := by
    apply labelMap_congr
    rw [List.forall₂_map_right_iff, List.forall₂_same]
    exact fun entry _ => refersAlike_attach _ _ entry
  constructor
  · rw [List.forall₂_map_right_iff, List.forall₂_same]
    exact fun entry hentry => resolves_attach hentry
  · rw [hlabels, List.map_map]
    congr 1
    apply List.map_congr_left
    exact fun entry _ => attach_attach _ _ entry

/-- A label from before stays as long as the target is behind the end of the image. -/
example :
    let instruction : Instruction :=
      { mnemonic := "JP", operands := [.target], bytes := [0xC3, 0x20, 0x00],
        target := some (.absolute 0x20), targetLabel := some "OLD" }
    let jump : Entry := { address := 0x10, instruction }
    (resolve ⟨0x10, 0x10⟩ [jump]).1.map (·.instruction.targetLabel) = [some "OLD"] ∧
      (resolve ⟨0x10, 0x11⟩ [jump]).1.map (·.instruction.targetLabel) = [some "J_0020"] := by
  decide +kernel

end Disasm
