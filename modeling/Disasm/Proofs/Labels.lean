import Mathlib.Data.List.Basic
import Disasm.Proofs.Result
import Disasm.Proofs.Text

/-!
# Labels are what the entries refer to

Discovery folds the entries into a map. At one address the fold is the fold of the entries that
refer to it, `referencing` (`getElem?_referenceMap`); its kind is the highest of theirs
(`kind_addAll`), and its sources are their addresses (`sources_addAll`). Both passes leave untouched
what discovery reads, so that the labels of the result can be told from its own entries
(`getElem?_labels_finished`).
-/

namespace Disasm

/-! ## Discovery at one address -/

/-- The entries that refer to an address. -/
def referencing (entries : List Entry) (address : Address) : List Entry :=
  entries.filter fun entry => entry.instruction.destination? = some address

theorem mem_referencing {entries : List Entry} {address : Address} {entry : Entry} :
    entry ∈ referencing entries address ↔
      entry ∈ entries ∧ entry.instruction.destination? = some address := by
  simp [referencing]

/-- Adds the references of entries to what is known about their common target. -/
def References.addAll (references : References) (entries : List Entry) : References :=
  entries.foldl (fun known entry =>
    known.add (.ofMnemonic entry.instruction.mnemonic) entry.address) references

theorem getElem?_add (map : ReferenceMap) (entry : Entry) (address : Address) :
    (map.add entry)[address]? =
      if entry.instruction.destination? = some address then
        some ((map[address]?.getD .empty).addAll [entry])
      else map[address]? := by
  unfold ReferenceMap.add
  rcases entry.instruction.destination? with _ | target
  · rfl
  · simp only [Std.TreeMap.getElem?_alter, Std.compare_eq_iff_eq, Option.some.injEq]
    by_cases h : target = address
    · rw [if_pos h, if_pos h, h]
      rfl
    · rw [if_neg h, if_neg h]

theorem getElem?_foldl_add (entries : List Entry) (map : ReferenceMap) (address : Address) :
    (entries.foldl ReferenceMap.add map)[address]? =
      if referencing entries address = [] then map[address]?
      else some ((map[address]?.getD .empty).addAll (referencing entries address)) := by
  induction entries generalizing map with
  | nil => rfl
  | cons entry entries ih =>
    rw [List.foldl_cons, ih, getElem?_add]
    by_cases href : entry.instruction.destination? = some address
    · have hcons : referencing (entry :: entries) address =
          entry :: referencing entries address := List.filter_cons_of_pos (by simpa using href)
      rw [hcons, if_pos href, if_neg (List.cons_ne_nil _ _)]
      by_cases hnil : referencing entries address = []
      · rw [if_pos hnil, hnil]
      · rw [if_neg hnil]
        rfl
    · have hcons : referencing (entry :: entries) address = referencing entries address :=
        List.filter_cons_of_neg (by simpa using href)
      rw [hcons, if_neg href]

/-- An address is known exactly if some entry refers to it, and then by just those entries. -/
theorem getElem?_referenceMap (entries : List Entry) (address : Address) :
    (ReferenceMap.ofEntries entries)[address]? =
      if referencing entries address = [] then none
      else some (References.empty.addAll (referencing entries address)) := by
  rw [ReferenceMap.ofEntries, getElem?_foldl_add]
  simp

theorem getElem?_labelMap (entries : List Entry) (address : Address) :
    (LabelMap.ofEntries entries)[address]? =
      if referencing entries address = [] then none
      else some ((References.empty.addAll (referencing entries address)).label address) := by
  rw [LabelMap.ofEntries, Std.TreeMap.getElem?_map, getElem?_referenceMap]
  split <;> rfl

/-! ## The dominant kind -/

namespace TargetKind

theorem dominant_assoc (first second third : TargetKind) :
    (first.dominant second).dominant third = first.dominant (second.dominant third) := by
  cases first <;> cases second <;> cases third <;> rfl

/-- The highest of some kinds. -/
def highest (kinds : List TargetKind) : TargetKind :=
  kinds.foldr dominant .location

theorem foldl_dominant (kinds : List TargetKind) (kind : TargetKind) :
    kinds.foldl dominant kind = kind.dominant (highest kinds) := by
  induction kinds generalizing kind with
  | nil => cases kind <;> rfl
  | cons head kinds ih =>
    rw [List.foldl_cons, ih, dominant_assoc]
    rfl

/-- Relative jumps come first, then jumps, then calls. -/
theorem highest_eq (kinds : List TargetKind) :
    highest kinds =
      if .relative ∈ kinds then .relative
      else if .jump ∈ kinds then .jump
      else if .subroutine ∈ kinds then .subroutine
      else .location := by
  induction kinds with
  | nil => rfl
  | cons head kinds ih =>
    rw [highest, List.foldr_cons, ← highest, ih]
    cases head <;> by_cases hrelative : TargetKind.relative ∈ kinds <;>
      by_cases hjump : TargetKind.jump ∈ kinds <;>
      by_cases hsubroutine : TargetKind.subroutine ∈ kinds <;>
      simp [hrelative, hjump, hsubroutine, dominant, rank]

end TargetKind

/-- What an entry makes of its target. -/
def Entry.targetKind (entry : Entry) : TargetKind :=
  .ofReference (.ofMnemonic entry.instruction.mnemonic)

theorem kind_addAll (references : References) (entries : List Entry) :
    (references.addAll entries).kind =
      references.kind.dominant (.highest (entries.map Entry.targetKind)) := by
  rw [← TargetKind.foldl_dominant]
  induction entries generalizing references with
  | nil => rfl
  | cons entry entries ih =>
    rw [List.map_cons, List.foldl_cons]
    exact ih _

/-! ## The sources -/

theorem sources_addAll {references : References} {entries : List Entry}
    (hnew : ∀ entry ∈ entries, entry.address ∉ references.sources.toList)
    (hdistinct : entries.Pairwise fun entry later => entry.address ≠ later.address) :
    (references.addAll entries).sources.toList =
      references.sources.toList ++ entries.map (·.address) := by
  induction entries generalizing references with
  | nil => simp [References.addAll]
  | cons entry entries ih =>
    obtain ⟨hhead, htail⟩ := List.pairwise_cons.mp hdistinct
    have hinsert : (references.add (.ofMnemonic entry.instruction.mnemonic)
        entry.address).sources.toList = references.sources.toList ++ [entry.address] := by
      rw [References.add, AddressSet.toList_insert, if_neg (hnew entry (by simp))]
    have hnext : ∀ later ∈ entries, later.address ∉ (references.add
        (.ofMnemonic entry.instruction.mnemonic) entry.address).sources.toList := by
      intro later hmem
      rw [hinsert, List.mem_append, List.mem_singleton]
      rintro (hold | heq)
      · exact hnew later (by simp [hmem]) hold
      · exact hhead later hmem heq.symm
    calc (references.addAll (entry :: entries)).sources.toList
        = ((references.add (.ofMnemonic entry.instruction.mnemonic) entry.address).addAll
            entries).sources.toList := rfl
      _ = _ := by rw [ih hnext htail, hinsert, List.append_assoc]; rfl

/-! ## Names -/

/-- The letters before the address, by the mnemonics that refer to it. -/
def labelTag (mnemonics : List String) : String :=
  if "JR" ∈ mnemonics ∨ "DJNZ" ∈ mnemonics then "R_"
  else if "JP" ∈ mnemonics then "J_"
  else if "CALL" ∈ mnemonics ∨ "RST" ∈ mnemonics then "S_"
  else "L_"

section Mnemonics

variable {mnemonic : String}

theorem ofMnemonic_eq_relative :
    TargetKind.ofReference (.ofMnemonic mnemonic) = .relative ↔
      mnemonic = "JR" ∨ mnemonic = "DJNZ" := by
  unfold ReferenceKind.ofMnemonic
  split <;> simp_all [TargetKind.ofReference]

theorem ofMnemonic_eq_jump :
    TargetKind.ofReference (.ofMnemonic mnemonic) = .jump ↔ mnemonic = "JP" := by
  unfold ReferenceKind.ofMnemonic
  split <;> simp_all [TargetKind.ofReference]

theorem ofMnemonic_eq_subroutine :
    TargetKind.ofReference (.ofMnemonic mnemonic) = .subroutine ↔
      mnemonic = "CALL" ∨ mnemonic = "RST" := by
  unfold ReferenceKind.ofMnemonic
  split <;> simp_all [TargetKind.ofReference]

end Mnemonics

theorem tag_highest (entries : List Entry) :
    (TargetKind.highest (entries.map Entry.targetKind)).tag =
      labelTag (entries.map (·.instruction.mnemonic)) := by
  have hrelative : .relative ∈ entries.map Entry.targetKind ↔
      "JR" ∈ entries.map (·.instruction.mnemonic) ∨
        "DJNZ" ∈ entries.map (·.instruction.mnemonic) := by
    simp only [List.mem_map, Entry.targetKind, ofMnemonic_eq_relative, and_or_left, exists_or]
  have hjump : .jump ∈ entries.map Entry.targetKind ↔
      "JP" ∈ entries.map (·.instruction.mnemonic) := by
    simp only [List.mem_map, Entry.targetKind, ofMnemonic_eq_jump]
  have hsubroutine : .subroutine ∈ entries.map Entry.targetKind ↔
      "CALL" ∈ entries.map (·.instruction.mnemonic) ∨
        "RST" ∈ entries.map (·.instruction.mnemonic) := by
    simp only [List.mem_map, Entry.targetKind, ofMnemonic_eq_subroutine, and_or_left, exists_or]
  rw [TargetKind.highest_eq, labelTag]
  simp only [hrelative, hjump, hsubroutine]
  split
  · rfl
  · split
    · rfl
    · split <;> rfl

/-- The label of a target, by the entries that refer to it. -/
theorem label_addAll {entries : List Entry} (address : Address)
    (hdistinct : entries.Pairwise fun entry later => entry.address ≠ later.address) :
    (References.empty.addAll entries).label address =
      ⟨labelTag (entries.map (·.instruction.mnemonic)) ++ Hex.word address,
        entries.map (·.address)⟩ := by
  have hkind : (References.empty.addAll entries).kind =
      TargetKind.highest (entries.map Entry.targetKind) := by
    rw [kind_addAll]
    rcases TargetKind.highest (entries.map Entry.targetKind) with _ | _ | _ | _ <;> rfl
  have hsources : (References.empty.addAll entries).sources.toList = entries.map (·.address) := by
    rw [sources_addAll _ hdistinct]
    · rfl
    · intro entry _ hmem
      cases hmem
  rw [References.label, References.name, hkind, tag_highest, hsources]

/-- Tags are as long as each other, so the address can be read off a name. -/
theorem name_inj {left right : TargetKind} {address other : Address}
    (h : left.tag ++ Hex.word address = right.tag ++ Hex.word other) : address = other := by
  have hlist := congrArg String.toList h
  rw [String.toList_append, String.toList_append] at hlist
  have hlength : left.tag.toList.length = right.tag.toList.length := by
    cases left <;> cases right <;> rfl
  exact Hex.word_inj (String.toList_inj.mp (List.append_inj hlist hlength).2)

/-! ## The result -/

/-- The mnemonic in Z80 syntax. -/
def Instruction.z80Name (instruction : Instruction) : String :=
  instruction.z80Mnemonic.getD instruction.mnemonic

theorem z80Name_toIntel {instruction : Instruction} (h : instruction.z80Mnemonic = none) :
    instruction.toIntel.z80Name = instruction.mnemonic := by
  have hsame : instruction.z80Name = instruction.mnemonic := by rw [Instruction.z80Name, h]; rfl
  unfold Instruction.toIntel Instruction.toIntel?
  split
  · exact hsame
  · split
    · exact hsame
    · rfl

/-- Freshly decoded instructions carry no label and no other spelling. -/
theorem Decoded.fresh {architecture : Architecture} {offset : Nat} {bytes : List UInt8}
    {instruction : Instruction} (h : Decoded architecture offset bytes instruction) :
    instruction.targetLabel = none ∧ instruction.z80Mnemonic = none := by
  cases h <;> exact ⟨rfl, rfl⟩

theorem rawEntries_fresh {architecture : Architecture} {origin : Address} {image : List UInt8}
    {entry : Entry} (h : entry ∈ rawEntries architecture origin image) :
    entry.instruction.targetLabel = none ∧ entry.instruction.z80Mnemonic = none := by
  obtain ⟨place, bytes, instruction, hdecoded, rfl⟩ :=
    (swept_rawEntries architecture origin image).exists_decoded entry h
  rw [place_frame]
  exact hdecoded.fresh

section Finish

variable {architecture : Architecture} {labels : LabelMap} {span : Span}

theorem z80Name_finish {entry : Entry} (h : entry.instruction.z80Mnemonic = none) :
    (entry.finish architecture labels span).instruction.z80Name = entry.instruction.mnemonic := by
  unfold Entry.finish
  rw [attach_eq]
  split
  · rw [Instruction.z80Name, h]
    rfl
  · exact z80Name_toIntel h

theorem destination?_finish (entry : Entry) :
    (entry.finish architecture labels span).instruction.destination? =
      entry.instruction.destination? := by
  rw [Instruction.destination?, Instruction.destination?, finish_target]

theorem referencing_map_finish (entries : List Entry) (address : Address) :
    referencing (entries.map (Entry.finish architecture labels span)) address =
      (referencing entries address).map (Entry.finish architecture labels span) := by
  rw [referencing, List.filter_map, referencing]
  congr 2
  funext entry
  simp [destination?_finish]

end Finish

/-- The labels of a disassembly of `length` bytes at `origin`, told from its entries. -/
structure Labelled (origin : Address) (length : Nat) (disassembly : Disassembly) : Prop where
  /-- Labels name the targets. -/
  mem_iff : ∀ address, address ∈ disassembly.labels ↔
    ∃ entry ∈ disassembly.entries, entry.instruction.destination? = some address
  /-- The sources are the entries that refer to the target, in ascending order. -/
  sources_eq : ∀ address label, disassembly.labels[address]? = some label →
    label.sources = (referencing disassembly.entries.toList address).map (·.address) ∧
      label.sources.Pairwise (· < ·)
  /-- The name tells how the target is referred to. -/
  name_eq : ∀ address label, disassembly.labels[address]? = some label →
    label.name =
      labelTag ((referencing disassembly.entries.toList address).map (·.instruction.z80Name)) ++
        Hex.word address
  /-- An entry has the label of its address. -/
  label_eq : ∀ entry ∈ disassembly.entries, entry.label = disassembly.labels[entry.address]?
  /-- An instruction shows the label of its target if that lies in the image. -/
  targetLabel_iff : ∀ entry ∈ disassembly.entries, ∀ name,
    entry.instruction.targetLabel = some name ↔
      ∃ (target : Address) (label : Label), entry.instruction.destination? = some target ∧
        origin.toNat ≤ target.toNat ∧ target.toNat < origin.toNat + length ∧
        disassembly.labels[target]? = some label ∧ label.name = name
  targetLabel_isSome_iff : ∀ entry ∈ disassembly.entries,
    entry.instruction.targetLabel.isSome ↔
      ∃ target, entry.instruction.destination? = some target ∧
        origin.toNat ≤ target.toNat ∧ target.toNat < origin.toNat + length
  /-- No two targets have the same name. -/
  name_inj : ∀ (address other : Address) (label otherLabel : Label),
    disassembly.labels[address]? = some label →
    disassembly.labels[other]? = some otherLabel → label.name = otherLabel.name → address = other

section Proof

variable {image : List UInt8} {origin : Address} {architecture : Architecture}

theorem rawEntries_ascending (fits : origin.toNat + image.length ≤ addressSpace) :
    (rawEntries architecture origin image).Pairwise fun entry later =>
      entry.address < later.address := by
  have hrun := swept_rawEntries architecture origin image
  exact (hrun.contiguous fits).pairwise_lt fun entry hmem => (hrun.size_bounds entry hmem).1

theorem getElem?_labels (fits : origin.toNat + image.length ≤ addressSpace) (address : Address) :
    (LabelMap.ofEntries (rawEntries architecture origin image))[address]? =
      if referencing (rawEntries architecture origin image) address = [] then none
      else some ⟨labelTag ((referencing (rawEntries architecture origin image) address).map
          (·.instruction.mnemonic)) ++ Hex.word address,
        (referencing (rawEntries architecture origin image) address).map (·.address)⟩ := by
  have hdistinct : (referencing (rawEntries architecture origin image) address).Pairwise
      fun entry later => entry.address ≠ later.address :=
    ((rawEntries_ascending fits).sublist List.filter_sublist).imp UInt16.ne_of_lt
  rw [getElem?_labelMap, label_addAll address hdistinct]

theorem referencing_finished (address : Address) :
    referencing (finished image origin architecture).entries.toList address =
      (referencing (rawEntries architecture origin image) address).map
        (Entry.finish architecture (LabelMap.ofEntries (rawEntries architecture origin image))
          ⟨origin, image.length⟩) :=
  referencing_map_finish _ _

/-- A label is known exactly for the targets, and consists of what its sources say. -/
theorem getElem?_labels_finished (fits : origin.toNat + image.length ≤ addressSpace)
    (address : Address) :
    (finished image origin architecture).labels[address]? =
      if referencing (finished image origin architecture).entries.toList address = [] then none
      else some ⟨labelTag ((referencing (finished image origin architecture).entries.toList
          address).map (·.instruction.z80Name)) ++ Hex.word address,
        (referencing (finished image origin architecture).entries.toList address).map
          (·.address)⟩ := by
  have hnames : (referencing (finished image origin architecture).entries.toList address).map
      (·.instruction.z80Name) = (referencing (rawEntries architecture origin image) address).map
        (·.instruction.mnemonic) := by
    rw [referencing_finished, List.map_map]
    refine List.map_congr_left fun entry hmem => ?_
    exact z80Name_finish (rawEntries_fresh (mem_referencing.mp hmem).1).2
  have haddresses : (referencing (finished image origin architecture).entries.toList address).map
      (·.address) = (referencing (rawEntries architecture origin image) address).map
        (·.address) := by
    rw [referencing_finished, List.map_map]
    exact List.map_congr_left fun entry _ => finish_address _ _ _ _
  have hnil : referencing (finished image origin architecture).entries.toList address = [] ↔
      referencing (rawEntries architecture origin image) address = [] := by
    rw [referencing_finished, List.map_eq_nil_iff]
  rw [hnames, haddresses]
  simp only [hnil]
  exact getElem?_labels fits address

theorem targetLabel_finished {entry : Entry}
    (h : entry ∈ (finished image origin architecture).entries) :
    entry.instruction.targetLabel =
      ((entry.instruction.destination?.filter (Span.contains ⟨origin, image.length⟩)).bind
        ((finished image origin architecture).labels[·]?)).map Label.name := by
  obtain ⟨raw, hraw, rfl⟩ := List.mem_map.mp (Array.mem_toList_iff.mpr h)
  rw [finish_targetLabel, (rawEntries_fresh hraw).1, Option.or_none, destination?_finish]
  rfl

theorem contains_iff {span : Span} {address : Address} :
    span.contains address = true ↔
      span.origin.toNat ≤ address.toNat ∧ address.toNat < span.origin.toNat + span.length := by
  simp [Span.contains]

theorem mem_labels_finished (fits : origin.toNat + image.length ≤ addressSpace)
    (address : Address) :
    address ∈ (finished image origin architecture).labels ↔
      ∃ entry ∈ (finished image origin architecture).entries,
        entry.instruction.destination? = some address := by
  rw [Std.TreeMap.mem_iff_isSome_getElem?, getElem?_labels_finished fits]
  constructor
  · intro hsome
    split at hsome
    case isTrue => cases hsome
    case isFalse hne =>
      obtain ⟨entry, hmem⟩ := List.exists_mem_of_ne_nil _ hne
      obtain ⟨hentry, hdestination⟩ := mem_referencing.mp hmem
      exact ⟨entry, Array.mem_toList_iff.mp hentry, hdestination⟩
  · rintro ⟨entry, hentry, hdestination⟩
    have hmem := mem_referencing.mpr ⟨Array.mem_toList_iff.mpr hentry, hdestination⟩
    rw [if_neg (List.ne_nil_of_mem hmem)]
    rfl

theorem label_eq_of_getElem? (fits : origin.toNat + image.length ≤ addressSpace)
    {address : Address} {label : Label}
    (h : (finished image origin architecture).labels[address]? = some label) :
    label = ⟨labelTag ((referencing (finished image origin architecture).entries.toList
        address).map (·.instruction.z80Name)) ++ Hex.word address,
      (referencing (finished image origin architecture).entries.toList address).map
        (·.address)⟩ := by
  rw [getElem?_labels_finished fits] at h
  split at h
  case isTrue => cases h
  case isFalse => exact (Option.some.inj h).symm

theorem sources_ne_nil (fits : origin.toNat + image.length ≤ addressSpace)
    {address : Address} {label : Label}
    (h : (finished image origin architecture).labels[address]? = some label) :
    label.sources ≠ [] := by
  rw [getElem?_labels_finished fits] at h
  split at h
  case isTrue => cases h
  case isFalse hne =>
    obtain rfl := Option.some.inj h
    rwa [Ne, List.map_eq_nil_iff]

theorem label_finished {entry : Entry}
    (h : entry ∈ (finished image origin architecture).entries) :
    entry.label = (finished image origin architecture).labels[entry.address]? := by
  obtain ⟨raw, hraw, rfl⟩ := List.mem_map.mp (Array.mem_toList_iff.mpr h)
  rw [finish_label, finish_address]
  rfl

theorem exists_tag_labelTag (mnemonics : List String) :
    ∃ kind : TargetKind, labelTag mnemonics = kind.tag := by
  unfold labelTag
  split
  · exact ⟨.relative, rfl⟩
  · split
    · exact ⟨.jump, rfl⟩
    · split
      · exact ⟨.subroutine, rfl⟩
      · exact ⟨.location, rfl⟩

theorem name_of_getElem? (fits : origin.toNat + image.length ≤ addressSpace)
    {address : Address} {label : Label}
    (h : (finished image origin architecture).labels[address]? = some label) :
    ∃ kind : TargetKind, label.name = kind.tag ++ Hex.word address := by
  obtain ⟨kind, htag⟩ := exists_tag_labelTag
    ((referencing (finished image origin architecture).entries.toList address).map
      (·.instruction.z80Name))
  refine ⟨kind, ?_⟩
  rw [label_eq_of_getElem? fits h, htag]

theorem targetLabel_eq_some_iff {entry : Entry} {name : String}
    (h : entry ∈ (finished image origin architecture).entries) :
    entry.instruction.targetLabel = some name ↔
      ∃ (target : Address) (label : Label), entry.instruction.destination? = some target ∧
        origin.toNat ≤ target.toNat ∧ target.toNat < origin.toNat + image.length ∧
        (finished image origin architecture).labels[target]? = some label ∧
        label.name = name := by
  rw [targetLabel_finished h]
  simp only [Option.map_eq_some_iff, Option.bind_eq_some_iff, Option.filter_eq_some_iff,
    contains_iff]
  constructor
  · rintro ⟨label, ⟨target, ⟨hdestination, hlow, hhigh⟩, hlabel⟩, hname⟩
    exact ⟨target, label, hdestination, hlow, hhigh, hlabel, hname⟩
  · rintro ⟨target, label, hdestination, hlow, hhigh, hlabel, hname⟩
    exact ⟨label, ⟨target, ⟨hdestination, hlow, hhigh⟩, hlabel⟩, hname⟩

end Proof

/-- The label map of an accepted image is a function of its entries: who refers to an address, from
where and how. -/
theorem disassemble_labelled {image : List UInt8} {origin : Address} {architecture : Architecture}
    {disassembly : Disassembly}
    (h : disassemble image origin architecture = .ok disassembly) :
    Labelled origin image.length disassembly := by
  obtain ⟨fits, rfl⟩ := eq_finished_of_disassemble h
  constructor
  case mem_iff => exact mem_labels_finished fits
  case sources_eq =>
    intro address label hlabel
    rw [label_eq_of_getElem? fits hlabel]
    refine ⟨rfl, List.pairwise_map.mpr ?_⟩
    exact (finished_covers architecture fits).ascends.sublist List.filter_sublist
  case name_eq =>
    intro address label hlabel
    rw [label_eq_of_getElem? fits hlabel]
  case label_eq =>
    intro entry hmem
    obtain ⟨raw, hraw, rfl⟩ := List.mem_map.mp (Array.mem_toList_iff.mpr hmem)
    rw [finish_label, finish_address]
    rfl
  case targetLabel_iff => exact fun entry hmem name => targetLabel_eq_some_iff hmem
  case targetLabel_isSome_iff =>
    intro entry hmem
    rw [Option.isSome_iff_exists]
    constructor
    · rintro ⟨name, hname⟩
      obtain ⟨target, label, hdestination, hlow, hhigh, -⟩ := (targetLabel_eq_some_iff hmem).mp hname
      exact ⟨target, hdestination, hlow, hhigh⟩
    · rintro ⟨target, hdestination, hlow, hhigh⟩
      have hknown := (mem_labels_finished fits target).mpr ⟨entry, hmem, hdestination⟩
      rw [Std.TreeMap.mem_iff_isSome_getElem?, Option.isSome_iff_exists] at hknown
      obtain ⟨label, hlabel⟩ := hknown
      exact ⟨label.name, (targetLabel_eq_some_iff hmem).mpr
        ⟨target, label, hdestination, hlow, hhigh, hlabel, rfl⟩⟩
  case name_inj =>
    intro address other label otherLabel hlabel hother hname
    obtain ⟨kind, hkind⟩ := name_of_getElem? fits hlabel
    obtain ⟨otherKind, hotherKind⟩ := name_of_getElem? fits hother
    rw [hkind, hotherKind] at hname
    exact name_inj hname

/-- Two jumps and a call into one image, the call to a place in the middle of the second jump. -/
theorem disassemble_labelled_mixed :
    ∃ disassembly, disassemble [0xC3, 0x03, 0x01, 0x28, 0xFB, 0xCD, 0x04, 0x01] 0x0100 .i8080 =
        .ok disassembly ∧
      disassembly.labels.toList =
        [(0x0100, ⟨"R_0100", [0x0103]⟩), (0x0103, ⟨"J_0103", [0x0100]⟩),
          (0x0104, ⟨"S_0104", [0x0105]⟩)] ∧
      disassembly.entries.toList.map (fun entry =>
          (entry.label.isSome, entry.instruction.targetLabel)) =
        [(true, some "J_0103"), (true, some "R_0100"), (false, some "S_0104")] ∧
      Labelled 0x0100 8 disassembly := by
  have h : disassemble [0xC3, 0x03, 0x01, 0x28, 0xFB, 0xCD, 0x04, 0x01] 0x0100 .i8080 = .ok _ :=
    disassemble_eq_ok .i8080 (by decide)
  exact ⟨_, h, by decide +kernel, by decide +kernel, disassemble_labelled h⟩

end Disasm
