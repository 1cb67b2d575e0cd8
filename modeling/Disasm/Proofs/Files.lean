import Mathlib.Data.List.Basic
import Disasm.Store

/-!
# A store is a lawful system

1. Following a path passes through directories only, so all directories on the way to a file exist
   before it is written (`exists_parent_of_follow`).
2. Hence writing a file makes no directory, and every path leads where it led before
   (`locate?_insert`), also one that goes up and down again.
3. So a path shows the new contents exactly if it leads to the file that was written
   (`overwrites_insert`), which is what a run expects of the system it runs on (`lawful_system`).
-/

namespace Disasm.Store

variable {store : Store} {name : List String} {contents : List UInt8}

/-! ## Contents -/

theorem lookup_filter_ne (files : List (List String × List UInt8)) {other : List String}
    (h : other ≠ name) :
    (files.filter fun (file, _) => file ≠ name).lookup other = files.lookup other := by
  induction files with
  | nil => rfl
  | cons head files ih =>
    obtain ⟨file, bytes⟩ := head
    by_cases hfile : file = name
    · have hother : (other == file) = false := beq_false_of_ne (hfile ▸ h)
      rw [List.filter_cons_of_neg (by simpa using hfile), ih, List.lookup_cons, hother]
    · rw [List.filter_cons_of_pos (by simpa using hfile), List.lookup_cons, List.lookup_cons, ih]

theorem lookup_insert (store : Store) (name other : List String) (contents : List UInt8) :
    (store.insert name contents).files.lookup other =
      if name = other then some contents else store.files.lookup other := by
  unfold insert
  rw [List.lookup_cons]
  by_cases h : name = other
  · rw [if_pos h, beq_iff_eq.mpr h.symm]
  · rw [if_neg h, beq_false_of_ne (Ne.symm h)]
    exact lookup_filter_ne store.files (Ne.symm h)

/-! ## Directories -/

theorem isDirectory_iff {directory : List String} :
    store.isDirectory directory ↔
      (directory = [] ∨ ∃ other ∈ store.workingDirectory :: store.directories, directory <+: other) ∨
        ∃ file ∈ store.files, directory <+: file.1 ∧ directory ≠ file.1 := by
  simp [isDirectory, List.isPrefixOf_iff_prefix]

/-- A file that is written adds the directories on the way to it. -/
theorem isDirectory_insert {directory : List String} :
    (store.insert name contents).isDirectory directory ↔
      (directory <+: name ∧ directory ≠ name) ∨ store.isDirectory directory := by
  simp only [isDirectory_iff, insert, List.mem_cons, List.mem_filter]
  constructor
  · rintro (h | ⟨file, rfl | ⟨hfile, -⟩, h⟩)
    · exact .inr (.inl h)
    · exact .inl h
    · exact .inr (.inr ⟨file, hfile, h⟩)
  · rintro (h | h | ⟨file, hfile, h⟩)
    · exact .inr ⟨_, .inl rfl, h⟩
    · exact .inl h
    · -- A file that is replaced leaves its directories to the new one.
      by_cases hname : file.1 = name
      · exact .inr ⟨(name, contents), .inl rfl, hname ▸ h⟩
      · exact .inr ⟨file, .inr ⟨hfile, by simpa using hname⟩, h⟩

/-- The directory and all those above it exist. -/
def Stands (store : Store) (directory : List String) : Prop :=
  ∀ front, front <+: directory → store.isDirectory front

theorem stands_start (store : Store) (path : String) : store.Stands (store.start path) := by
  intro front hfront
  rw [isDirectory_iff]
  unfold start at hfront
  split at hfront
  case isTrue => exact .inl (.inl (List.prefix_nil.mp hfront))
  case isFalse => exact .inl (.inr ⟨_, List.mem_cons_self, hfront⟩)

section Stands

variable {directory : List String} (h : store.Stands directory)

include h

theorem Stands.dropLast : store.Stands directory.dropLast := fun front hfront =>
  h front (hfront.trans (List.dropLast_prefix directory))

theorem Stands.concat {part : String} (hpart : store.isDirectory (directory ++ [part])) :
    store.Stands (directory ++ [part]) := by
  intro front hfront
  rcases List.prefix_concat_iff.mp hfront with rfl | habove
  · exact hpart
  · exact h front habove

/-- A path that starts in a directory which stands leads to a file in such a directory. -/
theorem exists_parent_of_follow {parts : List String}
    (hname : store.follow directory parts = some name) :
    ∃ parent part, name = parent ++ [part] ∧ store.Stands parent := by
  -- The directory stands after every part: staying, leaving and entering keep that.
  fun_induction store.follow directory parts with
  | case3 directory part => exact ⟨directory, part, (Option.some.inj hname).symm, h⟩
  | case4 directory part rest _ _ ih => exact ih h hname
  | case5 directory rest _ _ ih => exact ih h.dropLast hname
  | case6 directory part rest _ _ _ hpart ih => exact ih (h.concat hpart) hname
  | _ => cases hname

end Stands

/-! ## Paths -/

/-- Where a path leads depends on the directories alone. -/
theorem follow_congr {before after : Store}
    (h : ∀ directory part, after.isDirectory (directory ++ [part]) =
      before.isDirectory (directory ++ [part])) (directory parts : List String) :
    after.follow directory parts = before.follow directory parts := by
  induction parts generalizing directory with
  | nil => rfl
  | cons part rest ih =>
    cases rest with
    | nil => rfl -- The last part asks for no directory.
    | cons next rest => simp only [follow, h, ih]

section Located

variable {path : String} (h : store.locate? path = some name)

include h

theorem exists_parent_of_locate? :
    ∃ parent part, name = parent ++ [part] ∧ store.Stands parent := by
  unfold locate? at h
  split at h
  case isTrue => exact exists_parent_of_follow (store.stands_start path) h
  case isFalse => cases h

/-- A file is written into directories that are there. -/
theorem isDirectory_insert_of_locate? (directory : List String) (part : String) :
    (store.insert name contents).isDirectory (directory ++ [part]) =
      store.isDirectory (directory ++ [part]) := by
  obtain ⟨parent, last, rfl, hparent⟩ := exists_parent_of_locate? h
  rw [Bool.eq_iff_iff, isDirectory_insert]
  refine or_iff_right_of_imp fun ⟨hfront, hne⟩ => ?_
  exact hparent _ ((List.prefix_concat_iff.mp hfront).resolve_left hne)

/-- Paths lead where they led before. -/
theorem locate?_insert (other : String) :
    (store.insert name contents).locate? other = store.locate? other := by
  unfold locate?
  rw [follow_congr (isDirectory_insert_of_locate? h)]
  rfl

end Located

/-! ## Systems -/

/-- The files of a store are what its names stand for. -/
def view : FileView Store (List String) where
  file? := locate?
  contents store name := store.files.lookup name

theorem overwrites_insert {path : String} (h : store.locate? path = some name) :
    view.Overwrites store path contents (store.insert name contents) where
  holds := ⟨name, (locate?_insert h path).trans h, by simp [view, lookup_insert]⟩
  paths other file hfile := (locate?_insert h other).trans hfile
  others file hfile := by
    have hne : name ≠ file := by
      rintro rfl
      exact hfile ((locate?_insert h path).trans h)
    simp only [view, lookup_insert, if_neg hne]

theorem exists_name_of_write? {path : String} {after : Store}
    (h : store.write? path contents = some after) :
    ∃ name, store.locate? path = some name ∧ after = store.insert name contents := by
  unfold write? at h
  split at h
  case h_1 => cases h
  case h_2 name hname =>
    split at h
    case isTrue => cases h
    case isFalse => exact ⟨name, hname, (Option.some.inj h).symm⟩

theorem lawful_system : system.Lawful view where
  read_holds store path bytes h := by
    obtain ⟨name, hname, hbytes⟩ := Option.bind_eq_some_iff.mp h
    exact ⟨name, hname, hbytes⟩
  write_overwrites store path bytes after h := by
    simp only [system] at h
    split at h
    case h_1 => cases h
    case h_2 written hwritten =>
      obtain ⟨name, hname, rfl⟩ := exists_name_of_write? hwritten
      obtain rfl : store.insert name bytes = after := (Prod.mk.inj h).2
      exact overwrites_insert hname
  print_whole store text printed h := (Prod.mk.inj h).2.symm

end Disasm.Store
