import AdBlock.Rust.Text
import Mathlib.Data.List.AList

/-!
# Folders on a disk that may fail

A directory has folders, and a folder has files.  A write that fails leaves the file as it was or
cut short, and the removal of a folder that fails has taken some of its files.
-/

/-- What the disk does with a write. -/
inductive FileWrite where
  | done
  /-- The file was not opened, or has only so many characters. -/
  | failed (written : Option ℕ) (e : Text)
  deriving DecidableEq, Repr

namespace FileWrite

def answer : FileWrite → Except Text Unit
  | .done => .ok ()
  | .failed _ e => .error e

/-- The file after a write. -/
def file (write : FileWrite) (body : Text) (old : Option Text) : Option Text :=
  match write with
  | .done => some body
  | .failed none _ => old
  | .failed (some n) _ => some (body.take n)

/-- The file is opened, and so is there after the write. -/
def opens : FileWrite → Bool
  | .failed none _ => false
  | _ => true

/-- The file is not the same after the write. -/
def changes (write : FileWrite) (body : Text) (old : Option Text) : Bool :=
  match write with
  | .done => decide (old ≠ some body)
  | .failed none _ => false
  | .failed (some n) _ => decide (old ≠ some (body.take n))

theorem isSome_file_none (write : FileWrite) (body : Text) :
  (write.file body none).isSome = write.opens
  := by
  rcases write with _ | ⟨_ | n, e⟩
  · rfl
  · rfl
  · rfl

theorem isSome_file (write : FileWrite) (body : Text) {old : Option Text} (h : old.isSome = true) :
  (write.file body old).isSome = true
  := by
  rcases write with _ | ⟨_ | n, e⟩
  · rfl
  · exact h
  · rfl

theorem file_eq_iff (write : FileWrite) (body : Text) (old : Option Text) :
  write.file body old = old ↔ write.changes body old = false
  := by
  rcases write with _ | ⟨_ | n, e⟩
  · rw [file, changes, decide_eq_false_iff_not, not_not, eq_comm]
  · exact iff_of_true rfl rfl
  · rw [file, changes, decide_eq_false_iff_not, not_not, eq_comm]

theorem eq_done_of_answer {write : FileWrite} (h : write.answer = .ok ()) :
  write = .done
  := by
  cases write with
  | done => rfl
  | failed written e => cases h

end FileWrite

/-- The files of a folder. -/
abbrev Folder (ν : Type) :=
  ν → Option Text

/-- What the disk does with the removal of a folder. -/
inductive FolderRemoval (ν : Type) where
  | done
  /-- Some of the files were taken. -/
  | failed (taken : ν → Bool) (e : Text)

namespace FolderRemoval

variable {ν : Type}

/-- What is left of a folder. -/
def left : FolderRemoval ν → Folder ν → Option (Folder ν)
  | .done, _ => none
  | .failed taken _, folder => some fun file => if taken file then none else folder file

/-- A file is taken. -/
def takes : FolderRemoval ν → ν → Bool
  | .done, _ => true
  | .failed taken _, file => taken file

end FolderRemoval

/-- A directory of folders. -/
abbrev Folders (ν : Type) :=
  AList fun _ : Text => Folder ν

namespace Folders

variable {ν : Type} {folders : Folders ν} {name other : Text}

/-- The directory with another folder under a name, or none. -/
def set (folders : Folders ν) (name : Text) : Option (Folder ν) → Folders ν
  | none => folders.erase name
  | some folder => folders.insert name folder

theorem lookup_set_self (folders : Folders ν) (name : Text) (folder : Option (Folder ν)) :
  (set folders name folder).lookup name = folder
  := by
  cases folder with
  | none => exact AList.lookup_erase name folders
  | some folder => exact AList.lookup_insert folders

theorem lookup_set_ne (folders : Folders ν) (h : other ≠ name) (folder : Option (Folder ν)) :
  (set folders name folder).lookup other = folders.lookup other
  := by
  cases folder with
  | none => exact AList.lookup_erase_ne h
  | some folder => exact AList.lookup_insert_ne h

/-- A file is in a folder. -/
def has (folders : Folders ν) (name : Text) (file : ν) : Bool :=
  ((folders.lookup name).bind (· file)).isSome

/-- The names of the folders that have a file. -/
def named (folders : Folders ν) (file : ν) : List Text :=
  (folders.entries.filter fun folder => (folder.2 file).isSome).map Sigma.fst

theorem nodup_named (folders : Folders ν) (file : ν) :
  (named folders file).Nodup
  := folders.keys_nodup.sublist (List.filter_sublist.map Sigma.fst)

theorem mem_named {file : ν} :
  name ∈ named folders file ↔ has folders name file = true
  := by
  rw [named, List.mem_map, has, Option.isSome_iff_exists]
  constructor
  · rintro ⟨⟨_, folder⟩, hmem, rfl⟩
    obtain ⟨hentry, hfile⟩ := List.mem_filter.mp hmem
    obtain ⟨content, hcontent⟩ := Option.isSome_iff_exists.mp hfile
    exact ⟨content, Option.bind_eq_some_iff.mpr
      ⟨folder, AList.mem_lookup_iff.mpr hentry, hcontent⟩⟩
  · rintro ⟨content, hcontent⟩
    obtain ⟨folder, hlookup, hfile⟩ := Option.bind_eq_some_iff.mp hcontent
    refine ⟨⟨name, folder⟩, List.mem_filter.mpr ⟨AList.mem_lookup_iff.mp hlookup, ?_⟩, rfl⟩
    exact Option.isSome_iff_exists.mpr ⟨content, hfile⟩

end Folders
