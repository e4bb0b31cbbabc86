import AdBlock.Rust.Bytes
import Mathlib.Logic.Function.Basic
import Mathlib.Tactic.SplitIfs

/-!
# The files of a directory

A name leads to a file, which is a number with a content, and a file that was opened is written
through its number, whatever name leads to it by then.  No file has two names.  `Same name` says
that a step leaves a name and the content of its file alone.
-/

/-- No two names lead to one file. -/
def OneName {ν : Type} (entry : ν → Option ℕ) : Prop :=
  ∀ ⦃name name' i⦄, entry name = some i → entry name' = some i → name = name'

section Entries

variable {ν : Type} [DecidableEq ν] {entry : ν → Option ℕ}

theorem OneName.erase (h : OneName entry) (name : ν) :
  OneName (Function.update entry name none)
  := by
  intro a b i ha hb
  rw [Function.update_apply] at ha hb
  split_ifs at ha hb
  exact h ha hb

/-- A file without a name gets one. -/
theorem OneName.insert (h : OneName entry) (name : ν) {i : ℕ} (hfree : ∀ n, entry n ≠ some i) :
  OneName (Function.update entry name (some i))
  := by
  intro a b j ha hb
  rw [Function.update_apply] at ha hb
  split_ifs at ha hb with hna hnb hnb
  · rw [hna, hnb]
  · exact absurd (hb.trans ha.symm) (hfree b)
  · exact absurd (ha.trans hb.symm) (hfree a)
  · exact h ha hb

end Entries

/-- The names in a directory and the files they lead to. -/
structure Disk (ν : Type) where
  entry : ν → Option ℕ
  content : ℕ → Bytes
  /-- The number of the next new file. -/
  fresh : ℕ
  entry_lt : ∀ ⦃name i⦄, entry name = some i → i < fresh
  oneName : OneName entry

namespace Disk

variable {ν : Type}

/-- The content of the file under a name. -/
def read (d : Disk ν) (name : ν) : Option Bytes :=
  (d.entry name).map d.content

/-- The content of a file is replaced. -/
def put (d : Disk ν) (i : ℕ) (bytes : Bytes) : Disk ν :=
  { d with content := Function.update d.content i bytes }

/-- Bytes written into a content from an offset on. -/
def overwrite (bytes : Bytes) (offset : ℕ) (chunk : Bytes) : Bytes :=
  bytes.take offset ++ List.replicate (offset - bytes.length) 0 ++ chunk
    ++ bytes.drop (offset + chunk.length)

/-- Write into an open file. -/
def write (d : Disk ν) (i offset : ℕ) (chunk : Bytes) : Disk ν :=
  d.put i (overwrite (d.content i) offset chunk)

theorem content_write (d : Disk ν) (i offset : ℕ) (chunk : Bytes) :
  (d.write i offset chunk).content i = overwrite (d.content i) offset chunk
  := Function.update_self _ _ _

/-- Writing on, where the file ends. -/
theorem overwrite_take {bytes : Bytes} {offset : ℕ} (h : offset ≤ bytes.length) (n : ℕ) :
  overwrite (bytes.take offset) offset ((bytes.drop offset).take n) = bytes.take (offset + n)
  := by
  have hlength : (bytes.take offset).length = offset := List.length_take_of_le h
  have hdrop : (bytes.take offset).drop (offset + ((bytes.drop offset).take n).length) = [] := by
    apply List.drop_eq_nil_of_le
    rw [hlength]
    apply Nat.le_add_right
  rw [overwrite, hdrop, hlength, Nat.sub_self, List.take_take, min_self, List.replicate_zero,
    List.append_nil, List.append_nil, List.take_add]

/-- A step leaves a name and the content of its file. -/
structure Same (name : ν) (d d' : Disk ν) : Prop where
  entry : d'.entry name = d.entry name
  content : ∀ i, d.entry name = some i → d'.content i = d.content i

variable {d d' : Disk ν} {name old new : ν} {i : ℕ}

theorem Same.refl (name : ν) (d : Disk ν) :
  Same name d d
  := ⟨rfl, fun _ _ => rfl⟩

theorem Same.read (h : Same name d d') :
  d'.read name = d.read name
  := by
  rw [Disk.read, Disk.read, h.entry]
  cases hentry : d.entry name with
  | none => rfl
  | some i => exact congrArg some (h.content i hentry)

/-- Writing to the file of a name leaves the other names. -/
theorem same_put (h : d.entry old = some i) (hne : name ≠ old) (bytes : Bytes) :
  Same name d (d.put i bytes)
  := by
  refine ⟨rfl, fun j hj => Function.update_of_ne ?_ _ _⟩
  rintro rfl
  exact hne (d.oneName hj h)

/-! ### Changes of the names -/

variable [DecidableEq ν]

/-- A new empty file under a name. -/
def add (d : Disk ν) (name : ν) : Disk ν where
  entry := Function.update d.entry name (some d.fresh)
  content := Function.update d.content d.fresh []
  fresh := d.fresh + 1
  entry_lt := by
    intro n i h
    rw [Function.update_apply] at h
    split_ifs at h
    · cases h
      exact Nat.lt_succ_self _
    · exact Nat.lt_succ_of_lt (d.entry_lt h)
  oneName := d.oneName.insert name fun _ h => absurd (d.entry_lt h) (lt_irrefl _)

/-- Open a file for writing, as an empty one.  Gives its number. -/
def create (d : Disk ν) (name : ν) : ℕ × Disk ν :=
  match d.entry name with
  | some i => (i, d.put i [])
  | none => (d.fresh, d.add name)

/-- Take a name away. -/
def remove (d : Disk ν) (name : ν) : Disk ν :=
  { d with
    entry := Function.update d.entry name none
    entry_lt := by
      intro n i h
      rw [Function.update_apply] at h
      split_ifs at h
      exact d.entry_lt h
    oneName := d.oneName.erase name }

/-- Move a file to another name, in place of the file that had it. -/
def move (d : Disk ν) (old new : ν) {i : ℕ} (h : d.entry old = some i) : Disk ν :=
  { d with
    entry := Function.update (Function.update d.entry old none) new (some i)
    entry_lt := by
      intro n j hn
      rw [Function.update_apply, Function.update_apply] at hn
      split_ifs at hn
      · cases hn
        exact d.entry_lt h
      · exact d.entry_lt hn
    oneName := by
      apply (d.oneName.erase old).insert
      intro n hn
      rw [Function.update_apply] at hn
      split_ifs at hn with hne
      exact hne (d.oneName hn h) }

/-- `rename`, which fails when there is no file under the old name. -/
def rename (d : Disk ν) (old new : ν) : Bool × Disk ν :=
  match h : d.entry old with
  | none => (false, d)
  | some _ => (true, d.move old new h)

theorem same_create (hne : name ≠ old) :
  Same name d (d.create old).2
  := by
  unfold create
  split
  · next i h => exact same_put h hne []
  · refine ⟨Function.update_of_ne hne _ _, fun j hj => Function.update_of_ne ?_ _ _⟩
    exact Nat.ne_of_lt (d.entry_lt hj)

theorem same_remove (hne : name ≠ old) :
  Same name d (d.remove old)
  := ⟨Function.update_of_ne hne _ _, fun _ _ => rfl⟩

theorem same_rename (hold : name ≠ old) (hnew : name ≠ new) :
  Same name d (d.rename old new).2
  := by
  unfold rename
  split
  · apply Same.refl
  · refine ⟨?_, fun _ _ => rfl⟩
    exact (Function.update_of_ne hnew _ _).trans (Function.update_of_ne hold _ _)

theorem entry_create (d : Disk ν) (name : ν) :
  (d.create name).2.entry name = some (d.create name).1
  := by
  unfold create
  split
  · next i h => exact h
  · exact Function.update_self _ _ _

theorem content_create (d : Disk ν) (name : ν) :
  (d.create name).2.content (d.create name).1 = []
  := by
  unfold create
  split
  · exact Function.update_self _ _ _
  · exact Function.update_self _ _ _

/-- A file that is there is opened again. -/
theorem create_of_entry (h : d.entry name = some i) :
  d.create name = (i, d.put i [])
  := by
  rw [create, h]

theorem rename_of_entry (h : d.entry old = some i) (new : ν) :
  d.rename old new = (true, d.move old new h)
  := by
  unfold rename
  split
  · next hnone =>
    rw [h] at hnone
    cases hnone
  · next j hj =>
    obtain rfl := Option.some_injective _ (h.symm.trans hj)
    rfl

/-- A file that is moved is read under the new name. -/
theorem entry_move (h : d.entry old = some i) (new : ν) :
  (d.move old new h).entry new = some i
  := Function.update_self _ _ _

end Disk
