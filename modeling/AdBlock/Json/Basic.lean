import AdBlock.Rust.Text
import Mathlib.Algebra.Group.Int.Defs
import Mathlib.Data.Int.Notation
import Mathlib.Data.List.Nodup

/-!
# JSON values

A JSON document as a tree.  An object is the list of its fields as they are written, and looking
a key up finds the last field with that key.  Integers are those of 64 bits, any other number is
kept as it is written.
-/

/-- A JSON document. -/
inductive Json where
  | null
  | bool (b : Bool)
  | int (n : ℤ)
  | float (literal : Text)
  | str (s : Text)
  | arr (items : List Json)
  | obj (fields : List (Text × Json))
  deriving Repr

namespace Json

/-- Induction over a document: a property holds of an array if it holds of its items, and of an
object if it holds of the values of its fields. -/
@[elab_as_elim, induction_eliminator]
theorem induction {P : Json → Prop} (null : P .null) (bool : ∀ b, P (.bool b))
    (int : ∀ n, P (.int n)) (float : ∀ literal, P (.float literal)) (str : ∀ s, P (.str s))
    (arr : ∀ items, (∀ v ∈ items, P v) → P (.arr items))
    (obj : ∀ fields, (∀ f ∈ fields, P f.2) → P (.obj fields)) (v : Json) :
  P v
  := by
  apply @Json.rec P (fun items => ∀ v ∈ items, P v) (fun fields => ∀ f ∈ fields, P f.2)
    (fun f => P f.2) null bool int float str arr obj
  · simp
  · intro v items hv hitems
    exact List.forall_mem_cons.mpr ⟨hv, hitems⟩
  · simp
  · intro f fields hf hfields
    exact List.forall_mem_cons.mpr ⟨hf, hfields⟩
  · intro key v hv
    exact hv

/-! ### Reading a document -/

/-- The value of a key of an object.  When a key is written twice, the last field counts. -/
def get (v : Json) (key : Text) : Option Json :=
  match v with
  | .obj fields => (fields.reverse.find? fun f => f.1 = key).map Prod.snd
  | _ => none

def asStr : Json → Option Text
  | .str s => some s
  | _ => none

def asBool : Json → Option Bool
  | .bool b => some b
  | _ => none

def asU64 : Json → Option ℕ
  | .int n => if 0 ≤ n ∧ n < 2 ^ 64 then some n.toNat else none
  | _ => none

theorem asU64_natCast {n : ℕ} (h : n < 2 ^ 64) :
  asU64 (.int n) = some n
  := by
  rw [asU64, if_pos ⟨by omega, by exact_mod_cast h⟩, Int.toNat_natCast]

/-- When the keys of an object are different, each is looked up as it is written. -/
theorem get_obj {fields : List (Text × Json)} (h : (fields.map Prod.fst).Nodup) {key : Text}
    {v : Json} (hmem : (key, v) ∈ fields) :
  (Json.obj fields).get key = some v
  := by
  rw [get]
  cases hfind : fields.reverse.find? (fun f => f.1 = key) with
  | none =>
    rw [List.find?_eq_none] at hfind
    exact absurd (decide_eq_true rfl) (hfind _ (List.mem_reverse.mpr hmem))
  | some f =>
    have hf : f ∈ fields := List.mem_reverse.mp (List.mem_of_find?_eq_some hfind)
    have hkey : f.1 = key := by simpa using List.find?_some hfind
    obtain rfl : f = (key, v) := by
      apply List.inj_on_of_nodup_map h hf hmem
      exact hkey
    rfl

theorem mem_of_get {fields : List (Text × Json)} {key : Text} {v : Json}
    (h : (Json.obj fields).get key = some v) :
  (key, v) ∈ fields
  := by
  obtain ⟨f, hfind, rfl⟩ := Option.map_eq_some_iff.mp h
  have hf : f ∈ fields := List.mem_reverse.mp (List.mem_of_find?_eq_some hfind)
  have hkey : f.1 = key := by simpa using List.find?_some hfind
  subst hkey
  exact hf

theorem get_obj_eq_none {fields : List (Text × Json)} {key : Text}
    (h : key ∉ fields.map Prod.fst) :
  (Json.obj fields).get key = none
  := by
  rw [get, Option.map_eq_none_iff, List.find?_eq_none]
  intro f hf heq
  apply h
  rw [← of_decide_eq_true heq]
  exact List.mem_map_of_mem (List.mem_reverse.mp hf)

/-! ### Records -/

/-- An object from fields some of which may be left out. -/
def record (fields : List (Text × Option Json)) : Json :=
  .obj (fields.filterMap fun f => f.2.map fun v => (f.1, v))

/-- The keys that are written are among the given ones. -/
theorem keys_record_sublist (fields : List (Text × Option Json)) :
  ((fields.filterMap fun f => f.2.map fun v => (f.1, v)).map Prod.fst).Sublist
    (fields.map Prod.fst)
  := by
  induction fields with
  | nil => exact List.Sublist.slnil
  | cons f fields ih =>
    cases hf : f.2 with
    | none =>
      rw [List.filterMap_cons_none (by simp [hf])]
      exact ih.cons f.1
    | some w =>
      rw [List.filterMap_cons_some (b := (f.1, w)) (by simp [hf])]
      exact ih.cons_cons f.1

/-- A field that is not given is not written. -/
theorem key_not_mem_record {fields : List (Text × Option Json)}
    (h : (fields.map Prod.fst).Nodup) {key : Text} (hmem : (key, none) ∈ fields) :
  key ∉ (fields.filterMap fun f => f.2.map fun v => (f.1, v)).map Prod.fst
  := by
  intro hkey
  obtain ⟨f, hf, rfl⟩ := List.mem_map.mp hkey
  obtain ⟨g, hg, hgf⟩ := List.mem_filterMap.mp hf
  obtain ⟨w, hw, rfl⟩ := Option.map_eq_some_iff.mp hgf
  have hnone : g = (g.1, none) := List.inj_on_of_nodup_map h hg hmem rfl
  rw [hnone] at hw
  cases hw

/-- When the keys are different, each is looked up as it is given. -/
theorem get_record {fields : List (Text × Option Json)} (h : (fields.map Prod.fst).Nodup)
    {key : Text} {v : Option Json} (hmem : (key, v) ∈ fields) :
  (record fields).get key = v
  := by
  cases v with
  | some v =>
    apply get_obj (h.sublist (keys_record_sublist fields))
    exact List.mem_filterMap.mpr ⟨_, hmem, rfl⟩
  | none =>
    apply get_obj_eq_none
    exact key_not_mem_record h hmem

/-- Read a field of a record, which may be missing. -/
def field {α : Type} (v : Json) (key : Text) (default : α) (read : Json → Option α) : Option α :=
  match v.get key with
  | none => some default
  | some w => read w

/-- A text that is left out of a record when it is empty. -/
def skipEmpty (s : Text) : Option Json :=
  if s.isEmpty then none else some (.str s)

/-- A text that may have been left out is read back. -/
theorem field_skipEmpty {v : Json} {key s : Text} (h : v.get key = skipEmpty s) :
  v.field key [] asStr = some s
  := by
  rw [field, h, skipEmpty]
  cases s <;> rfl

theorem field_some {α : Type} {v w : Json} {key : Text} {default a : α}
    {read : Json → Option α} (h : v.get key = some w) (hread : read w = some a) :
  v.field key default read = some a
  := by
  rw [field, h]
  exact hread

theorem field_str {v : Json} {key s default : Text} (h : v.get key = some (.str s)) :
  v.field key default asStr = some s
  := field_some h rfl

theorem field_bool {v : Json} {key : Text} {b default : Bool} (h : v.get key = some (.bool b)) :
  v.field key default asBool = some b
  := field_some h rfl

/-! ### Plain documents -/

mutual

/-- How deep arrays and objects are nested. -/
def depth : Json → ℕ
  | .null | .bool _ | .int _ | .float _ | .str _ => 0
  | .arr items => depthItems items + 1
  | .obj fields => depthFields fields + 1

def depthItems : List Json → ℕ
  | [] => 0
  | v :: items => max v.depth (depthItems items)

def depthFields : List (Text × Json) → ℕ
  | [] => 0
  | (_, v) :: fields => max v.depth (depthFields fields)

end

theorem depth_le_of_mem {items : List Json} {v : Json} (h : v ∈ items) :
  v.depth ≤ depthItems items
  := by
  induction items with
  | nil => cases h
  | cons w items ih =>
    rw [depthItems]
    rcases List.mem_cons.mp h with rfl | h
    · apply Nat.le_max_left
    · exact (ih h).trans (Nat.le_max_right _ _)

theorem depth_le_of_mem_fields {fields : List (Text × Json)} {f : Text × Json} (h : f ∈ fields) :
  f.2.depth ≤ depthFields fields
  := by
  induction fields with
  | nil => cases h
  | cons g fields ih =>
    rw [depthFields]
    rcases List.mem_cons.mp h with rfl | h
    · apply Nat.le_max_left
    · exact (ih h).trans (Nat.le_max_right _ _)

/-- A document whose numbers are integers of 64 bits. -/
inductive Plain : Json → Prop where
  | null : Plain .null
  | bool (b : Bool) : Plain (.bool b)
  | int {n : ℤ} (hlow : -2 ^ 63 ≤ n) (hhigh : n < 2 ^ 64) : Plain (.int n)
  | str (s : Text) : Plain (.str s)
  | arr {items : List Json} (h : ∀ v ∈ items, Plain v) : Plain (.arr items)
  | obj {fields : List (Text × Json)} (h : ∀ f ∈ fields, Plain f.2) : Plain (.obj fields)

/-- A document whose numbers are integers of 64 bits or as given. -/
inductive Made (isFloat : Text → Prop) : Json → Prop where
  | null : Made isFloat .null
  | bool (b : Bool) : Made isFloat (.bool b)
  | int {n : ℤ} (hlow : -2 ^ 63 ≤ n) (hhigh : n < 2 ^ 64) : Made isFloat (.int n)
  | float {literal : Text} (h : isFloat literal) : Made isFloat (.float literal)
  | str (s : Text) : Made isFloat (.str s)
  | arr {items : List Json} (h : ∀ v ∈ items, Made isFloat v) : Made isFloat (.arr items)
  | obj {fields : List (Text × Json)} (h : ∀ f ∈ fields, Made isFloat f.2) :
      Made isFloat (.obj fields)

theorem Plain.made {v : Json} (h : v.Plain) (isFloat : Text → Prop) :
  v.Made isFloat
  := by
  induction h with
  | null => exact .null
  | bool b => exact .bool b
  | int hlow hhigh => exact .int hlow hhigh
  | str s => exact .str s
  | arr _ ih => exact .arr ih
  | obj _ ih => exact .obj ih

theorem plain_natCast {n : ℕ} (h : n < 2 ^ 64) :
  Plain (.int n)
  := Plain.int (by omega) (by exact_mod_cast h)

theorem plain_record {fields : List (Text × Option Json)} (h : ∀ f ∈ fields, ∀ v ∈ f.2, Plain v) :
  (record fields).Plain
  := by
  apply Plain.obj
  intro f hf
  obtain ⟨g, hg, hgf⟩ := List.mem_filterMap.mp hf
  obtain ⟨w, hw, rfl⟩ := Option.map_eq_some_iff.mp hgf
  exact h g hg w hw

theorem depthFields_le {fields : List (Text × Json)} {d : ℕ} (h : ∀ f ∈ fields, f.2.depth ≤ d) :
  depthFields fields ≤ d
  := by
  induction fields with
  | nil => exact Nat.zero_le d
  | cons f fields ih =>
    rw [List.forall_mem_cons] at h
    rw [depthFields]
    exact Nat.max_le.mpr ⟨h.1, ih h.2⟩

theorem depth_record_le {fields : List (Text × Option Json)} {d : ℕ}
    (h : ∀ f ∈ fields, ∀ v ∈ f.2, v.depth ≤ d) :
  (record fields).depth ≤ d + 1
  := by
  rw [record, depth]
  apply Nat.succ_le_succ
  apply depthFields_le
  intro f hf
  obtain ⟨g, hg, hgf⟩ := List.mem_filterMap.mp hf
  obtain ⟨w, hw, rfl⟩ := Option.map_eq_some_iff.mp hgf
  exact h g hg w hw

/-- A plain document that is no array and no object. -/
def Scalar (v : Json) : Prop :=
  v.Plain ∧ v.depth = 0

theorem scalar_str (s : Text) :
  Scalar (.str s)
  := ⟨Plain.str s, rfl⟩

theorem scalar_bool (b : Bool) :
  Scalar (.bool b)
  := ⟨Plain.bool b, rfl⟩

theorem scalar_natCast {n : ℕ} (h : n < 2 ^ 64) :
  Scalar (.int n)
  := ⟨plain_natCast h, rfl⟩

theorem scalar_skipEmpty {s : Text} {v : Json} (h : v ∈ skipEmpty s) :
  Scalar v
  := by
  rw [skipEmpty] at h
  split at h
  · cases h
  · cases h
    exact scalar_str s

/-- A record of scalars can be written and read back. -/
theorem record_of_scalars {fields : List (Text × Option Json)}
    (h : ∀ f ∈ fields, ∀ v ∈ f.2, Scalar v) :
  (record fields).Plain ∧ (record fields).depth ≤ 1
  := by
  constructor
  · apply plain_record
    intro f hf v hv
    exact (h f hf v hv).1
  · apply depth_record_le
    intro f hf v hv
    exact (h f hf v hv).2.le

end Json
