import AdBlock.Json.Basic

/-!
# Structures as documents

Unsigned numbers, and structures all of whose fields are optional.  Such a structure is read from
an object, or from an array by position.  A field that is missing or null is not given, and a
field that is there twice is an error.  What is written is read back (`optional_ofOption`).
-/

namespace Json

/-! ### Numbers -/

def ofU64 (n : UInt64) : Json :=
  .int n.toNat

def ofU32 (n : UInt32) : Json :=
  .int n.toNat

def ofU16 (n : UInt16) : Json :=
  .int n.toNat

def readU64 (v : Json) : Option UInt64 :=
  v.asU64.map UInt64.ofNat

def readU32 (v : Json) : Option UInt32 :=
  v.asU64.bind fun n => if n < 2 ^ 32 then some (UInt32.ofNat n) else none

def readU16 (v : Json) : Option UInt16 :=
  v.asU64.bind fun n => if n < 2 ^ 16 then some (UInt16.ofNat n) else none

theorem asU64_ofU64 (n : UInt64) :
  (ofU64 n).asU64 = some n.toNat
  := asU64_natCast n.toNat_lt

theorem readU64_ofU64 (n : UInt64) :
  readU64 (ofU64 n) = some n
  := by
  rw [readU64, asU64_ofU64, Option.map_some, UInt64.ofNat_toNat]

theorem readU32_ofU32 (n : UInt32) :
  readU32 (ofU32 n) = some n
  := by
  have hlt : n.toNat < 2 ^ 32 := n.toNat_lt
  rw [readU32, ofU32, asU64_natCast (by omega), Option.bind_some, if_pos hlt, UInt32.ofNat_toNat]

theorem readU16_ofU16 (n : UInt16) :
  readU16 (ofU16 n) = some n
  := by
  have hlt : n.toNat < 2 ^ 16 := n.toNat_lt
  rw [readU16, ofU16, asU64_natCast (by omega), Option.bind_some, if_pos hlt, UInt16.ofNat_toNat]

theorem scalar_ofU64 (n : UInt64) :
  Scalar (ofU64 n)
  := scalar_natCast n.toNat_lt

theorem scalar_ofU32 (n : UInt32) :
  Scalar (ofU32 n)
  := by
  have hlt : n.toNat < 2 ^ 32 := n.toNat_lt
  exact scalar_natCast (by omega)

theorem scalar_ofU16 (n : UInt16) :
  Scalar (ofU16 n)
  := by
  have hlt : n.toNat < 2 ^ 16 := n.toNat_lt
  exact scalar_natCast (by omega)

/-! ### Lists of texts -/

def ofTexts (texts : List Text) : Json :=
  .arr (texts.map .str)

def readTexts : Json → Option (List Text)
  | .arr items => items.mapM asStr
  | _ => none

theorem readTexts_ofTexts (texts : List Text) :
  readTexts (ofTexts texts) = some texts
  := by
  rw [ofTexts, readTexts]
  induction texts with
  | nil => rfl
  | cons s texts ih =>
    rw [List.map_cons, List.mapM_cons, ih]
    rfl

/-! ### Optional fields -/

/-- The values that some fields have for a key. -/
def occurrences (fields : List (Text × Json)) (key : Text) : List Json :=
  (fields.filter fun f => f.1 = key).map Prod.snd

/-- The fields of a structure with the given keys. -/
def structFields (keys : List Text) : Json → Option (List (Text × Json))
  | .obj fields => some fields
  | .arr items => if items.length ≤ keys.length then some (keys.zip items) else none
  | _ => none

variable {α : Type}

/-- Read an optional field. -/
def optional (fields : List (Text × Json)) (key : Text) (read : Json → Option α) :
    Option (Option α) :=
  match occurrences fields key with
  | [] => some none
  | [.null] => some none
  | [v] => (read v).map some
  | _ => none

/-- Read a field that must be given. -/
def required (fields : List (Text × Json)) (key : Text) (read : Json → Option α) : Option α :=
  match occurrences fields key with
  | [v] => read v
  | _ => none

/-- Write an optional field. -/
def ofOption (write : α → Json) : Option α → Json
  | none => .null
  | some a => write a

theorem occurrences_of_nodup {fields : List (Text × Json)} (h : (fields.map Prod.fst).Nodup)
    {key : Text} {v : Json} (hmem : (key, v) ∈ fields) :
  occurrences fields key = [v]
  := by
  induction fields with
  | nil => cases hmem
  | cons f fields ih =>
    rw [List.map_cons, List.nodup_cons] at h
    rw [occurrences, List.filter_cons]
    rcases List.mem_cons.mp hmem with rfl | hmem
    · have hnil : fields.filter (fun f => f.1 = key) = [] := by
        rw [List.filter_eq_nil_iff]
        intro g hg heq
        exact h.1 (List.mem_map.mpr ⟨g, hg, of_decide_eq_true heq⟩)
      simp [hnil]
    · have hne : f.1 ≠ key := by
        intro heq
        apply h.1
        rw [heq]
        exact List.mem_map.mpr ⟨_, hmem, rfl⟩
      rw [if_neg (by simpa using hne)]
      exact ih h.2 hmem

/-- An optional field is read back. -/
theorem optional_ofOption {fields : List (Text × Json)} (h : (fields.map Prod.fst).Nodup)
    {key : Text} {write : α → Json} {read : Json → Option α} {o : Option α}
    (hmem : (key, ofOption write o) ∈ fields) (hread : ∀ a, read (write a) = some a)
    (hnull : ∀ a, write a ≠ .null) :
  optional fields key read = some o
  := by
  rw [optional, occurrences_of_nodup h hmem]
  cases o with
  | none => rfl
  | some a =>
    have hv := hread a
    rw [ofOption]
    cases hw : write a with
    | null => exact absurd hw (hnull a)
    | _ =>
      rw [hw] at hv
      exact congrArg (Option.map some) hv

/-- A field of a record is there once, or not at all if it is left out. -/
theorem occurrences_record {fields : List (Text × Option Json)}
    (h : (fields.map Prod.fst).Nodup) {key : Text} {v : Option Json} (hmem : (key, v) ∈ fields) :
  occurrences (fields.filterMap fun f => f.2.map fun v => (f.1, v)) key = v.toList
  := by
  cases v with
  | some v =>
    apply occurrences_of_nodup (h.sublist (keys_record_sublist fields))
    exact List.mem_filterMap.mpr ⟨_, hmem, rfl⟩
  | none =>
    rw [occurrences, List.filter_eq_nil_iff.mpr]
    · rfl
    · intro f hf heq
      apply key_not_mem_record h hmem
      exact List.mem_map.mpr ⟨f, hf, of_decide_eq_true heq⟩

/-! ### What can be written -/

/-- A plain document of bounded depth. -/
def Writable (d : ℕ) (v : Json) : Prop :=
  v.Plain ∧ v.depth ≤ d

theorem Scalar.writable {v : Json} (h : Scalar v) (d : ℕ) :
  Writable d v
  := ⟨h.1, h.2.le.trans (Nat.zero_le d)⟩

theorem writable_ofTexts (texts : List Text) (d : ℕ) :
  Writable (d + 1) (ofTexts texts)
  := by
  constructor
  · apply Plain.arr
    intro v hv
    obtain ⟨s, _, rfl⟩ := List.mem_map.mp hv
    exact Plain.str s
  · rw [ofTexts, depth]
    apply Nat.succ_le_succ
    induction texts with
    | nil => exact Nat.zero_le d
    | cons s texts ih => exact Nat.max_le.mpr ⟨Nat.zero_le d, ih⟩

theorem writable_ofOption {write : α → Json} {d : ℕ} (h : ∀ a, Writable d (write a))
    (o : Option α) :
  Writable d (ofOption write o)
  := by
  cases o with
  | none => exact ⟨Plain.null, Nat.zero_le d⟩
  | some a => exact h a

theorem scalar_ofOption {write : α → Json} (h : ∀ a, Scalar (write a)) (o : Option α) :
  Scalar (ofOption write o)
  := by
  cases o with
  | none => exact ⟨Plain.null, rfl⟩
  | some a => exact h a

theorem writable_obj {fields : List (Text × Json)} {d : ℕ} (h : ∀ f ∈ fields, Writable d f.2) :
  Writable (d + 1) (.obj fields)
  := by
  constructor
  · apply Plain.obj
    intro f hf
    exact (h f hf).1
  · rw [depth]
    apply Nat.succ_le_succ
    apply depthFields_le
    intro f hf
    exact (h f hf).2

end Json
