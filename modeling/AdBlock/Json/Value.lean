import AdBlock.Json.Reading
import AdBlock.Json.Serde
import AdBlock.Json.Struct
import Mathlib.Data.List.Perm.Lattice
import Mathlib.Data.List.Perm.Subperm

/-!
# Values

A document in memory.  Its objects are maps: each key is there once, and the keys are in order.
Objects are extended field by field.  A structure is read from the outline of a document, which
has nothing of what is nested in its fields, so that what was read as a value and written again is
read as the same structure.
-/

namespace Json

/-! ### Maps -/

/-- Put a field into a map. -/
def insertField (fields : List (Text × Json)) (f : Text × Json) : List (Text × Json) :=
  let others := fields.filter fun g => g.1 ≠ f.1
  others.takeWhile (fun g => g.1 < f.1) ++ f :: others.dropWhile (fun g => g.1 < f.1)

/-- Put fields into a map, one after the other. -/
def extend (base next : List (Text × Json)) : List (Text × Json) :=
  next.foldl insertField base

mutual

/-- The value that a document is read as. -/
def toValue : Json → Json
  | .arr items => .arr (toValueItems items)
  | .obj fields => .obj (extend [] (toValueFields fields))
  | v => v

def toValueItems : List Json → List Json
  | [] => []
  | v :: items => toValue v :: toValueItems items

def toValueFields : List (Text × Json) → List (Text × Json)
  | [] => []
  | (key, v) :: fields => (key, toValue v) :: toValueFields fields

end

theorem toValueItems_eq (items : List Json) :
  toValueItems items = items.map toValue
  := by
  induction items with
  | nil => rfl
  | cons v items ih => exact congrArg (_ :: ·) ih

theorem toValueFields_eq (fields : List (Text × Json)) :
  toValueFields fields = fields.map fun f => (f.1, f.2.toValue)
  := by
  induction fields with
  | nil => rfl
  | cons f fields ih => exact congrArg (_ :: ·) ih

theorem toValue_arr (items : List Json) :
  toValue (.arr items) = .arr (items.map toValue)
  := by
  rw [toValue, toValueItems_eq]

theorem toValue_obj (fields : List (Text × Json)) :
  toValue (.obj fields) = .obj (extend [] (fields.map fun f => (f.1, f.2.toValue)))
  := by
  rw [toValue, toValueFields_eq]

theorem perm_insertField (fields : List (Text × Json)) (f : Text × Json) :
  (insertField fields f).Perm (f :: fields.filter fun g => g.1 ≠ f.1)
  := by
  rw [insertField]
  apply List.perm_middle.trans
  rw [List.takeWhile_append_dropWhile]

theorem nodup_insertField {fields : List (Text × Json)} (h : (fields.map Prod.fst).Nodup)
    (f : Text × Json) :
  ((insertField fields f).map Prod.fst).Nodup
  := by
  rw [((perm_insertField fields f).map Prod.fst).nodup_iff, List.map_cons, List.nodup_cons]
  constructor
  · intro hmem
    obtain ⟨g, hg, heq⟩ := List.mem_map.mp hmem
    have := List.of_mem_filter hg
    simp [heq] at this
  · exact h.sublist (List.filter_sublist.map Prod.fst)

theorem mem_insertField {fields : List (Text × Json)} {f g : Text × Json} :
  g ∈ insertField fields f ↔ g = f ∨ g ∈ fields ∧ g.1 ≠ f.1
  := by
  rw [(perm_insertField fields f).mem_iff, List.mem_cons, List.mem_filter]
  simp

/-- What a map has for a key after a field is put into it. -/
theorem get_insertField {fields : List (Text × Json)} (h : (fields.map Prod.fst).Nodup)
    (f : Text × Json) (key : Text) :
  (Json.obj (insertField fields f)).get key
    = if f.1 = key then some f.2 else (Json.obj fields).get key
  := by
  have hnodup := nodup_insertField h f
  split
  · next hkey =>
    subst hkey
    exact get_obj hnodup (mem_insertField.mpr (.inl rfl))
  · next hkey =>
    cases hget : (Json.obj fields).get key with
    | none =>
      apply get_obj_eq_none
      intro hmem
      obtain ⟨g, hg, rfl⟩ := List.mem_map.mp hmem
      rcases mem_insertField.mp hg with rfl | ⟨hg, -⟩
      · exact hkey rfl
      · rw [get_obj h hg] at hget
        cases hget
    | some v =>
      apply get_obj hnodup
      exact mem_insertField.mpr (.inr ⟨mem_of_get hget, Ne.symm hkey⟩)

theorem get_cons (f : Text × Json) (fields : List (Text × Json)) (key : Text) :
  (Json.obj (f :: fields)).get key
    = ((Json.obj fields).get key).or (if f.1 = key then some f.2 else none)
  := by
  rw [get, get, List.reverse_cons, List.find?_append]
  cases fields.reverse.find? (fun g => g.1 = key) with
  | some g => rfl
  | none =>
    by_cases hkey : f.1 = key
    · simp [hkey]
    · simp [hkey]

theorem nodup_extend {base : List (Text × Json)} (h : (base.map Prod.fst).Nodup)
    (next : List (Text × Json)) :
  ((extend base next).map Prod.fst).Nodup
  := by
  induction next generalizing base with
  | nil => exact h
  | cons f next ih => exact ih (nodup_insertField h f)

/-- What a map has for a key after it is extended: the last of the new fields counts. -/
theorem get_extend {base : List (Text × Json)} (h : (base.map Prod.fst).Nodup)
    (next : List (Text × Json)) (key : Text) :
  (Json.obj (extend base next)).get key
    = ((Json.obj next).get key).or ((Json.obj base).get key)
  := by
  induction next generalizing base with
  | nil => rfl
  | cons f next ih =>
    rw [extend, List.foldl_cons, ← extend, ih (nodup_insertField h f), get_insertField h, get_cons,
      Option.or_assoc]
    by_cases hkey : f.1 = key
    · simp [hkey]
    · simp [hkey]

theorem mem_extend {base next : List (Text × Json)} {f : Text × Json} (h : f ∈ extend base next) :
  f ∈ base ∨ f ∈ next
  := by
  induction next generalizing base with
  | nil => exact .inl h
  | cons g next ih =>
    rcases ih h with hmem | hmem
    · rcases mem_insertField.mp hmem with rfl | ⟨hmem, -⟩
      · exact .inr List.mem_cons_self
      · exact .inl hmem
    · exact .inr (List.mem_cons_of_mem g hmem)

theorem nodup_toValue (fields : List (Text × Json)) :
  ((extend [] (fields.map fun f => (f.1, f.2.toValue))).map Prod.fst).Nodup
  := nodup_extend (by simp) _

theorem get_map_snd (fields : List (Text × Json)) (g : Json → Json) (key : Text) :
  (Json.obj (fields.map fun f => (f.1, g f.2))).get key = ((Json.obj fields).get key).map g
  := by
  induction fields with
  | nil => rfl
  | cons f fields ih =>
    rw [List.map_cons, get_cons, get_cons, ih]
    cases (Json.obj fields).get key with
    | some v => rfl
    | none =>
      by_cases hkey : f.1 = key
      · simp [hkey]
      · simp [hkey]

theorem get_toValue (v : Json) (key : Text) :
  v.toValue.get key = (v.get key).map toValue
  := by
  cases v with
  | obj fields =>
    rw [toValue_obj, get_extend (by simp), get_map_snd]
    exact Option.or_none
  | _ => rfl

theorem made_toValue {isFloat : Text → Prop} {v : Json} (h : v.Made isFloat) :
  v.toValue.Made isFloat
  := by
  induction v with
  | arr items ih =>
    cases h with
    | arr hitems =>
      rw [toValue_arr]
      apply Made.arr
      intro w hw
      obtain ⟨u, hu, rfl⟩ := List.mem_map.mp hw
      exact ih u hu (hitems u hu)
  | obj fields ih =>
    cases h with
    | obj hfields =>
      rw [toValue_obj]
      apply Made.obj
      intro f hf
      obtain ⟨g, hg, rfl⟩ := List.mem_map.mp ((mem_extend hf).resolve_left List.not_mem_nil)
      exact ih g hg (hfields g hg)
  | _ => exact h

theorem depthItems_le {items : List Json} {d : ℕ} (h : ∀ v ∈ items, v.depth ≤ d) :
  depthItems items ≤ d
  := by
  induction items with
  | nil => exact Nat.zero_le d
  | cons v items ih =>
    rw [List.forall_mem_cons] at h
    rw [depthItems]
    exact Nat.max_le.mpr ⟨h.1, ih h.2⟩

theorem depth_toValue_le (v : Json) :
  v.toValue.depth ≤ v.depth
  := by
  induction v with
  | arr items ih =>
    rw [toValue_arr, depth, depth]
    apply Nat.succ_le_succ
    apply depthItems_le
    intro w hw
    obtain ⟨u, hu, rfl⟩ := List.mem_map.mp hw
    exact (ih u hu).trans (depth_le_of_mem hu)
  | obj fields ih =>
    rw [toValue_obj, depth, depth]
    apply Nat.succ_le_succ
    apply depthFields_le
    intro f hf
    obtain ⟨g, hg, rfl⟩ := List.mem_map.mp ((mem_extend hf).resolve_left List.not_mem_nil)
    exact (ih g hg).trans (depth_le_of_mem_fields hg)
  | _ => exact Nat.le_refl _

/-! ### Outlines -/

/-- A value without what is in it. -/
def shallow : Json → Json
  | .float _ => .float []
  | .arr _ => .arr []
  | .obj _ => .obj []
  | v => v

/-- A document without what is in its items and fields. -/
def outline : Json → Json
  | .arr items => .arr (items.map shallow)
  | .obj fields => .obj (fields.map fun f => (f.1, f.2.shallow))
  | v => v.shallow

theorem shallow_eq_null {v : Json} :
  v.shallow = .null ↔ v = .null
  := by
  cases v <;> simp [shallow]

theorem shallow_toValue (v : Json) :
  v.toValue.shallow = v.shallow
  := by
  cases v <;> rfl

/-- An optional value. -/
def optionalOf {α : Type} (read : Json → Option α) : Option Json → Option (Option α)
  | none => some none
  | some .null => some none
  | some v => (read v).map some

section Optional

variable {α : Type} {read : Json → Option α}

theorem optionalOf_some {v : Json} (h : v ≠ .null) :
  optionalOf read (some v) = (read v).map some
  := by
  cases v with
  | null => exact absurd rfl h
  | _ => rfl

theorem optionalOf_shallow (hread : ∀ v, read v.shallow = read v) (o : Option Json) :
  optionalOf read (o.map shallow) = optionalOf read o
  := by
  cases o with
  | none => rfl
  | some v =>
    by_cases hnull : v = .null
    · subst hnull
      rfl
    · rw [Option.map_some, optionalOf_some (shallow_eq_null.not.mpr hnull), optionalOf_some hnull,
        hread]

theorem optional_of_singleton {fields : List (Text × Json)} {key : Text} {v : Json}
    (h : occurrences fields key = [v]) :
  optional fields key read = optionalOf read (some v)
  := by
  rw [optional, h]
  cases v <;> rfl

/-- An optional field of an object whose keys are different. -/
theorem optional_of_nodup {fields : List (Text × Json)} (h : (fields.map Prod.fst).Nodup)
    (key : Text) :
  optional fields key read = optionalOf read ((Json.obj fields).get key)
  := by
  by_cases hkey : key ∈ fields.map Prod.fst
  · obtain ⟨⟨_, v⟩, hmem, rfl⟩ := List.mem_map.mp hkey
    rw [optional_of_singleton (occurrences_of_nodup h hmem), get_obj h hmem]
  · have hnone : occurrences fields key = [] := by
      rw [occurrences, List.map_eq_nil_iff, List.filter_eq_nil_iff]
      intro f hf heq
      exact hkey (List.mem_map.mpr ⟨f, hf, of_decide_eq_true heq⟩)
    rw [optional, hnone, get_obj_eq_none hkey]
    rfl

theorem optional_shallow (hread : ∀ v, read v.shallow = read v) (fields : List (Text × Json))
    (key : Text) :
  optional (fields.map fun f => (f.1, f.2.shallow)) key read = optional fields key read
  := by
  have hmap : occurrences (fields.map fun f => (f.1, f.2.shallow)) key
      = (occurrences fields key).map shallow := by
    rw [occurrences, occurrences, List.filter_map, List.map_map, List.map_map]
    rfl
  rcases hoccurrences : occurrences fields key with _ | ⟨v, _ | ⟨w, rest⟩⟩
  · rw [optional, optional, hmap, hoccurrences]
    rfl
  · rw [hoccurrences] at hmap
    rw [optional_of_singleton hmap, optional_of_singleton hoccurrences]
    exact optionalOf_shallow hread (some v)
  · rw [optional, optional, hmap, hoccurrences]
    cases v <;> rfl

end Optional

/-- The fields of a structure are those of the outline. -/
theorem structFields_outline (keys : List Text) (v : Json) :
  structFields keys v.outline
    = (structFields keys v).map fun fields => fields.map fun f => (f.1, f.2.shallow)
  := by
  cases v with
  | obj fields => rfl
  | arr items =>
    rw [outline, structFields, structFields, List.length_map]
    split
    · rw [List.zip_map_right]
      rfl
    · rfl
  | _ => rfl

theorem outline_obj_inv {v : Json} {fields : List (Text × Json)}
    (h : v.outline = (Json.obj fields).outline) :
  ∃ fields', v = .obj fields'
    ∧ fields'.map (fun f => (f.1, f.2.shallow)) = fields.map (fun f => (f.1, f.2.shallow))
  := by
  cases v with
  | obj fields' => exact ⟨fields', rfl, Json.obj.inj h⟩
  | _ => cases h

theorem outline_eq_null {v : Json} :
  v.outline = .null ↔ v = .null
  := by
  cases v <;> simp [outline, shallow]

/-- A document that is no object has the outline of its value. -/
theorem outline_toValue {v : Json} (h : ∀ fields, v ≠ .obj fields) :
  v.toValue.outline = v.outline
  := by
  cases v with
  | obj fields => exact absurd rfl (h fields)
  | arr items =>
    rw [toValue_arr, outline, outline, List.map_map]
    exact congrArg Json.arr (List.map_congr_left fun v _ => shallow_toValue v)
  | _ => rfl

end Json

/-- What was read can be written and read again.  A number that is no integer of 64 bits may be
written in another form. -/
structure SerdeJson.Rewrites (S : SerdeJson) (isFloat : Text → Prop) : Prop where
  made {text : Text} {v : Json} (h : S.fromStr text = some v) :
    v.Made isFloat ∧ v.depth < Json.recursionLimit
  reread {v : Json} (hv : v.Made isFloat) (hdepth : v.depth < Json.recursionLimit) :
    ∃ w, S.fromStr (S.toStringPretty v) = some w ∧ w.outline = v.outline

theorem SerdeJson.rewrites_reference :
  SerdeJson.reference.Rewrites Json.IsFloat
  where
  made h := Json.made_of_parse h
  reread hv hdepth := by
    have hparse := Json.parse_render .pretty hv hdepth (List.forall_mem_nil _)
    rw [List.append_nil] at hparse
    exact ⟨_, hparse, rfl⟩
