import AdBlock.Json.Value

/-!
# Settings files with other keys

A file of settings that other groups of settings share.  What is saved goes over the keys that are
there, and defaults go under them.  A file that is missing or cannot be read has no keys.
-/

/-- A group of settings, which has some keys of a file. -/
structure SettingsGroup (α : Type) where
  keys : List Text
  toJson : α → Json
  fromJson : Json → Option α

/-- How settings are an object of a file.  They are read from their own keys only. -/
structure RecordFormat (α : Type) extends SettingsGroup α where
  fields (a : α) : ∃ fields, toJson a = .obj fields ∧ fields.map Prod.fst = keys
  nodup : keys.Nodup
  writable (a : α) : (toJson a).Writable 1
  fromJson_toJson (a : α) : fromJson (toJson a) = some a
  fromJson_outline (v : Json) : fromJson v.outline = fromJson v
  /-- When the keys of two objects are different, what they have for the keys of the settings
  decides. -/
  fromJson_congr {fields fields' : List (Text × Json)} (h : (fields.map Prod.fst).Nodup)
    (h' : (fields'.map Prod.fst).Nodup)
    (hkeys : ∀ key ∈ keys, ((Json.obj fields).get key).map Json.shallow
      = ((Json.obj fields').get key).map Json.shallow) :
    fromJson (.obj fields) = fromJson (.obj fields')

instance {α : Type} : CoeOut (RecordFormat α) (SettingsGroup α) :=
  ⟨RecordFormat.toSettingsGroup⟩

namespace MergedStore

open Json

variable (S : SerdeJson) {α : Type} (group : SettingsGroup α)

/-- The file as a value, or null. -/
def raw (file : Option Text) : Json :=
  ((file.bind S.fromStr).map toValue).getD .null

/-- Copy the fields of an object over those of another.  Anything but an object replaces, except
for null. -/
def merge : Json → Json → Json
  | .obj base, .obj next => .obj (extend base next)
  | base, .null => base
  | _, next => next

def write (v : Json) : Option Text :=
  some (S.toStringPretty v)

def load [Inhabited α] (file : Option Text) : α :=
  (file.bind fun text => S.fromStr text >>= group.fromJson).getD default

/-- The file after settings are saved. -/
def save (overrides : α) (file : Option Text) : Option Text :=
  write S (merge (raw S file) (group.toJson overrides))

/-- The file with defaults for the keys it does not have. -/
def ensure (defaults : α) (file : Option Text) : Option Text :=
  write S (merge (group.toJson defaults) (raw S file))

/-! ### Values of files -/

/-- A value in memory that can be written. -/
structure Storable (isFloat : Text → Prop) (v : Json) : Prop where
  made : v.Made isFloat
  depth : v.depth < recursionLimit
  nodup : ∀ fields, v = .obj fields → (fields.map Prod.fst).Nodup

variable {S} (format : RecordFormat α) {isFloat : Text → Prop}

theorem storable_toValue {v : Json} (hmade : v.Made isFloat) (hdepth : v.depth < recursionLimit) :
  Storable isFloat v.toValue
  where
  made := made_toValue hmade
  depth := (depth_toValue_le v).trans_lt hdepth
  nodup fields h := by
    cases v with
    | obj fields' =>
      rw [toValue_obj] at h
      rw [← Json.obj.inj h]
      exact nodup_toValue fields'
    | _ => cases h

theorem storable_raw (hS : S.Rewrites isFloat) (file : Option Text) :
  Storable isFloat (raw S file)
  := by
  rw [raw]
  cases hread : file.bind S.fromStr with
  | none => exact ⟨.null, by decide, by rintro _ ⟨⟩⟩
  | some v =>
    obtain ⟨text, -, htext⟩ := Option.bind_eq_some_iff.mp hread
    obtain ⟨hmade, hdepth⟩ := hS.made htext
    exact storable_toValue hmade hdepth

theorem storable_toJson (a : α) :
  Storable isFloat (format.toJson a)
  where
  made := (format.writable a).1.made isFloat
  depth := (format.writable a).2.trans_lt (by decide)
  nodup fields h := by
    obtain ⟨fields', hfields, hkeys⟩ := format.fields a
    obtain rfl := Json.obj.inj (h.symm.trans hfields)
    rw [hkeys]
    exact format.nodup

theorem storable_extend {base next : List (Text × Json)} (hbase : Storable isFloat (.obj base))
    (hnext : Storable isFloat (.obj next)) :
  Storable isFloat (.obj (extend base next))
  where
  made := by
    have hbase := hbase.made
    have hnext := hnext.made
    cases hbase with
    | obj hbase =>
      cases hnext with
      | obj hnext =>
        apply Made.obj
        intro f hf
        rcases mem_extend hf with hf | hf
        · exact hbase f hf
        · exact hnext f hf
  depth := by
    have hbase := hbase.depth
    have hnext := hnext.depth
    rw [depth] at hbase hnext ⊢
    have hfields : depthFields (extend base next) ≤ max (depthFields base) (depthFields next) := by
      apply depthFields_le
      intro f hf
      rcases mem_extend hf with hf | hf
      · exact (depth_le_of_mem_fields hf).trans (Nat.le_max_left _ _)
      · exact (depth_le_of_mem_fields hf).trans (Nat.le_max_right _ _)
    omega
  nodup fields h := by
    rw [← Json.obj.inj h]
    exact nodup_extend (hbase.nodup base rfl) next

theorem storable_merge {base next : Json} (hbase : Storable isFloat base)
    (hnext : Storable isFloat next) :
  Storable isFloat (merge base next)
  := by
  unfold merge
  split
  · exact storable_extend hbase hnext
  · exact hbase
  · exact hnext

theorem mem_keys_of_get {fields : List (Text × Json)} {key : Text} {v : Json}
    (h : (Json.obj fields).get key = some v) :
  key ∈ fields.map Prod.fst
  := List.mem_map_of_mem (mem_of_get h)

/-- Under an object, or in place of nothing, defaults give all keys.  Anything else stays as it
is. -/
theorem merge_defaults (defaults : α) (v : Json) :
  (∃ fields, merge (format.toJson defaults) v = .obj fields
      ∧ ∀ key ∈ format.keys, key ∈ fields.map Prod.fst)
    ∨ (∀ fields, v ≠ .obj fields) ∧ v ≠ .null
  := by
  obtain ⟨base, hbase, hkeys⟩ := format.fields defaults
  rw [hbase]
  cases v with
  | null => exact .inl ⟨base, rfl, fun key hkey => hkeys ▸ hkey⟩
  | obj next =>
    left
    use extend base next, rfl
    intro key hkey
    have hnodup : (base.map Prod.fst).Nodup := hkeys ▸ format.nodup
    rw [← hkeys] at hkey
    obtain ⟨⟨key', v⟩, hmem, rfl⟩ := List.mem_map.mp hkey
    have hget := get_extend hnodup next key'
    rw [get_obj hnodup hmem] at hget
    cases hnext : (Json.obj next).get key' with
    | none =>
      rw [hnext] at hget
      exact mem_keys_of_get hget
    | some w =>
      rw [hnext] at hget
      exact mem_keys_of_get hget
  | _ =>
    right
    constructor
    · rintro fields ⟨⟩
    · rintro ⟨⟩

theorem merge_of_not_obj (base : Json) {v : Json} (hobj : ∀ fields, v ≠ .obj fields)
    (hnull : v ≠ .null) :
  merge base v = v
  := by
  cases v with
  | null => exact absurd rfl hnull
  | obj fields => exact absurd rfl (hobj fields)
  | _ => cases base <;> rfl

/-! ### Reading files -/

variable [Inhabited α]

theorem load_write (hS : S.Rewrites isFloat) {v : Json} (hv : Storable isFloat v) :
  load S format (write S v) = (format.fromJson v).getD default
  := by
  obtain ⟨w, hread, houtline⟩ := hS.reread hv.made hv.depth
  rw [load, write, Option.bind_some, hread, Option.bind_eq_bind, Option.bind_some,
    ← format.fromJson_outline w, houtline, format.fromJson_outline]

/-- What was written is there again, as far as settings are read from it. -/
theorem raw_write_obj (hS : S.Rewrites isFloat) {fields : List (Text × Json)}
    (hv : Storable isFloat (.obj fields)) :
  ∃ fields', raw S (write S (.obj fields)) = .obj fields'
    ∧ ∀ key, ((Json.obj fields').get key).map shallow = ((Json.obj fields).get key).map shallow
  := by
  obtain ⟨w, hread, houtline⟩ := hS.reread hv.made hv.depth
  obtain ⟨fields', rfl, hfields⟩ := outline_obj_inv houtline
  use extend [] (fields'.map fun f => (f.1, f.2.toValue))
  constructor
  · rw [raw, write, Option.bind_some, hread, Option.map_some, Option.getD_some, toValue_obj]
  · intro key
    have hget := get_toValue (.obj fields') key
    rw [toValue_obj] at hget
    rw [hget, Option.map_map, ← get_map_snd fields shallow, ← hfields, get_map_snd]
    congr
    funext v
    exact shallow_toValue v

/-- A file with all keys of the settings keeps what it has. -/
theorem load_ensure_write_obj (hS : S.Rewrites isFloat) {fields : List (Text × Json)}
    (hv : Storable isFloat (.obj fields)) (hkeys : ∀ key ∈ format.keys, key ∈ fields.map Prod.fst)
    (defaults : α) :
  load S format (ensure S format defaults (write S (.obj fields)))
    = (format.fromJson (.obj fields)).getD default
  := by
  obtain ⟨fields', hraw, hget⟩ := raw_write_obj hS hv
  have hraw_storable := storable_raw hS (write S (.obj fields))
  obtain ⟨base, hbase, -⟩ := format.fields defaults
  have hbase_storable : Storable isFloat (.obj base) := hbase ▸ storable_toJson format defaults
  rw [hraw] at hraw_storable
  have hextended := storable_extend hbase_storable hraw_storable
  rw [ensure, hraw, hbase, merge, load_write format hS hextended,
    format.fromJson_congr (hextended.nodup _ rfl) (hv.nodup fields rfl)]
  intro key hkey
  rw [get_extend (hbase_storable.nodup base rfl), ← hget key]
  have hsome := hget key
  obtain ⟨⟨key', v⟩, hmem, rfl⟩ := List.mem_map.mp (hkeys key hkey)
  rw [get_obj (hv.nodup fields rfl) hmem] at hsome
  obtain ⟨w, hw, -⟩ := Option.map_eq_some_iff.mp hsome
  rw [hw]
  rfl

/-- Saved settings are read again. -/
theorem load_ensure_save (hS : S.Rewrites isFloat) (defaults overrides : α)
    (file : Option Text) :
  load S format (ensure S format defaults (save S format overrides file)) = overrides
  := by
  obtain ⟨next, hnext, hnext_keys⟩ := format.fields overrides
  have hnext_storable : Storable isFloat (.obj next) := hnext ▸ storable_toJson format overrides
  obtain ⟨fields, hmerge, hget⟩ : ∃ fields, merge (raw S file) (.obj next) = .obj fields
      ∧ ∀ key ∈ format.keys, (Json.obj fields).get key = (Json.obj next).get key := by
    have hraw := storable_raw hS file
    cases hvalue : raw S file with
    | obj base =>
      rw [hvalue] at hraw
      use extend base next, rfl
      intro key hkey
      rw [← hnext_keys] at hkey
      obtain ⟨⟨key', v⟩, hmem, rfl⟩ := List.mem_map.mp hkey
      rw [get_extend (hraw.nodup base rfl), get_obj (hnext_storable.nodup next rfl) hmem]
      rfl
    | _ => exact ⟨next, rfl, fun _ _ => rfl⟩
  have hstorable : Storable isFloat (.obj fields) :=
    hmerge ▸ storable_merge (storable_raw hS file) hnext_storable
  have hkeys : ∀ key ∈ format.keys, key ∈ fields.map Prod.fst := by
    intro key hkey
    have hsome := hget key hkey
    rw [← hnext_keys] at hkey
    obtain ⟨⟨key', v⟩, hmem, rfl⟩ := List.mem_map.mp hkey
    rw [get_obj (hnext_storable.nodup next rfl) hmem] at hsome
    exact mem_keys_of_get hsome
  have hread : format.fromJson (.obj fields) = some overrides := by
    rw [format.fromJson_congr (hstorable.nodup fields rfl) (hnext_storable.nodup next rfl)
      fun key hkey => by rw [hget key hkey], ← hnext, format.fromJson_toJson]
  rw [save, hnext, hmerge, load_ensure_write_obj format hS hstorable hkeys, hread,
    Option.getD_some]

/-- Defaults that are there are not put there again. -/
theorem load_ensure_ensure (hS : S.Rewrites isFloat) (defaults : α) (file : Option Text) :
  load S format.toSettingsGroup (ensure S format defaults (ensure S format defaults file))
    = load S format.toSettingsGroup (ensure S format defaults file)
  := by
  have hraw := storable_raw hS file
  have hmerged := storable_merge (storable_toJson format defaults) hraw
  rcases merge_defaults format defaults (raw S file) with ⟨fields, hmerge, hkeys⟩ | ⟨hobj, hnull⟩
  · have hensure : ensure S format defaults file = write S (.obj fields) := by
      rw [ensure, hmerge]
    rw [hmerge] at hmerged
    rw [hensure, load_ensure_write_obj format hS hmerged hkeys, load_write format hS hmerged]
  · have hensure : ensure S format defaults file = write S (raw S file) := by
      rw [ensure, merge_of_not_obj _ hobj hnull]
    obtain ⟨w, hread, houtline⟩ := hS.reread hraw.made hraw.depth
    have hw : (∀ fields, w ≠ .obj fields) ∧ w ≠ .null := by
      constructor
      · rintro fields rfl
        obtain ⟨fields', hfields, -⟩ := outline_obj_inv houtline.symm
        exact hobj fields' hfields
      · rintro rfl
        exact hnull (outline_eq_null.mp houtline.symm)
    have hraw' : raw S (write S (raw S file)) = w.toValue := by
      rw [raw, write, Option.bind_some, hread]
      rfl
    have hvalue : (∀ fields, w.toValue ≠ .obj fields) ∧ w.toValue ≠ .null := by
      cases w with
      | null => exact absurd rfl hw.2
      | obj fields => exact absurd rfl (hw.1 fields)
      | _ => exact ⟨by rintro fields ⟨⟩, by rintro ⟨⟩⟩
    obtain ⟨hmade, hdepth⟩ := hS.made hread
    rw [hensure, load_write format hS hraw, ensure, hraw',
      merge_of_not_obj _ hvalue.1 hvalue.2,
      load_write format hS (storable_toValue hmade hdepth),
      ← format.fromJson_outline w.toValue, outline_toValue hw.1, houtline,
      format.fromJson_outline]

end MergedStore
