import AdBlock.Json.Same
import AdBlock.Persist.Merged

/-!
# Groups of settings that share a file

A group of settings has keys of its own, writes all of them and reads them from an object that may
have others.  What a file has is known up to the form of its numbers.  It is always what an object
has: saved settings are put over that object and defaults under it (`Shows.save`, `Shows.ensure`).
-/

/-- What was read can be written and read again with the same values, and no key is there twice
then. -/
structure SerdeJson.Rereads (S : SerdeJson) (isFloat : Text → Prop) (R : Text → Text → Prop) : Prop
    extends S.Rewrites isFloat where
  refl (literal : Text) : R literal literal
  trans (a b c : Text) : R a b → R b c → R a c
  same {v w : Json} (hv : v.Made isFloat) (hdepth : v.depth < Json.recursionLimit)
    (hdistinct : v.Distinct) (hread : S.fromStr (S.toStringPretty v) = some w) :
    w.Distinct ∧ Json.Same R w v

theorem SerdeJson.rereads_reference :
  SerdeJson.reference.Rereads Json.IsFloat Eq
  where
  toRewrites := rewrites_reference
  refl _ := rfl
  trans _ _ _ := Eq.trans
  same {v w} hv hdepth hdistinct hread := by
    have hparse := Json.parse_render .pretty hv hdepth (List.forall_mem_nil _)
    rw [List.append_nil] at hparse
    cases hparse.symm.trans hread
    exact ⟨hdistinct, Json.same_refl (fun _ => rfl) v⟩

/-- A group that writes all of its keys and is read by what an object has for them. -/
structure SharedGroup (isFloat : Text → Prop) (R : Text → Text → Prop) (α : Type) extends
    SettingsGroup α where
  fields (a : α) : ∃ fields, toJson a = .obj fields
    ∧ ∀ key, key ∈ fields.map Prod.fst ↔ key ∈ keys
  storable (a : α) : MergedStore.Storable isFloat (toJson a)
  distinct (a : α) : (toJson a).Distinct
  fromJson_toJson (a : α) : fromJson (toJson a) = some a
  fromJson_congr {fields fields' : List (Text × Json)} (h : (Json.obj fields).Distinct)
    (h' : (Json.obj fields').Distinct)
    (hkeys : ∀ key ∈ keys, Json.SameOption R ((Json.obj fields).get key)
      ((Json.obj fields').get key)) :
    fromJson (.obj fields) = fromJson (.obj fields')
  /-- Each value is well-typed or not by itself. -/
  fromJson_extend {base next : List (Text × Json)} (hbase : (Json.obj base).Distinct)
    (hnext : (Json.obj next).Distinct) (hreadBase : (fromJson (.obj base)).isSome)
    (hreadNext : (fromJson (.obj next)).isSome) :
    (fromJson (.obj (Json.extend base next))).isSome

/-- An object of scalars with distinct keys can be written. -/
theorem MergedStore.storable_of_scalars {isFloat : Text → Prop} {fields : List (Text × Json)}
    (hkeys : (fields.map Prod.fst).Nodup) (h : ∀ f ∈ fields, Json.Scalar f.2) :
  Storable isFloat (.obj fields)
  := by
  obtain ⟨hplain, hdepth⟩ := Json.writable_obj fun f hf => (h f hf).writable 0
  refine ⟨hplain.made isFloat, hdepth.trans_lt (by decide), ?_⟩
  rintro _ ⟨⟩
  exact hkeys

instance {isFloat : Text → Prop} {R : Text → Text → Prop} {α : Type} :
    CoeOut (SharedGroup isFloat R α) (SettingsGroup α) :=
  ⟨SharedGroup.toSettingsGroup⟩

namespace SharedGroup

variable {isFloat : Text → Prop} {R : Text → Text → Prop} {α : Type}
  (group : SharedGroup isFloat R α) {a : α} {fields : List (Text × Json)} {key : Text}

theorem get_of_mem (h : group.toJson a = .obj fields) (hkey : key ∈ group.keys) :
  ∃ v, (Json.obj fields).get key = some v
  := by
  obtain ⟨fields', hfields, hkeys⟩ := group.fields a
  obtain rfl := Json.obj.inj (hfields.symm.trans h)
  have hdistinct := group.distinct a
  rw [h] at hdistinct
  obtain ⟨⟨_, v⟩, hmem, rfl⟩ := List.mem_map.mp ((hkeys key).mpr hkey)
  exact ⟨v, Json.get_obj hdistinct.nodup hmem⟩

theorem get_of_not_mem (h : group.toJson a = .obj fields) (hkey : key ∉ group.keys) :
  (Json.obj fields).get key = none
  := by
  obtain ⟨fields', hfields, hkeys⟩ := group.fields a
  obtain rfl := Json.obj.inj (hfields.symm.trans h)
  apply Json.get_obj_eq_none
  rwa [hkeys]

end SharedGroup

namespace MergedStore

open Json

/-- The file has what an object has. -/
structure Shows (S : SerdeJson) (R : Text → Text → Prop) (file : Option Text)
    (shown : List (Text × Json)) : Prop where
  distinct : (Json.obj shown).Distinct
  raw_eq : raw S file = .null ∨ ∃ fields, raw S file = .obj fields
  same (key : Text) : SameOption R ((raw S file).get key) ((Json.obj shown).get key)

variable {S : SerdeJson} {isFloat : Text → Prop} {R : Text → Text → Prop} {α β : Type}

variable (hS : S.Rereads isFloat R)
include hS

/-- An object that is written is shown and read by all groups. -/
theorem shows_write {fields : List (Text × Json)} (hstorable : Storable isFloat (.obj fields))
    (hdistinct : (Json.obj fields).Distinct) :
  Shows S R (write S (.obj fields)) fields
    ∧ ∀ {α : Type} [Inhabited α] (group : SharedGroup isFloat R α),
      load S group (write S (.obj fields)) = (group.fromJson (.obj fields)).getD default
  := by
  obtain ⟨w, hread, houtline⟩ := hS.reread hstorable.made hstorable.depth
  obtain ⟨fields', rfl, -⟩ := outline_obj_inv houtline
  obtain ⟨hdistinct', hsame⟩ := hS.same hstorable.made hstorable.depth hdistinct hread
  have hraw : raw S (write S (.obj fields)) = toValue (.obj fields') := by
    rw [raw, write, Option.bind_some, hread]
    rfl
  constructor
  · have hvalue := (same_toValue hS.refl (.obj fields')).trans hS.trans hsame
    rw [toValue_obj] at hraw hvalue
    refine ⟨hdistinct, .inr ⟨_, hraw⟩, ?_⟩
    intro key
    rw [hraw]
    exact hvalue.get key
  · intro α _ group
    rw [load, write, Option.bind_some, hread, Option.bind_eq_bind, Option.bind_some,
      group.fromJson_congr hdistinct' hdistinct fun key _ => hsame.get key]

omit hS in
theorem distinct_raw (S : SerdeJson) (file : Option Text) :
  (raw S file).Distinct
  := by
  rw [raw]
  cases file.bind S.fromStr with
  | none => exact .null
  | some v => exact distinct_toValue v

omit hS in
/-- An object over a file. -/
theorem Shows.get_over {file : Option Text} {shown : List (Text × Json)} (h : Shows S R file shown)
    {next : List (Text × Json)} (hdistinct : (Json.obj next).Distinct) :
  ∃ fields, merge (raw S file) (.obj next) = .obj fields ∧ (Json.obj fields).Distinct
    ∧ ∀ key, (Json.obj fields).get key = ((Json.obj next).get key).or ((raw S file).get key)
  := by
  have hraw := distinct_raw S file
  rcases h.raw_eq with heq | ⟨base, heq⟩
  · rw [heq]
    exact ⟨next, rfl, hdistinct, fun key => Option.or_none.symm⟩
  · rw [heq] at hraw ⊢
    cases hdistinct with
    | obj hkeys hnext => exact ⟨_, rfl, distinct_extend hraw hnext, get_extend hraw.nodup next⟩

omit hS in
/-- An object under a file. -/
theorem Shows.get_under {file : Option Text} {shown : List (Text × Json)}
    (h : Shows S R file shown) {base : List (Text × Json)} (hdistinct : (Json.obj base).Distinct) :
  ∃ fields, merge (.obj base) (raw S file) = .obj fields ∧ (Json.obj fields).Distinct
    ∧ ∀ key, (Json.obj fields).get key = ((raw S file).get key).or ((Json.obj base).get key)
  := by
  have hraw := distinct_raw S file
  rcases h.raw_eq with heq | ⟨next, heq⟩
  · rw [heq]
    exact ⟨base, rfl, hdistinct, fun key => Option.none_or.symm⟩
  · rw [heq] at hraw ⊢
    cases hraw with
    | obj hkeys hnext =>
      exact ⟨_, rfl, distinct_extend hdistinct hnext, get_extend hdistinct.nodup next⟩

/-- A merged object that is written is shown. -/
theorem shows_merged {fields shown' : List (Text × Json)}
    (hfields : Storable isFloat (.obj fields)) (hdistinct : (Json.obj fields).Distinct)
    (hdistinct' : (Json.obj shown').Distinct)
    (hsame : ∀ key, SameOption R ((Json.obj fields).get key) ((Json.obj shown').get key)) :
  Shows S R (write S (.obj fields)) shown'
    ∧ ∀ {α : Type} [Inhabited α] (group : SharedGroup isFloat R α),
      load S group (write S (.obj fields)) = (group.fromJson (.obj shown')).getD default
  := by
  obtain ⟨hshows, hload⟩ := shows_write hS hfields hdistinct
  constructor
  · exact ⟨hdistinct', hshows.raw_eq, fun key => (hshows.same key).trans hS.trans (hsame key)⟩
  · intro α _ group
    rw [hload group, group.fromJson_congr hdistinct hdistinct' fun key _ => hsame key]

/-- Saved settings are put over what the file has, and all groups read that. -/
theorem Shows.save {file : Option Text} {shown next : List (Text × Json)}
    (h : Shows S R file shown) (owner : SharedGroup isFloat R β) {b : β}
    (hnext : owner.toJson b = .obj next) :
  Shows S R (save S owner b file) (extend shown next)
    ∧ ∀ {α : Type} [Inhabited α] (group : SharedGroup isFloat R α),
      load S group (save S owner b file)
        = (group.fromJson (.obj (extend shown next))).getD default
  := by
  have hstorable := owner.storable b
  have hdistinct := owner.distinct b
  rw [hnext] at hstorable hdistinct
  obtain ⟨fields, hmerge, hfields, hget⟩ := h.get_over hdistinct
  have hmerged := storable_merge (storable_raw hS.toRewrites file) hstorable
  rw [hmerge] at hmerged
  rw [MergedStore.save, hnext, hmerge]
  apply shows_merged hS hmerged hfields
  · cases hdistinct with
    | obj hkeys hnext => exact distinct_extend h.distinct hnext
  · intro key
    rw [hget, get_extend h.distinct.nodup]
    exact (sameOption_refl hS.refl _).or (h.same key)

/-- Whatever the file has, a group is read as it was saved. -/
theorem load_save [Inhabited α] (group : SharedGroup isFloat R α) (a : α) (file : Option Text) :
  load S group (save S group a file) = a
  := by
  obtain ⟨next, hnext, -⟩ := group.fields a
  have hread := group.fromJson_toJson a
  have hstorable := storable_merge (storable_raw hS.toRewrites file) (group.storable a)
  have hdistinct := group.distinct a
  have hraw := distinct_raw S file
  rw [hnext] at hread hstorable hdistinct
  rw [MergedStore.save, hnext]
  cases hbase : raw S file with
  | obj base =>
    rw [hbase] at hraw hstorable
    have hmerged : (Json.obj (extend base next)).Distinct := by
      cases hdistinct with
      | obj hkeys hvalues => exact distinct_extend hraw hvalues
    rw [merge, (shows_write hS hstorable hmerged).2 group,
      group.fromJson_congr hmerged hdistinct, hread]
    · rfl
    · intro key hkey
      obtain ⟨v, hv⟩ := group.get_of_mem hnext hkey
      rw [get_extend hraw.nodup, hv]
      exact sameOption_refl hS.refl _
  | _ =>
    rw [hbase] at hstorable
    rw [merge, (shows_write hS hstorable hdistinct).2 group, hread]
    · rfl
    all_goals intros; contradiction

/-- The defaults of a group under what the file has. -/
theorem Shows.exists_under {file : Option Text} {shown base : List (Text × Json)}
    (h : Shows S R file shown) (owner : SharedGroup isFloat R β) {b : β}
    (hbase : owner.toJson b = .obj base) :
  ∃ fields, merge (.obj base) (raw S file) = .obj fields ∧ Storable isFloat (.obj fields)
    ∧ (Json.obj fields).Distinct
    ∧ ∀ key, (Json.obj fields).get key = ((raw S file).get key).or ((Json.obj base).get key)
  := by
  have hstorable := owner.storable b
  have hdistinct := owner.distinct b
  rw [hbase] at hstorable hdistinct
  obtain ⟨fields, hmerge, hfields, hget⟩ := h.get_under hdistinct
  have hmerged := storable_merge hstorable (storable_raw hS.toRewrites file)
  rw [hmerge] at hmerged
  exact ⟨fields, hmerge, hmerged, hfields, hget⟩

/-- Defaults are put under what the file has, and all groups read that. -/
theorem Shows.ensure {file : Option Text} {shown base : List (Text × Json)}
    (h : Shows S R file shown) (owner : SharedGroup isFloat R β) {b : β}
    (hbase : owner.toJson b = .obj base) :
  Shows S R (ensure S owner b file) (extend base shown)
    ∧ ∀ {α : Type} [Inhabited α] (group : SharedGroup isFloat R α),
      load S group (ensure S owner b file)
        = (group.fromJson (.obj (extend base shown))).getD default
  := by
  have hdistinct := owner.distinct b
  rw [hbase] at hdistinct
  obtain ⟨fields, hmerge, hmerged, hfields, hget⟩ := h.exists_under hS owner hbase
  rw [MergedStore.ensure, hbase, hmerge]
  apply shows_merged hS hmerged hfields
  · have hshown := h.distinct
    cases hshown with
    | obj hkeys hshown => exact distinct_extend hdistinct hshown
  · intro key
    rw [hget, get_extend hdistinct.nodup]
    exact (h.same key).or (sameOption_refl hS.refl _)

/-- Defaults change no key that is there. -/
theorem Shows.ensure_present {file : Option Text} {shown : List (Text × Json)}
    (h : Shows S R file shown) (owner : SharedGroup isFloat R β) (b : β) {key : Text} {v : Json}
    (hkey : (raw S file).get key = some v) :
  ∃ v', (raw S (MergedStore.ensure S owner b file)).get key = some v' ∧ Same R v' v
  := by
  obtain ⟨base, hbase, -⟩ := owner.fields b
  obtain ⟨fields, hmerge, hmerged, hfields, hget⟩ := h.exists_under hS owner hbase
  obtain ⟨hshows, -⟩ := shows_write hS hmerged hfields
  have hsame := hshows.same key
  rw [hget, hkey, Option.some_or] at hsame
  rw [MergedStore.ensure, hbase, hmerge]
  generalize (raw S (write S (.obj fields))).get key = o at hsame
  cases hsame with
  | some hsame => exact ⟨_, rfl, hsame⟩

end MergedStore
