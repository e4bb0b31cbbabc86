import AdBlock.Persist.Shared

/-!
# The settings file of the proxy

Several groups of settings share the settings file of the proxy.  A group is saved over what the
file has, and its defaults are put under it.  Whatever is saved and ensured, no group disturbs
another, and no group touches a key that is not its own (`settings_undisturbed`).
-/

namespace Proxy

open Json

/-! ### Groups of settings -/

section Groups

variable {isFloat : Text → Prop} {R : Text → Text → Prop}

/-- What was set of the way out, as it is saved. -/
structure EgressOverrides where
  resolverOnly : Option Bool := none
  disableIpv6 : Option Bool := none
  deriving DecidableEq, Repr, Inhabited

namespace EgressOverrides

/-- What is not set is written as null. -/
def fields (o : EgressOverrides) : List (Text × Json) :=
  [("resolver_only".toList, ofOption .bool o.resolverOnly),
    ("disable_ipv6".toList, ofOption .bool o.disableIpv6)]

def keys : List Text :=
  (fields {}).map Prod.fst

def toJson (o : EgressOverrides) : Json :=
  .obj o.fields

def fromJson (v : Json) : Option EgressOverrides := do
  let fields ← structFields keys v
  some
    { resolverOnly := ← optional fields "resolver_only".toList asBool
      disableIpv6 := ← optional fields "disable_ipv6".toList asBool }

theorem nodup_keys :
  keys.Nodup
  := by decide

/-- The overrides that an object has, if its values are flags. -/
theorem fromJson_obj {fields : List (Text × Json)} (h : (fields.map Prod.fst).Nodup) :
  fromJson (.obj fields)
    = (optionalOf asBool ((Json.obj fields).get "resolver_only".toList)).bind fun resolverOnly =>
      (optionalOf asBool ((Json.obj fields).get "disable_ipv6".toList)).map fun disableIpv6 =>
        { resolverOnly, disableIpv6 }
  := by
  rw [fromJson, structFields, Option.bind_eq_bind, Option.bind_some, optional_of_nodup h,
    optional_of_nodup h]
  cases optionalOf asBool ((Json.obj fields).get "resolver_only".toList) with
  | none => rfl
  | some resolverOnly =>
    cases optionalOf asBool ((Json.obj fields).get "disable_ipv6".toList) with
    | none => rfl
    | some disableIpv6 => rfl

/-- An object is read exactly if each of its values is. -/
theorem isSome_fromJson {fields : List (Text × Json)} (h : (fields.map Prod.fst).Nodup) :
  (fromJson (.obj fields)).isSome
    ↔ (optionalOf asBool ((Json.obj fields).get "resolver_only".toList)).isSome
      ∧ (optionalOf asBool ((Json.obj fields).get "disable_ipv6".toList)).isSome
  := by
  rw [fromJson_obj h]
  cases optionalOf asBool ((Json.obj fields).get "resolver_only".toList) with
  | none =>
    rw [Option.bind_none]
    constructor
    · intro hsome
      cases hsome
    · rintro ⟨hsome, -⟩
      cases hsome
  | some resolverOnly =>
    rw [Option.bind_some, Option.isSome_map]
    constructor
    · intro hsome
      exact ⟨rfl, hsome⟩
    · rintro ⟨-, hsome⟩
      exact hsome

theorem scalar_fields (o : EgressOverrides) :
  ∀ f ∈ o.fields, Scalar f.2
  := by
  rw [fields, List.forall_mem_cons, List.forall_mem_singleton]
  exact ⟨scalar_ofOption scalar_bool _, scalar_ofOption scalar_bool _⟩

/-- What was written is read back. -/
theorem fromJson_toJson (o : EgressOverrides) :
  fromJson o.toJson = some o
  := by
  have hnodup : (o.fields.map Prod.fst).Nodup := nodup_keys
  have hresolver : optional o.fields "resolver_only".toList asBool = some o.resolverOnly :=
    optional_ofOption hnodup (List.mem_of_getElem? (i := 0) rfl) (fun _ => rfl) (by rintro _ ⟨⟩)
  have hipv6 : optional o.fields "disable_ipv6".toList asBool = some o.disableIpv6 :=
    optional_ofOption hnodup (List.mem_of_getElem? (i := 1) rfl) (fun _ => rfl) (by rintro _ ⟨⟩)
  rw [fromJson, toJson, structFields]
  simp only [Option.bind_eq_bind, Option.bind_some, hresolver, hipv6]

def group : SharedGroup isFloat R EgressOverrides where
  keys := keys
  toJson := toJson
  fromJson := fromJson
  fields o := ⟨o.fields, rfl, fun _ => Iff.rfl⟩
  storable o := MergedStore.storable_of_scalars nodup_keys o.scalar_fields
  distinct o := distinct_of_scalars nodup_keys o.scalar_fields
  fromJson_toJson := fromJson_toJson
  fromJson_congr h h' hkeys := by
    rw [fromJson_obj h.nodup, fromJson_obj h'.nodup,
      optionalOf_same (fun _ _ => asBool_same) (hkeys "resolver_only".toList (by decide)),
      optionalOf_same (fun _ _ => asBool_same) (hkeys "disable_ipv6".toList (by decide))]
  fromJson_extend {base next} hbase hnext hreadBase hreadNext := by
    rw [isSome_fromJson hbase.nodup] at hreadBase
    rw [isSome_fromJson hnext.nodup] at hreadNext
    rw [isSome_fromJson (nodup_extend hbase.nodup next), get_extend hbase.nodup,
      get_extend hbase.nodup]
    exact ⟨optionalOf_or hreadNext.1 hreadBase.1, optionalOf_or hreadNext.2 hreadBase.2⟩

end EgressOverrides

/-- Which authority is active, as it is saved. -/
structure ActiveSelection where
  /-- The name of the active authority, or none for that of the configuration. -/
  active : Option Text := none
  deriving DecidableEq, Repr, Inhabited

namespace ActiveSelection

def fields (o : ActiveSelection) : List (Text × Json) :=
  [("active".toList, ofOption .str o.active)]

def keys : List Text :=
  (fields {}).map Prod.fst

def toJson (o : ActiveSelection) : Json :=
  .obj o.fields

def fromJson (v : Json) : Option ActiveSelection := do
  let fields ← structFields keys v
  some { active := ← optional fields "active".toList asStr }

/-- The selection that an object has, if it is a text. -/
theorem fromJson_obj {fields : List (Text × Json)} (h : (fields.map Prod.fst).Nodup) :
  fromJson (.obj fields)
    = (optionalOf asStr ((Json.obj fields).get "active".toList)).map fun active => { active }
  := by
  rw [fromJson, structFields, Option.bind_eq_bind, Option.bind_some, optional_of_nodup h]
  cases optionalOf asStr ((Json.obj fields).get "active".toList) with
  | none => rfl
  | some active => rfl

theorem nodup_keys :
  keys.Nodup
  := by decide

theorem scalar_fields (o : ActiveSelection) :
  ∀ f ∈ o.fields, Scalar f.2
  := by
  rw [fields, List.forall_mem_singleton]
  exact scalar_ofOption scalar_str _

theorem fromJson_toJson (o : ActiveSelection) :
  fromJson o.toJson = some o
  := by
  have hnodup : (o.fields.map Prod.fst).Nodup := nodup_keys
  have hactive : optional o.fields "active".toList asStr = some o.active :=
    optional_ofOption hnodup (List.mem_of_getElem? (i := 0) rfl) (fun _ => rfl) (by rintro _ ⟨⟩)
  rw [fromJson, toJson, structFields]
  simp only [Option.bind_eq_bind, Option.bind_some, hactive]

def group : SharedGroup isFloat R ActiveSelection where
  keys := keys
  toJson := toJson
  fromJson := fromJson
  fields o := ⟨o.fields, rfl, fun _ => Iff.rfl⟩
  storable o := MergedStore.storable_of_scalars nodup_keys o.scalar_fields
  distinct o := distinct_of_scalars nodup_keys o.scalar_fields
  fromJson_toJson := fromJson_toJson
  fromJson_congr h h' hkeys := by
    rw [fromJson_obj h.nodup, fromJson_obj h'.nodup,
      optionalOf_same (fun _ _ => asStr_same) (hkeys "active".toList (by decide))]
  fromJson_extend {base next} hbase hnext hreadBase hreadNext := by
    rw [fromJson_obj hbase.nodup, Option.isSome_map] at hreadBase
    rw [fromJson_obj hnext.nodup, Option.isSome_map] at hreadNext
    rw [fromJson_obj (nodup_extend hbase.nodup next), get_extend hbase.nodup, Option.isSome_map]
    exact optionalOf_or hreadNext hreadBase

end ActiveSelection

end Groups

/-! ### Two groups in one file -/

namespace Settings

variable {isFloat : Text → Prop} {R : Text → Text → Prop} {α β : Type}

/-- What is done with the settings of two groups. -/
inductive Op (α β : Type) where
  | saveA (a : α)
  | ensureA (defaults : α)
  | saveB (b : β)
  | ensureB (defaults : β)

/-- Defaults are ensured. -/
def Op.Ensures : Op α β → Prop
  | .ensureA _ => True
  | .ensureB _ => True
  | _ => False

section Run

variable (S : SerdeJson) (A : SharedGroup isFloat R α) (B : SharedGroup isFloat R β)

/-- The file after settings are saved or ensured. -/
def step (file : Option Text) : Op α β → Option Text
  | .saveA a => MergedStore.save S A.toSettingsGroup a file
  | .ensureA defaults => MergedStore.ensure S A.toSettingsGroup defaults file
  | .saveB b => MergedStore.save S B.toSettingsGroup b file
  | .ensureB defaults => MergedStore.ensure S B.toSettingsGroup defaults file

def run (file : Option Text) (ops : List (Op α β)) : Option Text :=
  ops.foldl (step S A B) file

end Run

/-- Where the settings of the first group come from. -/
inductive Origin (α : Type) where
  | initial
  /-- From the defaults that were ensured first, for keys that the file did not have. -/
  | ensured (defaults : α)
  /-- From what was saved last. -/
  | saved (a : α)

namespace Origin

/-- Where the settings come from after another operation. -/
def next : Origin α → Op α β → Origin α
  | _, .saveA a => .saved a
  | .initial, .ensureA defaults => .ensured defaults
  | origin, _ => origin

def of (ops : List (Op α β)) : Origin α :=
  ops.foldl next .initial

/-- The settings of the first group in a file that has the given fields at first. -/
def settings (A : SharedGroup isFloat R α) (init : List (Text × Json)) : Origin α → Json
  | .initial => .obj init
  | .ensured defaults => MergedStore.merge (A.toJson defaults) (.obj init)
  | .saved a => A.toJson a

end Origin

/-- The fields of a file that is missing or has an object, with well-typed values for a group. -/
inductive Initial (S : SerdeJson) (A : SharedGroup isFloat R α) :
    Option Text → List (Text × Json) → Prop where
  | missing : Initial S A none []
  | object {text : Text} {fields init : List (Text × Json)}
      (hread : S.fromStr text = some (.obj fields)) (hinit : toValue (.obj fields) = .obj init)
      (htyped : (A.fromJson (.obj init)).isSome) : Initial S A (some text) init

/-! ### What a file has for each key -/

/-- The keys of the first group are as their origin says, and those of no group as they were. -/
structure Undisturbed (A : SharedGroup isFloat R α) (B : SharedGroup isFloat R β)
    (init : List (Text × Json)) (origin : Origin α) (shown : List (Text × Json)) : Prop where
  own : ∀ key ∈ A.keys, (Json.obj shown).get key = (origin.settings A init).get key
  others : ∀ key, key ∉ A.keys → key ∉ B.keys →
    (Json.obj shown).get key = (Json.obj init).get key

section Steps

variable {A : SharedGroup isFloat R α} {B : SharedGroup isFloat R β}
  {init shown fields : List (Text × Json)} {origin : Origin α}

/-- Settings that were ensured or saved have all keys. -/
theorem Origin.exists_get (A : SharedGroup isFloat R α) (hne : origin ≠ .initial) {key : Text}
    (hkey : key ∈ A.keys) :
  ∃ v, (origin.settings A init).get key = some v
  := by
  cases origin with
  | initial => exact absurd rfl hne
  | ensured defaults =>
    obtain ⟨base, hbase, -⟩ := A.fields defaults
    have hdistinct := A.distinct defaults
    rw [hbase] at hdistinct
    obtain ⟨v, hv⟩ := A.get_of_mem hbase hkey
    rw [Origin.settings, hbase, MergedStore.merge, get_extend hdistinct.nodup, hv]
    cases (Json.obj init).get key with
    | none => exact ⟨v, rfl⟩
    | some w => exact ⟨w, rfl⟩
  | saved a =>
    obtain ⟨fields, hfields, -⟩ := A.fields a
    rw [Origin.settings, hfields]
    exact A.get_of_mem hfields hkey

/-- Defaults count only before anything is ensured or saved. -/
theorem Origin.next_ensureA (hne : origin ≠ .initial) (defaults : α) :
  origin.next (.ensureA defaults : Op α β) = origin
  := by
  cases origin with
  | initial => exact absurd rfl hne
  | ensured first => rfl
  | saved a => rfl

/-- What is saved replaces the settings of the first group only. -/
theorem Undisturbed.saveA (h : Undisturbed A B init origin shown)
    (hdistinct : (Json.obj shown).Distinct) {a : α} (hfields : A.toJson a = .obj fields) :
  Undisturbed A B init (.saved a) (extend shown fields)
  where
  own key hkey := by
    obtain ⟨v, hv⟩ := A.get_of_mem hfields hkey
    rw [get_extend hdistinct.nodup, Origin.settings, hfields, hv]
    rfl
  others key hA hB := by
    rw [get_extend hdistinct.nodup, A.get_of_not_mem hfields hA]
    exact h.others key hA hB

/-- Defaults are taken only for keys that the file does not have. -/
theorem Undisturbed.ensureA (h : Undisturbed A B init origin shown)
    {defaults : α} (hfields : A.toJson defaults = .obj fields) :
  Undisturbed A B init
    (origin.next (.ensureA defaults : Op α β)) (extend fields shown)
  where
  own key hkey := by
    have hdistinct := A.distinct defaults
    rw [hfields] at hdistinct
    rw [get_extend hdistinct.nodup, h.own key hkey]
    -- only the first defaults count, since they have all keys
    by_cases hne : origin = .initial
    · rw [hne, Origin.next, Origin.settings, Origin.settings, hfields, MergedStore.merge,
        get_extend hdistinct.nodup]
    · obtain ⟨v, hv⟩ := Origin.exists_get A hne hkey
      rw [Origin.next_ensureA hne, hv]
      rfl
  others key hA hB := by
    have hdistinct := A.distinct defaults
    rw [hfields] at hdistinct
    rw [get_extend hdistinct.nodup, A.get_of_not_mem hfields hA, Option.or_none]
    exact h.others key hA hB

section Others

variable (hdisjoint : ∀ key ∈ A.keys, key ∉ B.keys)
include hdisjoint

/-- Saving the second group leaves the first alone. -/
theorem Undisturbed.saveB (h : Undisturbed A B init origin shown)
    (hdistinct : (Json.obj shown).Distinct) {b : β} (hfields : B.toJson b = .obj fields) :
  Undisturbed A B init origin (extend shown fields)
  where
  own key hkey := by
    rw [get_extend hdistinct.nodup, B.get_of_not_mem hfields (hdisjoint key hkey)]
    exact h.own key hkey
  others key hA hB := by
    rw [get_extend hdistinct.nodup, B.get_of_not_mem hfields hB]
    exact h.others key hA hB

theorem Undisturbed.ensureB (h : Undisturbed A B init origin shown)
    {defaults : β} (hfields : B.toJson defaults = .obj fields) :
  Undisturbed A B init origin (extend fields shown)
  := by
  have hdistinct := B.distinct defaults
  rw [hfields] at hdistinct
  constructor
  · intro key hkey
    rw [get_extend hdistinct.nodup, B.get_of_not_mem hfields (hdisjoint key hkey), Option.or_none]
    exact h.own key hkey
  · intro key hA hB
    rw [get_extend hdistinct.nodup, B.get_of_not_mem hfields hB, Option.or_none]
    exact h.others key hA hB

end Others

/-- A step keeps what the file has for the keys of the first group and of no group. -/
theorem Undisturbed.step {S : SerdeJson} (hS : S.Rereads isFloat R) [Inhabited α]
    (hdisjoint : ∀ key ∈ A.keys, key ∉ B.keys) {file : Option Text}
    (hshows : MergedStore.Shows S R file shown)
    (h : Undisturbed A B init origin shown) (op : Op α β) :
  ∃ shown', MergedStore.Shows S R (step S A B file op) shown'
    ∧ Undisturbed A B init (origin.next op) shown'
    ∧ MergedStore.load S A.toSettingsGroup (step S A B file op)
      = (A.fromJson (.obj shown')).getD default
  := by
  cases op with
  | saveA a =>
    obtain ⟨fields, hfields, -⟩ := A.fields a
    obtain ⟨hshows', hload⟩ := hshows.save hS A hfields
    have hnext : origin.next (.saveA a : Op α β) = .saved a := by
      cases origin <;> rfl
    rw [hnext]
    exact ⟨_, hshows', h.saveA hshows.distinct hfields, hload A⟩
  | ensureA defaults =>
    obtain ⟨fields, hfields, -⟩ := A.fields defaults
    obtain ⟨hshows', hload⟩ := hshows.ensure hS A hfields
    exact ⟨_, hshows', h.ensureA hfields, hload A⟩
  | saveB b =>
    obtain ⟨fields, hfields, -⟩ := B.fields b
    obtain ⟨hshows', hload⟩ := hshows.save hS B hfields
    have hnext : origin.next (.saveB b : Op α β) = origin := by
      cases origin <;> rfl
    rw [hnext]
    exact ⟨_, hshows', h.saveB hdisjoint hshows.distinct hfields, hload A⟩
  | ensureB defaults =>
    obtain ⟨fields, hfields, -⟩ := B.fields defaults
    obtain ⟨hshows', hload⟩ := hshows.ensure hS B hfields
    have hnext : origin.next (.ensureB defaults : Op α β) = origin := by
      cases origin <;> rfl
    rw [hnext]
    exact ⟨_, hshows', h.ensureB hdisjoint hfields, hload A⟩

/-- What a run keeps. -/
theorem Undisturbed.run {S : SerdeJson} (hS : S.Rereads isFloat R) [Inhabited α]
    (hdisjoint : ∀ key ∈ A.keys, key ∉ B.keys) {file : Option Text}
    (hshows : MergedStore.Shows S R file shown)
    (h : Undisturbed A B init origin shown)
    (ops : List (Op α β)) :
  ∃ shown', MergedStore.Shows S R (run S A B file ops) shown'
    ∧ Undisturbed A B init (ops.foldl Origin.next origin) shown'
    ∧ (ops ≠ [] →
      MergedStore.load S A.toSettingsGroup (run S A B file ops)
        = (A.fromJson (.obj shown')).getD default)
  := by
  induction ops generalizing file shown origin with
  | nil => exact ⟨shown, hshows, h, fun hne => absurd rfl hne⟩
  | cons op ops ih =>
    obtain ⟨shown₁, hshows₁, h₁, hload₁⟩ := h.step hS hdisjoint hshows op
    cases ops with
    | nil => exact ⟨shown₁, hshows₁, h₁, fun _ => hload₁⟩
    | cons op' ops =>
      obtain ⟨shown', hshows', h', hload'⟩ := ih hshows₁ h₁
      exact ⟨shown', hshows', h', fun _ => hload' (List.cons_ne_nil _ _)⟩

/-- The settings of an origin are an object. -/
theorem Origin.settings_eq (A : SharedGroup isFloat R α) (hinit : (Json.obj init).Distinct)
    (origin : Origin α) :
  ∃ fields, origin.settings A init = .obj fields ∧ (Json.obj fields).Distinct
  := by
  cases origin with
  | initial => exact ⟨init, rfl, hinit⟩
  | ensured defaults =>
    obtain ⟨base, hbase, -⟩ := A.fields defaults
    have hdistinct := A.distinct defaults
    rw [hbase] at hdistinct
    rw [Origin.settings, hbase]
    cases hinit with
    | obj hkeys hinit => exact ⟨_, rfl, distinct_extend hdistinct hinit⟩
  | saved a =>
    obtain ⟨fields, hfields, -⟩ := A.fields a
    have hdistinct := A.distinct a
    rw [hfields] at hdistinct
    exact ⟨fields, hfields, hdistinct⟩

end Steps

section Initial

variable {S : SerdeJson} {A : SharedGroup isFloat R α} {file : Option Text}
  {init : List (Text × Json)} (h : Initial S A file init)
include h

theorem Initial.distinct :
  (Json.obj init).Distinct
  := by
  cases h with
  | missing => exact .obj List.nodup_nil (List.forall_mem_nil _)
  | object hread hinit htyped =>
    rw [← hinit]
    apply distinct_toValue

/-- The file shows the fields it has at first. -/
theorem Initial.shows (hR : ∀ literal, R literal literal) :
  MergedStore.Shows S R file init
  := by
  have hdistinct := h.distinct
  cases h with
  | missing => exact ⟨hdistinct, .inl rfl, fun key => .none⟩
  | @object text fields _ hread hinit htyped =>
    have hraw : MergedStore.raw S (some text) = .obj init := by
      rw [MergedStore.raw, Option.bind_some, hread, Option.map_some, hinit]
      rfl
    refine ⟨hdistinct, .inr ⟨init, hraw⟩, ?_⟩
    intro key
    rw [hraw]
    exact sameOption_refl hR _

/-- Values of the file and defaults under them are well-typed. -/
theorem Initial.isSome_settings (origin : Origin α) (hne : file.isSome ∨ origin ≠ .initial) :
  (A.fromJson (origin.settings A init)).isSome
  := by
  have hdistinct := h.distinct
  cases origin with
  | saved a =>
    rw [Origin.settings, A.fromJson_toJson]
    rfl
  | initial =>
    cases h with
    | missing => exact absurd hne (by simp)
    | object hread hinit htyped => exact htyped
  | ensured defaults =>
    obtain ⟨base, hbase, -⟩ := A.fields defaults
    have hread := A.fromJson_toJson defaults
    have hbase_distinct := A.distinct defaults
    rw [hbase] at hread hbase_distinct
    rw [Origin.settings, hbase, MergedStore.merge]
    cases h with
    | missing =>
      rw [extend, List.foldl_nil, hread]
      rfl
    | object _ hinit htyped =>
      exact A.fromJson_extend hbase_distinct hdistinct (Option.isSome_of_mem hread) htyped

end Initial

/-- Two groups with different keys share a file that is missing at first or has an object.  After
each step of every run, the first group is read as it was saved last, and before that as the values
of the file with the defaults that were ensured first.  The keys of no group stay as they were, and
ensuring defaults changes no key that is there. -/
theorem settings_undisturbed {S : SerdeJson} (hS : S.Rereads isFloat R) [Inhabited α]
    (A : SharedGroup isFloat R α) (B : SharedGroup isFloat R β)
    (hdisjoint : ∀ key ∈ A.keys, key ∉ B.keys) {file : Option Text} {init : List (Text × Json)}
    (hinit : Initial S A file init) (ops : List (Op α β)) :
  (ops ≠ [] →
    MergedStore.load S A.toSettingsGroup (run S A B file ops)
        = (A.fromJson ((Origin.of ops).settings A init)).getD default
      ∧ (file.isSome ∨ Origin.of ops ≠ .initial →
        (A.fromJson ((Origin.of ops).settings A init)).isSome)
      ∧ ∀ a, Origin.of ops = .saved a →
        MergedStore.load S A.toSettingsGroup (run S A B file ops) = a)
    ∧ (∀ key, key ∉ A.keys → key ∉ B.keys →
      SameOption R ((MergedStore.raw S (run S A B file ops)).get key) ((Json.obj init).get key))
    ∧ ∀ op key v, op.Ensures → (MergedStore.raw S (run S A B file ops)).get key = some v →
      ∃ v', (MergedStore.raw S (run S A B file (ops ++ [op]))).get key = some v' ∧ Same R v' v
  := by
  have hstart : Undisturbed A B init .initial init := ⟨fun _ _ => rfl, fun _ _ _ => rfl⟩
  obtain ⟨shown, hshows, hundisturbed, hload⟩ :=
    hstart.run hS hdisjoint (hinit.shows hS.refl) ops
  refine ⟨?_, ?_, ?_⟩
  · intro hne
    obtain ⟨fields, hfields, hdistinct⟩ := Origin.settings_eq A hinit.distinct (Origin.of ops)
    have hread : A.fromJson (.obj shown) = A.fromJson ((Origin.of ops).settings A init) := by
      rw [hfields]
      apply A.fromJson_congr hshows.distinct hdistinct
      intro key hkey
      rw [← hfields, hundisturbed.own key hkey]
      exact sameOption_refl hS.refl _
    refine ⟨?_, hinit.isSome_settings _, ?_⟩
    · rw [hload hne, hread]
    · intro a ha
      rw [hload hne, hread, ha, Origin.settings, A.fromJson_toJson]
      rfl
  · intro key hA hB
    rw [← hundisturbed.others key hA hB]
    exact hshows.same key
  · intro op key v hensures hkey
    rw [run, List.foldl_concat]
    cases op with
    | saveA a => exact absurd hensures id
    | saveB b => exact absurd hensures id
    | ensureA defaults => exact hshows.ensure_present hS A defaults hkey
    | ensureB defaults => exact hshows.ensure_present hS B defaults hkey

/-- A file with a key of no group. -/
def themeFile : Option Text :=
  some "\x7b\"theme\":1\x7d".toList

def themeOps : List (Op EgressOverrides ActiveSelection) :=
  [.ensureA {}, .saveB { active := some "a".toList }, .saveA { disableIpv6 := some true },
    .ensureB {}]

/-- The file after settings of both groups are ensured and saved. -/
def themeRun : Option Text :=
  run .reference (EgressOverrides.group : SharedGroup IsFloat Eq _) ActiveSelection.group themeFile
    themeOps

/-- The last settings of the first group are there, and so is the key of no group. -/
theorem settings_undisturbed_theme :
  MergedStore.load .reference (EgressOverrides.group : SharedGroup IsFloat Eq _).toSettingsGroup
      themeRun
    = { disableIpv6 := some true }
    ∧ SameOption Eq ((MergedStore.raw .reference themeRun).get "theme".toList) (some (.int 1))
  := by
  have hinit : Initial .reference (EgressOverrides.group : SharedGroup IsFloat Eq _) themeFile
      [("theme".toList, .int 1)] :=
    @Initial.object _ _ _ _ _ _ [("theme".toList, .int 1)] _ rfl rfl rfl
  obtain ⟨hload, hothers, -⟩ := settings_undisturbed SerdeJson.rereads_reference
    EgressOverrides.group ActiveSelection.group (by decide) hinit themeOps
  exact ⟨(hload (List.cons_ne_nil _ _)).2.2 _ rfl,
    hothers "theme".toList (by decide) (by decide)⟩

end Settings

end Proxy
