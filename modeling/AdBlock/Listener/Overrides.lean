import AdBlock.Persist.Merged
import AdBlock.Persist.Overrides

/-!
# Settings files of the listeners

The DNS server and the proxy each keep the overrides for their listener in a file.  The DNS server
writes its file as a whole, the proxy writes its keys into a file that may have others.  For both,
what is saved is what a restart reads.
-/

namespace Listener

/-- `DnsServerOverrides` and `ProxyServerOverrides`. -/
structure ServerOverrides where
  enabled : Option Bool := none
  listen : Option Text := none
  deriving DecidableEq, Repr, Inhabited

namespace ServerOverrides

open Json

def fields (o : ServerOverrides) : List (Text × Json) :=
  [("enabled".toList, ofOption .bool o.enabled), ("listen".toList, ofOption .str o.listen)]

def keys : List Text :=
  (fields {}).map Prod.fst

def toJson (o : ServerOverrides) : Json :=
  .obj o.fields

def fromJson (v : Json) : Option ServerOverrides := do
  let fields ← structFields keys v
  some
    { enabled := ← optional fields "enabled".toList asBool
      listen := ← optional fields "listen".toList asStr }

theorem nodup_keys :
  keys.Nodup
  := by decide

theorem asBool_shallow (v : Json) :
  asBool v.shallow = asBool v
  := by
  cases v <;> rfl

theorem asStr_shallow (v : Json) :
  asStr v.shallow = asStr v
  := by
  cases v <;> rfl

theorem fromJson_toJson (o : ServerOverrides) :
  fromJson o.toJson = some o
  := by
  have hnodup : (o.fields.map Prod.fst).Nodup := nodup_keys
  have henabled : optional o.fields "enabled".toList asBool = some o.enabled :=
    optional_ofOption hnodup (List.mem_of_getElem? (i := 0) rfl) (fun _ => rfl) (by rintro _ ⟨⟩)
  have hlisten : optional o.fields "listen".toList asStr = some o.listen :=
    optional_ofOption hnodup (List.mem_of_getElem? (i := 1) rfl) (fun _ => rfl) (by rintro _ ⟨⟩)
  rw [fromJson, toJson, structFields]
  simp only [Option.bind_eq_bind, Option.bind_some, henabled, hlisten]

theorem fromJson_outline (v : Json) :
  fromJson v.outline = fromJson v
  := by
  rw [fromJson, fromJson, structFields_outline]
  cases structFields keys v with
  | none => rfl
  | some fields =>
    simp only [Option.map_some, Option.bind_eq_bind, Option.bind_some,
      optional_shallow asBool_shallow, optional_shallow asStr_shallow]

theorem writable_toJson (o : ServerOverrides) :
  Writable 1 o.toJson
  := by
  apply writable_obj
  simp only [fields, List.forall_mem_cons, List.not_mem_nil, false_implies, implies_true, and_true]
  exact ⟨writable_ofOption (fun b => (scalar_bool b).writable 0) _,
    writable_ofOption (fun s => (scalar_str s).writable 0) _⟩

/-- The overrides as an object of a file. -/
def format : RecordFormat ServerOverrides where
  keys := keys
  toJson := toJson
  fromJson := fromJson
  fields o := ⟨o.fields, rfl, rfl⟩
  nodup := nodup_keys
  writable := writable_toJson
  fromJson_toJson := fromJson_toJson
  fromJson_outline := fromJson_outline
  fromJson_congr {fields fields'} h h' hkeys := by
    have hget {α : Type} {read : Json → Option α} (hread : ∀ v, read v.shallow = read v)
        (key : Text) (hkey : key ∈ keys) : optional fields key read = optional fields' key read := by
      rw [optional_of_nodup h, optional_of_nodup h', ← optionalOf_shallow hread, hkeys key hkey,
        optionalOf_shallow hread]
    simp only [fromJson, structFields, Option.bind_eq_bind, Option.bind_some,
      hget asBool_shallow "enabled".toList (by decide),
      hget asStr_shallow "listen".toList (by decide)]

/-- The file of the DNS server. -/
def codec (S : SerdeJson) (hS : S.Lawful) : Codec ServerOverrides where
  encode o := S.toStringPretty o.toJson
  decode t := S.fromStr t >>= fromJson
  decode_encode o := by
    obtain ⟨hplain, hdepth⟩ := o.writable_toJson
    rw [hS.fromStr_toStringPretty hplain (hdepth.trans_lt (by decide))]
    exact o.fromJson_toJson

end ServerOverrides

/-! ### Stores -/

/-- What a listener does with its settings file. -/
structure Store where
  load : Option Text → ServerOverrides
  save : ServerOverrides → Option Text → Option Text
  ensure : ServerOverrides → Option Text → Option Text

namespace Store

/-- The store of the DNS server. -/
def dns (codec : Codec ServerOverrides) : Store where
  load := OverrideStore.load codec
  save overrides _ := OverrideStore.save codec overrides
  ensure := OverrideStore.ensure codec

/-- The store of the proxy. -/
def proxy (S : SerdeJson) : Store where
  load := MergedStore.load S ServerOverrides.format
  save := MergedStore.save S ServerOverrides.format
  ensure := MergedStore.ensure S ServerOverrides.format

/-- What is saved is read after a restart, and a restart changes nothing. -/
structure Lawful (store : Store) : Prop where
  load_ensure_save (defaults overrides : ServerOverrides) (file : Option Text) :
    store.load (store.ensure defaults (store.save overrides file)) = overrides
  load_ensure_ensure (defaults : ServerOverrides) (file : Option Text) :
    store.load (store.ensure defaults (store.ensure defaults file))
      = store.load (store.ensure defaults file)

theorem lawful_dns (codec : Codec ServerOverrides) :
  (dns codec).Lawful
  where
  load_ensure_save _ overrides _ := OverrideStore.load_save codec overrides
  load_ensure_ensure defaults file := by
    cases file with
    | none => rfl
    | some text => rfl

theorem lawful_proxy {S : SerdeJson} {isFloat : Text → Prop} (hS : S.Rewrites isFloat) :
  (proxy S).Lawful
  where
  load_ensure_save := MergedStore.load_ensure_save ServerOverrides.format hS
  load_ensure_ensure := MergedStore.load_ensure_ensure ServerOverrides.format hS

end Store

end Listener
