import AdBlock.Dns.Upstream
import AdBlock.Json.Serde
import AdBlock.Json.Struct
import AdBlock.Persist.Overrides

/-!
# DNS settings

The settings that can be changed at runtime.  Overrides are laid over the settings of the
configuration.  Laying one set of overrides over another and then both over some settings is the
same as laying them over the settings in turn (`withOverrides_mergedWith`).
-/

namespace Dns

/-- The part of the configuration that the settings come from, and the address of the listener. -/
structure DnsConfig where
  listen : Text := "0.0.0.0:53".toList
  upstreams : List Text := []
  upstreamMode : UpstreamMode := .failover
  bootstrap : List Text := ["1.1.1.1".toList, "8.8.8.8".toList]
  cacheSize : UInt64 := 4096
  overrideMinTtlSecs : UInt32 := 0
  overrideMaxTtlSecs : UInt32 := 0
  echProbeDomain : Text := "crypto.cloudflare.com".toList
  echProbeMins : UInt32 := 60
  stripEch : Bool := false
  logIpv6 : Bool := false
  deriving DecidableEq, Repr

structure EffectiveDnsSettings where
  upstreams : List Text
  upstreamMode : UpstreamMode
  bootstrap : List Text
  cacheSize : UInt64
  overrideMinTtlSecs : UInt32
  overrideMaxTtlSecs : UInt32
  echProbeDomain : Text
  echProbeMins : UInt32
  stripEch : Bool
  logIpv6 : Bool
  deriving DecidableEq, Repr

structure DnsOverrides where
  upstreams : Option (List Text) := none
  upstreamMode : Option UpstreamMode := none
  bootstrap : Option (List Text) := none
  cacheSize : Option UInt64 := none
  overrideMinTtlSecs : Option UInt32 := none
  overrideMaxTtlSecs : Option UInt32 := none
  echProbeDomain : Option Text := none
  echProbeMins : Option UInt32 := none
  stripEch : Option Bool := none
  logIpv6 : Option Bool := none
  deriving DecidableEq, Repr, Inhabited

/-! ### Overrides over settings -/

namespace EffectiveDnsSettings

def normalized (e : EffectiveDnsSettings) : EffectiveDnsSettings :=
  { e with
    upstreams := e.upstreams.map Text.trim
    bootstrap := e.bootstrap.map Text.trim
    echProbeDomain := Text.trim e.echProbeDomain }

def fromConfig (cfg : DnsConfig) : EffectiveDnsSettings :=
  normalized
    { upstreams := cfg.upstreams
      upstreamMode := cfg.upstreamMode
      bootstrap := cfg.bootstrap
      cacheSize := cfg.cacheSize
      overrideMinTtlSecs := cfg.overrideMinTtlSecs
      overrideMaxTtlSecs := cfg.overrideMaxTtlSecs
      echProbeDomain := cfg.echProbeDomain
      echProbeMins := cfg.echProbeMins
      stripEch := cfg.stripEch
      logIpv6 := cfg.logIpv6 }

/-- Each setting, or the override for it. -/
def overlay (e : EffectiveDnsSettings) (o : DnsOverrides) : EffectiveDnsSettings where
  upstreams := o.upstreams.getD e.upstreams
  upstreamMode := o.upstreamMode.getD e.upstreamMode
  bootstrap := o.bootstrap.getD e.bootstrap
  cacheSize := o.cacheSize.getD e.cacheSize
  overrideMinTtlSecs := o.overrideMinTtlSecs.getD e.overrideMinTtlSecs
  overrideMaxTtlSecs := o.overrideMaxTtlSecs.getD e.overrideMaxTtlSecs
  echProbeDomain := o.echProbeDomain.getD e.echProbeDomain
  echProbeMins := o.echProbeMins.getD e.echProbeMins
  stripEch := o.stripEch.getD e.stripEch
  logIpv6 := o.logIpv6.getD e.logIpv6

/-- Lay overrides over settings. -/
def withOverrides (e : EffectiveDnsSettings) (o : DnsOverrides) : EffectiveDnsSettings :=
  (e.overlay o).normalized

/-- Two bounds on the lifetime of an answer must not conflict.  A bound of zero is none. -/
def validate (e : EffectiveDnsSettings) : Except Text Unit :=
  if 0 < e.overrideMinTtlSecs ∧ 0 < e.overrideMaxTtlSecs
      ∧ e.overrideMaxTtlSecs < e.overrideMinTtlSecs then
    .error ("override_min_ttl_secs (".toList ++ Net.decimal e.overrideMinTtlSecs.toNat
      ++ ") exceeds override_max_ttl_secs (".toList ++ Net.decimal e.overrideMaxTtlSecs.toNat
      ++ ")".toList)
  else .ok ()

end EffectiveDnsSettings

namespace DnsOverrides

/-- Lay an update over overrides. -/
def mergedWith (o upd : DnsOverrides) : DnsOverrides where
  upstreams := upd.upstreams.or o.upstreams
  upstreamMode := upd.upstreamMode.or o.upstreamMode
  bootstrap := upd.bootstrap.or o.bootstrap
  cacheSize := upd.cacheSize.or o.cacheSize
  overrideMinTtlSecs := upd.overrideMinTtlSecs.or o.overrideMinTtlSecs
  overrideMaxTtlSecs := upd.overrideMaxTtlSecs.or o.overrideMaxTtlSecs
  echProbeDomain := upd.echProbeDomain.or o.echProbeDomain
  echProbeMins := upd.echProbeMins.or o.echProbeMins
  stripEch := upd.stripEch.or o.stripEch
  logIpv6 := upd.logIpv6.or o.logIpv6

/-- Overrides that give every setting. -/
def fromEffective (e : EffectiveDnsSettings) : DnsOverrides where
  upstreams := some e.upstreams
  upstreamMode := some e.upstreamMode
  bootstrap := some e.bootstrap
  cacheSize := some e.cacheSize
  overrideMinTtlSecs := some e.overrideMinTtlSecs
  overrideMaxTtlSecs := some e.overrideMaxTtlSecs
  echProbeDomain := some e.echProbeDomain
  echProbeMins := some e.echProbeMins
  stripEch := some e.stripEch
  logIpv6 := some e.logIpv6

end DnsOverrides

namespace EffectiveDnsSettings

theorem normalized_normalized (e : EffectiveDnsSettings) :
  e.normalized.normalized = e.normalized
  := by
  have hlist (l : List Text) : (l.map Text.trim).map Text.trim = l.map Text.trim := by
    rw [List.map_map]
    exact List.map_congr_left fun s _ => Text.trim_trim s
  simp only [normalized, hlist, Text.trim_trim]

theorem normalized_fromConfig (cfg : DnsConfig) :
  (fromConfig cfg).normalized = fromConfig cfg
  := normalized_normalized _

theorem normalized_withOverrides (e : EffectiveDnsSettings) (o : DnsOverrides) :
  (e.withOverrides o).normalized = e.withOverrides o
  := normalized_normalized _

/-- Trimming the settings first makes no difference. -/
theorem withOverrides_normalized (e : EffectiveDnsSettings) (o : DnsOverrides) :
  e.normalized.withOverrides o = e.withOverrides o
  := by
  have htexts (o : Option (List Text)) (l : List Text) :
      (o.getD (l.map Text.trim)).map Text.trim = (o.getD l).map Text.trim := by
    cases o with
    | none =>
      rw [Option.getD_none, Option.getD_none, List.map_map]
      exact List.map_congr_left fun s _ => Text.trim_trim s
    | some l => rfl
  have htext (o : Option Text) (s : Text) :
      Text.trim (o.getD (Text.trim s)) = Text.trim (o.getD s) := by
    cases o with
    | none => exact Text.trim_trim s
    | some s => rfl
  simp only [withOverrides, overlay, normalized, htexts, htext]

/-- Overrides are laid over settings in turn or at once. -/
theorem withOverrides_mergedWith (e : EffectiveDnsSettings) (o upd : DnsOverrides) :
  (e.withOverrides o).withOverrides upd = e.withOverrides (o.mergedWith upd)
  := by
  have hor {α : Type} (x y : Option α) (a : α) : x.getD (y.getD a) = (x.or y).getD a := by
    cases x <;> rfl
  have hoverlay : (e.overlay o).overlay upd = e.overlay (o.mergedWith upd) := by
    simp only [overlay, DnsOverrides.mergedWith, hor]
  calc (e.withOverrides o).withOverrides upd
    _ = (e.overlay o).withOverrides upd := withOverrides_normalized _ upd
    _ = e.withOverrides (o.mergedWith upd) := congrArg normalized hoverlay

end EffectiveDnsSettings

/-! ### The settings file -/

namespace UpstreamMode

def all : List UpstreamMode :=
  [.failover, .loadBalance, .parallel]

/-- A mode is read from its name, alone or as the key of an object with no value. -/
def read : Json → Option UpstreamMode
  | .str s => all.find? (·.asStr = s)
  | .obj [(s, .null)] => all.find? (·.asStr = s)
  | _ => none

theorem read_asStr (mode : UpstreamMode) :
  read (.str mode.asStr) = some mode
  := by
  cases mode <;> decide

end UpstreamMode

namespace DnsOverrides

open Json

def fields (o : DnsOverrides) : List (Text × Json) :=
  [("upstreams".toList, ofOption ofTexts o.upstreams),
    ("upstream_mode".toList, ofOption (fun mode => .str mode.asStr) o.upstreamMode),
    ("bootstrap".toList, ofOption ofTexts o.bootstrap),
    ("cache_size".toList, ofOption ofU64 o.cacheSize),
    ("override_min_ttl_secs".toList, ofOption ofU32 o.overrideMinTtlSecs),
    ("override_max_ttl_secs".toList, ofOption ofU32 o.overrideMaxTtlSecs),
    ("ech_probe_domain".toList, ofOption .str o.echProbeDomain),
    ("ech_probe_mins".toList, ofOption ofU32 o.echProbeMins),
    ("strip_ech".toList, ofOption .bool o.stripEch),
    ("log_ipv6".toList, ofOption .bool o.logIpv6)]

def keys : List Text :=
  (fields {}).map Prod.fst

def toJson (o : DnsOverrides) : Json :=
  .obj o.fields

def fromJson (v : Json) : Option DnsOverrides := do
  let fields ← structFields keys v
  some
    { upstreams := ← optional fields "upstreams".toList readTexts
      upstreamMode := ← optional fields "upstream_mode".toList UpstreamMode.read
      bootstrap := ← optional fields "bootstrap".toList readTexts
      cacheSize := ← optional fields "cache_size".toList readU64
      overrideMinTtlSecs := ← optional fields "override_min_ttl_secs".toList readU32
      overrideMaxTtlSecs := ← optional fields "override_max_ttl_secs".toList readU32
      echProbeDomain := ← optional fields "ech_probe_domain".toList asStr
      echProbeMins := ← optional fields "ech_probe_mins".toList readU32
      stripEch := ← optional fields "strip_ech".toList asBool
      logIpv6 := ← optional fields "log_ipv6".toList asBool }

theorem map_fst_fields (o : DnsOverrides) :
  o.fields.map Prod.fst = keys
  := rfl

theorem nodup_keys :
  keys.Nodup
  := by decide

/-- A field is read back as it was written. -/
theorem optional_fields (o : DnsOverrides) {α : Type} {i : ℕ} {key : Text} {write : α → Json}
    {read : Json → Option α} {x : Option α} (hi : o.fields[i]? = some (key, ofOption write x))
    (hread : ∀ a, read (write a) = some a) (hnull : ∀ a, write a ≠ .null) :
  optional o.fields key read = some x
  := by
  apply optional_ofOption _ (List.mem_of_getElem? hi) hread hnull
  rw [map_fst_fields]
  exact nodup_keys

/-- Overrides are read back as they were written. -/
theorem fromJson_toJson (o : DnsOverrides) :
  fromJson o.toJson = some o
  := by
  have htexts (l : List Text) : ofTexts l ≠ .null := by rintro ⟨⟩
  have hu64 (n : UInt64) : ofU64 n ≠ .null := by rintro ⟨⟩
  have hu32 (n : UInt32) : ofU32 n ≠ .null := by rintro ⟨⟩
  have hstr (s : Text) : Json.str s ≠ .null := by rintro ⟨⟩
  have hbool (b : Bool) : Json.bool b ≠ .null := by rintro ⟨⟩
  have hmode (mode : UpstreamMode) : Json.str mode.asStr ≠ .null := by rintro ⟨⟩
  have hasStr (s : Text) : asStr (.str s) = some s := rfl
  have hasBool (b : Bool) : asBool (.bool b) = some b := rfl
  rw [fromJson, toJson, structFields]
  simp only [Option.bind_eq_bind, Option.bind_some,
    o.optional_fields (i := 0) rfl readTexts_ofTexts htexts,
    o.optional_fields (i := 1) rfl UpstreamMode.read_asStr hmode,
    o.optional_fields (i := 2) rfl readTexts_ofTexts htexts,
    o.optional_fields (i := 3) rfl readU64_ofU64 hu64,
    o.optional_fields (i := 4) rfl readU32_ofU32 hu32,
    o.optional_fields (i := 5) rfl readU32_ofU32 hu32,
    o.optional_fields (i := 6) rfl hasStr hstr,
    o.optional_fields (i := 7) rfl readU32_ofU32 hu32,
    o.optional_fields (i := 8) rfl hasBool hbool,
    o.optional_fields (i := 9) rfl hasBool hbool]

theorem writable_toJson (o : DnsOverrides) :
  Writable 2 o.toJson
  := by
  have htexts (texts : List Text) := writable_ofTexts texts 0
  have hu64 (n : UInt64) := (scalar_ofU64 n).writable 1
  have hu32 (n : UInt32) := (scalar_ofU32 n).writable 1
  have hstr (s : Text) := (scalar_str s).writable 1
  have hbool (b : Bool) := (scalar_bool b).writable 1
  apply writable_obj
  simp only [fields, List.forall_mem_cons, List.not_mem_nil, false_implies, implies_true, and_true]
  have hmode (mode : UpstreamMode) := hstr mode.asStr
  exact ⟨writable_ofOption htexts _, writable_ofOption hmode _, writable_ofOption htexts _,
    writable_ofOption hu64 _, writable_ofOption hu32 _, writable_ofOption hu32 _,
    writable_ofOption hstr _, writable_ofOption hu32 _,
    writable_ofOption hbool _, writable_ofOption hbool _⟩

/-- The settings file as the program writes it. -/
def codec (S : SerdeJson) (hS : S.Lawful) : Codec DnsOverrides where
  encode o := S.toStringPretty o.toJson
  decode t := S.fromStr t >>= fromJson
  decode_encode o := by
    obtain ⟨hplain, hdepth⟩ := o.writable_toJson
    rw [hS.fromStr_toStringPretty hplain (lt_of_le_of_lt hdepth (by decide))]
    exact o.fromJson_toJson

/-- The settings file with the reference printer and parser. -/
def referenceCodec : Codec DnsOverrides :=
  codec .reference SerdeJson.lawful_reference

end DnsOverrides

end Dns
