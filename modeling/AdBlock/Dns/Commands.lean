import AdBlock.Dns.Service
import AdBlock.Json.Value

/-!
# Commands of the administration

A command comes as a JSON document: an edit of the list of upstream servers, or an update of the
settings.  A number of an update is cut down to the bits of its setting before the settings are
checked, so it is applied as it is typed exactly if it fits (`apply_asTyped_iff`).
-/

namespace Dns

open DnsService

/-- An update of the settings. -/
inductive DnsConfigCommand where
  | reset
  | apply (upd : DnsOverrides)
  deriving DecidableEq, Repr

section Parse

variable (S : SerdeJson) (jsonError : Text → Text)

/-- The value that a body is read as. -/
def readBody (body : Text) : Except Text Json :=
  match S.fromStr body with
  | some v => .ok v.toValue
  | none => .error (jsonError body)

namespace UpstreamCommand

def specField (v : Json) : Except Text Text :=
  match ((v.get "spec".toList).bind Json.asStr).map Text.trim with
  | some (c :: spec) => .ok (c :: spec)
  | _ => .error "expected 'spec'".toList

/-- The text of a field, or none. -/
def textField (v : Json) (key : Text) : Text :=
  Text.trim (((v.get key).bind Json.asStr).getD [])

/-- The transport that is typed in front of the host, or the one that is picked. -/
def parseScheme (v : Json) (typedScheme : Option Text) : Except Text Text :=
  let scheme := typedScheme.getD (((v.get "scheme".toList).bind Json.asStr).getD "https".toList)
  if scheme = "https".toList then .ok "https".toList
  else if scheme = "tls".toList ∨ scheme = "dot".toList then .ok "tls".toList
  else if scheme = "udp".toList then .ok "udp".toList
  else if scheme = "tcp".toList then .ok "tcp".toList
  else .error ("unknown transport ".toList ++ quoted scheme)

def parseAdd (v : Json) : Except Text UpstreamCommand :=
  let name := textField v "name".toList
  let host := textField v "host".toList
  if name = [] then .error "a name is required".toList
  else if '#' ∈ name then .error "the name cannot contain '#'".toList
  else if host = [] then .error "a hostname or IPv4 address is required".toList
  else
    let (typedScheme, host) := match Text.splitOnceText "://".toList host with
      | some (s, h) => (some (Unicode.toLowercase (Text.trim s)), Text.trim h)
      | none => (none, host)
    if host = [] then .error "a hostname or IPv4 address is required".toList
    else do
      let scheme ← parseScheme v typedScheme
      .ok (.add name host scheme)

def parse (body : Text) : Except Text UpstreamCommand := do
  let v ← readBody S jsonError body
  if (v.get "delete".toList).bind Json.asBool = some true then
    (specField v).map .delete
  else
    match (v.get "enabled".toList).bind Json.asBool with
    | some enabled => (specField v).map fun spec => .setEnabled spec enabled
    | none => parseAdd v

end UpstreamCommand

namespace DnsConfigCommand

/-- The number of a field. -/
def numberField (v : Json) (key : Text) : Option ℕ :=
  (v.get key).bind Json.asU64

/-- The texts of a list, without those that are empty. -/
def textsField (v : Json) (key : Text) : Option (List Text) :=
  match v.get key with
  | some (.arr items) => some (((items.filterMap Json.asStr).map Text.trim).filter (· ≠ []))
  | _ => none

def modeField (v : Json) : Except Text (Option UpstreamMode) :=
  match v.get "upstream_mode".toList with
  | none => .ok none
  | some .null => .ok none
  | some m =>
      match UpstreamMode.read m with
      | some mode => .ok (some mode)
      | none =>
          .error ("upstream_mode must be \"failover\", \"load-balance\", or \"parallel\"").toList

/-- The update of a document.  Numbers are cut down to the bits of their settings. -/
def overridesOf (v : Json) : Except Text DnsOverrides := do
  let upstreamMode ← modeField v
  .ok
    { upstreams := textsField v "upstreams".toList
      upstreamMode
      bootstrap := textsField v "bootstrap".toList
      cacheSize := (numberField v "cache_size".toList).map UInt64.ofNat
      overrideMinTtlSecs := (numberField v "override_min_ttl_secs".toList).map UInt32.ofNat
      overrideMaxTtlSecs := (numberField v "override_max_ttl_secs".toList).map UInt32.ofNat
      echProbeDomain := ((v.get "ech_probe_domain".toList).bind Json.asStr).map Text.trim
      echProbeMins := (numberField v "ech_probe_mins".toList).map UInt32.ofNat
      stripEch := (v.get "strip_ech".toList).bind Json.asBool
      logIpv6 := (v.get "log_ipv6".toList).bind Json.asBool }

def parse (body : Text) : Except Text DnsConfigCommand := do
  let v ← readBody S jsonError body
  if (v.get "reset".toList).bind Json.asBool = some true then .ok .reset
  else (overridesOf v).map .apply

end DnsConfigCommand

end Parse

/-! ### Numbers as they are typed -/

open DnsConfigCommand

/-- The settings have the numbers that a document gives, and its bounds are in order. -/
structure AsTyped (v : Json) (e : EffectiveDnsSettings) : Prop where
  cacheSize : ∀ n, numberField v "cache_size".toList = some n → e.cacheSize.toNat = n
  minTtl : ∀ n, numberField v "override_min_ttl_secs".toList = some n →
    e.overrideMinTtlSecs.toNat = n
  maxTtl : ∀ n, numberField v "override_max_ttl_secs".toList = some n →
    e.overrideMaxTtlSecs.toNat = n
  probeMins : ∀ n, numberField v "ech_probe_mins".toList = some n → e.echProbeMins.toNat = n
  ordered : ∀ lo hi, numberField v "override_min_ttl_secs".toList = some lo →
    numberField v "override_max_ttl_secs".toList = some hi → 0 < hi → lo ≤ hi

/-- The keys of the settings of 32 bits. -/
def shortKeys : List Text :=
  ["override_min_ttl_secs".toList, "override_max_ttl_secs".toList, "ech_probe_mins".toList]

theorem numberField_lt {v : Json} {key : Text} {n : ℕ} (h : numberField v key = some n) :
  n < 2 ^ 64
  := by
  obtain ⟨field, -, hfield⟩ := Option.bind_eq_some_iff.mp h
  cases field with
  | int k =>
    rw [Json.asU64] at hfield
    split at hfield
    · rename_i hk
      obtain rfl := Option.some.inj hfield
      omega
    · cases hfield
  | _ => cases hfield

/-- A number of 32 bits is the one that is typed exactly if that fits. -/
theorem toNat_getD_eq_iff {typed : Option ℕ} {n : ℕ} (h : typed = some n) (d : UInt32) :
  ((typed.map UInt32.ofNat).getD d).toNat = n ↔ n < 2 ^ 32
  := by
  subst h
  rw [Option.map_some, Option.getD_some, UInt32.toNat_ofNat']
  constructor
  · intro h
    have := Nat.mod_lt n (Nat.two_pow_pos 32)
    omega
  · apply Nat.mod_eq_of_lt

/-- Settings that are put to use are valid, and they are the ones that were asked for. -/
theorem realize_eq_ok {eff : EffectiveDnsSettings} {persist : Call Unit} {st st' : DnsService}
    (h : (realize eff persist).run st = (.ok (), st')) :
  eff.validate = .ok () ∧ st'.live.settings = eff
  := by
  obtain ⟨_, _, hvalid, h⟩ := Fallible.run_bind_eq_ok h
  obtain ⟨_, _, -, h⟩ := Fallible.run_bind_eq_ok h
  obtain ⟨_, _, -, h⟩ := Fallible.run_bind_eq_ok h
  obtain ⟨_, _, -, h⟩ := Fallible.run_bind_eq_ok h
  constructor
  · apply congrArg Prod.fst hvalid
  · have hpublished : _ = st' := congrArg Prod.snd h
    rw [← hpublished]
    rfl

theorem applySettings_eq_ok {codec : Codec DnsOverrides} {upd : DnsOverrides}
    {saved : Except Text Unit} {st st' : DnsService}
    (h : (applySettings codec upd saved).run st = (.ok (), st')) :
  (st.live.settings.withOverrides upd).validate = .ok ()
    ∧ st'.live.settings = st.live.settings.withOverrides upd
  := by
  rw [applySettings, Fallible.run_bind_ok (run_readLive st)] at h
  apply realize_eq_ok h

theorem overridesOf_eq_ok {v : Json} {upd : DnsOverrides} (h : overridesOf v = .ok upd) :
  upd.cacheSize = (numberField v "cache_size".toList).map UInt64.ofNat
    ∧ upd.overrideMinTtlSecs = (numberField v "override_min_ttl_secs".toList).map UInt32.ofNat
    ∧ upd.overrideMaxTtlSecs = (numberField v "override_max_ttl_secs".toList).map UInt32.ofNat
    ∧ upd.echProbeMins = (numberField v "ech_probe_mins".toList).map UInt32.ofNat
  := by
  obtain ⟨mode, -, h⟩ := Fallible.bind_eq_ok h
  injection h with h
  subst h
  exact ⟨rfl, rfl, rfl, rfl⟩

theorem parse_eq_apply {S : SerdeJson} {jsonError : Text → Text} {body : Text} {v : Json}
    {upd : DnsOverrides} (hbody : readBody S jsonError body = .ok v)
    (h : DnsConfigCommand.parse S jsonError body = .ok (.apply upd)) :
  overridesOf v = .ok upd
  := by
  have hparse : (if (v.get "reset".toList).bind Json.asBool = some true
      then .ok .reset else (overridesOf v).map .apply : Except Text DnsConfigCommand)
      = .ok (.apply upd) := by
    rw [DnsConfigCommand.parse, hbody] at h
    exact h
  split at hparse
  · cases hparse
  · cases hoverrides : overridesOf v with
    | error e =>
      rw [hoverrides] at hparse
      cases hparse
    | ok o =>
      rw [hoverrides] at hparse
      injection hparse with hparse
      injection hparse with hparse
      rw [hparse]

/-- An update that is accepted sets the numbers that are typed exactly if those for settings of 32
bits fit. -/
theorem apply_asTyped_iff (S : SerdeJson) (jsonError : Text → Text) (codec : Codec DnsOverrides)
    {body : Text} {v : Json} {upd : DnsOverrides} (hbody : readBody S jsonError body = .ok v)
    (hparse : DnsConfigCommand.parse S jsonError body = .ok (.apply upd))
    (saved : Except Text Unit) {st st' : DnsService}
    (happly : (applySettings codec upd saved).run st = (.ok (), st')) :
  AsTyped v st'.live.settings
    ↔ ∀ key ∈ shortKeys, ∀ n, numberField v key = some n → n < 2 ^ 32
  := by
  obtain ⟨hsize, hmin, hmax, hmins⟩ := overridesOf_eq_ok (parse_eq_apply hbody hparse)
  obtain ⟨hvalid, hsettings⟩ := applySettings_eq_ok happly
  have hminIff {n : ℕ} (hn : numberField v "override_min_ttl_secs".toList = some n) :
      st'.live.settings.overrideMinTtlSecs.toNat = n ↔ n < 2 ^ 32 := by
    rw [hsettings, ← toNat_getD_eq_iff hn st.live.settings.overrideMinTtlSecs, ← hmin]
    rfl
  have hmaxIff {n : ℕ} (hn : numberField v "override_max_ttl_secs".toList = some n) :
      st'.live.settings.overrideMaxTtlSecs.toNat = n ↔ n < 2 ^ 32 := by
    rw [hsettings, ← toNat_getD_eq_iff hn st.live.settings.overrideMaxTtlSecs, ← hmax]
    rfl
  have hminsIff {n : ℕ} (hn : numberField v "ech_probe_mins".toList = some n) :
      st'.live.settings.echProbeMins.toNat = n ↔ n < 2 ^ 32 := by
    rw [hsettings, ← toNat_getD_eq_iff hn st.live.settings.echProbeMins, ← hmins]
    rfl
  rw [shortKeys]
  simp only [List.forall_mem_cons, List.not_mem_nil, false_implies, implies_true, and_true]
  constructor
  · intro h
    exact ⟨fun n hn => (hminIff hn).mp (h.minTtl n hn), fun n hn => (hmaxIff hn).mp (h.maxTtl n hn),
      fun n hn => (hminsIff hn).mp (h.probeMins n hn)⟩
  · rintro ⟨hminFits, hmaxFits, hminsFits⟩
    constructor
    · intro n hn
      rw [hsettings]
      change (upd.cacheSize.getD _).toNat = n
      rw [hsize, hn, Option.map_some, Option.getD_some, UInt64.toNat_ofNat',
        Nat.mod_eq_of_lt (numberField_lt hn)]
    · intro n hn
      apply (hminIff hn).mpr (hminFits n hn)
    · intro n hn
      apply (hmaxIff hn).mpr (hmaxFits n hn)
    · intro n hn
      apply (hminsIff hn).mpr (hminsFits n hn)
    · -- the settings are checked with the numbers that were typed
      intro lo hi hlo hhi hpos
      have hlo' := (hminIff hlo).mpr (hminFits lo hlo)
      have hhi' := (hmaxIff hhi).mpr (hmaxFits hi hhi)
      by_contra hlt
      rw [← hsettings, EffectiveDnsSettings.validate, if_pos] at hvalid
      · cases hvalid
      · simp only [UInt32.lt_iff_toNat_lt, hlo', hhi', UInt32.toNat_zero]
        omega

/-- A service with its defaults. -/
def defaultService : DnsService where
  live := { resolver := ⟨[], .failover, []⟩, settings := EffectiveDnsSettings.fromConfig {} }
  file := none

/-- An update of the bounds. -/
def boundsUpdate (minTtl maxTtl : ℤ) : Json :=
  .obj [("override_max_ttl_secs".toList, .int maxTtl),
    ("override_min_ttl_secs".toList, .int minTtl)]

/-- A body that was written is read as the value that was written. -/
theorem readBody_toString {v : Json} (hplain : v.Plain) (hdepth : v.depth < Json.recursionLimit)
    (jsonError : Text → Text) :
  readBody .reference jsonError (SerdeJson.reference.toString v) = .ok v.toValue
  := by
  have hread := SerdeJson.lawful_reference.fromStr_toString hplain hdepth
    (List.forall_mem_nil _)
  rw [List.append_nil] at hread
  rw [readBody, hread]

theorem readBody_boundsUpdate {minTtl maxTtl : ℤ} (hmin : 0 ≤ minTtl ∧ minTtl < 2 ^ 64)
    (hmax : 0 ≤ maxTtl ∧ maxTtl < 2 ^ 64) :
  readBody .reference id (SerdeJson.reference.toString (boundsUpdate minTtl maxTtl))
    = .ok (boundsUpdate minTtl maxTtl)
  := by
  apply readBody_toString
  · apply Json.Plain.obj
    simp only [List.forall_mem_cons, List.not_mem_nil, false_implies, implies_true, and_true]
    exact ⟨.int (by omega) hmax.2, .int (by omega) hmin.2⟩
  · simp [boundsUpdate, Json.depth, Json.depthFields, Json.recursionLimit]

/-- The default service after an update. -/
def updated (upd : DnsOverrides) : DnsService :=
  ((applySettings DnsOverrides.referenceCodec upd (.ok ())).run defaultService).2

theorem apply_asTyped_hour :
  AsTyped (boundsUpdate 60 3600)
    (updated { overrideMinTtlSecs := some 60, overrideMaxTtlSecs := some 3600 }).live.settings
  := by
  have hbody := @readBody_boundsUpdate 60 3600 (by decide) (by decide)
  have hparse : DnsConfigCommand.parse .reference id
      (SerdeJson.reference.toString (boundsUpdate 60 3600))
      = .ok (.apply { overrideMinTtlSecs := some 60, overrideMaxTtlSecs := some 3600 }) := by
    rw [DnsConfigCommand.parse, hbody]
    rfl
  have happly : (applySettings DnsOverrides.referenceCodec
      { overrideMinTtlSecs := some 60, overrideMaxTtlSecs := some 3600 } (.ok ())).run
      defaultService
      = (.ok (), updated { overrideMinTtlSecs := some 60, overrideMaxTtlSecs := some 3600 }) := rfl
  apply (apply_asTyped_iff .reference id DnsOverrides.referenceCodec hbody hparse (.ok ())
    happly).mpr
  have hfits : ∀ key ∈ shortKeys, (numberField (boundsUpdate 60 3600) key).all (· < 2 ^ 32) := by
    decide
  intro key hkey n hn
  have hlt := hfits key hkey
  rw [hn] at hlt
  exact of_decide_eq_true hlt

/-- A minimum of `2 ^ 32` seconds above a maximum of an hour is accepted, and is no bound. -/
theorem apply_asTyped_wrapped :
  DnsConfigCommand.parse .reference id
      (SerdeJson.reference.toString (boundsUpdate 4294967296 3600))
      = .ok (.apply { overrideMinTtlSecs := some 0, overrideMaxTtlSecs := some 3600 })
    ∧ (applySettings DnsOverrides.referenceCodec
      { overrideMinTtlSecs := some 0, overrideMaxTtlSecs := some 3600 } (.ok ())).run defaultService
      = (.ok (), updated { overrideMinTtlSecs := some 0, overrideMaxTtlSecs := some 3600 })
    ∧ numberField (boundsUpdate 4294967296 3600) "override_min_ttl_secs".toList = some 4294967296
    ∧ (updated
      { overrideMinTtlSecs := some 0, overrideMaxTtlSecs := some 3600 }).live.settings.overrideMinTtlSecs
      = 0
  := by
  refine ⟨?_, rfl, rfl, rfl⟩
  rw [DnsConfigCommand.parse, readBody_boundsUpdate (by decide) (by decide)]
  rfl

end Dns
