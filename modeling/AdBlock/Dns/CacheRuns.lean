import AdBlock.Dns.Cache
import Mathlib.Data.List.MinMax

/-!
# Runs of the cache

Answers are put into the cache and looked up, and the cache is configured and cleared, with a
clock that does not go back.  What is served was put last under its key, and every record in it
has grown older by the seconds since then (`served_latest`).
-/

namespace Dns

variable {H : Hickory} {L : LruCrate}

/-! ### Records -/

namespace Message

theorem mapRecords_mapRecords (f g : Record H → Record H) (msg : Message H) :
  (msg.mapRecords f).mapRecords g = msg.mapRecords fun r => g (f r)
  := by
  simp [mapRecords, Function.comp_def]

theorem mapRecords_congr {f g : Record H → Record H} {msg : Message H}
    (h : ∀ r ∈ msg.records, f r = g r) :
  msg.mapRecords f = msg.mapRecords g
  := by
  simp only [records, List.mem_append] at h
  rw [mapRecords, mapRecords,
    List.map_congr_left fun r hr => h r (.inl (.inl hr)),
    List.map_congr_left fun r hr => h r (.inl (.inr hr)),
    List.map_congr_left fun r hr => h r (.inr hr)]

theorem records_mapRecords (f : Record H → Record H) (msg : Message H) :
  (msg.mapRecords f).records = msg.records.map f
  := by
  simp [records, mapRecords]

end Message

/-- A record that is older by less than its time to live has lost that age and nothing else. -/
theorem Record.aged_of_lt {r : Record H} {age : ℕ} (h : age < r.ttl.toNat) :
  r.aged age = { r with ttl := r.ttl - UInt32.ofNat age }
    ∧ (r.ttl - UInt32.ofNat age).toNat = r.ttl.toNat - age
  := by
  have hlt : r.ttl.toNat < 2 ^ 32 := r.ttl.toNat_lt
  have hage : (UInt32.ofNat age).toNat = age := by
    rw [UInt32.toNat_ofNat', Nat.mod_eq_of_lt (by omega)]
  have hsub : (r.ttl - UInt32.ofNat age).toNat = r.ttl.toNat - age := by
    rw [UInt32.toNat_sub_of_le _ _ (UInt32.le_iff_toNat_le.mpr (by omega)), hage]
  have hmod : UInt32.ofNat (r.ttl.toNat - age % 2 ^ 32) = r.ttl - UInt32.ofNat age := by
    apply UInt32.toNat_inj.mp
    rw [hsub, UInt32.toNat_ofNat', Nat.mod_eq_of_lt (by omega : age < 2 ^ 32),
      Nat.mod_eq_of_lt (by omega)]
  have hone : (1 : UInt32) ≤ r.ttl - UInt32.ofNat age := by
    rw [UInt32.le_iff_toNat_le, hsub]
    show 1 ≤ _
    omega
  have hmax : max (r.ttl - UInt32.ofNat age) 1 = r.ttl - UInt32.ofNat age := by
    change (if _ then _ else _) = _
    split
    · next hle => apply UInt32.le_antisymm hone hle
    · rfl
  refine ⟨?_, hsub⟩
  rw [aged, hmod, hmax]

/-! ### Runs -/

/-- A call of the cache. -/
inductive CacheOp (H : Hickory) where
  | put (key : CacheKey) (response : Message H)
  | get (key : CacheKey)
  | setConfig (capacity : ℕ) (minTtl maxTtl : UInt32)
  | clear

namespace CacheOp

def isGet : CacheOp H → Bool
  | .get _ => true
  | _ => false

end CacheOp

namespace DnsCache

/-- A call at a time. -/
def step (cache : DnsCache L H) (call : ℕ × CacheOp H) : DnsCache L H :=
  match call.2 with
  | .put key response => cache.put call.1 key response
  | .get key => (cache.get call.1 key).2
  | .setConfig capacity minTtl maxTtl => cache.setConfig capacity minTtl maxTtl
  | .clear => cache.clear.2

def run (cache : DnsCache L H) (calls : List (ℕ × CacheOp H)) : DnsCache L H :=
  calls.foldl step cache

end DnsCache

/-! ### What the calls say -/

/-- Whether the cache is on, and the bounds in force. -/
structure CacheConfig where
  on : Bool
  minTtl : UInt32
  maxTtl : UInt32
  deriving DecidableEq, Repr

namespace CacheConfig

def of (capacity : ℕ) (minTtl maxTtl : UInt32) : CacheConfig where
  on := capacity ≠ 0
  minTtl := minTtl
  maxTtl := maxTtl

def step (config : CacheConfig) (call : ℕ × CacheOp H) : CacheConfig :=
  match call.2 with
  | .setConfig capacity minTtl maxTtl => .of capacity minTtl maxTtl
  | _ => config

/-- The configuration after some calls. -/
def after (config : CacheConfig) (calls : List (ℕ × CacheOp H)) : CacheConfig :=
  calls.foldl step config

def clamp (config : CacheConfig) (r : Record H) : Record H :=
  r.clamp config.minTtl config.maxTtl

theorem after_append_singleton (config : CacheConfig) (calls : List (ℕ × CacheOp H))
    (call : ℕ × CacheOp H) :
  config.after (calls ++ [call]) = (config.after calls).step call
  := List.foldl_concat ..

end CacheConfig

/-- A call leaves what was put under the key: it does not empty the cache, nor is an answer put
there that may be stored. -/
structure Leaves (key : CacheKey) (call : ℕ × CacheOp H) : Prop where
  notClear : call.2 ≠ .clear
  notOff : ∀ minTtl maxTtl, call.2 ≠ .setConfig 0 minTtl maxTtl
  notPut : ∀ response, call.2 = .put key response → DnsCache.cacheable response = false

theorem leaves_get (k : CacheKey) (now : ℕ) (key : CacheKey) :
  Leaves k (now, (.get key : CacheOp H))
  where
  notClear := by simp
  notOff := by simp
  notPut := by simp

theorem leaves_put_of_ne {k key : CacheKey} (h : k ≠ key) (now : ℕ) (response : Message H) :
  Leaves k (now, .put key response)
  where
  notClear := by simp
  notOff := by simp
  notPut := by
    intro _ heq
    cases heq
    exact absurd rfl h

theorem leaves_put_of_not_cacheable (k : CacheKey) (now : ℕ) (key : CacheKey)
    {response : Message H} (h : DnsCache.cacheable response = false) :
  Leaves k (now, .put key response)
  where
  notClear := by simp
  notOff := by simp
  notPut := by
    intro _ heq
    cases heq
    apply h

theorem leaves_setConfig (k : CacheKey) (now : ℕ) {capacity : ℕ} (h : capacity ≠ 0)
    (minTtl maxTtl : UInt32) :
  Leaves k (now, (.setConfig capacity minTtl maxTtl : CacheOp H))
  where
  notClear := by simp
  notOff := by
    intro _ _ heq
    cases heq
    exact h rfl
  notPut := by simp

/-- The last answer that was accepted under the key, with the calls before and after it. -/
structure Latest (start : CacheConfig) (calls : List (ℕ × CacheOp H)) (key : CacheKey)
    (before : List (ℕ × CacheOp H)) (stored : ℕ) (response : Message H)
    (after : List (ℕ × CacheOp H)) : Prop where
  split : calls = before ++ (stored, .put key response) :: after
  on : (start.after before).on = true
  cacheable : DnsCache.cacheable response = true
  leaves : ∀ call ∈ after, Leaves key call

/-- An answer that was stored at a time is served with the age it has reached. -/
structure Served (config : CacheConfig) (stored now : ℕ) (response served : Message H) :
    Prop where
  past : stored ≤ now
  fresh : ∀ r ∈ response.records, now - stored < (config.clamp r).ttl.toNat * nanos
  freshEmpty : response.records = [] → now - stored < emptyResponseTtl * nanos
  noWrap : (now - stored) / nanos < 2 ^ 32
  aged : served = response.mapRecords fun r =>
    { config.clamp r with ttl := (config.clamp r).ttl - UInt32.ofNat ((now - stored) / nanos) }
  ttl : ∀ r ∈ response.records,
    ((config.clamp r).ttl - UInt32.ofNat ((now - stored) / nanos)).toNat
      = (config.clamp r).ttl.toNat - (now - stored) / nanos
    ∧ 1 ≤ (config.clamp r).ttl.toNat - (now - stored) / nanos

/-! ### Entries -/

/-- The seconds that an answer is kept for. -/
def lifetime (response : Message H) : ℕ :=
  match DnsCache.shortest response with
  | some ttl => ttl.toNat
  | none => emptyResponseTtl

/-- What is stored for an answer. -/
def CacheConfig.entry (config : CacheConfig) (stored : ℕ) (response : Message H) :
    CacheEntry H where
  response := response.mapRecords config.clamp
  stored := stored
  expires := stored + lifetime (response.mapRecords config.clamp) * nanos

theorem DnsCache.put_of_cacheable {cache : DnsCache L H} {config : CacheConfig} {now : ℕ}
    {key : CacheKey} {response : Message H} (hmin : cache.minTtl = config.minTtl)
    (hmax : cache.maxTtl = config.maxTtl) (h : cacheable response = true) :
  cache.put now key response
    = { cache with entries := cache.entries.map (L.put key (config.entry now response)) }
  := by
  have hclamp : (Record.clamp cache.minTtl cache.maxTtl : Record H → Record H) = config.clamp := by
    funext r
    rw [CacheConfig.clamp, hmin, hmax]
  rw [put, if_pos h, hclamp]
  rfl

/-- An answer lives shorter than each of its records. -/
theorem lifetime_le {response : Message H} {r : Record H} (h : r ∈ response.records) :
  lifetime response ≤ r.ttl.toNat
  := by
  have hmem : r.ttl ∈ response.records.map Record.ttl := List.mem_map_of_mem h
  rw [lifetime, DnsCache.shortest]
  cases hmin : (response.records.map Record.ttl).min? with
  | none =>
    rw [List.min?_eq_none_iff] at hmin
    rw [hmin] at hmem
    cases hmem
  | some ttl =>
    apply UInt32.le_iff_toNat_le.mp
    apply (List.min?_eq_some_iff.mp hmin).2 _ hmem

/-- An answer without records lives as long as such answers do. -/
theorem lifetime_empty {response : Message H} (h : response.records = []) :
  lifetime response = emptyResponseTtl
  := by
  rw [lifetime, DnsCache.shortest, h]
  rfl

theorem lifetime_lt (response : Message H) :
  lifetime response < 2 ^ 32
  := by
  unfold lifetime
  split
  · next ttl _ => apply ttl.toNat_lt
  · decide

/-- An entry that has not expired serves the answer it was stored for. -/
theorem served_entry {config : CacheConfig} {stored now : ℕ} {response : Message H}
    (hpast : stored ≤ now) (h : (config.entry stored response).expires > now) :
  Served config stored now response
    ((config.entry stored response).response.mapRecords
      (Record.aged ((now - stored) / nanos)))
  := by
  have hage : now - stored < lifetime (response.mapRecords config.clamp) * nanos := by
    have hexpires : now < stored + lifetime (response.mapRecords config.clamp) * nanos := h
    omega
  have hfresh : ∀ r ∈ response.records, now - stored < (config.clamp r).ttl.toNat * nanos := by
    intro r hr
    have hle : lifetime (response.mapRecords config.clamp) ≤ (config.clamp r).ttl.toNat := by
      apply lifetime_le
      rw [Message.records_mapRecords]
      apply List.mem_map_of_mem hr
    apply hage.trans_le (Nat.mul_le_mul_right nanos hle)
  have hseconds : ∀ r ∈ response.records, (now - stored) / nanos < (config.clamp r).ttl.toNat := by
    intro r hr
    apply Nat.div_lt_of_lt_mul
    rw [mul_comm]
    apply hfresh r hr
  constructor
  · apply hpast
  · apply hfresh
  · intro hempty
    rw [lifetime_empty (by rw [Message.records_mapRecords, hempty, List.map_nil])] at hage
    apply hage
  · apply (Nat.div_lt_of_lt_mul (by rwa [mul_comm] at hage)).trans (lifetime_lt _)
  · rw [CacheConfig.entry, Message.mapRecords_mapRecords]
    apply Message.mapRecords_congr
    intro r hr
    apply (Record.aged_of_lt (hseconds r hr)).1
  · intro r hr
    refine ⟨(Record.aged_of_lt (hseconds r hr)).2, ?_⟩
    have := hseconds r hr
    omega

/-! ### The cache along a run -/

theorem Latest.extend {start : CacheConfig} {calls before after : List (ℕ × CacheOp H)}
    {key : CacheKey} {stored : ℕ} {response : Message H} {call : ℕ × CacheOp H}
    (h : Latest start calls key before stored response after) (hcall : Leaves key call) :
  Latest start (calls ++ [call]) key before stored response (after ++ [call])
  where
  split := by rw [h.split, List.append_assoc, List.cons_append]
  on := h.on
  cacheable := h.cacheable
  leaves := by
    rw [List.forall_mem_append, List.forall_mem_singleton]
    exact ⟨h.leaves, hcall⟩

namespace DnsCache

variable {cache : DnsCache L H} {now : ℕ} {key : CacheKey} {law : L.Lawful}

theorem holds_find {entries : L.Cache CacheKey (CacheEntry H)} {k : CacheKey} {e : CacheEntry H}
    (h : law.Holds (find now key entries).2 k e) :
  law.Holds entries k e
  := by
  unfold find at h
  split at h
  · rename_i hget
    split at h
    · apply law.holds_get
      rw [hget]
      apply h
    · apply law.holds_get
      rw [hget]
      apply (law.holds_pop h).2
  · rename_i hget
    apply law.holds_get
    rw [hget]
    apply h

/-- The cache is on and has the entry under the key. -/
def Has (law : L.Lawful) (cache : DnsCache L H) (k : CacheKey) (e : CacheEntry H) : Prop :=
  ∃ entries, cache.entries = some entries ∧ law.Holds entries k e

variable {k : CacheKey} {e : CacheEntry H}

theorem not_has_new (capacity : ℕ) (minTtl maxTtl : UInt32) :
  ¬ (new capacity minTtl maxTtl : DnsCache L H).Has law k e
  := by
  rintro ⟨entries, hentries, he⟩
  rw [new, entriesOf] at hentries
  split at hentries
  · cases hentries
  · obtain rfl := Option.some.inj hentries
    exact law.not_holds_new capacity k e he

/-- What is served is an entry that has not expired. -/
theorem has_of_get_some (law : L.Lawful) {served : Message H}
    (h : (cache.get now key).1 = some served) :
  ∃ e, cache.Has law key e ∧ e.expires > now
    ∧ served = e.response.mapRecords (Record.aged ((now - e.stored) / nanos))
  := by
  have hhit : (cache.entries.map (find now key)).bind Prod.fst = some served := by
    rw [get] at h
    split at h
    · apply h
    · apply h
  obtain ⟨found, hfound, hserved⟩ := Option.bind_eq_some_iff.mp hhit
  obtain ⟨entries, hentries, rfl⟩ := Option.map_eq_some_iff.mp hfound
  unfold find at hserved
  split at hserved
  · rename_i e _ hget
    split at hserved
    · rename_i hexpires
      refine ⟨e, ⟨entries, hentries, ?_⟩, hexpires, (Option.some.inj hserved).symm⟩
      apply law.holds_of_get
      rw [hget]
    · cases hserved
  · cases hserved

/-- A look up leaves the configuration, counts itself, and adds no entry. -/
theorem get_snd (cache : DnsCache L H) (now : ℕ) (key : CacheKey) :
  (cache.get now key).2.entries = cache.entries.map (fun entries => (find now key entries).2)
    ∧ (cache.get now key).2.minTtl = cache.minTtl
    ∧ (cache.get now key).2.maxTtl = cache.maxTtl
    ∧ (cache.get now key).2.hits + (cache.get now key).2.misses
      = cache.hits + cache.misses + 1
  := by
  have hmap : (cache.entries.map (find now key)).map Prod.snd
      = cache.entries.map fun entries => (find now key entries).2 := by
    rw [Option.map_map]
    rfl
  rw [get]
  split
  · exact ⟨hmap, rfl, rfl, by simp only [UInt64.add_assoc, UInt64.add_comm 1]⟩
  · exact ⟨hmap, rfl, rfl, (UInt64.add_assoc _ _ _).symm⟩

theorem Has.of_get (h : (cache.get now key).2.Has law k e) :
  cache.Has law k e
  := by
  obtain ⟨entries, hentries, he⟩ := h
  rw [(get_snd cache now key).1] at hentries
  obtain ⟨old, hold, rfl⟩ := Option.map_eq_some_iff.mp hentries
  exact ⟨old, hold, holds_find he⟩

/-- An answer that is not cacheable leaves the cache as it is. -/
theorem put_of_not_cacheable {response : Message H} (h : ¬ cacheable response = true) :
  cache.put now key response = cache
  := by
  rw [put, if_neg h]

/-- An entry after a store is the stored one, under its key, or was there before. -/
theorem Has.of_put {config : CacheConfig} (hmin : cache.minTtl = config.minTtl)
    (hmax : cache.maxTtl = config.maxTtl) {response : Message H}
    (h : (cache.put now key response).Has law k e) :
  (cache.entries.isSome = true ∧ cacheable response = true ∧ k = key
      ∧ e = config.entry now response)
    ∨ ((cacheable response = true → k ≠ key) ∧ cache.Has law k e)
  := by
  by_cases hcacheable : cacheable response = true
  · rw [put_of_cacheable hmin hmax hcacheable] at h
    obtain ⟨entries, hentries, he⟩ := h
    obtain ⟨old, hold, rfl⟩ := Option.map_eq_some_iff.mp hentries
    rcases law.holds_put he with ⟨rfl, rfl⟩ | ⟨hne, he⟩
    · left
      exact ⟨by rw [hold, Option.isSome_some], hcacheable, rfl, rfl⟩
    · right
      exact ⟨fun _ => hne, old, hold, he⟩
  · rw [put_of_not_cacheable hcacheable] at h
    right
    exact ⟨fun hc => absurd hc hcacheable, h⟩

/-- The bounds of a cache that is on, as its configuration. -/
def config (cache : DnsCache L H) : CacheConfig :=
  ⟨true, cache.minTtl, cache.maxTtl⟩

theorem Has.of_put_config {response : Message H} (h : (cache.put now key response).Has law k e) :
  (cache.entries.isSome = true ∧ cacheable response = true ∧ k = key
      ∧ e = cache.config.entry now response)
    ∨ ((cacheable response = true → k ≠ key) ∧ cache.Has law k e)
  := h.of_put rfl rfl

/-- An entry after a change of the configuration was there before, and the cache is on. -/
theorem Has.of_setConfig {capacity : ℕ} {minTtl maxTtl : UInt32}
    (h : (cache.setConfig capacity minTtl maxTtl).Has law k e) :
  capacity ≠ 0 ∧ cache.Has law k e
  := by
  obtain ⟨entries, hentries, he⟩ := h
  by_cases hzero : capacity = 0
  · rw [setConfig] at hentries
    split at hentries <;> simp [entriesOf, hzero] at hentries
  · use hzero
    cases hold : cache.entries with
    | none =>
      simp only [setConfig, hold, entriesOf, if_neg hzero, Option.some.injEq] at hentries
      rw [← hentries] at he
      exact absurd he (law.not_holds_new capacity k e)
    | some old =>
      simp only [setConfig, hold, if_neg hzero, Option.some.injEq] at hentries
      rw [← hentries] at he
      exact ⟨old, hold, law.holds_resize he⟩

theorem not_has_clear :
  ¬ cache.clear.2.Has law k e
  := by
  rintro ⟨entries, hentries, he⟩
  cases hold : cache.entries with
  | none =>
    simp only [clear, hold] at hentries
    cases hentries
  | some old =>
    simp only [clear, hold, Option.some.injEq] at hentries
    rw [← hentries] at he
    exact law.not_holds_clear old k e he

/-- The cache after some calls: it has the configuration that they set, and an entry is of the
last answer that was accepted under its key. -/
structure Tracks (law : L.Lawful) (start : CacheConfig) (calls : List (ℕ × CacheOp H))
    (cache : DnsCache L H) : Prop where
  on : cache.entries.isSome = (start.after calls).on
  minTtl : cache.minTtl = (start.after calls).minTtl
  maxTtl : cache.maxTtl = (start.after calls).maxTtl
  entries : ∀ key e, cache.Has law key e →
    ∃ before stored response after, Latest start calls key before stored response after
      ∧ e = (start.after before).entry stored response
  counted : cache.hits + cache.misses = UInt64.ofNat (calls.countP (·.2.isGet))

theorem tracks_new (law : L.Lawful) (capacity : ℕ) (minTtl maxTtl : UInt32) :
  (new capacity minTtl maxTtl : DnsCache L H).Tracks law (.of capacity minTtl maxTtl) []
  where
  on := by
    by_cases h : capacity = 0 <;> simp [new, entriesOf, h, CacheConfig.after, CacheConfig.of]
  minTtl := rfl
  maxTtl := rfl
  entries := by
    intro key e he
    exact absurd he (not_has_new capacity minTtl maxTtl)
  counted := rfl

variable {start : CacheConfig} {calls : List (ℕ × CacheOp H)}

/-- Entries that were there before a call that leaves them are those of the same answers. -/
theorem Tracks.extend (h : cache.Tracks law start calls) {call : ℕ × CacheOp H}
    (he : cache.Has law k e) (hleaves : Leaves k call) :
  ∃ before stored response after, Latest start (calls ++ [call]) k before stored response after
    ∧ e = (start.after before).entry stored response
  := by
  obtain ⟨before, stored, response, after, hlatest, heq⟩ := h.entries k e he
  exact ⟨before, stored, response, after ++ [call], hlatest.extend hleaves, heq⟩

/-- A call that is no look up and leaves the configuration. -/
theorem Tracks.of_same (h : cache.Tracks law start calls) {cache' : DnsCache L H}
    {call : ℕ × CacheOp H} (hcall : start.after (calls ++ [call]) = start.after calls)
    (hget : call.2.isGet = false) (hon : cache'.entries.isSome = cache.entries.isSome)
    (hsame : cache'.minTtl = cache.minTtl ∧ cache'.maxTtl = cache.maxTtl
      ∧ cache'.hits = cache.hits ∧ cache'.misses = cache.misses)
    (hentries : ∀ key e, cache'.Has law key e →
      ∃ before stored response after,
        Latest start (calls ++ [call]) key before stored response after
          ∧ e = (start.after before).entry stored response) :
  cache'.Tracks law start (calls ++ [call])
  := by
  obtain ⟨hmin, hmax, hhits, hmisses⟩ := hsame
  constructor
  · rw [hcall, hon, h.on]
  · rw [hcall, hmin, h.minTtl]
  · rw [hcall, hmax, h.maxTtl]
  · apply hentries
  · rw [hhits, hmisses, h.counted, List.countP_append, List.countP_singleton, hget]
    rfl

theorem tracks_put (h : cache.Tracks law start calls) (response : Message H) :
  (cache.put now key response).Tracks law start (calls ++ [(now, .put key response)])
  := by
  have hsame : (cache.put now key response).entries.isSome = cache.entries.isSome
      ∧ (cache.put now key response).minTtl = cache.minTtl
      ∧ (cache.put now key response).maxTtl = cache.maxTtl
      ∧ (cache.put now key response).hits = cache.hits
      ∧ (cache.put now key response).misses = cache.misses := by
    by_cases hcacheable : cacheable response = true
    · rw [put_of_cacheable h.minTtl h.maxTtl hcacheable, Option.isSome_map]
      exact ⟨rfl, rfl, rfl, rfl, rfl⟩
    · rw [put_of_not_cacheable hcacheable]
      exact ⟨rfl, rfl, rfl, rfl, rfl⟩
  apply h.of_same (CacheConfig.after_append_singleton ..) rfl hsame.1 hsame.2
  intro k e he
  rcases he.of_put h.minTtl h.maxTtl with ⟨hon, hcacheable, rfl, rfl⟩ | ⟨hne, he⟩
  · refine ⟨calls, now, response, [], ⟨rfl, ?_, hcacheable, ?_⟩, rfl⟩
    · rw [← h.on, hon]
    · simp
  · apply h.extend he
    by_cases hcacheable : cacheable response = true
    · apply leaves_put_of_ne (hne hcacheable)
    · apply leaves_put_of_not_cacheable k now key (Bool.not_eq_true _ ▸ hcacheable)

theorem tracks_get (h : cache.Tracks law start calls) :
  (cache.get now key).2.Tracks law start (calls ++ [(now, .get key)])
  := by
  obtain ⟨hentries, hmin, hmax, hcounted⟩ := get_snd cache now key
  have hafter : start.after (calls ++ [(now, .get key)]) = start.after calls :=
    CacheConfig.after_append_singleton ..
  constructor
  · rw [hafter, ← h.on, hentries, Option.isSome_map]
  · rw [hafter, hmin, h.minTtl]
  · rw [hafter, hmax, h.maxTtl]
  · intro k e he
    apply h.extend he.of_get (leaves_get k now key)
  · rw [hcounted, h.counted, List.countP_append]
    apply (UInt64.ofNat_add _ 1).symm

theorem tracks_setConfig (h : cache.Tracks law start calls) (capacity : ℕ)
    (minTtl maxTtl : UInt32) :
  (cache.setConfig capacity minTtl maxTtl).Tracks law start
    (calls ++ [(now, .setConfig capacity minTtl maxTtl)])
  := by
  have hafter : start.after (calls ++ [(now, .setConfig capacity minTtl maxTtl)])
      = .of capacity minTtl maxTtl := CacheConfig.after_append_singleton ..
  constructor
  · rw [hafter, setConfig, CacheConfig.of]
    by_cases hzero : capacity = 0 <;> cases cache.entries <;> simp [entriesOf, hzero]
  · rw [hafter]
    rfl
  · rw [hafter]
    rfl
  · intro k e he
    obtain ⟨hzero, he⟩ := he.of_setConfig
    apply h.extend he (leaves_setConfig k now hzero minTtl maxTtl)
  · rw [List.countP_append]
    apply h.counted

theorem tracks_clear (h : cache.Tracks law start calls) :
  cache.clear.2.Tracks law start (calls ++ [(now, .clear)])
  := by
  have hsame : cache.clear.2.entries.isSome = cache.entries.isSome
      ∧ cache.clear.2.minTtl = cache.minTtl ∧ cache.clear.2.maxTtl = cache.maxTtl
      ∧ cache.clear.2.hits = cache.hits ∧ cache.clear.2.misses = cache.misses := by
    cases hold : cache.entries <;> simp [clear, hold]
  apply h.of_same (CacheConfig.after_append_singleton ..) rfl hsame.1 hsame.2
  intro k e he
  exact absurd he not_has_clear

theorem tracks_step (h : cache.Tracks law start calls) (call : ℕ × CacheOp H) :
  (cache.step call).Tracks law start (calls ++ [call])
  := by
  obtain ⟨now, op⟩ := call
  cases op with
  | put key response => apply tracks_put h
  | get key => apply tracks_get h
  | setConfig capacity minTtl maxTtl => apply tracks_setConfig h
  | clear => apply tracks_clear h

theorem tracks_run (law : L.Lawful) (capacity : ℕ) (minTtl maxTtl : UInt32)
    (calls : List (ℕ × CacheOp H)) :
  ((new capacity minTtl maxTtl : DnsCache L H).run calls).Tracks law
    (.of capacity minTtl maxTtl) calls
  := by
  induction calls using List.reverseRecOn with
  | nil => apply tracks_new
  | append_singleton calls call ih =>
    rw [run, List.foldl_concat]
    apply tracks_step ih

/-- Every call of a run is at the time of a later one or before it. -/
theorem le_of_mem {calls before after : List (ℕ × CacheOp H)} {call last : ℕ × CacheOp H}
    (hclock : (calls.map Prod.fst).Pairwise (· ≤ ·)) (hsplit : calls = before ++ last :: after)
    (hmem : call ∈ before) :
  call.1 ≤ last.1
  := by
  rw [hsplit, List.map_append, List.map_cons, List.pairwise_append] at hclock
  apply hclock.2.2 _ (List.mem_map_of_mem hmem) _ List.mem_cons_self

end DnsCache

/-- A hit serves the last answer that was accepted under the key, at the age it has reached, and
every look up is counted. -/
theorem served_latest (law : L.Lawful) (capacity : ℕ) (minTtl maxTtl : UInt32)
    (calls : List (ℕ × CacheOp H)) (hclock : (calls.map Prod.fst).Pairwise (· ≤ ·)) :
  (∀ before now key after, calls = before ++ (now, .get key) :: after → ∀ served,
    (((DnsCache.new capacity minTtl maxTtl : DnsCache L H).run before).get now key).1
      = some served →
    ∃ pre stored response post,
      Latest (.of capacity minTtl maxTtl) before key pre stored response post
        ∧ Served ((CacheConfig.of capacity minTtl maxTtl).after pre) stored now response served
        ∧ served.metadata.truncation = false
        ∧ (served.metadata.responseCode = .noError ∨ served.metadata.responseCode = .nxDomain))
    ∧ ((DnsCache.new capacity minTtl maxTtl : DnsCache L H).run calls).hits
        + ((DnsCache.new capacity minTtl maxTtl : DnsCache L H).run calls).misses
      = UInt64.ofNat (calls.countP (·.2.isGet))
  := by
  constructor
  · intro before now key after hsplit served hserved
    have htracks := DnsCache.tracks_run law capacity minTtl maxTtl before
    obtain ⟨e, he, hexpires, rfl⟩ := DnsCache.has_of_get_some law hserved
    obtain ⟨pre, stored, response, post, hlatest, rfl⟩ := htracks.entries key e he
    refine ⟨pre, stored, response, post, hlatest, ?_, ?_⟩
    · have hmem : (stored, CacheOp.put key response) ∈ before := by
        rw [hlatest.split]
        simp
      apply served_entry (DnsCache.le_of_mem hclock hsplit hmem) hexpires
    · -- the metadata is that of the answer that was accepted
      have hcacheable := hlatest.cacheable
      simp only [DnsCache.cacheable, Bool.and_eq_true, Bool.not_eq_true', Bool.or_eq_true,
        decide_eq_true_eq] at hcacheable
      apply hcacheable
  · apply (DnsCache.tracks_run law capacity minTtl maxTtl calls).counted

/-- An answer with one record that lives for a minute. -/
def minuteAnswer : Message .written :=
  (Message.response 1 .query).addAnswer
    (.fromRdata "app.example.".toList 60 (.a ⟨192, 0, 2, 7⟩))

def minuteKey : CacheKey :=
  .of (.query "app.example.".toList .a : Query .written)

/-- The answer two and a half seconds later. -/
def minuteServed : Message .written :=
  (Message.response 1 .query).addAnswer
    (.fromRdata "app.example.".toList 58 (.a ⟨192, 0, 2, 7⟩))

theorem served_latest_minute :
  ∃ pre stored response post,
    Latest (.of 4096 0 0) [(0, .put minuteKey minuteAnswer)] minuteKey pre stored response post
      ∧ Served ((CacheConfig.of 4096 0 0).after pre) stored 2500000000 response minuteServed
      ∧ minuteServed.metadata.truncation = false
      ∧ (minuteServed.metadata.responseCode = .noError
        ∨ minuteServed.metadata.responseCode = .nxDomain)
  := by
  apply (served_latest LruCrate.recentLawful 4096 0 0
    [(0, .put minuteKey minuteAnswer), (2500000000, .get minuteKey)] (by simp)).1
    [(0, .put minuteKey minuteAnswer)] 2500000000 minuteKey [] rfl
  rfl

end Dns
