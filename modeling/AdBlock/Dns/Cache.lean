import AdBlock.Dns.Message
import AdBlock.Lru.Basic

/-!
# The cache of DNS answers

Answers by question, each with the moment it was stored and the one it expires at.  Moments are in
nanoseconds.  An answer that is served has grown older by the whole seconds since it was stored.
-/

namespace Dns

variable {H : Hickory} (L : LruCrate)

/-- What answers are stored under. -/
structure CacheKey where
  name : Text
  qtype : UInt16
  qclass : UInt16
  deriving DecidableEq, Repr

def CacheKey.of (query : Query H) : CacheKey where
  name := Text.toAsciiLowercase (H.toAscii query.name)
  qtype := query.queryType.code
  qclass := query.queryClass

structure CacheEntry (H : Hickory) where
  response : Message H
  stored : ℕ
  expires : ℕ

def nanos : ℕ := 1000000000

/-- The seconds that an answer without records is kept for. -/
def emptyResponseTtl : ℕ := 30

/-- The cache, which is off when it has no entries. -/
structure DnsCache (H : Hickory) where
  entries : Option (L.Cache CacheKey (CacheEntry H))
  minTtl : UInt32
  maxTtl : UInt32
  hits : UInt64
  misses : UInt64

variable {L}

/-- A record that has grown older by some seconds, of which 32 bits count. -/
def Record.aged (age : ℕ) (r : Record H) : Record H :=
  { r with ttl := max (UInt32.ofNat (r.ttl.toNat - age % 2 ^ 32)) 1 }

/-- A record with its time to live within the bounds.  A bound of zero is none. -/
def Record.clamp (minTtl maxTtl : UInt32) (r : Record H) : Record H :=
  let ttl := if minTtl > 0 then max r.ttl minTtl else r.ttl
  { r with ttl := if maxTtl > 0 then min ttl maxTtl else ttl }

namespace DnsCache

/-- An LRU cache of a capacity, or none for the capacity zero. -/
def entriesOf (capacity : ℕ) : Option (L.Cache CacheKey (CacheEntry H)) :=
  if capacity = 0 then none else some (L.new capacity)

def new (capacity : ℕ) (minTtl maxTtl : UInt32) : DnsCache L H where
  entries := entriesOf capacity
  minTtl := minTtl
  maxTtl := maxTtl
  hits := 0
  misses := 0

def setConfig (capacity : ℕ) (minTtl maxTtl : UInt32) (cache : DnsCache L H) : DnsCache L H :=
  let entries := match cache.entries with
    | some entries => if capacity = 0 then none else some (L.resize capacity entries)
    | none => entriesOf capacity
  { cache with entries, minTtl, maxTtl }

/-- What a look up finds in the entries, and what it leaves of them. -/
def find (now : ℕ) (key : CacheKey) (entries : L.Cache CacheKey (CacheEntry H)) :
    Option (Message H) × L.Cache CacheKey (CacheEntry H) :=
  match L.get key entries with
  | (some e, entries) =>
      if e.expires > now then
        (some (e.response.mapRecords (Record.aged ((now - e.stored) / nanos))), entries)
      else (none, L.pop key entries)
  | (none, entries) => (none, entries)

def get (now : ℕ) (key : CacheKey) (cache : DnsCache L H) : Option (Message H) × DnsCache L H :=
  let found := cache.entries.map (find now key)
  let hit := found.bind Prod.fst
  let entries := found.map Prod.snd
  match hit with
  | some _ => (hit, { cache with entries, hits := cache.hits + 1 })
  | none => (hit, { cache with entries, misses := cache.misses + 1 })

/-- An answer may be stored. -/
def cacheable (response : Message H) : Bool :=
  !response.metadata.truncation
    && (response.metadata.responseCode = .noError || response.metadata.responseCode = .nxDomain)

/-- The shortest time to live. -/
def shortest (response : Message H) : Option UInt32 :=
  (response.records.map Record.ttl).min?

def put (now : ℕ) (key : CacheKey) (response : Message H) (cache : DnsCache L H) : DnsCache L H :=
  if cacheable response then
    let response := response.mapRecords (Record.clamp cache.minTtl cache.maxTtl)
    let ttl := match shortest response with
      | some ttl => ttl.toNat
      | none => emptyResponseTtl
    let entry : CacheEntry H := { response, stored := now, expires := now + ttl * nanos }
    { cache with entries := cache.entries.map (L.put key entry) }
  else cache

/-- The cache without its entries, and how many there were. -/
def clear (cache : DnsCache L H) : ℕ × DnsCache L H :=
  match cache.entries with
  | none => (0, cache)
  | some entries => (L.len entries, { cache with entries := some (L.clear entries) })

end DnsCache

end Dns
