import AdBlock.Files.Folders
import AdBlock.Lru.Retrieval
import AdBlock.Process.Exclusive
import AdBlock.Process.Rely
import AdBlock.Proxy.Blackhole
import AdBlock.Proxy.Settings
import Mathlib.Data.Fintype.Basic

/-!
# Addresses that outlive their settings

Hosts are resolved while settings are applied.  A host that was resolved is kept for a while, and
settings that are applied drop what was kept.  A lookup that is under way then is not dropped: it
stores what it has found after that.

A lookup carries the calls of `apply` that had begun when it was started, so that what is answered
can be compared with the calls that have returned.  After a call has returned, resolving a host
gives nothing from before it, whatever is called next, exactly if nothing from before it is kept or
under way (`current_iff`).  A host that is resolved without interruption is resolved as
`EgressPolicy.resolve` says (`run_resolve`).
-/

namespace Proxy

open Process

open Dns (Hickory Pipeline)

/-- What is called, or time that passes. -/
inductive EgressCall where
  | resolve (host : Text)
  | apply (upd : EgressOverrides) (written : FileWrite)
  | elapse (time : ℕ)
  deriving DecidableEq

/-- There are any number of calls of each kind. -/
abbrev CallId :=
  ℕ × EgressCall

/-- What a lookup has found, and the calls of `apply` that had begun when it was started. -/
structure Lookup where
  addrs : List Net.IpAddr
  begun : List CallId
  deriving DecidableEq

structure EgressSettings where
  resolverOnly : Bool
  disableIpv6 : Bool
  deriving DecidableEq, Repr

inductive EgressReply where
  | resolved (answer : Except Text Lookup)
  | applied (settings : EgressSettings)
  | elapsed
  deriving DecidableEq

structure EgressState (A : Library) (H : Hickory) (L : LruCrate) where
  now : ℕ
  dns : Pipeline A H L
  resolverOnly : Bool
  disableIpv6 : Bool
  file : Option Text
  addrCache : TtlCache L Lookup
  echCache : TtlCache L (Option Bytes)
  /-- The calls of `apply` that have begun. -/
  begun : List CallId

def TtlCache.clear {L : LruCrate} {T : Type} (cache : TtlCache L T) : TtlCache L T :=
  ⟨L.clear cache.map⟩

namespace Egress

variable {A : Library} {H : Hickory} {L : LruCrate}

/-! ### Calls -/

/-- The service answers a lookup. -/
def answer (host : Text) (begun : List CallId) :
    Except Text (List Net.IpAddr) → Process (EgressState A H L) EgressReply
  | .error e => atomic fun s => (.resolved (.error e), s)
  | .ok addrs => atomic fun s =>
      (.resolved (.ok { addrs, begun }),
        { s with addrCache := s.addrCache.put s.now host { addrs, begun } })

/-- What the service finds. -/
def found (w : Outside H) (host : Text) (disableIpv6 : Bool) (s : EgressState A H L) :
    Except Text (List Net.IpAddr) × Pipeline A H L :=
  let (addrs, dns, _) := s.dns.resolve w.a w.aaaa w.idA w.idAaaa host !disableIpv6
  (addrs, dns)

/-- The service is asked, and its answer is awaited. -/
def lookUp (w : Outside H) (host : Text) (disableIpv6 : Bool) :
    Process (EgressState A H L) EgressReply := do
  let (begun, addrs) ← atomic fun s =>
    ((s.begun, (found w host disableIpv6 s).1), { s with dns := (found w host disableIpv6 s).2 })
  answer host begun addrs

/-- The host is not kept. -/
def miss (w : Outside H) (host : Text) : Process (EgressState A H L) EgressReply := do
  let disableIpv6 ← atomic fun s => (s.disableIpv6, s)
  lookUp w host disableIpv6

def resolve (w : Outside H) (host : Text) : Process (EgressState A H L) EgressReply := do
  let cached ← atomic fun s =>
    ((s.addrCache.get s.now host).1, { s with addrCache := (s.addrCache.get s.now host).2 })
  match cached with
  | some lookup => pure (.resolved (.ok lookup))
  | none => miss w host

/-- The settings file after settings are saved. -/
def saved (S : SerdeJson) (written : FileWrite) (settings : EgressSettings) (file : Option Text) :
    Option Text :=
  let overrides : EgressOverrides :=
    { resolverOnly := some settings.resolverOnly, disableIpv6 := some settings.disableIpv6 }
  written.file (S.toStringPretty (MergedStore.merge (MergedStore.raw S file) overrides.toJson)) file

def apply (S : SerdeJson) (id : CallId) (upd : EgressOverrides) (written : FileWrite) :
    Process (EgressState A H L) EgressReply := do
  atomic fun s =>
    ((), { s with
      begun := id :: s.begun
      resolverOnly := upd.resolverOnly.getD s.resolverOnly })
  atomic fun s => ((), { s with disableIpv6 := upd.disableIpv6.getD s.disableIpv6 })
  let resolverOnly ← atomic fun s => (s.resolverOnly, s)
  let disableIpv6 ← atomic fun s => (s.disableIpv6, s)
  atomic fun s => ((), { s with file := saved S written { resolverOnly, disableIpv6 } s.file })
  atomic fun s => ((), { s with addrCache := s.addrCache.clear })
  atomic fun s => ((), { s with echCache := s.echCache.clear })
  pure (.applied { resolverOnly, disableIpv6 })

def elapse (time : ℕ) : Process (EgressState A H L) EgressReply :=
  atomic fun s => (.elapsed, { s with now := s.now + time })

/-- A call, with what is outside of the proxy during it. -/
def perform (S : SerdeJson) (outside : ℕ → Outside H) (id : CallId) :
    Process (EgressState A H L) EgressReply :=
  match id.2 with
  | .resolve host => resolve (outside id.1) host
  | .apply upd written => apply S id upd written
  | .elapse time => elapse time

/-- All calls, at the same time. -/
def calls (S : SerdeJson) (outside : ℕ → Outside H) (s : EgressState A H L) :
    System CallId (EgressState A H L) EgressReply where
  proc := perform S outside
  state := s

/-- The policy when it is loaded. -/
def loaded (now : ℕ) (dns : Pipeline A H L) (settings : EgressSettings) (file : Option Text) :
    EgressState A H L where
  now := now
  dns := dns
  resolverOnly := settings.resolverOnly
  disableIpv6 := settings.disableIpv6
  file := file
  addrCache := .new resolveCacheCap
  echCache := .new resolveCacheCap
  begun := []

/-! ### Lookups that can be answered from -/

/-- A lookup is kept, for a host that is resolved now. -/
def Kept (s : EgressState A H L) (lookup : Lookup) : Prop :=
  ∃ host, (s.addrCache.get s.now host).1 = some lookup

/-- A lookup is under way and finds addresses. -/
def UnderWay (c : System CallId (EgressState A H L) EgressReply) (lookup : Lookup) : Prop :=
  ∃ id host, c.proc id = answer host lookup.begun (.ok lookup.addrs)

/-! ### What the cache gives -/

section Cache

variable {T : Type} {cache : TtlCache L T} {now : ℕ} {host host' : Text} {v : T} {item : T × ℕ}

theorem get_eq_some :
  (cache.get now host).1 = some v
    ↔ ∃ expires, (L.get host cache.map).1 = some (v, expires) ∧ now < expires
  := by
  rw [TtlCache.get]
  split
  · next u expires map hget =>
    rw [hget]
    split
    · next hlt =>
      constructor
      · rintro ⟨⟩
        exact ⟨expires, rfl, hlt⟩
      · rintro ⟨_, ⟨⟩, -⟩
        rfl
    · next hle =>
      constructor
      · rintro ⟨⟩
      · rintro ⟨_, ⟨⟩, hlt⟩
        exact absurd hlt hle
  · next map hget =>
    rw [hget]
    constructor
    · rintro ⟨⟩
    · rintro ⟨_, ⟨⟩, -⟩

theorem built_get {cap : ℕ} (h : L.Built cap cache.map) :
  L.Built cap (cache.get now host).2.map
  := by
  have hget := h.get host
  rw [TtlCache.get]
  split
  · next hmap =>
    rw [hmap] at hget
    split
    · exact hget
    · exact hget.pop host
  · next hmap =>
    rw [hmap] at hget
    exact hget

variable (hL : L.Retrieves)
include hL

theorem get_map_get (h : (L.get host' (cache.get now host).2.map).1 = some item) :
  (L.get host' cache.map).1 = some item
  := by
  have hget := hL.get_get host host' cache.map
  rw [TtlCache.get] at h
  split at h
  · next hmap =>
    rw [hmap] at hget
    rw [← hget]
    split at h
    · exact h
    · exact hL.get_pop h
  · next hmap =>
    rw [hmap] at hget
    rw [← hget]
    exact h

theorem get_put_self (h : L.Built resolveCacheCap cache.map) :
  ((cache.put now host v).get now host).1 = some v
  := by
  rw [get_eq_some]
  refine ⟨now + resolveCacheTtl, hL.get_put_self h (by decide) host _, ?_⟩
  exact Nat.lt_add_of_pos_right (by decide)

end Cache

/-! ### Calls that have returned -/

/-- The cache was built by the calls. -/
def Built (s : EgressState A H L) : Prop :=
  L.Built resolveCacheCap s.addrCache.map

/-- No call of `apply` is forgotten. -/
def Grows (s s' : EgressState A H L) : Prop :=
  ∀ id ∈ s.begun, id ∈ s'.begun

/-- A call of `apply` that has returned had begun. -/
def Returned (id : CallId) (reply : EgressReply) (s : EgressState A H L) : Prop :=
  ∀ settings, reply = .applied settings → id ∈ s.begun

theorem keeps_resolve_built (id : CallId) (w : Outside H) (host : Text) :
  Keeps (Built (A := A) (L := L)) Grows Grows (fun _ => True) (resolve w host) (Returned id)
  := by
  apply keeps_atomic_bind (fun _ _ _ _ _ => trivial)
  · intro s hs _
    exact ⟨built_get hs, fun _ h => h, trivial⟩
  intro cached
  cases cached with
  | some lookup =>
    apply keeps_pure
    rintro s - - settings ⟨⟩
  | none =>
    apply keeps_atomic_bind (fun _ _ _ _ _ => trivial) (fun s hs _ => ⟨hs, fun _ h => h, trivial⟩)
    intro disableIpv6
    apply keeps_atomic_bind (fun _ _ _ _ _ => trivial) (fun s hs _ => ⟨hs, fun _ h => h, trivial⟩)
    rintro ⟨begun, addrs⟩
    cases addrs with
    | error e =>
      apply keeps_atomic (fun _ _ _ _ _ => trivial)
      intro s hs _
      refine ⟨hs, fun _ h => h, ?_⟩
      rintro settings ⟨⟩
    | ok addrs =>
      apply keeps_atomic (fun _ _ _ _ _ => trivial)
      intro s hs _
      refine ⟨hs.put host _, fun _ h => h, ?_⟩
      rintro settings ⟨⟩

theorem keeps_apply_built (S : SerdeJson) (id : CallId) (upd : EgressOverrides)
    (written : FileWrite) :
  Keeps (Built (A := A) (H := H) (L := L)) Grows Grows (fun _ => True) (apply S id upd written)
    (Returned id)
  := by
  have hstable : ∀ s s' : EgressState A H L, Built s → id ∈ s.begun → Grows s s' → id ∈ s'.begun :=
    fun _ _ _ h hgrows => hgrows id h
  apply keeps_bind (Q := fun _ s => id ∈ s.begun)
  · apply keeps_atomic (fun _ _ _ _ _ => trivial)
    intro s hs _
    exact ⟨hs, fun _ h => List.mem_cons_of_mem _ h, List.mem_cons_self⟩
  intro _
  apply keeps_atomic_bind hstable (fun s hs h => ⟨hs, fun _ h => h, h⟩)
  intro _
  apply keeps_atomic_bind hstable (fun s hs h => ⟨hs, fun _ h => h, h⟩)
  intro resolverOnly
  apply keeps_atomic_bind hstable (fun s hs h => ⟨hs, fun _ h => h, h⟩)
  intro disableIpv6
  apply keeps_atomic_bind hstable (fun s hs h => ⟨hs, fun _ h => h, h⟩)
  intro _
  apply keeps_atomic_bind hstable
  · intro s hs h
    exact ⟨hs.clear, fun _ h => h, h⟩
  intro _
  apply keeps_atomic_bind hstable (fun s hs h => ⟨hs, fun _ h => h, h⟩)
  intro _
  apply keeps_pure
  intro s _ h settings _
  exact h

theorem keeps_perform_built (S : SerdeJson) (outside : ℕ → Outside H) (id : CallId) :
  Keeps (Built (A := A) (L := L)) Grows Grows (fun _ => True) (perform S outside id) (Returned id)
  := by
  obtain ⟨n, call⟩ := id
  cases call with
  | resolve host => apply keeps_resolve_built
  | apply upd written => apply keeps_apply_built
  | elapse time =>
    apply keeps_atomic (fun _ _ _ _ _ => trivial)
    intro s hs _
    refine ⟨hs, fun _ h => h, ?_⟩
    rintro settings ⟨⟩

/-- After any schedule the cache was built by the calls, and the calls of `apply` that have returned
had begun. -/
theorem kept_exec (S : SerdeJson) (outside : ℕ → Outside H) (now : ℕ) (dns : Pipeline A H L)
    (settings : EgressSettings) (file : Option Text) {schedule : List CallId}
    {c : System CallId (EgressState A H L) EgressReply}
    (hexec : (calls S outside (loaded now dns settings file)).exec schedule = some c) :
  c.Kept Built (fun _ => Grows) (fun _ => Grows) Returned
  := by
  have hcompat : System.Compatible (Built (A := A) (H := H) (L := L)) (fun _ : CallId => Grows)
      (fun _ => Grows) Returned := by
    constructor
    · intro _ _ _ s s' h
      exact h
    · intro id reply s s' _ hreturned hgrows settings hreply
      exact hgrows id (hreturned settings hreply)
  apply System.Kept.exec _ hcompat hexec
  use LruCrate.Built.new
  intro id
  exact ⟨fun _ => True, trivial, keeps_perform_built S outside id⟩

/-! ### Lookups that started after a call -/

section Lookups

variable (hL : L.Retrieves) {a : CallId} {s : EgressState A H L} {lookup : Lookup}

include hL in
theorem kept_get {host : Text}
    (h : Kept { s with addrCache := (s.addrCache.get s.now host).2 } lookup) :
  Kept s lookup
  := by
  obtain ⟨host', hget⟩ := h
  obtain ⟨expires, hmap, hlt⟩ := get_eq_some.mp hget
  exact ⟨host', get_eq_some.mpr ⟨expires, get_map_get hL hmap, hlt⟩⟩

include hL in
theorem kept_put {host : Text} {found : Lookup}
    (h : Kept { s with addrCache := s.addrCache.put s.now host found } lookup) :
  lookup = found ∨ Kept s lookup
  := by
  obtain ⟨host', hget⟩ := h
  obtain ⟨expires, hmap, hlt⟩ := get_eq_some.mp hget
  obtain heq | hmap := hL.get_put hmap
  · exact .inl (Prod.ext_iff.mp heq).1
  · exact .inr ⟨host', get_eq_some.mpr ⟨expires, hmap, hlt⟩⟩

include hL in
theorem not_kept_clear :
  ¬ Kept { s with addrCache := s.addrCache.clear } lookup
  := by
  rintro ⟨host, hget⟩
  obtain ⟨expires, hmap, -⟩ := get_eq_some.mp hget
  rw [TtlCache.clear, hL.get_clear] at hmap
  cases hmap

theorem kept_elapse {time : ℕ} (h : Kept { s with now := s.now + time } lookup) :
  Kept s lookup
  := by
  obtain ⟨host, hget⟩ := h
  obtain ⟨expires, hmap, hlt⟩ := get_eq_some.mp hget
  exact ⟨host, get_eq_some.mpr ⟨expires, hmap, lt_of_le_of_lt (Nat.le_add_right _ _) hlt⟩⟩

/-- The call has begun, and what is kept is from after that. -/
def Current (a : CallId) (s : EgressState A H L) : Prop :=
  a ∈ s.begun ∧ ∀ lookup, Kept s lookup → a ∈ lookup.begun

/-- The addresses are from after the call has begun. -/
def Fresh (a : CallId) (reply : EgressReply) : Prop :=
  ∀ lookup, reply = .resolved (.ok lookup) → a ∈ lookup.begun

/-- A step does not bring back what is from before the call. -/
def Stays (a : CallId) (s s' : EgressState A H L) : Prop :=
  Current a s → Current a s'

/-- The process goes on and gives nothing from before the call. -/
def Renews (a : CallId) (p : Process (EgressState A H L) EgressReply) : Prop :=
  Keeps (Current a) (fun _ _ => True) (fun _ _ => True) (fun _ => True) p fun reply _ => Fresh a reply

include hL in
/-- What a lookup from after the call finds may be stored. -/
theorem keeps_answer (host : Text) (begun : List CallId)
    (answered : Except Text (List Net.IpAddr)) :
  Keeps (Current (A := A) (H := H) (L := L) a) (fun _ _ => True) (fun _ _ => True)
    (fun _ => ∀ addrs, answered = .ok addrs → a ∈ begun) (answer host begun answered)
    fun reply _ => Fresh a reply
  := by
  cases answered with
  | error e =>
    apply keeps_atomic (fun _ _ _ h _ => h)
    intro s hs _
    refine ⟨hs, trivial, ?_⟩
    rintro lookup ⟨⟩
  | ok addrs =>
    apply keeps_atomic (fun _ _ _ h _ => h)
    intro s hs h
    have hbegun := h addrs rfl
    refine ⟨⟨hs.1, ?_⟩, trivial, ?_⟩
    · intro lookup hkept
      obtain rfl | hkept := kept_put hL hkept
      · exact hbegun
      · exact hs.2 lookup hkept
    · rintro lookup ⟨⟩
      exact hbegun

include hL in
theorem renews_lookUp (w : Outside H) (host : Text) (disableIpv6 : Bool) :
  Renews a (lookUp (A := A) (L := L) w host disableIpv6)
  := by
  apply keeps_bind (Q := fun asked _ => a ∈ asked.1)
  · apply keeps_atomic (fun _ _ _ _ _ => trivial)
    intro s hs _
    exact ⟨hs, trivial, hs.1⟩
  · rintro ⟨begun, addrs⟩
    apply (keeps_answer hL host begun addrs).weaken
    intro s _ hbegun _ _
    exact hbegun

include hL in
theorem renews_miss (w : Outside H) (host : Text) :
  Renews a (miss (A := A) (L := L) w host)
  := by
  apply keeps_atomic_bind (fun _ _ _ _ _ => trivial) (fun s hs _ => ⟨hs, trivial, trivial⟩)
  intro disableIpv6
  apply renews_lookUp hL

include hL in
theorem renews_resolve (w : Outside H) (host : Text) :
  Renews a (resolve (A := A) (L := L) w host)
  := by
  apply keeps_bind (Q := fun cached _ => ∀ lookup, cached = some lookup → a ∈ lookup.begun)
  · apply keeps_atomic (fun _ _ _ _ _ => trivial)
    intro s hs _
    refine ⟨⟨hs.1, fun lookup hkept => hs.2 lookup (kept_get hL hkept)⟩, trivial, ?_⟩
    intro lookup hcached
    exact hs.2 lookup ⟨host, hcached⟩
  · intro cached
    cases cached with
    | some lookup =>
      apply keeps_pure
      rintro s - hcached _ ⟨⟩
      exact hcached lookup rfl
    | none => apply (renews_miss hL w host).weaken fun _ _ _ => trivial

include hL in
theorem steps_apply (S : SerdeJson) (id : CallId) (upd : EgressOverrides) (written : FileWrite) :
  (apply (A := A) (H := H) (L := L) S id upd written).Steps (Stays a)
  := by
  have hframe : ∀ s : EgressState A H L, Stays a s s := fun _ hs => hs
  apply steps_bind
  · apply steps_atomic
    intro s hs
    exact ⟨List.mem_cons_of_mem _ hs.1, hs.2⟩
  intro _
  apply steps_bind (steps_atomic hframe)
  intro _
  apply steps_bind (steps_atomic hframe)
  intro resolverOnly
  apply steps_bind (steps_atomic hframe)
  intro disableIpv6
  apply steps_bind (steps_atomic hframe)
  intro _
  apply steps_bind
  · apply steps_atomic
    intro s hs
    exact ⟨hs.1, fun lookup hkept => absurd hkept (not_kept_clear hL)⟩
  intro _
  apply steps_bind (steps_atomic hframe)
  intro _
  apply steps_pure

theorem steps_elapse (time : ℕ) :
  (elapse (A := A) (H := H) (L := L) time).Steps (Stays a)
  := by
  apply steps_atomic
  intro s hs
  exact ⟨hs.1, fun lookup hkept => hs.2 lookup (kept_elapse hkept)⟩

/-- Where a call may be. -/
inductive Stage (a : CallId) : Process (EgressState A H L) EgressReply → Prop where
  | resolve (w : Outside H) (host : Text) : Stage a (resolve w host)
  | miss (w : Outside H) (host : Text) : Stage a (miss w host)
  | lookUp (w : Outside H) (host : Text) (disableIpv6 : Bool) : Stage a (lookUp w host disableIpv6)
  | answer (host : Text) (begun : List CallId) (answered : Except Text (List Net.IpAddr)) :
      Stage a (answer host begun answered)
  | other {p : Process (EgressState A H L) EgressReply} (h : p.Steps (Stays a)) : Stage a p

include hL in
theorem stage_perform (S : SerdeJson) (outside : ℕ → Outside H) (id : CallId) :
  Stage a (perform (A := A) (L := L) S outside id)
  := by
  obtain ⟨n, call⟩ := id
  cases call with
  | resolve host => apply Stage.resolve
  | apply upd written => apply Stage.other (steps_apply hL S _ upd written)
  | elapse time => apply Stage.other (steps_elapse time)

theorem Stage.advance {p p' : Process (EgressState A H L) EgressReply} {s' : EgressState A H L}
    (h : Stage a p) (hstep : p.advance s = some (p', s')) :
  Stage a p'
  := by
  cases h with
  | resolve w host =>
    rw [Egress.resolve, advance_atomic_bind] at hstep
    obtain ⟨rfl, -⟩ := Prod.mk.inj (Option.some.inj hstep)
    split
    · apply Stage.other (steps_pure _)
    · apply Stage.miss
  | miss w host =>
    cases hstep
    apply Stage.lookUp
  | lookUp w host disableIpv6 =>
    cases hstep
    apply Stage.answer
  | answer host begun answered =>
    cases answered with
    | error e =>
      cases hstep
      apply Stage.other (steps_pure _)
    | ok addrs =>
      cases hstep
      apply Stage.other (steps_pure _)
  | other h =>
    cases h with
    | done reply => cases hstep
    | step _ hnext =>
      cases hstep
      apply Stage.other (hnext s)

include hL in
/-- A call that is not under way with something from before goes on as it should. -/
theorem Stage.keeps {p : Process (EgressState A H L) EgressReply} (h : Stage a p)
    (hunderWay : ∀ host (lookup : Lookup),
      p = Egress.answer host lookup.begun (.ok lookup.addrs) → a ∈ lookup.begun) :
  Keeps (Current a) (fun _ _ => True) (fun _ _ => True) (fun _ => True) p fun _ _ => True
  := by
  cases h with
  | resolve w host => apply (renews_resolve hL w host).imp fun _ _ _ => trivial
  | miss w host => apply (renews_miss hL w host).imp fun _ _ _ => trivial
  | lookUp w host disableIpv6 =>
    apply (renews_lookUp hL w host disableIpv6).imp fun _ _ _ => trivial
  | answer host begun answered =>
    apply ((keeps_answer hL host begun answered).weaken _).imp fun _ _ _ => trivial
    intro s _ _ addrs hanswered
    apply hunderWay host ⟨addrs, begun⟩
    rw [hanswered]
  | other h =>
    apply Keeps.mono (h.keeps fun s s' hstays hs => hstays hs) (fun _ _ _ => trivial)
      (fun _ _ _ => trivial)

end Lookups

/-! ### Whole schedules -/

section Schedules

variable (hL : L.Retrieves) {S : SerdeJson} {outside : ℕ → Outside H} {now : ℕ}
  {dns : Pipeline A H L} {settings : EgressSettings} {file : Option Text}
  {schedule rest : List CallId} {a : CallId}
  {c c' : System CallId (EgressState A H L) EgressReply}

include hL in
theorem stage_exec (hexec : (calls S outside (loaded now dns settings file)).exec schedule = some c)
    (id : CallId) :
  Stage a (c.proc id)
  := by
  apply System.proc_exec (Φ := fun _ => Stage a) _ hexec _ id
  · intro _ p s p' s' hp hstep
    apply hp.advance hstep
  · intro i
    apply stage_perform hL

include hL in
/-- A host that is resolved where nothing is left from before the call gives nothing from before
it. -/
theorem fresh_exec (hexec : (calls S outside (loaded now dns settings file)).exec schedule = some c)
    (hbegun : a ∈ c.state.begun)
    (hcurrent : ∀ lookup, Kept c.state lookup ∨ UnderWay c lookup → a ∈ lookup.begun)
    (hrest : c.exec rest = some c') {n : ℕ} {host : Text} (hid : (n, .resolve host) ∉ schedule)
    {reply : EgressReply} (hdone : c'.proc (n, .resolve host) = .done reply) :
  Fresh a reply
  := by
  let post : CallId → EgressReply → EgressState A H L → Prop :=
    fun id reply _ => id = (n, .resolve host) → Fresh a reply
  have hcompat : System.Compatible (Current a) (fun _ _ _ => True) (fun _ _ _ => True) post := by
    constructor
    · intro _ _ _ _ _ _
      trivial
    · intro _ _ _ _ _ h _
      exact h
  have hkept : c.Kept (Current a) (fun _ _ _ => True) (fun _ _ _ => True) post := by
    use ⟨hbegun, fun lookup hkept => hcurrent lookup (.inl hkept)⟩
    intro id
    use fun _ => True, trivial
    by_cases hne : id = (n, .resolve host)
    · rw [hne, System.proc_of_not_mem hexec hid]
      apply (renews_resolve hL (outside n) host).imp fun _ _ h _ => h
    · apply (Stage.keeps hL (stage_exec hL hexec id) _).imp fun _ _ _ heq => absurd heq hne
      intro host lookup hproc
      exact hcurrent lookup (.inr ⟨id, host, hproc⟩)
  exact (hkept.exec hcompat hrest).result hdone rfl

/-- There is always a call left that resolves a host. -/
theorem exists_resolve_not_mem (schedule : List CallId) (host : Text) :
  ∃ n, (n, .resolve host) ∉ schedule
  := by
  obtain ⟨n, hn⟩ := Infinite.exists_notMem_finset (schedule.map Prod.fst).toFinset
  use n
  intro hmem
  apply hn
  rw [List.mem_toFinset]
  exact List.mem_map_of_mem hmem

/-- A host that is kept is answered at once. -/
theorem exec_of_kept {id : CallId} {w : Outside H} {host : Text} {lookup : Lookup}
    (hproc : c.proc id = resolve w host)
    (hkept : (c.state.addrCache.get c.state.now host).1 = some lookup) :
  ∃ c', c.exec [id] = some c' ∧ c'.proc id = .done (.resolved (.ok lookup))
  := by
  obtain ⟨c₁, hexec, -, hproc₁, -⟩ := System.exec_cons hproc (advance_atomic_bind _ _ _)
  refine ⟨c₁, hexec [], ?_⟩
  rw [hproc₁, hkept]
  rfl

include hL in
/-- A lookup that is under way is kept once it is answered. -/
theorem exec_of_underWay {id : CallId} {host : Text} {lookup : Lookup}
    (hbuilt : Built c.state)
    (hproc : c.proc id = answer host lookup.begun (.ok lookup.addrs)) :
  ∃ c₁ : System CallId (EgressState A H L) EgressReply,
    (∀ rest, c.exec (id :: rest) = c₁.exec rest)
    ∧ (c₁.state.addrCache.get c₁.state.now host).1 = some lookup
    ∧ ∀ j, j ≠ id → c₁.proc j = c.proc j
  := by
  obtain ⟨c₁, hexec, hstate, -, hothers⟩ := System.exec_cons hproc rfl
  refine ⟨c₁, hexec, ?_, hothers⟩
  rw [hstate]
  apply get_put_self hL hbuilt

include hL in
/-- Once a call of `apply` has returned, a host that is resolved from then on gives nothing that was
asked before the call, whatever is called next, exactly if nothing from before it is kept or under
way. -/
theorem current_iff (hexec : (calls S outside (loaded now dns settings file)).exec schedule = some c)
    {result : EgressSettings} (ha : c.proc a = .done (.applied result)) :
  (∀ rest c', c.exec rest = some c' →
      ∀ n host, (n, .resolve host) ∉ schedule →
        ∀ lookup, c'.proc (n, .resolve host) = .done (.resolved (.ok lookup)) →
          a ∈ lookup.begun)
    ↔ ∀ lookup, Kept c.state lookup ∨ UnderWay c lookup → a ∈ lookup.begun
  := by
  have hkept := kept_exec S outside now dns settings file hexec
  have hbegun : a ∈ c.state.begun := hkept.result ha result rfl
  constructor
  · rintro h lookup (⟨host, hget⟩ | ⟨id, host, hproc⟩)
    · obtain ⟨n, hn⟩ := exists_resolve_not_mem schedule host
      have hstart := System.proc_of_not_mem hexec hn
      obtain ⟨c', hrest, hdone⟩ := exec_of_kept hstart hget
      apply h _ c' hrest n host hn lookup hdone
    · obtain ⟨n, hn⟩ := exists_resolve_not_mem (id :: schedule) host
      rw [List.mem_cons, not_or] at hn
      obtain ⟨c₁, hexec₁, hget, hothers⟩ := exec_of_underWay hL hkept.1 hproc
      have hstart := (hothers _ hn.1).trans (System.proc_of_not_mem hexec hn.2)
      obtain ⟨c', hrest, hdone⟩ := exec_of_kept hstart hget
      apply h _ c' ((hexec₁ _).trans hrest) n host hn.2 lookup hdone
  · intro hcurrent rest c' hrest n host hn lookup hdone
    exact fresh_exec hL hexec hbegun hcurrent hrest hn hdone lookup rfl

end Schedules

/-! ### A call that is not interrupted -/

/-- The policy between two calls, without what is recorded of the calls. -/
def policy (hL : L.Natural) (s : EgressState A H L) : EgressPolicy A H L where
  dns := s.dns
  resolverOnly := s.resolverOnly
  disableIpv6 := s.disableIpv6
  addrCache := ⟨hL.map (Prod.map Lookup.addrs id) s.addrCache.map⟩

theorem get_policy (hL : L.Natural) (s : EgressState A H L) (now : ℕ) (host : Text) :
  (policy hL s).addrCache.get now host
    = ((s.addrCache.get now host).1.map Lookup.addrs,
      (policy hL { s with addrCache := (s.addrCache.get now host).2 }).addrCache)
  := by
  simp only [policy, TtlCache.get, hL.get_map]
  cases hget : L.get host s.addrCache.map with
  | mk cached map =>
    cases cached with
    | none => rfl
    | some item =>
      obtain ⟨lookup, expires⟩ := item
      simp only [Option.map_some, Prod.map_apply, id_eq]
      by_cases hlt : expires > now
      · simp only [if_pos hlt, Option.map_some]
      · simp only [if_neg hlt, Option.map_none, hL.pop_map]

theorem put_policy (hL : L.Natural) (s : EgressState A H L) (now : ℕ) (host : Text)
    (lookup : Lookup) :
  (policy hL s).addrCache.put now host lookup.addrs
    = (policy hL { s with addrCache := s.addrCache.put now host lookup }).addrCache
  := congrArg TtlCache.mk
    (hL.put_map (Prod.map Lookup.addrs id) host (lookup, now + resolveCacheTtl) s.addrCache.map)

/-- A host that is resolved without interruption is resolved as the policy resolves it at that
moment. -/
theorem run_resolve (hL : L.Natural) (s : EgressState A H L) {w : Outside H} (hnow : w.now = s.now)
    (hlater : w.later = s.now) (host : Text) :
  ∃ answer, ((resolve w host).run s).1 = .resolved answer
    ∧ answer.map Lookup.addrs = ((policy hL s).resolve w host).1
    ∧ policy hL ((resolve w host).run s).2 = ((policy hL s).resolve w host).2.1
  := by
  rw [EgressPolicy.resolve, hnow, hlater, get_policy, resolve, Process.run_bind, Process.run_atomic]
  cases hget : (s.addrCache.get s.now host).1 with
  | some lookup => exact ⟨.ok lookup, rfl, rfl, rfl⟩
  | none =>
    simp only [Option.map_none, miss, lookUp, Process.run_bind, Process.run_atomic, found]
    have hdns : (policy hL s).dns = s.dns ∧ (policy hL s).disableIpv6 = s.disableIpv6 := ⟨rfl, rfl⟩
    rw [hdns.1, hdns.2]
    rcases s.dns.resolve w.a w.aaaa w.idA w.idAaaa host !s.disableIpv6 with
      ⟨e | addrs, dns, effects⟩
    · exact ⟨.error e, rfl, rfl, rfl⟩
    · refine ⟨.ok ⟨addrs, s.begun⟩, rfl, rfl, ?_⟩
      simp only [answer, Process.run_atomic]
      rw [put_policy hL { s with addrCache := (s.addrCache.get s.now host).2 } s.now host
        ⟨addrs, s.begun⟩]
      rfl

/-! ### A lookup that is overtaken -/

def address : Net.Ipv4Addr :=
  ⟨192, 0, 2, 1⟩

/-- A server that has an address for every host. -/
def answering : Dns.Surroundings writtenNames where
  now := 0
  later := 0
  upstream query :=
    let msg : Dns.Message writtenNames := .query 1
    .ok (msg.addAnswer (.fromRdata query.name 60 (.a address)), "udp://192.0.2.53".toList)
  logActions := false

def network (_ : ℕ) : Outside writtenNames where
  now := 0
  later := 0
  a := answering
  aaaa := answering
  idA := 1
  idAaaa := 2
  lookupHost _ _ := .error "not asked".toList

/-- The same host is resolved any number of times. -/
def resolved (n : ℕ) : CallId :=
  (n, .resolve "h".toList)

/-- Addresses of the second kind are disabled. -/
def disabled : CallId :=
  (0, .apply { disableIpv6 := some true } .done)

/-- The service with its defaults, where nothing is blocked. -/
def openPipeline : Pipeline otherRule writtenNames .recent :=
  { defaultPipeline with
    adblock := { otherBlocker with core := { otherBlocker.core with enabled := false } } }

def enabled : System CallId (EgressState otherRule writtenNames .recent) EgressReply :=
  calls .reference network (loaded 0 openPipeline ⟨true, false⟩ none)

/-- The settings are applied while the host is looked up.  A call that is started after that gives
what was asked before. -/
theorem current_overtaken :
  ∃ c c', enabled.exec (List.replicate 3 (resolved 0) ++ List.replicate 7 disabled) = some c
    ∧ c.proc disabled = .done (.applied ⟨true, true⟩)
    ∧ resolved 1 ∉ List.replicate 3 (resolved 0) ++ List.replicate 7 disabled
    ∧ c.exec [resolved 0, resolved 1] = some c'
    ∧ c'.proc (resolved 1) = .done (.resolved (.ok ⟨[.v4 address], []⟩))
  := by
  have hfirst : (enabled.exec (List.replicate 3 (resolved 0) ++ List.replicate 7 disabled)).map
      (fun c => ((c.proc disabled).result,
        (c.exec [resolved 0, resolved 1]).map fun c' => (c'.proc (resolved 1)).result))
      = some (some (.applied ⟨true, true⟩),
        some (some (.resolved (.ok ⟨[.v4 address], []⟩)))) := by decide +kernel
  obtain ⟨c, hexec, hc⟩ := Option.map_eq_some_iff.mp hfirst
  obtain ⟨hdone, hnext⟩ := Prod.mk.inj hc
  obtain ⟨c', hrest, hdone'⟩ := Option.map_eq_some_iff.mp hnext
  exact ⟨c, c', hexec, eq_done_of_result hdone, by decide +kernel, hrest,
    eq_done_of_result hdone'⟩

theorem perform_ne_answer (S : SerdeJson) (outside : ℕ → Outside H) (id : CallId) (host : Text)
    (begun : List CallId) (addrs : List Net.IpAddr) (s : EgressState A H .recent) :
  perform S outside id ≠ (answer host begun (.ok addrs) : Process (EgressState A H .recent) _)
  := by
  intro h
  have hnext := congrArg (fun p => (p.advance { s with addrCache := .new resolveCacheCap }).map
    fun next => next.1.result) h
  obtain ⟨n, call⟩ := id
  cases call with
  | resolve host => cases hnext
  | apply upd written => cases hnext
  | elapse time => cases hnext

/-- The settings are applied after the host was looked up. -/
theorem current_in_turn :
  ∃ c, enabled.exec (List.replicate 4 (resolved 0) ++ List.replicate 7 disabled) = some c
    ∧ ∀ rest c', c.exec rest = some c' →
      ∀ n host, (n, .resolve host) ∉ List.replicate 4 (resolved 0) ++ List.replicate 7 disabled →
        ∀ lookup, c'.proc (n, .resolve host) = .done (.resolved (.ok lookup)) →
          disabled ∈ lookup.begun
  := by
  have hturn : (enabled.exec (List.replicate 4 (resolved 0) ++ List.replicate 7 disabled)).map
      (fun c => ((c.proc (resolved 0)).result, (c.proc disabled).result,
        (RecentList.items c.state.addrCache.map).length))
      = some (some (.resolved (.ok ⟨[.v4 address], []⟩)),
        some (.applied ⟨true, true⟩), 0) := by decide +kernel
  obtain ⟨c, hexec, hc⟩ := Option.map_eq_some_iff.mp hturn
  obtain ⟨hfirst, hc⟩ := Prod.mk.inj hc
  obtain ⟨hdone, hitems⟩ := Prod.mk.inj hc
  use c, hexec
  apply (current_iff LruCrate.retrieves_recent hexec (eq_done_of_result hdone)).mpr
  rintro lookup (⟨host, hget⟩ | ⟨id, host, hproc⟩)
  · obtain ⟨expires, hmap, -⟩ := get_eq_some.mp hget
    rw [RecentList.get_fst, List.length_eq_zero_iff.mp hitems] at hmap
    cases hmap
  · by_cases hid : id ∈ List.replicate 4 (resolved 0) ++ List.replicate 7 disabled
    · obtain hid | hid := List.mem_append.mp hid
      · rw [List.eq_of_mem_replicate hid, eq_done_of_result hfirst] at hproc
        cases hproc
      · rw [List.eq_of_mem_replicate hid, eq_done_of_result hdone] at hproc
        cases hproc
    · rw [System.proc_of_not_mem hexec hid] at hproc
      exact absurd hproc (perform_ne_answer _ network id host _ _ c.state)

end Egress

end Proxy
