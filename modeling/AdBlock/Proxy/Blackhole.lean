import AdBlock.Dns.Handle
import AdBlock.Stats.SharedState

/-!
# Hosts that resolve to nowhere

Before a request is sent, the proxy asks whether its host resolves to unspecified addresses only,
and drops it if so.  The host is resolved by the service inside the process, or by the system.

* The service never answers with an unspecified address: a host that it blocks does not resolve,
  and that is not taken for a host that resolves to nowhere (`Dns.Pipeline.specified_resolve`).
* So a request is dropped only if the system is asked (`Proxy.dropped_iff`).
-/

namespace Proxy

open Dns

variable {A : Library} {H : Hickory} {L : LruCrate}

/-! ### The addresses of a host -/

def resolveCacheTtl : ℕ := 10 * nanos

def resolveCacheCap : ℕ := 1024

/-- Values by host, each with the moment it expires at. -/
structure TtlCache (L : LruCrate) (T : Type) where
  map : L.Cache Text (T × ℕ)

namespace TtlCache

variable {T : Type}

def new (cap : ℕ) : TtlCache L T :=
  ⟨L.new cap⟩

def get (now : ℕ) (host : Text) (cache : TtlCache L T) : Option T × TtlCache L T :=
  match L.get host cache.map with
  | (some (v, expires), map) =>
      if expires > now then (some v, ⟨map⟩) else (none, ⟨L.pop host map⟩)
  | (none, map) => (none, ⟨map⟩)

def put (now : ℕ) (host : Text) (value : T) (cache : TtlCache L T) : TtlCache L T :=
  ⟨L.put host (value, now + resolveCacheTtl) cache.map⟩

end TtlCache

/-- What is outside of the proxy while a host is resolved. -/
structure Outside (H : Hickory) where
  /-- When the verdict and the addresses are looked for. -/
  now : ℕ
  /-- When the addresses and the verdict are stored. -/
  later : ℕ
  /-- The two look ups of the service. -/
  a : Surroundings H
  aaaa : Surroundings H
  idA : UInt16
  idAaaa : UInt16
  /-- What the system finds. -/
  lookupHost : Text → UInt16 → Except Text (List Net.SocketAddr)

structure EgressPolicy (A : Library) (H : Hickory) (L : LruCrate) where
  dns : Pipeline A H L
  resolverOnly : Bool
  disableIpv6 : Bool
  addrCache : TtlCache L (List Net.IpAddr)

namespace EgressPolicy

def resolve (e : EgressPolicy A H L) (w : Outside H) (host : Text) :
    Except Text (List Net.IpAddr) × EgressPolicy A H L × List (DnsEffect H) :=
  match e.addrCache.get w.now host with
  | (some addrs, addrCache) => (.ok addrs, { e with addrCache }, [])
  | (none, addrCache) =>
      match e.dns.resolve w.a w.aaaa w.idA w.idAaaa host (!e.disableIpv6) with
      | (.error err, dns, effects) => (.error err, { e with addrCache, dns }, effects)
      | (.ok addrs, dns, effects) =>
          (.ok addrs, { e with addrCache := addrCache.put w.later host addrs, dns }, effects)

/-- `EgressResolver::resolve`. -/
def resolveAt (e : EgressPolicy A H L) (w : Outside H) (host : Text) (port : UInt16) :
    Except Text (List Net.SocketAddr) × EgressPolicy A H L × List (DnsEffect H) :=
  if e.resolverOnly then
    let (addrs, e, effects) := e.resolve w host
    (addrs.map (List.map (Net.SocketAddr.new · port)), e, effects)
  else (w.lookupHost host port, e, [])

end EgressPolicy

/-! ### The probe -/

def blackholeTtl : ℕ := 300 * nanos

def isDnsBlackholed (addrs : List Net.SocketAddr) : Bool :=
  !addrs.isEmpty && addrs.all (·.ip.isUnspecified)

structure BlackholeProbe (A : Library) (H : Hickory) (L : LruCrate) where
  resolver : EgressPolicy A H L
  /-- The verdicts, and when they were reached. -/
  cache : Text → Option (Bool × ℕ)

namespace BlackholeProbe

/-- What verdicts are stored under. -/
def key (host : Text) (port : UInt16) : Text :=
  host ++ ':' :: Net.decimal port.toNat

/-- The verdict that is stored and not too old. -/
def verdict (probe : BlackholeProbe A H L) (now : ℕ) (host : Text) (port : UInt16) :
    Option Bool :=
  match probe.cache (key host port) with
  | some (v, reached) => if now - reached < blackholeTtl then some v else none
  | none => none

def isBlackholed (probe : BlackholeProbe A H L) (w : Outside H) (host : Text) (port : UInt16) :
    Bool × BlackholeProbe A H L × List (DnsEffect H) :=
  match probe.verdict w.now host port with
  | some v => (v, probe, [])
  | none =>
      let (found, resolver, effects) := probe.resolver.resolveAt w host port
      let blackholed := match found with
        | .ok addrs => isDnsBlackholed addrs
        | .error _ => false
      (blackholed,
        { resolver
          cache := Function.update probe.cache (key host port) (some (blackholed, w.later)) },
        effects)

end BlackholeProbe

/-! ### Requests -/

structure RequestPlan where
  scheme : Text
  host : Text
  port : UInt16
  url : Text
  method : Text
  deriving DecidableEq, Repr

def requestFacts (plan : RequestPlan) (reqType : Text) : RequestFacts where
  method := plan.method
  reqType := reqType
  url := plan.url

/-- What is captured of a request. -/
structure Captured where
  headers : Text
  body : Bytes
  encoding : Text
  deriving DecidableEq, Repr

/-- What a request leads to. -/
inductive ForwardEffect (H : Hickory) where
  | dns (effect : DnsEffect H)
  | countBlock (metric : Metric) (host : Text)
  | logBlocked (message : Text)
  | recordBlocked (facts : RequestFacts) (host blockedBy : Text) (captured : Captured)
  | count (metric : Metric) (host : Text)
  /-- The request is handed to the client, as the decision has it. -/
  | send (plan : RequestPlan) (decision : BlockDecision) (captured : Captured)
  | recordForwarded (facts : RequestFacts) (host : Text) (status : UInt16) (ech : Bool)
      (captured : Captured)
  | recordFailed (facts : RequestFacts) (host error : Text) (captured : Captured)
  | recordTunnel (facts : RequestFacts) (host attribution : Text)

/-- How far a request gets. -/
inductive Forwarded where
  | dropped
  /-- The answer stands in for the blocked resource. -/
  | answered (decision : BlockDecision)
  | sent
  deriving DecidableEq, Repr

/-- What is logged for a block. -/
def blockMessage (facts : RequestFacts) (blockedBy : Text) : Text :=
  let label := if facts.method = "CONNECT".toList then "CONNECT".toList else facts.reqType
  label ++ "  ".toList ++ facts.url ++ "  [".toList ++ blockedBy ++ [']']

def recordBlock (logActions : Bool) (facts : RequestFacts) (host blockedBy : Text)
    (captured : Captured) : List (ForwardEffect H) :=
  .countBlock .blocked host
    :: (if logActions then [.logBlocked (blockMessage facts blockedBy)] else [])
    ++ [.recordBlocked facts host blockedBy captured]

section recordBlock

variable (logActions : Bool) (facts : RequestFacts) (host blockedBy : Text) (captured : Captured)

theorem countBlock_mem_recordBlock :
  (.countBlock .blocked host : ForwardEffect H)
    ∈ recordBlock logActions facts host blockedBy captured
  := by
  simp [recordBlock]

theorem recordBlocked_mem_recordBlock :
  (.recordBlocked facts host blockedBy captured : ForwardEffect H)
    ∈ recordBlock logActions facts host blockedBy captured
  := by
  simp [recordBlock]

theorem send_notMem_recordBlock (plan : RequestPlan) (decision : BlockDecision)
    (body : Captured) :
  (.send plan decision body : ForwardEffect H)
    ∉ recordBlock logActions facts host blockedBy captured
  := by
  cases logActions with
  | false => simp [recordBlock]
  | true => simp [recordBlock]

end recordBlock

/-- The part of the proxy that requests go through. -/
structure Inner (A : Library) (H : Hickory) (L : LruCrate) where
  adblock : AdBlocker A
  blackhole : BlackholeProbe A H L

namespace Inner

/-- `Proxy::handle_forward`, up to the moment the request is handed to the client. -/
def handleForward (inner : Inner A H L) (w : Outside H) (logActions : Bool) (plan : RequestPlan)
    (decision : BlockDecision) (captured : Captured) :
    Forwarded × Inner A H L × List (ForwardEffect H) :=
  let facts := requestFacts plan decision.reqType
  if decision.blocked then
    let effects :=
      recordBlock logActions facts plan.host decision.attribution.display captured
    if !decision.redirect.isSome && (inner.adblock.checkHost plan.scheme plan.host).blocked then
      (.dropped, inner, effects)
    else (.answered decision, inner, effects)
  else
    let (blackholed, blackhole, effects) := inner.blackhole.isBlackholed w plan.host plan.port
    let effects := effects.map .dns
    if blackholed then
      (.dropped, { inner with blackhole },
        effects ++ recordBlock logActions facts plan.host "DNS blackhole".toList captured)
    else
      (.sent, { inner with blackhole },
        effects ++ [.count .requests plan.host, .send plan decision captured])

end Inner

/-! ### When a request is dropped -/

/-- The request is dropped, a block is counted and recorded for it, and it is not sent. -/
structure Dropped (plan : RequestPlan) (decision : BlockDecision) (captured : Captured)
    (result : Forwarded × Inner A H L × List (ForwardEffect H)) : Prop where
  dropped : result.1 = .dropped
  counted : .countBlock .blocked plan.host ∈ result.2.2
  recorded : .recordBlocked (requestFacts plan decision.reqType) plan.host
    "DNS blackhole".toList captured ∈ result.2.2
  notSent : ∀ plan decision captured, .send plan decision captured ∉ result.2.2

/-- The addresses lead nowhere. -/
def Nowhere (addrs : List Net.SocketAddr) : Prop :=
  addrs ≠ [] ∧ ∀ a ∈ addrs, a.ip.isUnspecified = true

theorem isDnsBlackholed_iff (addrs : List Net.SocketAddr) :
  isDnsBlackholed addrs = true ↔ Nowhere addrs
  := by
  simp [isDnsBlackholed, Nowhere]

/-- Addresses of which none is unspecified lead somewhere. -/
theorem isDnsBlackholed_new {addrs : List Net.IpAddr} (h : Specified addrs) (port : UInt16) :
  isDnsBlackholed (addrs.map (Net.SocketAddr.new · port)) = false
  := by
  obtain ⟨a, ha⟩ := List.exists_mem_of_ne_nil addrs h.1
  apply Bool.eq_false_iff.mpr
  intro hall
  have hnowhere := ((isDnsBlackholed_iff _).mp hall).2 _ (List.mem_map_of_mem ha)
  simp [h.2 a ha] at hnowhere

namespace EgressPolicy

variable {e : EgressPolicy A H L} {w : Outside H} {host : Text}

/-- If only the service is asked, the addresses are those that it finds. -/
theorem exists_of_resolveAt {port : UInt16} {addrs : List Net.SocketAddr}
    (honly : e.resolverOnly = true) (h : (e.resolveAt w host port).1 = .ok addrs) :
  ∃ ips, (e.resolve w host).1 = .ok ips ∧ ips.map (Net.SocketAddr.new · port) = addrs
  := by
  simp only [resolveAt, honly, if_true] at h
  cases hresolve : (e.resolve w host).1 with
  | error err => simp [hresolve, Except.map] at h
  | ok ips =>
    simp only [hresolve, Except.map, Except.ok.injEq] at h
    use ips, rfl, h

/-- What a host resolves to without a stored address is never unspecified. -/
theorem specified_resolve {addrs : List Net.IpAddr}
    (haddr : (e.addrCache.get w.now host).1 = none) (h : (e.resolve w host).1 = .ok addrs) :
  Specified addrs
  := by
  unfold resolve at h
  split at h
  · rename_i hget
    simp [hget] at haddr
  · split at h
    · cases h
    · rename_i hresolve
      cases h
      apply Pipeline.specified_resolve
      rw [hresolve]

end EgressPolicy

namespace BlackholeProbe

variable {probe : BlackholeProbe A H L} {w : Outside H} {host : Text} {port : UInt16}

/-- A verdict that is not stored is reached from the addresses. -/
theorem isBlackholed_iff_resolveAt (hverdict : probe.verdict w.now host port = none) :
  (probe.isBlackholed w host port).1 = true
    ↔ ∃ addrs, (probe.resolver.resolveAt w host port).1 = .ok addrs ∧ Nowhere addrs
  := by
  simp only [isBlackholed, hverdict]
  cases hfound : (probe.resolver.resolveAt w host port).1 with
  | error err => simp
  | ok addrs => simp [isDnsBlackholed_iff]

/-- Without anything stored for the host, it is taken to lead nowhere if and only if the system is
asked and says so. -/
theorem isBlackholed_iff (hverdict : probe.verdict w.now host port = none)
    (haddr : (probe.resolver.addrCache.get w.now host).1 = none) :
  (probe.isBlackholed w host port).1 = true
    ↔ probe.resolver.resolverOnly = false
      ∧ ∃ addrs, w.lookupHost host port = .ok addrs ∧ Nowhere addrs
  := by
  rw [isBlackholed_iff_resolveAt hverdict]
  cases honly : probe.resolver.resolverOnly with
  | false => simp [EgressPolicy.resolveAt, honly]
  | true =>
    simp only [Bool.true_eq_false, false_and, iff_false]
    rintro ⟨addrs, hresolve, hnowhere⟩
    obtain ⟨ips, hips, rfl⟩ := EgressPolicy.exists_of_resolveAt honly hresolve
    have hsomewhere := isDnsBlackholed_new (EgressPolicy.specified_resolve haddr hips) port
    rw [(isDnsBlackholed_iff _).mpr hnowhere] at hsomewhere
    cases hsomewhere

end BlackholeProbe

namespace Inner

variable {inner : Inner A H L} {w : Outside H} {logActions : Bool} {plan : RequestPlan}
  {decision : BlockDecision} {captured : Captured}

/-- A request that is not blocked is sent if its host is not taken to lead nowhere. -/
theorem handleForward_sent (hdecision : decision.blocked = false)
    (h : (inner.blackhole.isBlackholed w plan.host plan.port).1 = false) :
  (inner.handleForward w logActions plan decision captured).1 = .sent
  := by
  simp [handleForward, hdecision, h]

theorem handleForward_dropped (hdecision : decision.blocked = false)
    (h : (inner.blackhole.isBlackholed w plan.host plan.port).1 = true) :
  Dropped plan decision captured (inner.handleForward w logActions plan decision captured)
  := by
  have heffects : (inner.handleForward w logActions plan decision captured).2.2
      = (inner.blackhole.isBlackholed w plan.host plan.port).2.2.map .dns
        ++ recordBlock logActions (requestFacts plan decision.reqType) plan.host
          "DNS blackhole".toList captured := by
    simp only [handleForward, hdecision, h]
    rfl
  constructor
  · simp [handleForward, hdecision, h]
  · rw [heffects]
    apply List.mem_append_right _ (countBlock_mem_recordBlock ..)
  · rw [heffects]
    apply List.mem_append_right _ (recordBlocked_mem_recordBlock ..)
  · intro plan' decision' captured'
    rw [heffects, List.mem_append, not_or]
    constructor
    · simp
    · apply send_notMem_recordBlock

end Inner

/-- A request to a host for which nothing is stored is taken to lead nowhere, and dropped, if and
only if the system is asked and says so. -/
theorem dropped_iff (inner : Inner A H L) (w : Outside H) (logActions : Bool) (plan : RequestPlan)
    (decision : BlockDecision) (captured : Captured) (hdecision : decision.blocked = false)
    (hverdict : inner.blackhole.verdict w.now plan.host plan.port = none)
    (haddr : (inner.blackhole.resolver.addrCache.get w.now plan.host).1 = none) :
  ((inner.blackhole.isBlackholed w plan.host plan.port).1 = true
      ∧ Dropped plan decision captured
        (inner.handleForward w logActions plan decision captured))
    ↔ inner.blackhole.resolver.resolverOnly = false
      ∧ ∃ addrs, w.lookupHost plan.host plan.port = .ok addrs ∧ Nowhere addrs
  := by
  rw [← BlackholeProbe.isBlackholed_iff hverdict haddr]
  constructor
  · rintro ⟨h, _⟩
    apply h
  · intro h
    use h
    apply Inner.handleForward_dropped hdecision h

/-- A library whose engine has the one rule `||ads.example^$other`, given requests to that host
only. -/
def otherRule : Library :=
  { Library.counting with
    Request := Text
    newRequest := fun _ _ requestType => some requestType
    checkNetworkRequest := fun _ requestType =>
      { matched := requestType = "other".toList
        filter :=
          if requestType = "other".toList then some "||ads.example^$other".toList else none
        redirect := none
        rewrittenUrl := none }
    getCspDirectives := fun _ _ => none }

/-- Names as they are written. -/
def writtenNames : Hickory :=
  .written

def otherBlocker : AdBlocker otherRule where
  core :=
    { enabled := true
      engine := (1, [])
      lists := []
      scriptlets := { inject := false, path := [], resources := [] }
      engineCache := none }
  decisions :=
    { enabled := true
      redirect := true
      removeparam := true
      csp := true
      cosmetic := true
      scriptlets := true
      runtime := true }

/-- The service with its defaults. -/
def defaultPipeline : Pipeline otherRule writtenNames .recent where
  adblock := otherBlocker
  cache :=
    { entries := some (LruCrate.recent.new 4096), minTtl := 0, maxTtl := 0, hits := 0, misses := 0 }
  settings :=
    { upstreams := []
      upstreamMode := .failover
      bootstrap := []
      cacheSize := 4096
      overrideMinTtlSecs := 0
      overrideMaxTtlSecs := 0
      echProbeDomain := []
      echProbeMins := 60
      stripEch := false
      logIpv6 := false }
  rewrites := .load none
  blockingMode := .nullIp
  blockedTtlSecs := 10

/-- The proxy as it starts. -/
def started (resolverOnly : Bool) : Inner otherRule writtenNames .recent where
  adblock := otherBlocker
  blackhole :=
    { resolver :=
        { dns := defaultPipeline
          resolverOnly := resolverOnly
          disableIpv6 := true
          addrCache := .new resolveCacheCap }
      cache := fun _ => none }

def quiet : Surroundings writtenNames where
  now := 0
  later := 0
  upstream _ := .error "no upstream".toList
  logActions := false

/-- The system asks a server that answers `0.0.0.0`. -/
def nullSystem : Outside writtenNames where
  now := 0
  later := 0
  a := quiet
  aaaa := quiet
  idA := 1
  idAaaa := 2
  lookupHost _ port := .ok [.v4 ⟨0, 0, 0, 0⟩ port]

def adsPlan : RequestPlan where
  scheme := "https".toList
  host := "ads.example".toList
  port := 443
  url := "https://ads.example/".toList
  method := "GET".toList

/-- The page is asked for. -/
def adsDecision : BlockDecision :=
  otherBlocker.check adsPlan.url [] "document".toList

/-- The query for the addresses of the host. -/
def adsQuery : Message writtenNames :=
  let msg : Message writtenNames := .query 1
  { msg with
    metadata := { msg.metadata with recursionDesired := true }
    queries := [.query "ads.example.".toList .a] }

def noBody : Captured where
  headers := []
  body := []
  encoding := []

theorem dropped_system :
  (((started false).blackhole.isBlackholed nullSystem adsPlan.host adsPlan.port).1 = true
      ∧ Dropped adsPlan adsDecision noBody
        ((started false).handleForward nullSystem true adsPlan adsDecision noBody))
    ∧ adsDecision.blocked = false
  := by
  constructor
  · apply (dropped_iff (started false) nullSystem true adsPlan adsDecision noBody rfl rfl rfl).mpr
    use rfl, [.v4 ⟨0, 0, 0, 0⟩ 443], rfl
    apply (isDnsBlackholed_iff _).mp
    rfl
  · rfl

/-- The service blocks the host and answers `0.0.0.0`.  The probe finds that the host does not
resolve, and the request is counted and sent. -/
theorem dropped_blockedHost :
  hostQuery adsPlan.host .a 1 = .ok adsQuery
    ∧ aRecords (defaultPipeline.handleProxy quiet adsQuery).1 = [⟨0, 0, 0, 0⟩]
    ∧ (started true).blackhole.resolver.resolverOnly = true
    ∧ (started true).blackhole.resolver.dns = defaultPipeline
    ∧ (started true).blackhole.verdict nullSystem.now adsPlan.host adsPlan.port = none
    ∧ ((started true).blackhole.resolver.addrCache.get nullSystem.now adsPlan.host).1 = none
    ∧ adsDecision.blocked = false
    ∧ ((started true).blackhole.resolver.resolve nullSystem adsPlan.host).1
      = .error "'ads.example' is blocked by the DNS filter (answered 0.0.0.0)".toList
    ∧ ((started true).blackhole.isBlackholed nullSystem adsPlan.host adsPlan.port).1 = false
    ∧ ((started true).handleForward nullSystem true adsPlan adsDecision noBody).1 = .sent
  := by
  refine ⟨rfl, rfl, rfl, rfl, rfl, rfl, rfl, rfl, rfl, ?_⟩
  apply Inner.handleForward_sent rfl rfl

end Proxy
