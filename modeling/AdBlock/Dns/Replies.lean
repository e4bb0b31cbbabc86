import AdBlock.Dns.Answers
import AdBlock.Dns.Resolver

/-!
# Replies of upstream servers

A reply is read from a datagram, from a stream after its length, or from the body of an HTTP
response.  Whichever way it comes, it is accepted for its id.  So what is returned for a query and
stored under its key answers that query exactly if the servers that are asked put the question into
the replies with its id (`accepted_asked_iff`).
-/

namespace Dns

variable {H : Hickory}

/-! ### Transports -/

/-- What the server sends on a stream. -/
structure Stream where
  /-- The query can be written to it. -/
  written : Except Text Unit
  bytes : Bytes
  /-- Why no more than these bytes can be read. -/
  ended : Text

/-- The parts of an HTTP response. -/
structure DohResponse where
  status : UInt16
  /-- The status as it is shown. -/
  shown : Text
  body : Except Text Bytes

/-- What the network does for a query to one server. -/
structure Link where
  /-- The look up of the address. -/
  target : Except Text Net.SocketAddr
  /-- The datagram that arrives. -/
  udp : Except Text Bytes
  tcp : Except Text Stream
  /-- The stream that is kept from an earlier query. -/
  dot : Option Stream
  tls : Except Text Stream
  /-- A connection for HTTP that is kept and not closed. -/
  doh : Bool
  handshake : Except Text Unit
  request : Except Text Unit
  response : Except Text DohResponse
  /-- The reply takes longer than the timeout. -/
  late : Bool
  elapsed : ℕ

section Transports

variable (fromVec : Bytes → Except Text (Message H))

def parseResponse (bytes : Bytes) : Except Text (Message H) :=
  (fromVec bytes).mapError ("parsing response: ".toList ++ ·)

def Stream.readExact (n : ℕ) (s : Stream) : Except Text (Bytes × Stream) :=
  if n ≤ s.bytes.length then .ok (s.bytes.take n, { s with bytes := s.bytes.drop n })
  else .error s.ended

def Stream.writeFramed (wire : Bytes) (s : Stream) : Except Text Unit :=
  if wire.length < 2 ^ 16 then s.written else .error "query too large".toList

/-- A message after its length, the high byte first. -/
def Stream.readFramed (s : Stream) : Except Text (Message H) := do
  let (len, s) ← s.readExact 2
  let (buf, _) ← s.readExact (len.foldl (fun n b => n * 256 + b.toNat) 0)
  parseResponse fromVec buf

def Stream.exchangeFramed (wire : Bytes) (s : Stream) : Except Text (Message H) := do
  s.writeFramed wire
  s.readFramed fromVec

namespace Link

variable (wire : Bytes) (link : Link)

def queryUdp : Except Text (Message H) := do
  let _ ← link.target
  let datagram ← link.udp
  -- the rest of a datagram that is longer than the buffer is lost
  parseResponse fromVec (datagram.take 4096)

def queryTcp : Except Text (Message H) := do
  let _ ← link.target
  let stream ← link.tcp
  stream.exchangeFramed fromVec wire

/-- A new connection to the server. -/
def dialTls : Except Text Stream := do
  let _ ← link.target
  link.tls

/-- The stream that is kept is given up if it does not give a reply. -/
def queryDot : Except Text (Message H) :=
  match link.dot.map (Stream.exchangeFramed fromVec wire) with
  | some (.ok resp) => .ok resp
  | _ => do
      let stream ← link.dialTls
      stream.exchangeFramed fromVec wire

/-- The connection that is kept, or a new one. -/
def connectDoh : Except Text Unit :=
  if link.doh then .ok ()
  else do
    let _ ← link.dialTls
    link.handshake.mapError ("doh handshake: ".toList ++ ·)

def queryDoh : Except Text (Message H) := do
  link.connectDoh
  link.request
  let resp ← link.response.mapError ("doh request: ".toList ++ ·)
  if resp.status ≠ 200 then .error ("doh HTTP ".toList ++ resp.shown)
  else do
    let body ← resp.body.mapError ("doh body: ".toList ++ ·)
    if 65536 < body.length then .error "doh body: length limit exceeded".toList
    else parseResponse fromVec body

def queryOne (scheme : Scheme) : Except Text (Message H) :=
  match scheme with
  | .udp => do
      let resp ← link.queryUdp fromVec
      if resp.metadata.truncation then link.queryTcp fromVec wire else .ok resp
  | .tcp => link.queryTcp fromVec wire
  | .tls => link.queryDot fromVec wire
  | .https => link.queryDoh fromVec

/-- A query to a server, within the timeout. -/
def attempt (scheme : Scheme) : Attempt H where
  outcome := if link.late then none else some (link.queryOne fromVec wire scheme)
  elapsed := link.elapsed

end Link

end Transports

/-! ### Questions and replies -/

/-- The message has the query as its only question. -/
def Asked (query : Query H) (m : Message H) : Prop :=
  m.queries.map CacheKey.of = [.of query]

instance (query : Query H) (m : Message H) : Decidable (Asked query m) :=
  inferInstanceAs (Decidable (_ = _))

/-- The servers of a resolver and the codec of messages, for a query with an id. -/
structure Servers (H : Hickory) (r : Resolver) where
  id : UInt16
  toVec : Message H → Except Text Bytes
  fromVec : Bytes → Except Text (Message H)
  timeout : ℕ
  links : r.Index → Bytes → Link

variable {r : Resolver}

/-- What goes on around a query in one of the modes. -/
def Servers.attempts (w : Servers H r) (mode : UpstreamMode) (random : UInt64)
    (pending : r.Index → ℕ) (polls : List r.Index) : Attempts H { r with mode } where
  id := w.id
  toVec := w.toVec
  random := random
  timeout := w.timeout
  queryOne i bytes := (w.links i bytes).attempt w.fromVec bytes (r.addr i).scheme
  pending := pending
  polls := polls

/-- What is returned for the query in one of the modes. -/
def Servers.resolve (w : Servers H r) (mode : UpstreamMode) (health : Health r)
    (random : UInt64) (pending : r.Index → ℕ) (polls : List r.Index) (query : Query H) :
    Progress (Except Text (Message H × Text)) :=
  (Resolver.resolve { r with mode } (w.attempts mode random pending polls)
    ⟨health.stats, health.preferred⟩ query).result

/-- The server is not parked and gives the reply in time, with the id of the query. -/
structure Servers.Gives (w : Servers H r) (bytes : Bytes) (i : r.Index) (m : Message H) : Prop where
  enabled : (r.addr i).enabled = true
  inTime : (w.links i bytes).late = false
  reply : (w.links i bytes).queryOne w.fromVec bytes (r.addr i).scheme = .ok m
  id : m.metadata.id = w.id

variable {w : Servers H r} {query : Query H} {bytes : Bytes}

theorem encode_attempts (hencode : w.toVec (Resolver.wireMessage w.id query) = .ok bytes)
    (mode : UpstreamMode) (random : UInt64) (pending : r.Index → ℕ) (polls : List r.Index) :
  Resolver.encode { r with mode } (w.attempts mode random pending polls) query
    = .ok (bytes, w.id)
  := by
  simp only [Resolver.encode, Servers.attempts, hencode]

/-- A reply is accepted if it comes in time with the id. -/
theorem accepts_attempt_iff {i : r.Index} {m : Message H} :
  Resolver.Accepts (fun i => (w.links i bytes).attempt w.fromVec bytes (r.addr i).scheme) w.id i m
    ↔ (w.links i bytes).late = false
      ∧ (w.links i bytes).queryOne w.fromVec bytes (r.addr i).scheme = .ok m
      ∧ m.metadata.id = w.id
  := by
  simp only [Resolver.Accepts, Link.attempt]
  cases (w.links i bytes).late with
  | false => simp
  | true => simp

/-- What is returned was given by a server. -/
theorem gives_of_resolve (hencode : w.toVec (Resolver.wireMessage w.id query) = .ok bytes)
    {mode : UpstreamMode} {health : Health r} {random : UInt64} {pending : r.Index → ℕ}
    {polls : List r.Index} {m : Message H} {label : Text}
    (h : w.resolve mode health random pending polls query = .returned (.ok (m, label))) :
  ∃ i, w.Gives bytes i m
  := by
  by_cases hne : Resolver.active { r with mode } = []
  · simp only [Servers.resolve, Resolver.resolve, if_pos hne] at h
    injection h with h
    cases h
  · obtain ⟨hselects, -⟩ := Resolver.selects_resolve
      (encode_attempts hencode mode random pending polls) hne ⟨health.stats, health.preferred⟩
    obtain ⟨i, hi, -, haccepts⟩ := hselects.ok m label h
    obtain ⟨hinTime, hreply, hid⟩ := accepts_attempt_iff.mp haccepts
    exact ⟨i, Resolver.mem_active.mp (hselects.subset hi), hinTime, hreply, hid⟩

/-- Each server that gives a reply can be the first that is asked. -/
theorem resolve_of_gives (hencode : w.toVec (Resolver.wireMessage w.id query) = .ok bytes)
    {i : r.Index} {m : Message H} (h : w.Gives bytes i m) :
  w.resolve .failover ⟨fun _ => {}, i⟩ 0 (fun _ => 0) [] query
    = .returned (.ok (m, (r.addr i).label))
  := by
  let r' : Resolver := { r with mode := .failover }
  have hactive : i ∈ r'.active := Resolver.mem_active.mpr h.enabled
  apply Resolver.resolve_of_preferred rfl (encode_attempts hencode .failover 0 (fun _ => 0) [])
    hactive rfl
  apply accepts_attempt_iff.mpr ⟨h.inTime, h.reply, h.id⟩

/-! ### What is stored under the key of a query -/

variable {A : Library} {L : LruCrate}

theorem key_of_planQuery {request : Message H} {rewrites : RewriteStore} {adblock : AdBlocker A}
    {domain : Text} {key : CacheKey}
    (h : planQuery request rewrites adblock = .answer query domain (.resolve key)) :
  key = .of query
  := by
  unfold planQuery at h
  split at h
  · cases h
  · split at h
    · cases h
    · injection h with hquery _ hverdict
      subst hquery
      simp only [planDomain] at hverdict
      split_ifs at hverdict
      injection hverdict with hkey
      exact hkey.symm

theorem handleResolve_of_error {p : Pipeline A H L} {s : Surroundings H} {key : CacheKey}
    {err : Text} (hmiss : (p.cache.get s.now key).1 = none)
    (hupstream : s.upstream query = .error err) {request : Message H} {domain : Text}
    {proxy : Bool} :
  (p.handleResolve s request query domain proxy key).2.1
    = { p with cache := (p.cache.get s.now key).2 }
  := by
  rcases hget : p.cache.get s.now key with ⟨hit, cache⟩
  rw [hget] at hmiss
  obtain rfl : hit = none := hmiss
  rw [Pipeline.handleResolve, hget]
  simp only [hupstream]

/-- What is in the cache after a query was there before, or was returned for the query. -/
theorem has_handleResolve {law : L.Lawful} {p : Pipeline A H L} {s : Surroundings H}
    {request : Message H} {domain : Text} {proxy : Bool} {key k : CacheKey} {e : CacheEntry H}
    (h : (p.handleResolve s request query domain proxy key).2.1.cache.Has law k e) :
  p.cache.Has law k e
    ∨ (k = key ∧ ∃ m label, s.upstream query = .ok (m, label) ∧ e.response.queries = m.queries)
  := by
  cases hhit : (p.cache.get s.now key).1 with
  | some cached =>
    rw [(handleResolve_of_hit hhit request query domain proxy).2] at h
    left
    apply h.of_get
  | none =>
    cases hupstream : s.upstream query with
    | error err =>
      rw [handleResolve_of_error hhit hupstream] at h
      left
      apply h.of_get
    | ok reply =>
      obtain ⟨m, label⟩ := reply
      rw [(handleResolve_of_miss hhit hupstream request domain proxy).2] at h
      rcases h.of_put_config with ⟨-, -, rfl, rfl⟩ | ⟨-, h⟩
      · right
        exact ⟨rfl, m, label, rfl, rfl⟩
      · left
        apply h.of_get

/-- In every mode and order, what is returned for the query and what is stored for it answers the
question that was asked. -/
structure Servers.Sound (w : Servers H r) (query : Query H) : Prop where
  returned : ∀ mode health random pending polls m label,
    w.resolve mode health random pending polls query = .returned (.ok (m, label)) → Asked query m
  stored : ∀ (A : Library) (L : LruCrate) (law : L.Lawful) (p : Pipeline A H L)
    (s : Surroundings H) (request : Message H) (domain : Text) (proxy : Bool) (key : CacheKey)
    mode health random pending polls,
    planQuery request p.rewrites p.adblock = .answer query domain (.resolve key) →
    w.resolve mode health random pending polls query = .returned (s.upstream query) →
    ∀ k e, (p.handleFrom s request proxy).2.1.cache.Has law k e →
      p.cache.Has law k e ∨ (k = .of query ∧ Asked query e.response)

/-- What is returned and stored for a query answers it exactly if every server that is not parked
has the question in each reply that it gives in time with the id of the query. -/
theorem accepted_asked_iff (r : Resolver) (w : Servers H r) (query : Query H) (bytes : Bytes)
    (hencode : w.toVec (Resolver.wireMessage w.id query) = .ok bytes) :
  w.Sound query ↔ ∀ i m, w.Gives bytes i m → Asked query m
  := by
  constructor
  · intro hsound i m hgives
    apply hsound.returned _ _ _ _ _ m _ (resolve_of_gives hencode hgives)
  · intro hgives
    have hreturned : ∀ mode health random pending polls m label,
        w.resolve mode health random pending polls query = .returned (.ok (m, label)) →
        Asked query m := by
      intro mode health random pending polls m label hresult
      obtain ⟨i, hi⟩ := gives_of_resolve hencode hresult
      apply hgives i m hi
    refine ⟨hreturned, ?_⟩
    intro A L law p s request domain proxy key mode health random pending polls hplan hresult k e he
    rw [(handleFrom_of_resolve hplan s proxy).2] at he
    rcases has_handleResolve he with he | ⟨rfl, m, label, hupstream, hqueries⟩
    · left
      apply he
    · right
      use key_of_planQuery hplan
      rw [hupstream] at hresult
      rw [Asked, hqueries]
      apply hreturned _ _ _ _ _ m label hresult

/-- The labels of a name, up to the empty one. -/
def readLabels : ℕ → Bytes → Option (Text × Bytes)
  | _, 0 :: rest => some ([], rest)
  | fuel + 1, n :: rest => do
      let (name, rest') ← readLabels fuel (rest.drop n.toNat)
      some ((rest.take n.toNat).map (fun b => Char.ofNat b.toNat) ++ '.' :: name, rest')
  | _, _ => none

/-- Messages of a header and one question, as they are on the wire. -/
def readQuestion : Bytes → Except Text (Message .written)
  | idHigh :: idLow :: _ :: _ :: 0 :: 1 :: 0 :: 0 :: 0 :: 0 :: 0 :: 0 :: rest =>
      match readLabels 127 rest with
      | some (name, [typeHigh, typeLow, 0, 1]) =>
          .ok { Message.response (Net.ofBytes idHigh idLow) .query with
                queries := [.query name ⟨Net.ofBytes typeHigh typeLow⟩] }
      | _ => .error "unexpected end of input".toList
  | _ => .error "unexpected end of input".toList

/-- A response with the id 7 and the question for the address of a host under `test`. -/
def questionOf (host : List UInt8) : Bytes :=
  [0, 7, 129, 128, 0, 1, 0, 0, 0, 0, 0, 0, UInt8.ofNat host.length] ++ host
    ++ [4, 116, 101, 115, 116, 0, 0, 1, 0, 1]

/-- One server for plain queries. -/
def onlyServer : Resolver where
  upstreams := [Resolver.plainServer "192.0.2.53" true]
  mode := .failover
  bootstrap := []

/-- The server sends a datagram. -/
def replying (datagram : Bytes) : Servers .written onlyServer where
  id := 7
  toVec _ := .ok (questionOf [97])
  fromVec := readQuestion
  timeout := 3000000000
  links _ _ :=
    { target := .ok (.v4 ⟨192, 0, 2, 53⟩ 53)
      udp := .ok datagram
      tcp := .error "connection refused".toList
      dot := none
      tls := .error "connection refused".toList
      doh := false
      handshake := .ok ()
      request := .ok ()
      response := .error "connection refused".toList
      late := false
      elapsed := 20000000 }

/-- The query for `a.test`. -/
def testQuery : Query .written :=
  .query "a.test.".toList .a

/-- A message that has the query for the address of a host as its question. -/
def replyFor (host : String) : Message .written :=
  { Message.response 7 .query with queries := [.query host.toList .a] }

theorem accepted_asked_same :
  (replying (questionOf [65])).Sound testQuery
  := by
  apply (accepted_asked_iff onlyServer (replying (questionOf [65])) testQuery (questionOf [97])
    rfl).mpr
  intro i m hgives
  obtain rfl : i = (0 : Fin 1) := Fin.eq_zero i
  have hreply : (.ok (replyFor "A.test.") : Except Text (Message .written)) = .ok m :=
    hgives.reply
  injection hreply with hm
  subst hm
  decide

/-- A reply to another question is returned for the query and stored under its key. -/
theorem accepted_other :
  (replying (questionOf [98])).resolve .failover ⟨fun _ => {}, 0⟩ 0 (fun _ => 0) [] testQuery
      = .returned (.ok (replyFor "b.test.", "192.0.2.53".toList))
    ∧ ¬ Asked testQuery (replyFor "b.test.")
    ∧ ((((boundedPipeline 0 0).handleFrom
        { echSurroundings 60 0 with
          upstream := fun _ => .ok (replyFor "b.test.", "192.0.2.53".toList) }
        { Message.query 1 with queries := [testQuery] } false).2.1.cache.get 0 (.of testQuery)).1.map
      Message.queries) = some [.query "b.test.".toList .a]
  := by
  refine ⟨rfl, ?_, rfl⟩
  decide

end Dns
