import AdBlock.Proxy.Pool

/-!
# Sending requests upstream

A request goes out on an idle connection if there is one, and else on a new one.  When the idle
connection fails, the request is sent again on a new connection in two cases: the connection gave
the request back unsent, or it was closed before the response was complete.  In the second case the
server may have received the request, whatever its method (`send_once_iff`).
-/

namespace Proxy

/-! ### Requests -/

inductive Method where
  | get
  | head
  | post
  | put
  | delete
  | connect
  | options
  | trace
  | patch
  | extension (name : Text)
  deriving DecidableEq, Repr

inductive Version where
  | http09
  | http10
  | http11
  | http2
  | http3
  deriving DecidableEq, Repr

structure Uri where
  scheme : Option Text := none
  authority : Option Text := none
  pathAndQuery : Text
  deriving DecidableEq, Repr

/-- `Uri::path_and_query`.  An address that is only an authority has no path. -/
def Uri.path (uri : Uri) : Option Text :=
  if uri.scheme.isSome || uri.authority.isNone then some uri.pathAndQuery else none

structure Request where
  method : Method
  uri : Uri
  version : Version := .http11
  headers : List (Text × List UInt8) := []
  body : List UInt8 := []
  deriving DecidableEq, Repr

def cloneRequest (req : Request) : Request where
  method := req.method
  uri := req.uri
  version := req.version
  headers := req.headers
  body := req.body

/-- The request with the path of its address only. -/
def toOriginForm (req : Request) : Request :=
  match req.uri.path with
  | some pq => { req with uri := { pathAndQuery := pq } }
  | none => req

/-! ### Connections -/

/-- What a request is sent on, by the number of its connection. -/
abbrev Sender := ℕ

structure Pooled where
  sender : Sender
  ech : Bool
  deriving DecidableEq, Repr

inductive HyperError where
  /-- The connection was closed before the response was complete. -/
  | incompleteMessage
  | other (message : Text)
  deriving DecidableEq, Repr

/-- What becomes of a request on a connection. -/
inductive SendOutcome (Response : Type) where
  | response (resp : Response)
  /-- Nothing of the request was written, and it is given back. -/
  | unsent (e : HyperError)
  | failed (e : HyperError)

/-- The server may have received the request. -/
def SendOutcome.mayDeliver {Response : Type} : SendOutcome Response → Bool
  | .unsent _ => false
  | _ => true

/-- The request is sent again on another connection. -/
def SendOutcome.replays {Response : Type} : SendOutcome Response → Bool
  | .unsent _ => true
  | .failed .incompleteMessage => true
  | _ => false

structure TrySendError where
  error : HyperError
  message : Option Request

inductive Stream where
  | tcp (stream : ℕ)
  | tls (stream : ℕ)

/-- What the network does during one call. -/
structure Network (Response : Type) where
  /-- The ECH configuration of the host, when the connection is chosen and when one is dialled. -/
  echConfigList : Option (List UInt8)
  echConfigAgain : Option (List UInt8)
  connectTcp : Except Text ℕ
  connectTcpAgain : Except Text ℕ
  echConnect : List UInt8 → ℕ → Except Text (ℕ × Bool)
  plainTlsConnect : ℕ → Except Text ℕ
  handshake : Stream → Except Text Sender
  outcome : Sender → Request → SendOutcome Response

inductive SendError where
  | hyper (e : HyperError)
  | connect (e : Text)

/-- A request that was handed to a connection. -/
structure Handing where
  sender : Sender
  request : Request
  mayDeliver : Bool
  deriving DecidableEq, Repr

/-- What a call returns and leaves: the pool, the connection that is parked when it is ready, and
what was handed to which connection. -/
structure Sent (Response : Type) where
  result : Except SendError (Response × Bool)
  pool : Pool Pooled
  parkWhenReady : Option (PoolKey × Pooled)
  handed : List Handing

/-- The connections that may have delivered the request. -/
def Sent.deliveries {Response : Type} (s : Sent Response) : List Handing :=
  s.handed.filter (·.mayDeliver)

section Send

variable {Response : Type} (net : Network Response)

/-- `try_send_request`. -/
def trySendRequest (sender : Sender) (req : Request) : Except TrySendError Response :=
  match net.outcome sender req with
  | .response resp => .ok resp
  | .unsent e => .error { error := e, message := some req }
  | .failed e => .error { error := e, message := none }

def handing (sender : Sender) (req : Request) : Handing where
  sender
  request := req
  mayDeliver := (net.outcome sender req).mayDeliver

def replayOrSurface (e : TrySendError) (retry : Request) : Except HyperError Request :=
  match e.message with
  | some req => .ok req
  | none =>
      match e.error with
      | .incompleteMessage => .ok retry
      | err => .error err

/-- A new connection, and whether it has ECH.  Without ECH the host is dialled again. -/
def dial (egress tls : Bool) : Except Text (Sender × Bool) := do
  let tcp ← net.connectTcp
  if !tls then return (← net.handshake (.tcp tcp), false)
  match if egress then net.echConfigAgain else none with
  | some list =>
      match net.echConnect list tcp with
      | .ok (stream, echUsed) => return (← net.handshake (.tls stream), echUsed)
      | .error _ =>
          let tcp ← net.connectTcpAgain
          let stream ← net.plainTlsConnect tcp
          return (← net.handshake (.tls stream), false)
  | none =>
      let stream ← net.plainTlsConnect tcp
      return (← net.handshake (.tls stream), false)

/-- Send on a new connection, after what was handed to an idle one. -/
def sendFresh (egress : Bool) (key : PoolKey) (req : Request) (pool : Pool Pooled)
    (handed : List Handing) : Sent Response :=
  match dial net egress key.2.2 with
  | .error e => { result := .error (.connect e), pool, parkWhenReady := none, handed }
  | .ok (sender, ech) =>
      let handed := handed ++ [handing net sender req]
      match trySendRequest net sender req with
      | .error e => { result := .error (.hyper e.error), pool, parkWhenReady := none, handed }
      | .ok resp =>
          { result := .ok (resp, ech), pool, parkWhenReady := some (key, { sender, ech }), handed }

/-- ECH is wished for if the host has a configuration for it. -/
def wantEch (egress tls : Bool) : Bool :=
  tls && egress && net.echConfigList.isSome

def send (I : Liveness Pooled) (egress : Bool) (req : Request) (host : Text) (port : UInt16)
    (tls : Bool) (pool : Pool Pooled) : Sent Response :=
  let key := (host, port, tls)
  let req := toOriginForm req
  match pool.checkout I key (wantEch net egress tls) with
  | (none, pool) => sendFresh net egress key req pool []
  | (some pooled, pool) =>
      let retry := cloneRequest req
      let handed := [handing net pooled.sender req]
      match trySendRequest net pooled.sender req with
      | .ok resp =>
          { result := .ok (resp, pooled.ech), pool, parkWhenReady := some (key, pooled), handed }
      | .error e =>
          match replayOrSurface e retry with
          | .error err =>
              { result := .error (.hyper err), pool, parkWhenReady := none, handed }
          | .ok req => sendFresh net egress key req pool handed

/-! ### Who gets the request -/

/-- What a new connection gets. -/
def freshHandings (egress tls : Bool) (req : Request) : List Handing :=
  (dial net egress tls).toOption.toList.map fun c => handing net c.1 req

theorem handed_sendFresh (egress : Bool) (key : PoolKey) (req : Request) (pool : Pool Pooled)
    (handed : List Handing) :
  (sendFresh net egress key req pool handed).handed
    = handed ++ freshHandings net egress key.2.2 req
  := by
  rw [sendFresh, freshHandings]
  cases dial net egress key.2.2 with
  | error e =>
    symm
    apply List.append_nil
  | ok c =>
    dsimp only
    cases trySendRequest net c.1 req with
    | error e => rfl
    | ok resp => rfl

section Handed

variable {I : Liveness Pooled} {egress : Bool} {req : Request} {host : Text} {port : UInt16}
  {tls : Bool} {pool : Pool Pooled}

theorem handed_send_of_none
    (h : (pool.checkout I (host, port, tls) (wantEch net egress tls)).1 = none) :
  (send net I egress req host port tls pool).handed
    = freshHandings net egress tls (toOriginForm req)
  := by
  rw [send]
  generalize pool.checkout I (host, port, tls) (wantEch net egress tls) = checked at h
  obtain ⟨taken, pool'⟩ := checked
  cases h
  apply handed_sendFresh

/-- The idle connection gets the request, and then a new one if the idle one gave it back or was
closed before the response was complete. -/
theorem handed_send_of_some {pooled : Pooled}
    (h : (pool.checkout I (host, port, tls) (wantEch net egress tls)).1 = some pooled) :
  (send net I egress req host port tls pool).handed
    = handing net pooled.sender (toOriginForm req)
      :: if (net.outcome pooled.sender (toOriginForm req)).replays then
          freshHandings net egress tls (toOriginForm req)
        else []
  := by
  rw [send]
  generalize pool.checkout I (host, port, tls) (wantEch net egress tls) = checked at h
  obtain ⟨taken, pool'⟩ := checked
  cases h
  dsimp only
  rw [trySendRequest]
  rcases net.outcome pooled.sender (toOriginForm req) with resp | e | e
  · rfl
  · apply handed_sendFresh
  · cases e with
    | incompleteMessage => apply handed_sendFresh
    | other message => rfl

end Handed

theorem mem_freshHandings {egress tls : Bool} {req : Request} {h : Handing} :
  h ∈ freshHandings net egress tls req
    ↔ ∃ sender ech, dial net egress tls = .ok (sender, ech) ∧ h = handing net sender req
  := by
  rw [freshHandings]
  cases dial net egress tls with
  | error e =>
    apply iff_of_false List.not_mem_nil
    rintro ⟨sender, ech, ⟨⟩, -⟩
  | ok c =>
    constructor
    · intro h
      exact ⟨c.1, c.2, rfl, List.mem_singleton.mp h⟩
    · rintro ⟨sender, ech, ⟨⟩, rfl⟩
      apply List.mem_singleton_self

theorem length_freshHandings_le (egress tls : Bool) (req : Request) :
  (freshHandings net egress tls req).length ≤ 1
  := by
  rw [freshHandings, List.length_map]
  exact Option.length_toList_le

theorem mayDeliver_freshHandings (egress tls : Bool) (req : Request) :
  (∀ h ∈ freshHandings net egress tls req, ¬ h.mayDeliver = true)
    ↔ ¬ ∃ sender ech, dial net egress tls = .ok (sender, ech)
        ∧ (net.outcome sender req).mayDeliver = true
  := by
  constructor
  · rintro h ⟨sender, ech, hdial, hdeliver⟩
    exact h _ ((mem_freshHandings net).mpr ⟨sender, ech, hdial, rfl⟩) hdeliver
  · rintro h _ hmem hdeliver
    obtain ⟨sender, ech, hdial, rfl⟩ := (mem_freshHandings net).mp hmem
    exact h ⟨sender, ech, hdial, hdeliver⟩

theorem request_of_mem_freshHandings {egress tls : Bool} {req : Request} {h : Handing}
    (hmem : h ∈ freshHandings net egress tls req) :
  h.request = req
  := by
  obtain ⟨sender, ech, -, rfl⟩ := (mem_freshHandings net).mp hmem
  rfl

section Deliveries

variable {I : Liveness Pooled} {egress : Bool} {req : Request} {host : Text} {port : UInt16}
  {tls : Bool} {pool : Pool Pooled} {pooled : Pooled}

theorem request_of_mem_handed {h : Handing}
    (hmem : h ∈ (send net I egress req host port tls pool).handed) :
  h.request = toOriginForm req
  := by
  cases hcheckout : (pool.checkout I (host, port, tls) (wantEch net egress tls)).1 with
  | none =>
    rw [handed_send_of_none net hcheckout] at hmem
    exact request_of_mem_freshHandings net hmem
  | some pooled =>
    rw [handed_send_of_some net hcheckout, List.mem_cons] at hmem
    obtain rfl | hmem := hmem
    · rfl
    · split at hmem
      · exact request_of_mem_freshHandings net hmem
      · cases hmem

theorem length_deliveries_of_none
    (h : (pool.checkout I (host, port, tls) (wantEch net egress tls)).1 = none) :
  (send net I egress req host port tls pool).deliveries.length ≤ 1
  := by
  rw [Sent.deliveries, handed_send_of_none net h]
  exact (List.length_filter_le _ _).trans (length_freshHandings_le net egress tls _)

/-- An idle connection that is not closed early has not delivered the request, or no other
connection gets it. -/
theorem length_deliveries_of_ne
    (h : (pool.checkout I (host, port, tls) (wantEch net egress tls)).1 = some pooled)
    (hne : net.outcome pooled.sender (toOriginForm req) ≠ .failed .incompleteMessage) :
  (send net I egress req host port tls pool).deliveries.length ≤ 1
  := by
  rw [Sent.deliveries, handed_send_of_some net h, List.filter_cons, handing]
  rcases houtcome : net.outcome pooled.sender (toOriginForm req) with resp | e | e
  · exact Nat.le.refl
  · exact (List.length_filter_le _ _).trans (length_freshHandings_le net egress tls _)
  · cases e with
    | other message => exact Nat.le.refl
    | incompleteMessage => exact absurd houtcome hne

/-- An idle connection that is closed early may have delivered the request, and a new one gets it
too. -/
theorem length_deliveries_of_incomplete
    (h : (pool.checkout I (host, port, tls) (wantEch net egress tls)).1 = some pooled)
    (hincomplete : net.outcome pooled.sender (toOriginForm req) = .failed .incompleteMessage) :
  (send net I egress req host port tls pool).deliveries.length ≤ 1
    ↔ ¬ ∃ sender ech, dial net egress tls = .ok (sender, ech)
        ∧ (net.outcome sender (toOriginForm req)).mayDeliver = true
  := by
  rw [← mayDeliver_freshHandings, ← List.filter_eq_nil_iff, ← List.length_eq_zero_iff,
    Sent.deliveries, handed_send_of_some net h, List.filter_cons, handing, hincomplete]
  apply Nat.succ_le_succ_iff.trans Nat.le_zero

end Deliveries

/-- A request is handed to connections as it is, and at most one of them may deliver it, exactly
unless an idle connection is closed before the response is complete, a new connection is made, and
that may deliver the request too.  The method does not matter. -/
theorem send_once_iff (I : Liveness Pooled) (egress : Bool) (req : Request) (host : Text)
    (port : UInt16) (tls : Bool) (pool : Pool Pooled) :
  (∀ h ∈ (send net I egress req host port tls pool).handed, h.request = toOriginForm req)
    ∧ ((send net I egress req host port tls pool).deliveries.length ≤ 1
      ↔ ¬ ∃ pooled sender ech,
          (pool.checkout I (host, port, tls) (wantEch net egress tls)).1 = some pooled
            ∧ net.outcome pooled.sender (toOriginForm req) = .failed .incompleteMessage
            ∧ dial net egress tls = .ok (sender, ech)
            ∧ (net.outcome sender (toOriginForm req)).mayDeliver = true)
  := by
  use fun h hmem => request_of_mem_handed net hmem
  cases hcheckout : (pool.checkout I (host, port, tls) (wantEch net egress tls)).1 with
  | none =>
    apply iff_of_true (length_deliveries_of_none net hcheckout)
    rintro ⟨_, _, _, ⟨⟩, -⟩
  | some pooled =>
    by_cases hincomplete :
        net.outcome pooled.sender (toOriginForm req) = .failed .incompleteMessage
    · apply (length_deliveries_of_incomplete net hcheckout hincomplete).trans
      apply not_congr
      constructor
      · rintro ⟨sender, ech, hfresh⟩
        exact ⟨pooled, sender, ech, rfl, hincomplete, hfresh⟩
      · rintro ⟨_, sender, ech, ⟨⟩, -, hfresh⟩
        exact ⟨sender, ech, hfresh⟩
    · apply iff_of_true (length_deliveries_of_ne net hcheckout hincomplete)
      rintro ⟨_, _, _, ⟨⟩, hfailed, -⟩
      exact hincomplete hfailed

/-- A server that answers an idle connection by closing it, and a new one with a response. -/
def closingNetwork : Network Unit where
  echConfigList := none
  echConfigAgain := none
  connectTcp := .ok 7
  connectTcpAgain := .ok 7
  echConnect _ stream := .ok (stream, true)
  plainTlsConnect := .ok
  handshake _ := .ok 2
  outcome sender _ := if sender = 1 then .failed .incompleteMessage else .response ()

def orderRequest : Request where
  method := .post
  uri := { pathAndQuery := "/order".toList }
  body := [1, 2, 3]

/-- Connections that all live and have no ECH. -/
def allLive : Liveness Pooled where
  isLive _ _ := true
  ech _ := false

/-- A pool with one idle connection. -/
def oneIdle : Pool Pooled :=
  Pool.new.park ("a".toList, 443, true) { sender := 1, ech := false }

/-- The network, but nothing is written on the idle connection any more. -/
def unsentNetwork : Network Unit :=
  { closingNetwork with
    outcome := fun sender _ => if sender = 1 then .unsent .incompleteMessage else .response () }

/-- The idle connection gives the order back, and it is posted once, as it is, on a new one. -/
theorem send_once_unsent :
  (send unsentNetwork allLive false orderRequest "a".toList 443 true oneIdle).handed
      = [handing unsentNetwork 1 orderRequest, handing unsentNetwork 2 orderRequest]
    ∧ (∀ h ∈ (send unsentNetwork allLive false orderRequest "a".toList 443 true oneIdle).handed,
      h.request = toOriginForm orderRequest)
    ∧ (send unsentNetwork allLive false orderRequest "a".toList 443 true
      oneIdle).deliveries.length ≤ 1
  := by
  obtain ⟨hsame, honce⟩ :=
    send_once_iff unsentNetwork allLive false orderRequest "a".toList 443 true oneIdle
  refine ⟨by decide +kernel, hsame, honce.mpr ?_⟩
  rintro ⟨pooled, sender, ech, hcheckout, hfailed, -⟩
  have hidle : (oneIdle.checkout allLive ("a".toList, 443, true)
      (wantEch unsentNetwork false true)).1 = some { sender := 1, ech := false } := by
    decide +kernel
  obtain rfl := Option.some.inj (hidle.symm.trans hcheckout)
  cases hfailed

/-- The order is posted on an idle connection and on a new one, and both may have delivered it. -/
theorem send_twice :
  orderRequest.method = .post
    ∧ (send closingNetwork allLive false orderRequest "a".toList 443 true oneIdle).deliveries
      = [{ sender := 1, request := orderRequest, mayDeliver := true },
        { sender := 2, request := orderRequest, mayDeliver := true }]
  := by
  decide +kernel

end Send

end Proxy
