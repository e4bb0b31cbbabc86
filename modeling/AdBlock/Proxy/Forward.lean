import AdBlock.Blocker.Page
import AdBlock.Process.Basic
import AdBlock.Proxy.Blackhole
import AdBlock.Proxy.Connect
import AdBlock.Proxy.HttpClient
import AdBlock.Uri.Basic

/-!
# Forwarding a request

What the proxy does with a request, from its arrival to the response: it works out where the
request goes, asks the blocker and where the host leads, counts and records, hands the request to
the client and passes the response on.  Other requests are under way, so each access to what they
share is a step of its own.
-/

namespace Forward

open Dns (DnsEffect Hickory Message Surroundings)

variable {A : Library} {U : UriCrate} {P : PageLibrary A} {H : Hickory} {L : LruCrate}

/-- A request without its body. -/
structure Parts (U : UriCrate) (P : PageLibrary A) where
  method : Proxy.Method
  uri : U.Uri
  headers : P.headers.Map

def methodName : Proxy.Method → Text
  | .get => "GET".toList
  | .head => "HEAD".toList
  | .post => "POST".toList
  | .put => "PUT".toList
  | .delete => "DELETE".toList
  | .connect => "CONNECT".toList
  | .options => "OPTIONS".toList
  | .trace => "TRACE".toList
  | .patch => "PATCH".toList
  | .extension name => name

/-! ### Where a request goes -/

def defaultPort (scheme : Text) : UInt16 :=
  if scheme = "https".toList then 443 else 80

structure HttpTarget where
  scheme : Text
  host : Text
  port : UInt16
  path : Text
  deriving DecidableEq, Repr

def HttpTarget.url (t : HttpTarget) : Text :=
  if t.port = defaultPort t.scheme then t.scheme ++ "://".toList ++ t.host ++ t.path
  else t.scheme ++ "://".toList ++ t.host ++ ':' :: Net.decimal t.port.toNat ++ t.path

/-- The text of the first value of a header. -/
def headerText (req : Parts U P) (name : Text) : Option Text :=
  (P.headers.get req.headers name).bind P.headers.toStr

def targetOf (req : Parts U P) (secure : Bool) : Except Text HttpTarget :=
  let path := (U.pathAndQuery req.uri).getD ['/']
  match U.authority req.uri with
  | some (host, port) =>
      let scheme := (U.schemeStr req.uri).getD "http".toList
      .ok ⟨scheme, host, port.getD (defaultPort scheme), path⟩
  | none =>
      match headerText req "host".toList with
      | none => .error "request without Host header".toList
      | some hostHeader =>
          let scheme := if secure then "https".toList else "http".toList
          let (host, port) := Proxy.splitHostPort hostHeader (defaultPort scheme)
          .ok ⟨scheme, host, port, path⟩

def planRequest (req : Parts U P) (secure : Bool) : Except Text Proxy.RequestPlan :=
  (targetOf req secure).map fun t =>
    { scheme := t.scheme, host := t.host, port := t.port, url := t.url
      method := methodName req.method }

/-! ### Naming a request -/

def eqIgnoreAsciiCase (s t : Text) : Bool :=
  Text.toAsciiLowercase s = Text.toAsciiLowercase t

/-- `str::contains`. -/
def containsText (s pattern : Text) : Bool :=
  (Text.splitOnceText pattern s).isSome

/-- A header names something, whatever its case and its parameters. -/
def headerIs (req : Parts U P) (name want : Text) : Bool :=
  (headerText req name).any fun v =>
    eqIgnoreAsciiCase (Text.trim (v.takeWhile (· ≠ ';'))) want

/-- The types of requests by the header `sec-fetch-dest`. -/
def destType (dest : Text) : Text :=
  if dest = "document".toList then "document".toList
  else if dest = "iframe".toList ∨ dest = "frame".toList then "subdocument".toList
  else if dest = "image".toList then "image".toList
  else if dest = "script".toList then "script".toList
  else if dest = "style".toList then "stylesheet".toList
  else if dest = "video".toList ∨ dest = "audio".toList then "media".toList
  else if dest = "font".toList then "font".toList
  else if dest = "object".toList ∨ dest = "embed".toList then "object".toList
  else if dest = "empty".toList then "fetch".toList
  else "other".toList

def requestType (req : Parts U P) : Text :=
  if headerIs req "upgrade".toList "websocket".toList then "websocket".toList
  else if headerIs req "content-type".toList "text/ping".toList then "ping".toList
  else
    match headerText req "sec-fetch-dest".toList with
    | some dest => destType dest
    | none =>
        if (headerText req "x-requested-with".toList).any
            (eqIgnoreAsciiCase · "XMLHttpRequest".toList) then
          "fetch".toList
        else
          let accept := (headerText req "accept".toList).getD []
          -- pages accept images, too
          if containsText accept "text/html".toList then "document".toList
          else if containsText accept "image/".toList then "image".toList
          else if req.method ≠ .get ∧ req.method ≠ .head then "fetch".toList
          else "other".toList

/-- The page that a request belongs to. -/
def sourceUrl (req : Parts U P) (url reqType : Text) : Text :=
  let referer := (headerText req "referer".toList).getD []
  if !referer.isEmpty then referer
  else if reqType = "document".toList then url
  else []

def isBeaconShaped (req : Parts U P) : Bool :=
  req.method = .post && headerIs req "sec-fetch-mode".toList "no-cors".toList
    && headerIs req "sec-fetch-dest".toList "empty".toList

/-! ### Requests and responses on their way -/

/-- A body as it comes: what can be read of it, and the error that ends it, if any. -/
structure Body where
  data : Bytes
  failure : Option Text := none
  deriving DecidableEq, Repr

def Body.collect (body : Body) : Except Text Bytes :=
  match body.failure with
  | none => .ok body.data
  | some e => .error e

structure Response (P : PageLibrary A) where
  status : UInt16
  headers : P.headers.Map
  body : Body

/-- A request that is handed to the client. -/
structure Outgoing (U : UriCrate) (P : PageLibrary A) where
  parts : Parts U P
  body : Bytes
  host : Text
  port : UInt16
  tls : Bool

def rewriteUri (original : U.Uri) (clean : Text) : Option U.Uri := do
  let clean ← (U.parse clean).toOption
  if (U.authority original).isSome then some clean
  else (U.parse (← U.pathAndQuery clean)).toOption

def filterRequest (decision : BlockDecision) (parts : Parts U P) : Parts U P where
  method := parts.method
  headers :=
    if decision.wantsBody then
      P.headers.insert parts.headers "accept-encoding".toList
        (P.headers.fromStatic "identity".toList)
    else parts.headers
  uri := (decision.rewrittenUrl.bind (rewriteUri parts.uri)).getD parts.uri

def responseIsEditable (status : UInt16) (headers : P.headers.Map) : Bool :=
  let contentType :=
    ((P.headers.get headers "content-type".toList).bind P.headers.toStr).getD []
  200 ≤ status.toNat && status.toNat < 300
    && eqIgnoreAsciiCase (Text.trim (contentType.takeWhile (· ≠ ';'))) "text/html".toList
    && (P.headers.get headers "content-encoding".toList).isNone

def readsBody (decision : BlockDecision) (status : UInt16) (headers : P.headers.Map) : Bool :=
  decision.wantsBody && responseIsEditable status headers

/-- The response to a blocked request.  A type that is no header value is not served. -/
def blockedResponse (decision : BlockDecision) : Response P :=
  let refused : Response P := { status := 403, headers := P.headers.new, body := { data := [] } }
  match decision.redirect with
  | none => refused
  | some redirect =>
      match P.headers.fromStr redirect.mime with
      | none => refused
      | some mime =>
          { status := 200
            headers := P.headers.insert P.headers.new "content-type".toList mime
            body := { data := redirect.body } }

/-! ### What the requests share -/

/-- What the requests share.  The service that resolves hosts inside the process asks the blocker
that the proxy asks. -/
structure World (U : UriCrate) (P : PageLibrary A) (H : Hickory) (L : LruCrate) where
  blackhole : Proxy.BlackholeProbe A H L
  /-- What was handed to the client. -/
  sent : List (Outgoing U P)

/-- The blocker. -/
def World.adblock (w : World U P H L) : AdBlocker A :=
  w.blackhole.resolver.dns.adblock

/-- What is done while others do the same. -/
abbrev Task (U : UriCrate) (P : PageLibrary A) (H : Hickory) (L : LruCrate) : Type → Type :=
  Process (World U P H L)

/-- Look at the blocker. -/
def ask {α : Type} (f : AdBlocker A → α) : Task U P H L α :=
  .atomic fun w => (f w.adblock, w)

/-- A step on the probe. -/
def onProbe {α : Type} (f : Proxy.BlackholeProbe A H L → α × Proxy.BlackholeProbe A H L) :
    Task U P H L α :=
  .atomic fun w => ((f w.blackhole).1, { w with blackhole := (f w.blackhole).2 })

/-- A step on what hosts are resolved with. -/
def onEgress {α : Type} (f : Proxy.EgressPolicy A H L → α × Proxy.EgressPolicy A H L) :
    Task U P H L α :=
  onProbe fun probe => ((f probe.resolver).1, { probe with resolver := (f probe.resolver).2 })

/-! ### Where a host leads -/

/-- `EgressPolicy::resolve`, step by step. -/
def resolve (w : Proxy.Outside H) (host : Text) :
    Task U P H L (Except Text (List Net.IpAddr) × List (DnsEffect H)) := do
  let cached ← onEgress fun e =>
    ((e.addrCache.get w.now host).1, { e with addrCache := (e.addrCache.get w.now host).2 })
  match cached with
  | some addrs => return (.ok addrs, [])
  | none => do
      let wantIpv6 ← onEgress fun e => (!e.disableIpv6, e)
      let (found, effects) ← onEgress fun e =>
        let answer := e.dns.resolve w.a w.aaaa w.idA w.idAaaa host wantIpv6
        ((answer.1, answer.2.2), { e with dns := answer.2.1 })
      match found with
      | .error e => return (.error e, effects)
      | .ok addrs => do
          onEgress fun e => ((), { e with addrCache := e.addrCache.put w.later host addrs })
          return (.ok addrs, effects)

/-- `EgressResolver::resolve`, step by step. -/
def resolveAt (w : Proxy.Outside H) (host : Text) (port : UInt16) :
    Task U P H L (Except Text (List Net.SocketAddr) × List (DnsEffect H)) := do
  let resolverOnly ← onEgress fun e => (e.resolverOnly, e)
  if resolverOnly then do
    let (addrs, effects) ← resolve w host
    return (addrs.map (List.map (Net.SocketAddr.new · port)), effects)
  else return (w.lookupHost host port, [])

/-- The verdict on addresses. -/
def leadsNowhere : Except Text (List Net.SocketAddr) → Bool
  | .ok addrs => Proxy.isDnsBlackholed addrs
  | .error _ => false

/-- `BlackholeProbe::is_blackholed`, step by step. -/
def isBlackholed (w : Proxy.Outside H) (host : Text) (port : UInt16) :
    Task U P H L (Bool × List (DnsEffect H)) := do
  let verdict ← onProbe fun probe => (probe.verdict w.now host port, probe)
  match verdict with
  | some v => return (v, [])
  | none => do
      let (found, effects) ← resolveAt w host port
      onProbe fun probe =>
        ((), { probe with
          cache := Function.update probe.cache (Proxy.BlackholeProbe.key host port)
            (some (leadsNowhere found, w.later)) })
      return (leadsNowhere found, effects)

/-! ### The proxy -/

/-- Why a request has no response. -/
inductive Failure where
  | badRequest (message : Text)
  | body (message : Text)
  /-- The connection is dropped. -/
  | blockedDropped
  | upstream (message : Text)
  deriving DecidableEq, Repr

/-- A request that arrives, and what is outside of the proxy meanwhile: what its host resolves to,
and what the server answers. -/
structure Arrival (U : UriCrate) (P : PageLibrary A) (H : Hickory) where
  req : Parts U P
  secure : Bool
  body : Body
  captured : Proxy.Captured
  outside : Proxy.Outside H
  answer : Outgoing U P → Except Text (Response P × Bool)

variable (logActions : Bool)

def checkRequest (url : Text) (req : Parts U P) : Task U P H L BlockDecision := do
  let reqType := requestType req
  let source := sourceUrl req url reqType
  let decision ← ask (·.check url source reqType)
  if !decision.blocked && reqType ≠ "ping".toList && isBeaconShaped req then do
    let asBeacon ← ask (·.check url source "ping".toList)
    if asBeacon.blocked then return asBeacon else return decision
  else return decision

/-- How far a request gets, and what is counted and logged for it. -/
def screen (a : Arrival U P H) (plan : Proxy.RequestPlan) (decision : BlockDecision) :
    Task U P H L (Proxy.Forwarded × List (Proxy.ForwardEffect H)) := do
  let recordBlock (blockedBy : Text) : List (Proxy.ForwardEffect H) :=
    Proxy.recordBlock logActions (Proxy.requestFacts plan decision.reqType) plan.host blockedBy
      a.captured
  if decision.blocked then do
    let effects := recordBlock decision.attribution.display
    if decision.redirect.isSome then return (.answered decision, effects)
    else do
      let host ← ask (·.checkHost plan.scheme plan.host)
      if host.blocked then return (.dropped, effects) else return (.answered decision, effects)
  else do
    let (blackholed, effects) ← isBlackholed a.outside plan.host plan.port
    let effects := effects.map .dns
    if blackholed then return (.dropped, effects ++ recordBlock "DNS blackhole".toList)
    else
      return (.sent, effects ++ [.count .requests plan.host, .send plan decision a.captured])

/-- Hand a request to the client. -/
def send (out : Outgoing U P) (answer : Outgoing U P → Except Text (Response P × Bool)) :
    Task U P H L (Except Text (Response P × Bool)) :=
  .atomic fun w => (answer out, { w with sent := w.sent ++ [out] })

/-- Pass the response on, as the blocker has it. -/
def filterResponse (resp : Response P) (url : Text) (decision : BlockDecision) :
    Task U P H L (Except Failure (Response P)) :=
  if readsBody decision resp.status resp.headers then
    match resp.body.collect with
    | .error e => return .error (.upstream e)
    | .ok collected => do
        let (edit, headers) ← ask (·.filterResponse P url decision resp.headers (some collected))
        return .ok { resp with headers, body := { data := edit.body.getD collected } }
  else do
    let (_, headers) ← ask (·.filterResponse P url decision resp.headers none)
    return .ok { resp with headers }

/-- The request that goes out. -/
def outgoing (req : Parts U P) (plan : Proxy.RequestPlan) (decision : BlockDecision)
    (body : Bytes) : Outgoing U P where
  parts := filterRequest decision
    { req with
      headers := P.headers.remove (P.headers.remove req.headers "transfer-encoding".toList)
        "content-length".toList }
  body := body
  host := plan.host
  port := plan.port
  tls := plan.scheme = "https".toList

/-- What the proxy does with a request that it sends. -/
def forward (a : Arrival U P H) (plan : Proxy.RequestPlan) (decision : BlockDecision)
    (bytes : Bytes) :
    Task U P H L (Except Failure (Response P) × List (Proxy.ForwardEffect H)) := do
  let facts := Proxy.requestFacts plan decision.reqType
  let answer ← send (outgoing a.req plan decision bytes) a.answer
  match answer with
  | .error e =>
      return (.error (.upstream e),
        [.count .errors plan.host,
          .recordFailed facts plan.host
            ("upstream ".toList ++ plan.host ++ ": ".toList ++ e) a.captured])
  | .ok (resp, ech) => do
      let response ← filterResponse resp plan.url decision
      return (response, [.recordForwarded facts plan.host resp.status ech a.captured])

def handleForward (a : Arrival U P H) :
    Task U P H L (Except Failure (Response P) × List (Proxy.ForwardEffect H)) :=
  match planRequest a.req a.secure with
  | .error e => return (.error (.badRequest e), [])
  | .ok plan => do
      let decision ← checkRequest plan.url a.req
      match a.body.collect with
      | .error e => return (.error (.body e), [])
      | .ok bytes => do
          let (fate, effects) ← screen logActions a plan decision
          match fate with
          | .dropped => return (.error .blockedDropped, effects)
          | .answered decision => return (.ok (blockedResponse decision), effects)
          | .sent => do
              let (response, more) ← forward a plan decision bytes
              return (response, effects ++ more)

/-- What the proxy does with a request for a tunnel, up to the moment the tunnel is open. -/
def handleConnect (authority : Option Text) (exclusion : Text → Option Text)
    (captured : Proxy.Captured) :
    Task U P H L (Except Failure Unit × List (Proxy.ForwardEffect H)) :=
  match authority with
  | none => return (.error (.badRequest "CONNECT without authority".toList), [])
  | some authority => do
      let decision ← ask (·.checkHost "https".toList (authority.takeWhile (· ≠ ':')))
      let plan := Proxy.planConnect authority
        (fun _ => if decision.blocked then some decision.attribution.display else none) exclusion
      let facts (reqType : Text) : RequestFacts :=
        { method := "CONNECT".toList, reqType, url := plan.url }
      match plan.verdict with
      | .deny blockedBy =>
          return (.error .blockedDropped,
            Proxy.recordBlock logActions (facts "blocked".toList) plan.host blockedBy captured)
      | .blindTunnel excludedBy =>
          return (.ok (), [.recordTunnel (facts "tunnel-blind".toList) plan.host
            ("excluded: ".toList ++ excludedBy)])
      | .mitm => return (.ok (), [.recordTunnel (facts "tunnel-mitm".toList) plan.host []])

/-- What goes on at the same time.  The client resolves hosts and asks for their keys, in calls of
its own. -/
inductive Call (U : UriCrate) (P : PageLibrary A) (H : Hickory) (L : LruCrate) where
  | forward (a : Arrival U P H)
  | connect (authority : Option Text) (exclusion : Text → Option Text) (captured : Proxy.Captured)
  /-- A query, from outside or from inside the process. -/
  | query (w : Surroundings H) (request : Message H) (proxy : Bool)
  | resolve (w : Proxy.Outside H) (host : Text)
  /-- A change of the blocker. -/
  | edit (f : AdBlocker A → AdBlocker A)
  /-- A change of the settings. -/
  | configure (f : Proxy.EgressPolicy A H L → Proxy.EgressPolicy A H L)

def Call.process : Call U P H L → Task U P H L Unit
  | .forward a => do
      let _ ← handleForward logActions a
      return ()
  | .connect authority exclusion captured => do
      let _ ← handleConnect logActions authority exclusion captured
      return ()
  | .query w request proxy =>
      onEgress fun e => ((), { e with dns := (e.dns.handleFrom w request proxy).2.1 })
  | .resolve w host => do
      let _ ← Forward.resolve w host
      return ()
  | .edit f => onEgress fun e => ((), { e with dns := { e.dns with adblock := f e.dns.adblock } })
  | .configure f => onEgress fun e => ((), f e)

/-! ### A request by itself -/

section Run

open Process (run_bind run_pure)

/-- The state with another probe. -/
def World.withProbe (probe : Proxy.BlackholeProbe A H L) (w : World U P H L) : World U P H L :=
  { w with blackhole := probe }

variable (o : Proxy.Outside H) (host : Text) (port : UInt16) (w : World U P H L)

theorem run_onProbe {α : Type} (f : Proxy.BlackholeProbe A H L → α × Proxy.BlackholeProbe A H L) :
  (onProbe f).run w = ((f w.blackhole).1, w.withProbe (f w.blackhole).2)
  := rfl

theorem run_onEgress {α : Type} (f : Proxy.EgressPolicy A H L → α × Proxy.EgressPolicy A H L) :
  (onEgress f).run w
    = ((f w.blackhole.resolver).1,
      w.withProbe { w.blackhole with resolver := (f w.blackhole.resolver).2 })
  := rfl

/-- A host is resolved as `EgressPolicy.resolve` says. -/
theorem run_resolve :
  (resolve o host).run w
    = (((w.blackhole.resolver.resolve o host).1, (w.blackhole.resolver.resolve o host).2.2),
      w.withProbe
        { w.blackhole with resolver := (w.blackhole.resolver.resolve o host).2.1 })
  := by
  rw [resolve, run_bind, run_onEgress, Proxy.EgressPolicy.resolve]
  rcases w.blackhole.resolver.addrCache.get o.now host with ⟨_ | addrs, addrCache⟩
  · simp only [run_bind, run_onEgress, World.withProbe]
    rcases w.blackhole.resolver.dns.resolve o.a o.aaaa o.idA o.idAaaa host
      (!w.blackhole.resolver.disableIpv6) with ⟨err | addrs, dns, effects⟩
    · rfl
    · rfl
  · rfl

theorem run_resolveAt :
  (resolveAt o host port).run w
    = (((w.blackhole.resolver.resolveAt o host port).1,
        (w.blackhole.resolver.resolveAt o host port).2.2),
      w.withProbe
        { w.blackhole with resolver := (w.blackhole.resolver.resolveAt o host port).2.1 })
  := by
  have hread : (onEgress fun e => (e.resolverOnly, e) : Task U P H L Bool).run w
      = (w.blackhole.resolver.resolverOnly, w) := rfl
  rw [resolveAt, run_bind, hread, Proxy.EgressPolicy.resolveAt]
  dsimp only
  by_cases honly : w.blackhole.resolver.resolverOnly = true
  · rw [if_pos honly, if_pos honly, run_bind, run_resolve, run_pure]
  · rw [if_neg honly, if_neg honly]
    rfl

/-- The probe answers as `BlackholeProbe.isBlackholed` says. -/
theorem run_isBlackholed :
  (isBlackholed o host port).run w
    = (((w.blackhole.isBlackholed o host port).1, (w.blackhole.isBlackholed o host port).2.2),
      w.withProbe (w.blackhole.isBlackholed o host port).2.1)
  := by
  have hread : (onProbe fun probe => (probe.verdict o.now host port, probe) :
      Task U P H L (Option Bool)).run w = (w.blackhole.verdict o.now host port, w) := rfl
  rw [isBlackholed, run_bind, hread, Proxy.BlackholeProbe.isBlackholed]
  cases w.blackhole.verdict o.now host port with
  | some v => rfl
  | none =>
    simp only [run_bind, run_resolveAt]
    rfl

/-- Without others in between, a request gets as far as `Inner.handleForward` says, with what is
counted and logged. -/
theorem run_screen (a : Arrival U P H) (plan : Proxy.RequestPlan) (decision : BlockDecision) :
  let result := Proxy.Inner.handleForward ⟨w.adblock, w.blackhole⟩ a.outside logActions plan
    decision a.captured
  (screen logActions a plan decision).run w
    = ((result.1, result.2.2), w.withProbe result.2.1.blackhole)
  := by
  intro result
  dsimp only [result, Proxy.Inner.handleForward]
  rw [screen]
  by_cases hblocked : decision.blocked = true
  · rw [if_pos hblocked, if_pos hblocked]
    by_cases hredirect : decision.redirect.isSome = true
    · rw [if_pos hredirect, hredirect]
      rfl
    · rw [if_neg hredirect, Bool.eq_false_iff.mpr hredirect, run_bind]
      have hask : (ask (·.checkHost plan.scheme plan.host) : Task U P H L BlockDecision).run w
          = (w.adblock.checkHost plan.scheme plan.host, w) := rfl
      rw [hask]
      simp only [Bool.not_false, Bool.true_and]
      split
      · rfl
      · rfl
  · rw [if_neg hblocked, if_neg hblocked, run_bind, run_isBlackholed]
    rcases w.blackhole.isBlackholed a.outside plan.host plan.port with ⟨_ | _, probe, effects⟩
    · rfl
    · rfl

end Run

end Forward
