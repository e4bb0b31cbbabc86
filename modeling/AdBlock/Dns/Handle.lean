import AdBlock.Blocker.Basic
import AdBlock.Dns.Cache
import AdBlock.Dns.RewriteStore
import AdBlock.Dns.Settings
import AdBlock.Stats.History

/-!
# Answering queries

A query is planned first: it is refused, answered without records, answered from the rewrites,
blocked, or resolved, which asks the cache and then the upstream servers.  What an upstream server
answers is given with the query, and what is counted and logged is part of the result.
-/

namespace Dns

variable {A : Library} {H : Hickory} {L : LruCrate}

inductive Verdict where
  | nodata
  | rewrite (answers : List RewriteAnswer)
  | blocked (attribution : Text)
  | resolve (key : CacheKey)
  deriving DecidableEq, Repr

inductive QueryPlan (H : Hickory) where
  | invalid (code : ResponseCode)
  | answer (query : Query H) (domain : Text) (verdict : Verdict)

/-- What is to be done with the domain of a query. -/
def planDomain (query : Query H) (domain : Text) (rewrites : RewriteStore)
    (adblock : AdBlocker A) : Verdict :=
  if query.queryType = .aaaa then .nodata
  else
    let rewriteAnswers := rewrites.matching domain
    if rewriteAnswers ≠ [] then .rewrite rewriteAnswers
    else
      let decision := adblock.checkDns domain
      if decision.blocked then .blocked decision.attribution.display
      else .resolve (.of query)

def planQuery (request : Message H) (rewrites : RewriteStore) (adblock : AdBlocker A) :
    QueryPlan H :=
  if request.metadata.opCode ≠ .query then .invalid .notImp
  else
    match request.queries.head? with
    | none => .invalid .formErr
    | some query =>
        let domain := Text.toAsciiLowercase (Text.trimEndChar (H.toUtf8 query.name) '.')
        .answer query domain (planDomain query domain rewrites adblock)

inductive BlockingMode where
  | nullIp
  | nxdomain
  | refused
  deriving DecidableEq, Repr

/-- The part of the service that answers queries. -/
structure Pipeline (A : Library) (H : Hickory) (L : LruCrate) where
  adblock : AdBlocker A
  cache : DnsCache L H
  settings : EffectiveDnsSettings
  rewrites : RewriteStore
  blockingMode : BlockingMode
  blockedTtlSecs : UInt32

/-- How a query is recorded. -/
inductive RecordedAs where
  | nodata
  | resolved (upstream : Text)
  | rewritten
  | cached
  | blocked (attribution : Text)
  | error (cause : Text)
  deriving DecidableEq, Repr

/-- What is counted and logged. -/
inductive DnsEffect (H : Hickory) where
  | count (metric : Metric) (domain : Text)
  | countBlock (metric : Metric) (domain : Text)
  | countDnsError
  | logBlocked (message : Text)
  | logError (message : Text)
  | record (query : Query H) (domain : Text) (proxy : Bool) (resp : Message H)
      (outcome : RecordedAs)

/-- What is outside of the service while it answers a query. -/
structure Surroundings (H : Hickory) where
  /-- When the cache is asked. -/
  now : ℕ
  /-- When the answer of an upstream server is stored. -/
  later : ℕ
  /-- The answer of an upstream server, with its label. -/
  upstream : Query H → Except Text (Message H × Text)
  logActions : Bool

def rewriteTtl : UInt32 := 30

/-- The answers of the rewrites are added in turn.  A name ends them, with what an upstream server
answers for it. -/
def addRewrites (query : Query H) (upstream : Query H → Except Text (Message H × Text)) :
    Message H → List RewriteAnswer → Message H
  | resp, [] => resp
  | resp, .v4 ip :: answers =>
      if query.queryType = .a then
        addRewrites query upstream (resp.addAnswer (.fromRdata query.name rewriteTtl (.a ip)))
          answers
      else addRewrites query upstream resp answers
  | resp, .cname target :: answers =>
      match H.fromUtf8 (target ++ ['.']) with
      | .error _ => addRewrites query upstream resp answers
      | .ok target =>
          let resp := resp.addAnswer (.fromRdata query.name rewriteTtl (.cname target))
          if query.queryType = .a then
            match upstream (.query target query.queryType) with
            | .ok (upstreamResp, _) => upstreamResp.answers.foldl Message.addAnswer resp
            | .error _ => resp
          else resp

def rewriteResponse (request : Message H) (query : Query H) (answers : List RewriteAnswer)
    (upstream : Query H → Except Text (Message H × Text)) : Message H :=
  addRewrites query upstream (baseResponse request) answers

namespace Pipeline

def blockedResponse (p : Pipeline A H L) (request : Message H) (query : Query H) : Message H :=
  let resp := baseResponse request
  match p.blockingMode with
  | .refused => { resp with metadata := { resp.metadata with responseCode := .refused } }
  | .nxdomain => { resp with metadata := { resp.metadata with responseCode := .nxDomain } }
  | .nullIp =>
      if query.queryType = .a then
        resp.addAnswer (.fromRdata query.name p.blockedTtlSecs (.a ⟨0, 0, 0, 0⟩))
      else resp

/-- The answer without its parameters for encrypted hellos, if they are to be stripped. -/
def strip (p : Pipeline A H L) (msg : Message H) : Message H :=
  if p.settings.stripEch then stripEchParams msg else msg

/-- The cache is asked, and then an upstream server. -/
def handleResolve (p : Pipeline A H L) (w : Surroundings H) (request : Message H)
    (query : Query H) (domain : Text) (proxy : Bool) (key : CacheKey) :
    Message H × Pipeline A H L × List (DnsEffect H) :=
  match p.cache.get w.now key with
  | (some cached, cache) =>
      let resp := finishResponse (p.strip cached) request
      (resp, { p with cache },
        [.count .dnsCached domain, .record query domain proxy resp .cached])
  | (none, cache) =>
      match w.upstream query with
      | .ok (msg, upstream) =>
          let resp := finishResponse (p.strip msg) request
          (resp, { p with cache := cache.put w.later key msg },
            [.record query domain proxy resp (.resolved upstream)])
      | .error e =>
          let resp := errorResponse request .servFail
          (resp, { p with cache },
            [.countDnsError, .logError ("dns ".toList ++ domain ++ ": ".toList ++ e),
              .record query domain proxy resp (.error e)])

/-- The answer to a query, the service after it, and what is counted and logged. -/
def handleFrom (p : Pipeline A H L) (w : Surroundings H) (request : Message H) (proxy : Bool) :
    Message H × Pipeline A H L × List (DnsEffect H) :=
  match planQuery request p.rewrites p.adblock with
  | .invalid code => (errorResponse request code, p, [.count .dnsQueries []])
  | .answer query domain verdict =>
      match verdict with
      | .nodata =>
          let resp := baseResponse request
          (resp, p, .count .dnsQueries domain
            :: if p.settings.logIpv6 then [.record query domain proxy resp .nodata] else [])
      | .rewrite answers =>
          let resp := rewriteResponse request query answers w.upstream
          (resp, p, [.count .dnsQueries domain, .record query domain proxy resp .rewritten])
      | .blocked attribution =>
          let resp := p.blockedResponse request query
          let message := "DNS ".toList ++ H.recordTypeText query.queryType ++ ' ' :: domain
            ++ " — ".toList ++ attribution
          (resp, p, .countBlock .dnsBlocked domain
            :: (if w.logActions then [.logBlocked message] else [])
            ++ [.record query domain proxy resp (.blocked attribution)])
      | .resolve key =>
          let (resp, p, effects) := p.handleResolve w request query domain proxy key
          (resp, p, .count .dnsQueries domain :: effects)

def handleProxy (p : Pipeline A H L) (w : Surroundings H) (request : Message H) :
    Message H × Pipeline A H L × List (DnsEffect H) :=
  p.handleFrom w request true

end Pipeline

/-! ### Look ups inside the process -/

def aRecords (resp : Message H) : List Net.Ipv4Addr :=
  resp.answers.filterMap fun r =>
    match r.data with
    | .a ip => some ip
    | _ => none

def aaaaRecords (resp : Message H) : List Net.Ipv6Addr :=
  resp.answers.filterMap fun r =>
    match r.data with
    | .aaaa ip => some ip
    | _ => none

/-- The query for a host, with an id. -/
def hostQuery (host : Text) (type : RecordType) (id : UInt16) : Except Text (Message H) :=
  match H.fromUtf8 (Text.trimEndChar host '.' ++ ['.']) with
  | .error e => .error ("bad host '".toList ++ host ++ "': ".toList ++ e)
  | .ok name =>
      let msg : Message H := .query id
      .ok
        { msg with
          metadata := { msg.metadata with recursionDesired := true }
          queries := [.query name type] }

def resolveFailure (host : Text) (resp : Message H) (blocked : Bool) : Text :=
  if blocked then
    '\'' :: host ++ "' is blocked by the DNS filter (answered 0.0.0.0)".toList
  else
    match resp.metadata.responseCode with
    | .noError => "no A record for '".toList ++ host ++ ['\'']
    | code => '\'' :: host ++ "' did not resolve: ".toList ++ H.responseCodeText code

/-- The answers that are not unspecified, of which there has to be one. -/
def specified (host : Text) (aResp : Message H) (answers : List Net.IpAddr) :
    Except Text (List Net.IpAddr) :=
  let blocked := answers.any Net.IpAddr.isUnspecified
  let addrs := answers.filter (!·.isUnspecified)
  if addrs = [] then .error (resolveFailure host aResp blocked) else .ok addrs

/-- Addresses of which there is one, and none is unspecified. -/
def Specified (addrs : List Net.IpAddr) : Prop :=
  addrs ≠ [] ∧ ∀ a ∈ addrs, a.isUnspecified = false

theorem specified_specified {host : Text} {aResp : Message H} {answers addrs : List Net.IpAddr}
    (h : specified host aResp answers = .ok addrs) :
  Specified addrs
  := by
  simp only [specified] at h
  split at h
  · cases h
  · rename_i hne
    cases h
    constructor
    · apply hne
    · intro a ha
      simpa using (List.mem_filter.mp ha).2

namespace Pipeline

def lookup (p : Pipeline A H L) (w : Surroundings H) (host : Text) (type : RecordType)
    (id : UInt16) : Except Text (Message H) × Pipeline A H L × List (DnsEffect H) :=
  match hostQuery host type id with
  | .error e => (.error e, p, [])
  | .ok msg =>
      let (resp, p, effects) := p.handleProxy w msg
      (.ok resp, p, effects)

/-- The addresses of a host that are not unspecified.  The second look up has surroundings and an
id of its own. -/
def resolve (p : Pipeline A H L) (w w6 : Surroundings H) (id id6 : UInt16) (host : Text)
    (wantIpv6 : Bool) : Except Text (List Net.IpAddr) × Pipeline A H L × List (DnsEffect H) :=
  match p.lookup w host .a id with
  | (.error e, p, effects) => (.error e, p, effects)
  | (.ok aResp, p, effects) =>
      let answers := (aRecords aResp).map Net.IpAddr.v4
      if wantIpv6 then
        match p.lookup w6 host .aaaa id6 with
        | (.ok resp, p, more) =>
            (specified host aResp (answers ++ (aaaaRecords resp).map Net.IpAddr.v6), p,
              effects ++ more)
        | (.error _, p, more) => (specified host aResp answers, p, effects ++ more)
      else (specified host aResp answers, p, effects)

/-- What a host resolves to is never unspecified. -/
theorem specified_resolve {p : Pipeline A H L} {w w6 : Surroundings H} {id id6 : UInt16}
    {host : Text} {wantIpv6 : Bool} {addrs : List Net.IpAddr}
    (h : (p.resolve w w6 id id6 host wantIpv6).1 = .ok addrs) :
  Specified addrs
  := by
  unfold resolve at h
  split at h
  · cases h
  · split at h
    · split at h
      · apply specified_specified h
      · apply specified_specified h
    · apply specified_specified h

end Pipeline

end Dns
