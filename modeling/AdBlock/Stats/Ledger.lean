import AdBlock.Stats.Exclude
import AdBlock.Stats.History
import AdBlock.Stats.SharedState

/-!
# What is counted and recorded

The counters, the history, the logs and the dashboard, and the four entry points through which
traffic leaves its traces there.  Each of them asks first whether the host is kept out of the
statistics.
-/

/-- What is sent to the dashboards. -/
inductive UiMsg where
  | request (record : RequestRecord)
  | dns (record : DnsRecord)
  deriving DecidableEq, Repr

structure Ledger where
  counters : Metric → UInt64
  history : History
  nextSeq : UInt64
  requestLog : Option LogChannel
  queryLog : Option LogChannel
  /-- What was sent to the dashboards. -/
  ui : List UiMsg
  uiConnected : Bool
  logRequests : Bool
  statsExclusions : Option StatsExclusions

/-- A request that was begun.  It captures nothing if it is not recorded. -/
structure Exchange where
  seq : UInt64
  live : Bool
  captures : Option RequestRecord
  deriving DecidableEq, Repr

namespace Ledger

def statsExcluded (l : Ledger) (host : Text) : Bool :=
  l.statsExclusions.any (·.excludes host)

/-- The clock is read when the history records. -/
def bump (metric : Metric) (domain : Text) (now : ℕ) (l : Ledger) : Option Ledger := do
  let history ← l.history.recordAt now metric domain
  some { l with
    counters := Function.update l.counters metric (l.counters metric + 1)
    history }

def count (metric : Metric) (domain : Text) (now : ℕ) (l : Ledger) : Option Ledger :=
  if l.statsExcluded domain then some l else l.bump metric domain now

/-- A denial is traffic too. -/
def countBlock (metric : Metric) (domain : Text) (now now' : ℕ) (l : Ledger) : Option Ledger :=
  if l.statsExcluded domain then some l
  else
    match metric with
    | .blocked => l.bump .requests [] now >>= bump .blocked domain now'
    | .dnsBlocked => l.bump .dnsQueries [] now >>= bump .dnsBlocked domain now'
    | _ => some l

variable (S : SerdeJson)

def send (message : UiMsg) (l : Ledger) : Ledger :=
  if l.uiConnected then { l with ui := l.ui ++ [message] } else l

def recordDns (record : DnsRecord) (l : Ledger) : Ledger :=
  if !l.logRequests || l.statsExcluded record.domain then l
  else
    let record := { record with seq := l.nextSeq }
    send (.dns record)
      { l with
        nextSeq := l.nextSeq + 1
        queryLog := l.queryLog.map fun log =>
          log.append record.tsMs.toNat ((Logged.dns record).line S) }

def begin (kind : RequestKind) (facts : RequestFacts) (host : Text) (status : UInt16)
    (blockedBy : Text) (ech : Bool) (nowMs : UInt64) (l : Ledger) : Exchange × Ledger :=
  if !l.logRequests || (!l.uiConnected && l.requestLog.isNone) || l.statsExcluded host then
    ({ seq := 0, live := false, captures := none }, l)
  else
    let record : RequestRecord :=
      { seq := l.nextSeq, tsMs := nowMs, method := facts.method, status := status, kind := kind
        reqType := facts.reqType, url := facts.url, blockedBy := blockedBy, ech := ech }
    ({ seq := l.nextSeq, live := l.uiConnected, captures := some record },
      send (.request record)
        { l with
          nextSeq := l.nextSeq + 1
          requestLog := l.requestLog.map fun log =>
            log.append record.tsMs.toNat ((Logged.request record).line S) })

/-! ### Traces -/

/-- A call of one of the entry points. -/
inductive Call where
  | count (metric : Metric) (domain : Text) (now : ℕ)
  | countBlock (metric : Metric) (domain : Text) (now now' : ℕ)
  | recordDns (record : DnsRecord)
  | begin (kind : RequestKind) (facts : RequestFacts) (host : Text) (status : UInt16)
      (blockedBy : Text) (ech : Bool) (nowMs : UInt64)

def Call.host : Call → Text
  | .count _ domain _ => domain
  | .countBlock _ domain _ _ => domain
  | .recordDns record => record.domain
  | .begin _ _ host _ _ _ _ => host

def Call.perform (call : Call) (l : Ledger) : Option Ledger :=
  match call with
  | .count metric domain now => l.count metric domain now
  | .countBlock metric domain now now' => l.countBlock metric domain now now'
  | .recordDns record => some (l.recordDns S record)
  | .begin kind facts host status blockedBy ech nowMs =>
      some (Ledger.begin S kind facts host status blockedBy ech nowMs l).2

variable {S} {l : Ledger}

/-- A call for a host that is excluded changes nothing. -/
theorem Call.perform_of_excluded {call : Call} (h : l.statsExcluded call.host = true) :
  call.perform S l = some l
  := by
  cases call with
  | count metric domain now => exact if_pos h
  | countBlock metric domain now now' => exact if_pos h
  | recordDns record =>
    change l.statsExcluded record.domain = true at h
    rw [Call.perform, Ledger.recordDns, h, Bool.or_true]
    rfl
  | begin kind facts host status blockedBy ech nowMs =>
    change l.statsExcluded host = true at h
    rw [Call.perform, Ledger.begin, h, Bool.or_true]
    rfl

/-- A metric that is counted changes its counter. -/
theorem bump_ne_self (metric : Metric) (domain : Text) (now : ℕ) (l : Ledger) :
  l.bump metric domain now ≠ some l
  := by
  intro h
  obtain ⟨history, -, heq⟩ := Option.bind_eq_some_iff.mp h
  have hcounters := congrFun (congrArg counters (Option.some.inj heq)) metric
  simp only [Function.update_self] at hcounters
  have hnat := congrArg UInt64.toNat hcounters
  rw [UInt64.toNat_add] at hnat
  have hlt := (l.counters metric).toNat_lt
  change ((l.counters metric).toNat + 1) % 2 ^ 64 = (l.counters metric).toNat at hnat
  omega

/-- The ledger of a process that has just started. -/
def start (statsExclusions : StatsExclusions) : Ledger where
  counters := fun _ => 0
  history := .new
  nextSeq := 1
  requestLog := none
  queryLog := none
  ui := []
  uiConnected := true
  logRequests := true
  statsExclusions := some statsExclusions

/-- No call for a host leaves a trace exactly if a domain of the list covers the host in lower
case, and the part of the host that it is compared with is spelled in lower case. -/
theorem no_trace_iff (S : SerdeJson) (file : Option Text) (ops : List StatsExclusions.Op)
    (host : Text) :
  (∀ (l : Ledger) (call : Call),
      l.statsExclusions = some (StatsExclusions.run ops (.load file)) → call.host = host →
      call.perform S l = some l)
    ↔ ∃ d ∈ (StatsExclusions.run ops (.load file)).entries,
      Domain.covers d (Text.toAsciiLowercase host) = true ∧ Text.IsLower (Domain.tail d host)
  := by
  have hnormal := StatsExclusions.normal_run (StatsExclusions.normal_load file) ops
  rw [← StatsExclusions.excludes_iff hnormal host]
  constructor
  · intro h
    by_contra hexcludes
    have hcount := h (start (StatsExclusions.run ops (.load file))) (.count .requests host 0) rfl rfl
    change (if (StatsExclusions.run ops (.load file)).excludes host then _ else _) = _ at hcount
    rw [if_neg hexcludes] at hcount
    exact bump_ne_self _ _ _ _ hcount
  · intro hexcludes l call hl hhost
    apply Call.perform_of_excluded
    rw [statsExcluded, hl, hhost]
    exact hexcludes

/-- The list with one domain. -/
def noiseExcluded : StatsExclusions :=
  StatsExclusions.run [.add "noise.example".toList (.ok ())] (.load none)

/-- A host in upper case and one with a point at its end are counted. -/
theorem no_trace_spelled :
  noiseExcluded.entries = ["noise.example".toList]
    ∧ Domain.covers "noise.example".toList
      (Text.toAsciiLowercase "API.NOISE.EXAMPLE".toList) = true
    ∧ ((start noiseExcluded).count .requests "API.NOISE.EXAMPLE".toList 0).map
      (·.counters .requests) = some 1
    ∧ Domain.covers "noise.example".toList
      (Text.trimEndChar (Text.toAsciiLowercase "noise.example.".toList) '.') = true
    ∧ ((start noiseExcluded).count .requests "noise.example.".toList 0).map
      (·.counters .requests) = some 1
  := by
  decide +kernel

end Ledger
