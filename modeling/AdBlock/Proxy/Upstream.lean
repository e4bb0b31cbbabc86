import AdBlock.Process.Seen
import AdBlock.Proxy.Forward
import AdBlock.Uri.Splitting

/-!
# What goes upstream

While requests are under way, the blocker and the settings are changed.  Yet nothing is handed to
the client that was not let through: a request goes out only if the blocker, as it was at some moment
of the run, let it pass and its host was not found to lead nowhere, it goes to the host that was
judged, and apart from three headers and a cleaned address it is the request that arrived
(`Forward.sent_passed`).
-/

namespace Forward

open Dns (Hickory)
open Process (Sees sees_atomic sees_bind sees_pure)

variable {A : Library} {U : UriCrate} {P : PageLibrary A} {H : Hickory} {L : LruCrate}
  {logActions : Bool} {α : Type}

/-! ### Requests that may go out -/

/-- The blocker, in a state of which `S` holds, let the request pass as its type and, if it looks
like a beacon, as a beacon, too. -/
structure Passed (S : World U P H L → Prop) (req : Parts U P) (url : Text)
    (decision : BlockDecision) : Prop where
  judged : ∃ s, S s
    ∧ s.adblock.check url (sourceUrl req url (requestType req)) (requestType req) = decision
  not_blocked : decision.blocked = false
  beacon : requestType req ≠ "ping".toList → isBeaconShaped req = true → ∃ s, S s
    ∧ (s.adblock.check url (sourceUrl req url (requestType req)) "ping".toList).blocked = false

/-- The addresses of a host, as they were kept or found by the service. -/
inductive Resolved (S : World U P H L → Prop) (w : Proxy.Outside H) (host : Text) :
    Except Text (List Net.IpAddr) → Prop where
  | kept {s : World U P H L} {addrs : List Net.IpAddr} (hs : S s)
      (h : (s.blackhole.resolver.addrCache.get w.now host).1 = some addrs) :
      Resolved S w host (.ok addrs)
  | asked {s : World U P H L} (hs : S s) (wantIpv6 : Bool) :
      Resolved S w host
        (s.blackhole.resolver.dns.resolve w.a w.aaaa w.idA w.idAaaa host wantIpv6).1

/-- Where a host leads, by the service inside the process or by the system. -/
inductive Found (S : World U P H L → Prop) (w : Proxy.Outside H) (host : Text)
    (port : UInt16) : Except Text (List Net.SocketAddr) → Prop where
  | service {s : World U P H L} {addrs : Except Text (List Net.IpAddr)} (hs : S s)
      (honly : s.blackhole.resolver.resolverOnly = true) (h : Resolved S w host addrs) :
      Found S w host port (addrs.map (List.map (Net.SocketAddr.new · port)))
  | system {s : World U P H L} (hs : S s)
      (honly : s.blackhole.resolver.resolverOnly = false) :
      Found S w host port (w.lookupHost host port)

/-- The host was not found to lead nowhere: a verdict says so, or where it leads does. -/
inductive Cleared (S : World U P H L → Prop) (w : Proxy.Outside H) (host : Text)
    (port : UInt16) : Prop where
  | stored {s : World U P H L} (hs : S s)
      (h : s.blackhole.verdict w.now host port = some false) : Cleared S w host port
  | reached {found : Except Text (List Net.SocketAddr)} (hfound : Found S w host port found)
      (h : leadsNowhere found = false) : Cleared S w host port

/-- The headers that are not passed on as they arrived. -/
def ownHeaders : List Text :=
  ["transfer-encoding".toList, "content-length".toList, "accept-encoding".toList]

/-- What goes out is what arrived, and it goes where the plan says. -/
structure Carries (a : Arrival U P H) (plan : Proxy.RequestPlan) (decision : BlockDecision)
    (out : Outgoing U P) : Prop where
  host : out.host = plan.host
  port : out.port = plan.port
  tls : out.tls = decide (plan.scheme = "https".toList)
  body : a.body.collect = .ok out.body
  method : out.parts.method = a.req.method
  headers : ∀ name ∉ ownHeaders,
    P.headers.getAll out.parts.headers name = P.headers.getAll a.req.headers name
  uri : out.parts.uri = a.req.uri
    ∨ ∃ clean, decision.rewrittenUrl = some clean ∧ rewriteUri a.req.uri clean = some out.parts.uri

/-- A request that arrived may go out. -/
def Admitted (S : World U P H L → Prop) (a : Arrival U P H) (out : Outgoing U P) : Prop :=
  ∃ plan decision, planRequest a.req a.secure = .ok plan
    ∧ Passed S a.req plan.url decision
    ∧ Cleared S a.outside plan.host plan.port
    ∧ Carries a plan decision out

/-! ### What is found -/

/-- What is new of what was handed to the client is as `ok` tells. -/
def Sends (ok : Outgoing U P → Prop) (s s' : World U P H L) : Prop :=
  ∀ out ∈ s'.sent, out ∈ s.sent ∨ ok out

variable {S : World U P H L → Prop} {ok : Outgoing U P → Prop}

theorem sends_of_eq {s s' : World U P H L} (h : s'.sent = s.sent) :
  Sends ok s s'
  := by
  intro out hout
  rw [h] at hout
  exact .inl hout

/-- What is asked is answered by the blocker as it is found. -/
theorem sees_ask (f : AdBlocker A → α) :
  Sees S (Sends ok) (fun a => ∃ s, S s ∧ f s.adblock = a) (ask f : Task U P H L α)
  := sees_atomic fun s hs => ⟨sends_of_eq rfl, s, hs, rfl⟩

theorem sees_onProbe (f : Proxy.BlackholeProbe A H L → α × Proxy.BlackholeProbe A H L) :
  Sees S (Sends ok) (fun a => ∃ s, S s ∧ (f s.blackhole).1 = a)
    (onProbe f : Task U P H L α)
  := sees_atomic fun s hs => ⟨sends_of_eq rfl, s, hs, rfl⟩

theorem sees_onEgress (f : Proxy.EgressPolicy A H L → α × Proxy.EgressPolicy A H L) :
  Sees S (Sends ok) (fun a => ∃ s, S s ∧ (f s.blackhole.resolver).1 = a)
    (onEgress f : Task U P H L α)
  := sees_atomic fun s hs => ⟨sends_of_eq rfl, s, hs, rfl⟩

theorem sees_resolve (w : Proxy.Outside H) (host : Text) :
  Sees S (Sends ok) (fun found => Resolved S w host found.1) (resolve w host : Task U P H L _)
  := by
  apply sees_bind (sees_onEgress _)
  rintro cached ⟨s, hs, hcached⟩
  split
  · exact sees_pure (.kept hs hcached)
  · apply sees_bind (sees_onEgress _)
    intro wantIpv6 _
    apply sees_bind (sees_onEgress _)
    rintro ⟨found, effects⟩ ⟨s', hs', hfound⟩
    obtain ⟨rfl, -⟩ := Prod.mk.inj hfound
    have hasked : Resolved S w host _ := .asked hs' wantIpv6
    dsimp only
    split
    · rename_i heq
      rw [heq] at hasked
      exact sees_pure hasked
    · rename_i heq
      rw [heq] at hasked
      exact sees_bind (sees_onEgress _) fun _ _ => sees_pure hasked

theorem sees_isBlackholed (w : Proxy.Outside H) (host : Text) (port : UInt16) :
  Sees S (Sends ok) (fun verdict => verdict.1 = false → Cleared S w host port)
    (isBlackholed w host port : Task U P H L _)
  := by
  have hfound : Sees S (Sends ok) (fun found => Found S w host port found.1)
      (resolveAt w host port : Task U P H L _) := by
    apply sees_bind (sees_onEgress _)
    rintro resolverOnly ⟨s, hs, rfl⟩
    split
    · rename_i honly
      exact sees_bind (sees_resolve w host) fun addrs haddrs => sees_pure (.service hs honly haddrs)
    · rename_i honly
      exact sees_pure (.system hs (Bool.eq_false_iff.mpr honly))
  apply sees_bind (sees_onProbe _)
  rintro verdict ⟨s, hs, hverdict⟩
  split
  · apply sees_pure
    rintro rfl
    exact .stored hs hverdict
  · apply sees_bind hfound
    rintro ⟨found, effects⟩ hfound
    apply sees_bind (sees_onProbe _)
    exact fun _ _ => sees_pure fun h => .reached hfound h

theorem sees_checkRequest (url : Text) (req : Parts U P) :
  Sees S (Sends ok) (fun decision => decision.blocked = false → Passed S req url decision)
    (checkRequest url req : Task U P H L BlockDecision)
  := by
  apply sees_bind (sees_ask _)
  rintro decision ⟨s, hs, hdecision⟩
  split
  · apply sees_bind (sees_ask _)
    rintro asBeacon ⟨s', hs', rfl⟩
    split
    · rename_i hblocked
      apply sees_pure
      intro hpass
      rw [hblocked] at hpass
      cases hpass
    · rename_i hpass
      apply sees_pure
      intro hblocked
      exact ⟨⟨s, hs, hdecision⟩, hblocked, fun _ _ => ⟨s', hs', Bool.eq_false_iff.mpr hpass⟩⟩
  · rename_i hbeacon
    apply sees_pure
    intro hblocked
    refine ⟨⟨s, hs, hdecision⟩, hblocked, ?_⟩
    intro hping hshape
    apply absurd _ hbeacon
    rw [hblocked, hshape, decide_eq_true hping]
    rfl

theorem sees_screen (a : Arrival U P H) (plan : Proxy.RequestPlan) (decision : BlockDecision) :
  Sees S (Sends ok)
    (fun fate => fate.1 = .sent →
      decision.blocked = false ∧ Cleared S a.outside plan.host plan.port)
    (screen logActions a plan decision : Task U P H L _)
  := by
  rw [screen]
  split
  · split
    · exact sees_pure (by rintro ⟨⟩)
    · apply sees_bind (sees_ask _)
      intro host _
      split <;> exact sees_pure (by rintro ⟨⟩)
  · rename_i hblocked
    apply sees_bind (sees_isBlackholed _ _ _)
    rintro ⟨blackholed, effects⟩ hcleared
    cases blackholed with
    | true => exact sees_pure (by rintro ⟨⟩)
    | false => exact sees_pure fun _ => ⟨Bool.eq_false_iff.mpr hblocked, hcleared rfl⟩

/-- The blocker changes three headers at most, and the address if it cleans it. -/
theorem carries_outgoing (hP : P.headers.Lawful) {a : Arrival U P H} (plan : Proxy.RequestPlan)
    (decision : BlockDecision) {bytes : Bytes} (hbody : a.body.collect = .ok bytes) :
  Carries a plan decision (outgoing a.req plan decision bytes)
  where
  host := rfl
  port := rfl
  tls := rfl
  body := hbody
  method := rfl
  headers name hname := by
    simp only [ownHeaders, List.mem_cons, List.not_mem_nil, or_false, not_or] at hname
    obtain ⟨htransfer, hlength, haccept⟩ := hname
    rw [outgoing, filterRequest]
    dsimp only
    split
    · rw [hP.getAll_insert, if_neg haccept, hP.getAll_remove, if_neg hlength, hP.getAll_remove,
        if_neg htransfer]
    · rw [hP.getAll_remove, if_neg hlength, hP.getAll_remove, if_neg htransfer]
  uri := by
    rw [outgoing, filterRequest]
    dsimp only
    cases hclean : decision.rewrittenUrl.bind (rewriteUri a.req.uri) with
    | none => exact .inl rfl
    | some uri => exact .inr (Option.bind_eq_some_iff.mp hclean)

theorem sees_filterResponse (resp : Response P) (url : Text) (decision : BlockDecision) :
  Sees S (Sends ok) (fun _ => True) (filterResponse resp url decision : Task U P H L _)
  := by
  rw [filterResponse]
  split
  · split
    · exact sees_pure trivial
    · exact sees_bind (sees_ask _) fun _ _ => sees_pure trivial
  · exact sees_bind (sees_ask _) fun _ _ => sees_pure trivial

theorem sees_forward {a : Arrival U P H} {plan : Proxy.RequestPlan} {decision : BlockDecision}
    {bytes : Bytes} (hok : ok (outgoing a.req plan decision bytes)) :
  Sees S (Sends ok) (fun _ => True) (forward a plan decision bytes : Task U P H L _)
  := by
  have hsend : Sees S (Sends ok) (fun _ => True)
      (send (outgoing a.req plan decision bytes) a.answer : Task U P H L _) := by
    apply sees_atomic
    intro s _
    refine ⟨?_, trivial⟩
    intro out hout
    rcases List.mem_append.mp hout with hout | hout
    · exact .inl hout
    · rw [List.mem_singleton.mp hout]
      exact .inr hok
  apply sees_bind hsend
  rintro (e | ⟨resp, ech⟩) _
  · exact sees_pure trivial
  · exact sees_bind (sees_filterResponse _ _ _) fun _ _ => sees_pure trivial

theorem sees_handleForward (hP : P.headers.Lawful) {a : Arrival U P H}
    (hok : ∀ out, Admitted S a out → ok out) :
  Sees S (Sends ok) (fun _ => True) (handleForward logActions a : Task U P H L _)
  := by
  rw [handleForward]
  split
  · exact sees_pure trivial
  rename_i plan hplan
  apply sees_bind (sees_checkRequest plan.url a.req)
  intro decision hdecision
  split
  · exact sees_pure trivial
  rename_i bytes hbytes
  apply sees_bind (sees_screen a plan decision)
  rintro ⟨_ | _ | _, effects⟩ hfate
  · exact sees_pure trivial
  · exact sees_pure trivial
  · obtain ⟨hblocked, hcleared⟩ := hfate rfl
    refine sees_bind (sees_forward (hok _ ?_)) fun _ _ => sees_pure trivial
    exact ⟨plan, decision, hplan, hdecision hblocked, hcleared,
      carries_outgoing hP plan decision hbytes⟩

theorem sees_handleConnect (authority : Option Text) (exclusion : Text → Option Text)
    (captured : Proxy.Captured) :
  Sees S (Sends ok) (fun _ => True)
    (handleConnect logActions authority exclusion captured : Task U P H L _)
  := by
  cases authority with
  | none => exact sees_pure trivial
  | some authority =>
    apply sees_bind (sees_ask _)
    intro decision _
    dsimp only
    split <;> exact sees_pure trivial

theorem sees_process (hP : P.headers.Lawful) {call : Call U P H L}
    (hok : ∀ a, call = .forward a → ∀ out, Admitted S a out → ok out) :
  Sees S (Sends ok) (fun _ => True) (call.process logActions)
  := by
  cases call with
  | forward a =>
    exact sees_bind (sees_handleForward hP (hok a rfl)) fun _ _ => sees_pure trivial
  | connect authority exclusion captured =>
    exact sees_bind (sees_handleConnect authority exclusion captured) fun _ _ => sees_pure trivial
  | resolve w host => exact sees_bind (sees_resolve w host) fun _ _ => sees_pure trivial
  | query w request proxy | edit f | configure f =>
    exact sees_atomic fun _ _ => ⟨sends_of_eq rfl, trivial⟩

/-- Calls that begin at the same time. -/
def system {ι : Type} (logActions : Bool) (calls : ι → Call U P H L) (w : World U P H L) :
    Process.System ι (World U P H L) Unit where
  proc i := (calls i).process logActions
  state := w

/-- What was sent, in any order of the steps of the calls, is a request that arrived, that the
blocker let pass as it was at some moment of the run, and whose host was not found to lead
nowhere. -/
theorem sent_passed {ι : Type} [DecidableEq ι] (hP : P.headers.Lawful) {calls : ι → Call U P H L}
    {w : World U P H L} {schedule : List ι} {c : Process.System ι (World U P H L) Unit}
    (hexec : (system logActions calls w).exec schedule = some c) {out : Outgoing U P}
    (hout : out ∈ c.state.sent) :
  out ∈ w.sent ∨ ∃ i a, calls i = .forward a
    ∧ Admitted ((system logActions calls w).During schedule) a out
  := by
  let ok (i : ι) (out : Outgoing U P) : Prop :=
    ∃ a, calls i = .forward a ∧ Admitted ((system logActions calls w).During schedule) a out
  have hsees (i : ι) : Sees ((system logActions calls w).During schedule) (Sends (ok i)) (fun _ => True)
      ((system logActions calls w).proc i) :=
    sees_process hP fun a ha out hout => ⟨a, ha, hout⟩
  refine Process.System.exec_of_sees (P := fun s => ∀ out ∈ s.sent, out ∈ w.sent ∨ ∃ i, ok i out)
    (fun _ h => h) hsees ?_ hexec (fun out hout => .inl hout) out hout
  intro i s s' hsends hs out hout
  rcases hsends out hout with hout | hout
  · exact hs out hout
  · exact .inr ⟨i, hout⟩

/-- Pages for a library with the one rule `||ads.example^$other`. -/
def samplePages : PageLibrary Proxy.otherRule :=
  { AdBlocker.plainPages with }

def sampleArrival : Arrival .splitting samplePages Proxy.writtenNames where
  req :=
    { method := .get
      uri := .inl ("http".toList, "ads.example/".toList)
      headers := samplePages.headers.new }
  secure := false
  body := { data := [] }
  captured := Proxy.noBody
  outside := Proxy.nullSystem
  answer _ := .ok ({ status := 200, headers := samplePages.headers.new, body := { data := [] } }, false)

/-- A request comes twice, and the blocker is switched off. -/
def sampleCalls : Option Bool → Call .splitting samplePages Proxy.writtenNames .recent
  | some _ => .forward sampleArrival
  | none => .edit fun b => { b with decisions := { b.decisions with enabled := false } }

def sampleSystem :
    Process.System (Option Bool) (World .splitting samplePages Proxy.writtenNames .recent) Unit :=
  system true sampleCalls { blackhole := (Proxy.started true).blackhole, sent := [] }

/-- The blocker is switched off after the first request was judged and before the second one is. -/
def sampleSchedule : List (Option Bool) :=
  [some false, none, some true, some false] ++ List.replicate 8 (some true)

def sampleEnd :
    Process.System (Option Bool) (World .splitting samplePages Proxy.writtenNames .recent) Unit :=
  (sampleSystem.exec sampleSchedule).getD sampleSystem

theorem exec_sample :
  sampleSystem.exec sampleSchedule = some sampleEnd
  := by
  have hsome : (sampleSystem.exec sampleSchedule).isSome := by decide +kernel
  obtain ⟨c, hc⟩ := Option.isSome_iff_exists.mp hsome
  rw [sampleEnd, hc, Option.getD_some]

/-- The request of the sample that goes out is one that the blocker blocks before it is switched
off. -/
theorem sent_passed_sample :
  (Proxy.otherBlocker.check "http://ads.example/".toList [] "other".toList).blocked = true
    ∧ ∃ out ∈ sampleEnd.state.sent, ∃ i a, sampleCalls i = .forward a
      ∧ Admitted (sampleSystem.During sampleSchedule) a out
  := by
  have hne : sampleEnd.state.sent ≠ [] := by decide +kernel
  have hsent := sent_passed HeaderCrate.listedLawful exec_sample (List.head_mem hne)
  exact ⟨by decide +kernel, _, List.head_mem hne, hsent.resolve_left List.not_mem_nil⟩

end Forward
