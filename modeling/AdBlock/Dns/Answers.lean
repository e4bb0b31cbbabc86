import AdBlock.Dns.CacheRuns
import AdBlock.Dns.Handle
import AdBlock.Process.Rely

/-!
# Fresh and cached answers

A query that is resolved reads the setting for encrypted hellos, asks the cache and then an
upstream server.  Any number of queries and changes of the setting take their steps in any order.
What goes out from the cache is the message that was fetched, with other times to live and with or
without its parameters for encrypted hellos (`answers_agree`).  The bounds for times to live are
applied to what is stored and not to the first answer (`ttls_miss_hit`).
-/

namespace Dns

open Process

variable {ι : Type} {A : Library} {H : Hickory} {L : LruCrate}

/-! ### Records up to their times to live -/

def Record.untimed (r : Record H) : Record H :=
  { r with ttl := 0 }

def Svcb.hasEch (svcb : Svcb H) : Bool :=
  svcb.svcParams.any fun p => p.1 = .echConfigList

def Record.hasEch (r : Record H) : Bool :=
  match r.data with
  | .https svcb => svcb.hasEch
  | .svcb svcb => svcb.hasEch
  | _ => false

/-- The parts of a message that have records. -/
structure Sections (H : Hickory) where
  answers : List (Record H)
  authorities : List (Record H)
  additionals : List (Record H)

def Message.sections (msg : Message H) : Sections H where
  answers := msg.answers
  authorities := msg.authorities
  additionals := msg.additionals

/-- Messages whose records differ in their times to live at most. -/
def SameRecords (msg msg' : Message H) : Prop :=
  (msg.mapRecords Record.untimed).sections = (msg'.mapRecords Record.untimed).sections

/-- The message that goes out for one that was fetched. -/
def stripIf (strip : Bool) (msg : Message H) : Message H :=
  if strip then stripEchParams msg else msg

theorem sections_finishResponse (resp request : Message H) :
  (finishResponse resp request).sections = resp.sections
  := rfl

theorem sameRecords_iff {msg msg' : Message H} :
  SameRecords msg msg'
    ↔ msg.answers.map Record.untimed = msg'.answers.map Record.untimed
      ∧ msg.authorities.map Record.untimed = msg'.authorities.map Record.untimed
      ∧ msg.additionals.map Record.untimed = msg'.additionals.map Record.untimed
  := by
  simp [SameRecords, Message.sections, Message.mapRecords]

/-- A change of the times to live leaves the records the same. -/
theorem sameRecords_mapRecords {f : Record H → Record H} (hf : ∀ r, (f r).untimed = r.untimed)
    (msg : Message H) :
  SameRecords (msg.mapRecords f) msg
  := by
  rw [SameRecords, Message.mapRecords_mapRecords]
  congr 2
  funext r
  apply hf r

theorem SameRecords.trans {msg₁ msg₂ msg₃ : Message H} (h : SameRecords msg₁ msg₂)
    (h' : SameRecords msg₂ msg₃) :
  SameRecords msg₁ msg₃
  := Eq.trans h h'

theorem untimed_stripEch (r : Record H) :
  r.stripEch.untimed = r.untimed.stripEch
  := by
  obtain ⟨name, ttl, dnsClass, data⟩ := r
  cases data <;> rfl

theorem map_untimed_stripEch (rs : List (Record H)) :
  (rs.map Record.stripEch).map Record.untimed = (rs.map Record.untimed).map Record.stripEch
  := by
  rw [List.map_map, List.map_map]
  apply List.map_congr_left
  intro r _
  apply untimed_stripEch

/-- Stripping goes on the same way in messages with the same records. -/
theorem SameRecords.stripEchParams {msg msg' : Message H} (h : SameRecords msg msg') :
  SameRecords (stripEchParams msg) (stripEchParams msg')
  := by
  obtain ⟨hanswers, hauthorities, hadditionals⟩ := sameRecords_iff.mp h
  rw [sameRecords_iff]
  refine ⟨?_, hauthorities, ?_⟩
  · rw [Dns.stripEchParams, Dns.stripEchParams, map_untimed_stripEch, map_untimed_stripEch,
      hanswers]
  · rw [Dns.stripEchParams, Dns.stripEchParams, map_untimed_stripEch, map_untimed_stripEch,
      hadditionals]

theorem SameRecords.stripIf {msg msg' : Message H} (h : SameRecords msg msg') (strip : Bool) :
  SameRecords (stripIf strip msg) (stripIf strip msg')
  := by
  cases strip with
  | false => apply h
  | true => apply h.stripEchParams

theorem stripEch_stripEch (r : Record H) :
  r.stripEch.stripEch = r.stripEch
  := by
  obtain ⟨name, ttl, dnsClass, data⟩ := r
  cases data <;> simp [Record.stripEch, Svcb.stripEch]

/-- What is stripped once more does not change. -/
theorem stripEchParams_stripIf (strip : Bool) (msg : Message H) :
  stripEchParams (stripIf strip msg) = stripEchParams msg
  := by
  cases strip with
  | false => rfl
  | true => simp [stripIf, stripEchParams, Function.comp_def, stripEch_stripEch]

theorem hasEch_stripEch (r : Record H) :
  r.stripEch.hasEch = false
  := by
  obtain ⟨name, ttl, dnsClass, data⟩ := r
  cases data <;> simp [Record.stripEch, Record.hasEch, Svcb.stripEch, Svcb.hasEch]

/-- A message has no parameters for encrypted hellos where they are stripped. -/
def NoEch (msg : Message H) : Prop :=
  ∀ r ∈ msg.answers ++ msg.additionals, r.hasEch = false

theorem noEch_stripIf (msg request : Message H) :
  NoEch (finishResponse (stripIf true msg) request)
  := by
  intro r hr
  rcases List.mem_append.mp hr with hr | hr
  · obtain ⟨r', -, rfl⟩ := List.mem_map.mp hr
    apply hasEch_stripEch
  · obtain ⟨r', -, rfl⟩ := List.mem_map.mp hr
    apply hasEch_stripEch

/-! ### Queries and changes of the setting -/

/-- Where a response comes from. -/
inductive Source (H : Hickory) where
  | hit
  | fresh (message : Message H)
  | failed

/-- A response, with the setting that was read for it. -/
structure Outcome (H : Hickory) where
  strip : Bool
  source : Source H
  response : Message H

/-- A message that was fetched and may be stored, with the response that goes out for it. -/
structure Fetch (H : Hickory) where
  key : CacheKey
  message : Message H
  strip : Bool
  request : Message H
  response : Message H

/-- The service, and what was fetched so far. -/
structure Traffic (A : Library) (H : Hickory) (L : LruCrate) where
  pipeline : Pipeline A H L
  fetched : List (Fetch H)

def readStrip : Process (Traffic A H L) Bool :=
  atomic fun s => (s.pipeline.settings.stripEch, s)

def askCache (now : ℕ) (key : CacheKey) : Process (Traffic A H L) (Option (Message H)) :=
  atomic fun s =>
    let (hit, cache) := s.pipeline.cache.get now key
    (hit, { s with pipeline := { s.pipeline with cache } })

def store (later : ℕ) (fetch : Fetch H) : Process (Traffic A H L) Unit :=
  atomic fun s =>
    ((), { pipeline :=
             { s.pipeline with cache := s.pipeline.cache.put later fetch.key fetch.message }
           fetched := s.fetched ++ [fetch] })

/-- The setting is read once, then the cache is asked, and then an upstream server. -/
def resolveQuery (w : Surroundings H) (request : Message H) (query : Query H) (key : CacheKey) :
    Process (Traffic A H L) (Outcome H) := do
  let strip ← readStrip
  match ← askCache w.now key with
  | some cached =>
      return { strip, source := .hit, response := finishResponse (stripIf strip cached) request }
  | none =>
      match w.upstream query with
      | .ok (message, _) =>
          let response := finishResponse (stripIf strip message) request
          store w.later { key, message, strip, request, response }
          return { strip, source := .fresh message, response }
      | .error _ =>
          return { strip, source := .failed, response := errorResponse request .servFail }

theorem strip_eq_stripIf (p : Pipeline A H L) (msg : Message H) :
  p.strip msg = stripIf p.settings.stripEch msg
  := rfl

/-- A query that is carried out without interruption is answered as the service does. -/
theorem run_resolveQuery (s : Traffic A H L) (w : Surroundings H) (request : Message H)
    (query : Query H) (domain : Text) (proxy : Bool) (key : CacheKey) :
  ((resolveQuery w request query key).run s).1.response
      = (s.pipeline.handleResolve w request query domain proxy key).1
    ∧ ((resolveQuery w request query key).run s).2.pipeline
      = (s.pipeline.handleResolve w request query domain proxy key).2.1
  := by
  rcases hget : s.pipeline.cache.get w.now key with ⟨hit, cache⟩
  rw [resolveQuery, Pipeline.handleResolve, hget]
  cases hit with
  | some cached => simp [readStrip, askCache, hget, strip_eq_stripIf]
  | none =>
    cases hupstream : w.upstream query with
    | error e => simp [readStrip, askCache, hget]
    | ok reply => simp [readStrip, askCache, hget, store, strip_eq_stripIf]

/-- A query that the plan resolves is answered from the cache or by an upstream server. -/
theorem handleFrom_of_resolve {p : Pipeline A H L} {request : Message H} {query : Query H}
    {domain : Text} {key : CacheKey}
    (hplan : planQuery request p.rewrites p.adblock = .answer query domain (.resolve key))
    (w : Surroundings H) (proxy : Bool) :
  (p.handleFrom w request proxy).1 = (p.handleResolve w request query domain proxy key).1
    ∧ (p.handleFrom w request proxy).2.1 = (p.handleResolve w request query domain proxy key).2.1
  := by
  rw [Pipeline.handleFrom, hplan]
  exact ⟨rfl, rfl⟩

/-- The settings are changed as `apply_settings` does: the cache is configured first, and then
they are in effect. -/
def changeSettings (upd : DnsOverrides) : Process (Traffic A H L) Unit := do
  let eff ← atomic fun s => (s.pipeline.settings.withOverrides upd, s)
  match eff.validate with
  | .error _ => return ()
  | .ok () =>
      atomic fun s =>
        ((), { s with
          pipeline.cache := s.pipeline.cache.setConfig eff.cacheSize.toNat eff.overrideMinTtlSecs
            eff.overrideMaxTtlSecs })
      atomic fun s => ((), { s with pipeline.settings := eff })

/-- What takes part: a query that is resolved under a key, or a change of the settings. -/
inductive Asker (H : Hickory) where
  | query (w : Surroundings H) (request : Message H) (asked : Query H) (key : CacheKey)
  | change (upd : DnsOverrides)

def Asker.process : Asker H → Process (Traffic A H L) (Option (Outcome H))
  | .query w request asked key => do return some (← resolveQuery w request asked key)
  | .change upd => do
      changeSettings upd
      return none

/-! ### What is kept -/

/-- One of the queries fetched the message, and this is what goes out for it. -/
structure Fetched (parties : ι → Asker H) (f : Fetch H) : Prop where
  asked : ∃ j w query label, parties j = .query w f.request query f.key
    ∧ w.upstream query = .ok (f.message, label)
  sent : f.response = finishResponse (stripIf f.strip f.message) f.request

/-- A stored message is one that was fetched under its key, up to the times to live. -/
structure Stems (law : L.Lawful) (parties : ι → Asker H) (s : Traffic A H L) : Prop where
  stored : ∀ k e, s.pipeline.cache.Has law k e →
    ∃ f ∈ s.fetched, f.key = k ∧ DnsCache.cacheable f.message = true
      ∧ SameRecords e.response f.message
  fetched : ∀ f ∈ s.fetched, Fetched parties f

/-- What was fetched stays known. -/
def Grows (s s' : Traffic A H L) : Prop :=
  s.fetched ⊆ s'.fetched

/-- What a query may return: the message that an upstream server gives for it, or one that was
fetched before, stripped as the setting was read. -/
structure Answered (w : Surroundings H) (request : Message H) (query : Query H) (key : CacheKey)
    (outcome : Outcome H) (s : Traffic A H L) : Prop where
  stripped : outcome.strip = true → NoEch outcome.response
  fresh : ∀ message, outcome.source = .fresh message →
    (∃ label, w.upstream query = .ok (message, label))
      ∧ outcome.response = finishResponse (stripIf outcome.strip message) request
  hit : outcome.source = .hit → ∃ f ∈ s.fetched, f.key = key
    ∧ DnsCache.cacheable f.message = true
    ∧ SameRecords outcome.response (stripIf outcome.strip f.message)
  failed : outcome.source = .failed →
    (∃ e, w.upstream query = .error e) ∧ outcome.response = errorResponse request .servFail

variable {law : L.Lawful} {parties : ι → Asker H}

theorem keeps_readStrip :
  Keeps (Stems law parties) Grows Grows (fun _ => True)
    (readStrip : Process (Traffic A H L) Bool) fun _ _ => True
  := by
  apply keeps_atomic
  · intro s s' _ _ _
    trivial
  · intro s hs _
    exact ⟨hs, List.Subset.refl _, trivial⟩

/-- What the cache gives is a message that was fetched under the key. -/
theorem keeps_askCache (now : ℕ) (key : CacheKey) :
  Keeps (Stems law parties) Grows Grows (fun _ => True)
    (askCache now key : Process (Traffic A H L) (Option (Message H)))
    fun hit s => ∀ cached, hit = some cached → ∃ f ∈ s.fetched, f.key = key
      ∧ DnsCache.cacheable f.message = true ∧ SameRecords cached f.message
  := by
  apply keeps_atomic
  · intro s s' _ _ _
    trivial
  · intro s hs _
    refine ⟨⟨?_, hs.fetched⟩, List.Subset.refl _, ?_⟩
    · intro k e he
      apply hs.stored k e he.of_get
    · intro cached hcached
      obtain ⟨e, he, -, rfl⟩ := DnsCache.has_of_get_some law hcached
      obtain ⟨f, hf, hkey, hcacheable, hsame⟩ := hs.stored key e he
      use f, hf, hkey, hcacheable
      apply (sameRecords_mapRecords _ e.response).trans hsame
      intro r
      rfl

theorem keeps_store (later : ℕ) {f : Fetch H} (hf : Fetched parties f) :
  Keeps (Stems law parties) Grows Grows (fun _ => True)
    (store later f : Process (Traffic A H L) Unit) fun _ _ => True
  := by
  apply keeps_atomic
  · intro s s' _ _ _
    trivial
  · intro s hs _
    refine ⟨⟨?_, ?_⟩, List.subset_append_left _ _, trivial⟩
    · intro k e he
      rcases he.of_put_config with ⟨-, hcacheable, rfl, rfl⟩ | ⟨-, he⟩
      · refine ⟨f, by simp, rfl, hcacheable, ?_⟩
        apply sameRecords_mapRecords
        intro r
        rfl
      · obtain ⟨g, hg, hrest⟩ := hs.stored k e he
        exact ⟨g, List.mem_append_left _ hg, hrest⟩
    · rw [List.forall_mem_append, List.forall_mem_singleton]
      exact ⟨hs.fetched, hf⟩

theorem noEch_errorResponse (request : Message H) (code : ResponseCode) :
  NoEch (errorResponse request code)
  := by
  intro r hr
  cases hr

/-- A query keeps what is known of the cache, whatever the others do. -/
theorem keeps_resolveQuery {i : ι} {w : Surroundings H} {request : Message H} {query : Query H}
    {key : CacheKey} (hi : parties i = .query w request query key) :
  Keeps (Stems law parties) Grows Grows (fun _ => True)
    (resolveQuery w request query key : Process (Traffic A H L) (Outcome H))
    (Answered w request query key)
  := by
  apply keeps_bind keeps_readStrip
  intro strip
  apply keeps_bind (keeps_askCache w.now key)
  intro hit
  cases hit with
  | some cached =>
    apply keeps_pure
    intro s _ hs
    obtain ⟨f, hf, hkey, hcacheable, hsame⟩ := hs cached rfl
    constructor
    · rintro rfl
      apply noEch_stripIf
    · intro message h
      cases h
    · intro _
      exact ⟨f, hf, hkey, hcacheable, hsame.stripIf strip⟩
    · intro h
      cases h
  | none =>
    cases hupstream : w.upstream query with
    | error e =>
      apply keeps_pure
      intro s _ _
      constructor
      · intro _
        apply noEch_errorResponse
      · intro message h
        cases h
      · intro h
        cases h
      · intro _
        exact ⟨⟨e, hupstream⟩, rfl⟩
    | ok reply =>
      obtain ⟨message, label⟩ := reply
      let f : Fetch H :=
        ⟨key, message, strip, request, finishResponse (stripIf strip message) request⟩
      have hf : Fetched parties f := ⟨⟨i, w, query, label, hi, hupstream⟩, rfl⟩
      apply keeps_bind ((keeps_store w.later hf).weaken fun _ _ _ => trivial)
      intro _
      apply keeps_pure
      intro s _ _
      constructor
      · rintro rfl
        apply noEch_stripIf
      · intro m h
        obtain rfl : message = m := by
          injection h
        exact ⟨⟨label, hupstream⟩, rfl⟩
      · intro h
        cases h
      · intro h
        cases h

theorem keeps_changeSettings (upd : DnsOverrides) :
  Keeps (Stems law parties) Grows Grows (fun _ => True)
    (changeSettings upd : Process (Traffic A H L) Unit) fun _ _ => True
  := by
  apply keeps_bind (Q := fun _ _ => True)
  · apply keeps_atomic
    · intro s s' _ _ _
      trivial
    · intro s hs _
      exact ⟨hs, List.Subset.refl _, trivial⟩
  intro eff
  cases eff.validate with
  | error e =>
    apply keeps_pure
    intro s _ _
    trivial
  | ok u =>
    apply keeps_bind (Q := fun _ _ => True)
    · apply keeps_atomic
      · intro s s' _ _ _
        trivial
      · intro s hs _
        refine ⟨⟨?_, hs.fetched⟩, List.Subset.refl _, trivial⟩
        intro k e he
        apply hs.stored k e he.of_setConfig.2
    intro _
    apply keeps_atomic
    · intro s s' _ _ _
      trivial
    · intro s hs _
      exact ⟨⟨hs.stored, hs.fetched⟩, List.Subset.refl _, trivial⟩

/-- What one of those that take part may return. -/
def Returned (asker : Asker H) (result : Option (Outcome H)) (s : Traffic A H L) : Prop :=
  match asker with
  | .query w request query key => ∃ outcome, result = some outcome
      ∧ Answered w request query key outcome s
  | .change _ => True

theorem keeps_process (i : ι) :
  Keeps (Stems law parties) Grows Grows (fun _ => True)
    ((parties i).process : Process (Traffic A H L) (Option (Outcome H))) (Returned (parties i))
  := by
  cases hi : parties i with
  | query w request query key =>
    apply keeps_bind (keeps_resolveQuery hi)
    intro outcome
    apply keeps_pure
    intro s _ hs
    exact ⟨outcome, rfl, hs⟩
  | change upd =>
    apply keeps_bind (keeps_changeSettings upd)
    intro _
    apply keeps_pure
    intro s _ _
    trivial

/-- What was returned stays right, as more is fetched. -/
theorem Returned.grows {asker : Asker H} {result : Option (Outcome H)} {s s' : Traffic A H L}
    (h : Returned asker result s) (hgrows : Grows s s') :
  Returned asker result s'
  := by
  cases asker with
  | change upd => trivial
  | query w request query key =>
    obtain ⟨outcome, hresult, hanswered⟩ := h
    refine ⟨outcome, hresult, hanswered.stripped, hanswered.fresh, ?_, hanswered.failed⟩
    intro hhit
    obtain ⟨f, hf, hrest⟩ := hanswered.hit hhit
    exact ⟨f, hgrows hf, hrest⟩

/-- Queries and changes of the settings together, from an empty cache. -/
def asking (p : Pipeline A H L) (parties : ι → Asker H) :
    System ι (Traffic A H L) (Option (Outcome H)) where
  state := ⟨p, []⟩
  proc i := (parties i).process

theorem kept_asking [DecidableEq ι] (law : L.Lawful) {p : Pipeline A H L} {capacity : ℕ}
    {minTtl maxTtl : UInt32} (hcache : p.cache = .new capacity minTtl maxTtl)
    (parties : ι → Asker H) {schedule : List ι} {c : System ι (Traffic A H L) (Option (Outcome H))}
    (hexec : (asking p parties).exec schedule = some c) :
  c.Kept (Stems law parties) (fun _ => Grows) (fun _ => Grows) fun i => Returned (parties i)
  := by
  apply System.Kept.exec _ _ hexec
  · refine ⟨⟨?_, ?_⟩, fun i => ⟨fun _ => True, trivial, keeps_process i⟩⟩
    · intro k e he
      simp only [asking, hcache] at he
      exact absurd he (DnsCache.not_has_new capacity minTtl maxTtl)
    · intro f hf
      cases hf
  · constructor
    · intro _ _ _ s s' h
      exact h
    · intro i result s s' _ h hgrows
      apply h.grows hgrows

/-- A response that is stripped has no parameters for encrypted hellos.  A fresh response is the
message of the upstream server, and one from the cache has the records of a message that was
fetched under the key: all their parameters if it is not stripped, whatever was stripped before,
and up to the times to live and those parameters the records that went out when it was fetched. -/
theorem answers_agree [DecidableEq ι] (law : L.Lawful) (p : Pipeline A H L) (capacity : ℕ)
    (minTtl maxTtl : UInt32) (hcache : p.cache = .new capacity minTtl maxTtl)
    (parties : ι → Asker H) (schedule : List ι) (c : System ι (Traffic A H L) (Option (Outcome H)))
    (hexec : (asking p parties).exec schedule = some c) (i : ι) (w : Surroundings H)
    (request : Message H) (query : Query H) (key : CacheKey)
    (hi : parties i = .query w request query key) (outcome : Outcome H)
    (hdone : c.proc i = .done (some outcome)) :
  (outcome.strip = true → NoEch outcome.response)
    ∧ (∀ m, outcome.source = .fresh m →
      (∃ label, w.upstream query = .ok (m, label))
        ∧ outcome.response.sections = (stripIf outcome.strip m).sections)
    ∧ (outcome.source = .hit → ∃ f ∈ c.state.fetched, f.key = key
        ∧ DnsCache.cacheable f.message = true
        ∧ (∃ j w' query' label, parties j = .query w' f.request query' key
          ∧ w'.upstream query' = .ok (f.message, label))
        ∧ f.response.sections = (stripIf f.strip f.message).sections
        ∧ SameRecords outcome.response (stripIf outcome.strip f.message)
        ∧ SameRecords (stripEchParams outcome.response) (stripEchParams f.response))
  := by
  have hkept := kept_asking law hcache parties hexec
  have hreturned := hkept.result hdone
  rw [hi] at hreturned
  obtain ⟨outcome, hresult, hanswered⟩ := hreturned
  obtain rfl := Option.some.inj hresult
  refine ⟨hanswered.stripped, ?_, ?_⟩
  · intro m hm
    obtain ⟨hlabel, hresponse⟩ := hanswered.fresh m hm
    use hlabel
    rw [hresponse, sections_finishResponse]
  · intro hhit
    obtain ⟨f, hf, rfl, hcacheable, hsame⟩ := hanswered.hit hhit
    obtain ⟨hasked, hsent⟩ := hkept.1.fetched f hf
    refine ⟨f, hf, rfl, hcacheable, hasked, ?_, hsame, ?_⟩
    · rw [hsent, sections_finishResponse]
    · -- both are the fetched message without the parameters
      have hfetched : SameRecords (stripEchParams f.response) (stripEchParams f.message) := by
        rw [hsent, ← stripEchParams_stripIf f.strip f.message]
        rfl
      apply SameRecords.trans _ hfetched.symm
      rw [← stripEchParams_stripIf outcome.strip f.message]
      apply hsame.stripEchParams

/-- A record with a parameter for encrypted hellos. -/
def echRecord : Record .written :=
  .fromRdata "app.example.".toList 60
    (.https ⟨1, ".".toList,
      [(.other 1, .other [2, 104, 50]), (.echConfigList, .echConfigList [7])]⟩)

/-- The answer of a server for a record that lives for some seconds. -/
def echAnswer (ttl : UInt32) : Message .written :=
  (Message.response 1 .query).addAnswer { echRecord with ttl }

def echQuery : Query .written :=
  .query "app.example.".toList ⟨65⟩

/-- Servers that have the record, and the time. -/
def echSurroundings (ttl : UInt32) (now : ℕ) : Surroundings .written where
  now := now
  later := now
  upstream _ := .ok (echAnswer ttl, "udp://192.0.2.53".toList)
  logActions := false

/-- The service with stripping switched on and bounds for times to live. -/
def boundedPipeline (minTtl maxTtl : UInt32) : Pipeline .counting .written .recent where
  adblock :=
    { core :=
        { enabled := false
          engine := (0, [])
          lists := []
          scriptlets := { inject := false, path := [], resources := [] }
          engineCache := none }
      decisions := ⟨false, false, false, false, false, false, false⟩ }
  cache := .new 4096 minTtl maxTtl
  settings :=
    { EffectiveDnsSettings.fromConfig {} with
      stripEch := true, overrideMinTtlSecs := minTtl, overrideMaxTtlSecs := maxTtl }
  rewrites := .load none
  blockingMode := .nullIp
  blockedTtlSecs := 10

/-- A query, stripping is switched off, and the query again. -/
def askTwice : Fin 3 → Asker .written
  | 0 => .query (echSurroundings 60 0) (.query 1) echQuery (.of echQuery)
  | 1 => .change { stripEch := some false }
  | 2 => .query (echSurroundings 60 5000000000) (.query 2) echQuery (.of echQuery)

theorem answers_agree_askTwice :
  ∃ c, (asking (boundedPipeline 0 0) askTwice).exec [0, 0, 0, 1, 1, 1, 2, 2] = some c
    ∧ ∃ outcome, c.proc 2 = .done (some outcome) ∧ outcome.strip = false
      ∧ outcome.response.answers = [{ echRecord with ttl := 55 }]
      ∧ ∃ f ∈ c.state.fetched, f.key = .of echQuery
        ∧ SameRecords outcome.response f.message
        ∧ SameRecords (stripEchParams outcome.response) (stripEchParams f.response)
  := by
  refine ⟨_, rfl, _, rfl, rfl, rfl, ?_⟩
  obtain ⟨-, -, hhit⟩ := answers_agree LruCrate.recentLawful (boundedPipeline 0 0) 4096 0 0 rfl
    askTwice [0, 0, 0, 1, 1, 1, 2, 2] _ rfl 2 (echSurroundings 60 5000000000) (Message.query 2)
    echQuery (.of echQuery) rfl _ rfl
  obtain ⟨f, hf, hkey, -, -, -, hsame, hstripped⟩ := hhit rfl
  exact ⟨f, hf, hkey, hsame, hstripped⟩

/-! ### Times to live of the first answer -/

def Message.ttls (msg : Message H) : List UInt32 :=
  msg.records.map Record.ttl

/-- A time to live that the bounds leave as it is. -/
def WithinBounds (minTtl maxTtl ttl : UInt32) : Prop :=
  (minTtl = 0 ∨ minTtl ≤ ttl) ∧ (maxTtl = 0 ∨ ttl ≤ maxTtl)

instance (minTtl maxTtl ttl : UInt32) : Decidable (WithinBounds minTtl maxTtl ttl) :=
  inferInstanceAs (Decidable (_ ∧ _))

theorem ttl_stripEch (r : Record H) :
  r.stripEch.ttl = r.ttl
  := by
  obtain ⟨name, ttl, dnsClass, data⟩ := r
  cases data <;> rfl

/-- Stripping and the header make no difference to the times to live. -/
theorem ttls_finishResponse_stripIf (strip : Bool) (msg request : Message H) :
  (finishResponse (stripIf strip msg) request).ttls = msg.ttls
  := by
  have hstrip (rs : List (Record H)) :
      (rs.map Record.stripEch).map Record.ttl = rs.map Record.ttl := by
    rw [List.map_map]
    apply List.map_congr_left
    intro r _
    apply ttl_stripEch
  cases strip with
  | false => rfl
  | true =>
    change (((msg.answers.map Record.stripEch) ++ msg.authorities
      ++ msg.additionals.map Record.stripEch).map Record.ttl) = _
    rw [List.map_append, List.map_append, hstrip, hstrip, ← List.map_append, ← List.map_append]
    rfl

/-- Bounds that do not conflict leave a time to live that is within them, and no other. -/
theorem ttl_clamp_eq_iff {minTtl maxTtl : UInt32}
    (hvalid : ¬ (0 < minTtl ∧ 0 < maxTtl ∧ maxTtl < minTtl)) (r : Record H) :
  (r.clamp minTtl maxTtl).ttl = r.ttl ↔ WithinBounds minTtl maxTtl r.ttl
  := by
  have hmax (x y : UInt32) : max x y = if x ≤ y then y else x := rfl
  have hmin (x y : UInt32) : min x y = if x ≤ y then x else y := rfl
  simp only [Record.clamp, WithinBounds, hmax, hmin]
  grind

theorem not_conflict_of_validate {e : EffectiveDnsSettings} (h : e.validate = .ok ()) :
  ¬ (0 < e.overrideMinTtlSecs ∧ 0 < e.overrideMaxTtlSecs
    ∧ e.overrideMaxTtlSecs < e.overrideMinTtlSecs)
  := by
  intro hconflict
  rw [EffectiveDnsSettings.validate, if_pos hconflict] at h
  cases h

/-- What is sent on a miss is the message of the upstream server, which is also stored. -/
theorem handleResolve_of_miss {p : Pipeline A H L} {w : Surroundings H} {query : Query H}
    {key : CacheKey} {m : Message H} {label : Text} (hmiss : (p.cache.get w.now key).1 = none)
    (hupstream : w.upstream query = .ok (m, label)) (request : Message H) (domain : Text)
    (proxy : Bool) :
  (p.handleResolve w request query domain proxy key).1 = finishResponse (p.strip m) request
    ∧ (p.handleResolve w request query domain proxy key).2.1
      = { p with cache := (p.cache.get w.now key).2.put w.later key m }
  := by
  rcases hget : p.cache.get w.now key with ⟨hit, cache⟩
  rw [hget] at hmiss
  obtain rfl : hit = none := hmiss
  rw [Pipeline.handleResolve, hget]
  constructor <;> simp only [hupstream]

theorem handleResolve_of_hit {p : Pipeline A H L} {w : Surroundings H} {key : CacheKey}
    {cached : Message H} (hhit : (p.cache.get w.now key).1 = some cached) (request : Message H)
    (query : Query H) (domain : Text) (proxy : Bool) :
  (p.handleResolve w request query domain proxy key).1 = finishResponse (p.strip cached) request
    ∧ (p.handleResolve w request query domain proxy key).2.1
      = { p with cache := (p.cache.get w.now key).2 }
  := by
  rcases hget : p.cache.get w.now key with ⟨hit, cache⟩
  rw [hget] at hhit
  obtain rfl : hit = some cached := hhit
  rw [Pipeline.handleResolve, hget]
  exact ⟨rfl, rfl⟩

/-- Right after an answer was stored it is served with its times to live brought within the
bounds. -/
theorem ttls_get_put (law : L.Lawful) {cache : DnsCache L H} {key : CacheKey} {m : Message H}
    (hcacheable : DnsCache.cacheable m = true) {stored now : ℕ} (hpast : stored ≤ now)
    (hage : now < stored + nanos) {served : Message H}
    (h : ((cache.put stored key m).get now key).1 = some served) :
  served.ttls = m.records.map fun r => (r.clamp cache.minTtl cache.maxTtl).ttl
  := by
  obtain ⟨e, he, hexpires, rfl⟩ := DnsCache.has_of_get_some law h
  rcases he.of_put_config with ⟨-, -, -, rfl⟩ | ⟨hne, -⟩
  · have hserved : (cache.config.entry stored m).response.mapRecords
        (Record.aged ((now - (cache.config.entry stored m).stored) / nanos)) = _ :=
      (served_entry hpast hexpires).aged
    have hzero : (now - stored) / nanos = 0 := by
      apply Nat.div_eq_of_lt
      omega
    rw [hserved, hzero, Message.ttls, Message.records_mapRecords, List.map_map]
    apply List.map_congr_left
    intro r _
    simp [CacheConfig.clamp, DnsCache.config]
  · exact absurd rfl (hne hcacheable)

/-- A message goes out with its own times to live when it is fetched, and right after that from the
cache with these brought within the bounds.  They are the same exactly if they all are within the
bounds. -/
theorem ttls_miss_hit (law : L.Lawful) (p : Pipeline A H L)
    (hvalid : p.settings.validate = .ok ()) (hmin : p.cache.minTtl = p.settings.overrideMinTtlSecs)
    (hmax : p.cache.maxTtl = p.settings.overrideMaxTtlSecs) (w w' : Surroundings H)
    (request request' : Message H) (query query' : Query H) (domain domain' : Text)
    (key : CacheKey) (proxy proxy' : Bool)
    (hplan : planQuery request p.rewrites p.adblock = .answer query domain (.resolve key))
    (hplan' : planQuery request' p.rewrites p.adblock = .answer query' domain' (.resolve key))
    (hmiss : (p.cache.get w.now key).1 = none) (m : Message H) (label : Text)
    (hupstream : w.upstream query = .ok (m, label)) (hcacheable : DnsCache.cacheable m = true)
    (hpast : w.later ≤ w'.now) (hage : w'.now < w.later + nanos)
    (hhit : ((p.handleFrom w request proxy).2.1.cache.get w'.now key).1.isSome = true) :
  let fresh := (p.handleFrom w request proxy).1
  let cached := ((p.handleFrom w request proxy).2.1.handleFrom w' request' proxy').1
  fresh.ttls = m.records.map Record.ttl
    ∧ cached.ttls = m.records.map (fun r =>
      (r.clamp p.settings.overrideMinTtlSecs p.settings.overrideMaxTtlSecs).ttl)
    ∧ (fresh.ttls = cached.ttls ↔ ∀ r ∈ m.records,
      WithinBounds p.settings.overrideMinTtlSecs p.settings.overrideMaxTtlSecs r.ttl)
  := by
  obtain ⟨hsent, hafter⟩ := handleFrom_of_resolve hplan w proxy
  obtain ⟨hfresh, hstored⟩ := handleResolve_of_miss hmiss hupstream request domain proxy
  rw [hafter, hstored] at hhit
  obtain ⟨served, hserved⟩ := Option.isSome_iff_exists.mp hhit
  -- the second answer is planned as before, in the service with the message in its cache
  let q : Pipeline A H L := { p with cache := (p.cache.get w.now key).2.put w.later key m }
  have hcached : (q.handleFrom w' request' proxy').1
      = finishResponse (q.strip served) request' := by
    have hq : planQuery request' q.rewrites q.adblock = .answer query' domain' (.resolve key) :=
      hplan'
    rw [(handleFrom_of_resolve hq w' proxy').1]
    apply (handleResolve_of_hit hserved ..).1
  obtain ⟨-, hgetMin, hgetMax, -⟩ := DnsCache.get_snd p.cache w.now key
  have hfreshTtls : (p.handleFrom w request proxy).1.ttls = m.records.map Record.ttl := by
    rw [hsent, hfresh, strip_eq_stripIf, ttls_finishResponse_stripIf]
    rfl
  have hcachedTtls : ((p.handleFrom w request proxy).2.1.handleFrom w' request' proxy').1.ttls
      = m.records.map fun r =>
        (r.clamp p.settings.overrideMinTtlSecs p.settings.overrideMaxTtlSecs).ttl := by
    rw [hafter, hstored, hcached, strip_eq_stripIf, ttls_finishResponse_stripIf,
      ttls_get_put law hcacheable hpast hage hserved, hgetMin, hgetMax, hmin, hmax]
  refine ⟨hfreshTtls, hcachedTtls, ?_⟩
  rw [hfreshTtls, hcachedTtls, List.map_inj_left]
  apply forall₂_congr
  intro r _
  rw [← ttl_clamp_eq_iff (not_conflict_of_validate hvalid), eq_comm]

def echRequest : Message .written :=
  { Message.query 1 with queries := [echQuery] }

theorem ttls_miss_hit_minute :
  ((boundedPipeline 60 0).handleFrom (echSurroundings 300 0) echRequest false).1.ttls
    = (((boundedPipeline 60 0).handleFrom (echSurroundings 300 0) echRequest false).2.1.handleFrom
      (echSurroundings 300 0) echRequest false).1.ttls
  := by
  apply (ttls_miss_hit LruCrate.recentLawful (boundedPipeline 60 0) rfl rfl rfl
    (echSurroundings 300 0) (echSurroundings 300 0) echRequest echRequest echQuery echQuery
    "app.example".toList "app.example".toList (.of echQuery) false false rfl rfl rfl
    (echAnswer 300) "udp://192.0.2.53".toList rfl rfl (by decide) (by decide) rfl).2.2.mpr
  intro r hr
  obtain rfl := List.mem_singleton.mp hr
  decide

/-- With a lower bound of a minute, which is accepted, an answer for ten seconds goes out with ten
seconds first and then from the cache with sixty. -/
theorem ttls_miss_hit_short :
  (boundedPipeline 60 0).settings.validate = .ok ()
    ∧ ((boundedPipeline 60 0).handleFrom (echSurroundings 10 0) echRequest false).1.ttls = [10]
    ∧ (((boundedPipeline 60 0).handleFrom (echSurroundings 10 0) echRequest false).2.1.handleFrom
      (echSurroundings 10 0) echRequest false).1.ttls = [60]
  := ⟨rfl, rfl, rfl⟩

end Dns
