import AdBlock.Dns.Message
import AdBlock.Dns.Upstream
import Mathlib.Data.Fintype.Basic
import Mathlib.Data.List.FinRange
import Mathlib.Data.List.Rotate

/-!
# Which upstream servers are asked

A query is sent to the servers that are not parked: one after the other, from the preferred one on
or from one that is picked by its weight, or to all of them at once.  The futures of the last way
are polled in any order and each is ready after any number of polls.

Every order of the servers has each of those that are not parked once (`failoverOrder_perm`,
`loadBalancedOrder_perm`), and a query that fails has failed on all of them (`resolve_selects`).
-/

open scoped List

namespace Dns

/-! ### Health -/

/-- What is known of a server from the queries that were sent to it. -/
structure Stats where
  queries : UInt64 := 0
  failures : UInt64 := 0
  ewmaRttUs : UInt64 := 0
  deriving DecidableEq, Repr

namespace Stats

/-- Count a query that took some nanoseconds. -/
def record (rtt : ℕ) (failed : Bool) (s : Stats) : Stats :=
  let sample := UInt64.ofNat (min (rtt / 1000) (2 ^ 64 - 1))
  let old := s.ewmaRttUs
  let new := if old = 0 then sample else old - old / 8 + sample / 8
  { queries := s.queries + 1
    failures := if failed then s.failures + 1 else s.failures
    ewmaRttUs := max new 1 }

def weight (s : Stats) : UInt64 :=
  if s.ewmaRttUs = 0 then 10000 else max (10000 / max (s.ewmaRttUs / 1000) 1) 1

end Stats

/-- The place at which a point lies among weights that are laid end to end. -/
def pickFrom (point : UInt64) : List UInt64 → Option ℕ
  | [] => none
  | w :: weights => if point < w then some 0 else (pickFrom (point - w) weights).map (· + 1)

def pickWeighted (weights : List UInt64) (r : UInt64) : ℕ :=
  let total := weights.sum
  if total = 0 then 0 else (pickFrom (r % total) weights).getD (weights.length - 1)

theorem pickFrom_lt {weights : List UInt64} {point : UInt64} {i : ℕ}
    (h : pickFrom point weights = some i) :
  i < weights.length
  := by
  induction weights generalizing point i with
  | nil => cases h
  | cons w weights ih =>
    rw [pickFrom] at h
    split at h
    · obtain rfl := Option.some.inj h
      apply Nat.succ_pos
    · obtain ⟨j, hj, rfl⟩ := Option.map_eq_some_iff.mp h
      apply Nat.succ_lt_succ (ih hj)

/-- One of the weights is picked if there are any, also if their sum overflows. -/
theorem pickWeighted_lt {weights : List UInt64} (hne : weights ≠ []) (r : UInt64) :
  pickWeighted weights r < weights.length
  := by
  have hpos : 0 < weights.length := List.length_pos_iff.mpr hne
  rw [pickWeighted]
  split
  · apply hpos
  · cases hpick : pickFrom (r % weights.sum) weights with
    | none => apply Nat.sub_lt hpos Nat.one_pos
    | some i => apply pickFrom_lt hpick

example : [0, 9, 10, 11, 110, 111].map (pickWeighted [10, 1, 100]) = [0, 0, 1, 2, 2, 0] := by
  decide

/-! ### Orders of the servers -/

/-- What a resolver learns while it is in use. -/
structure Health (r : Resolver) where
  stats : Fin r.upstreams.length → Stats
  preferred : ℕ

namespace Resolver

variable (r : Resolver)

/-- The place of a server. -/
abbrev Index := Fin r.upstreams.length

def addr (i : r.Index) : UpstreamAddr :=
  r.upstreams.get i

/-- The servers that may be asked. -/
def active : List r.Index :=
  (List.finRange r.upstreams.length).filter fun i => (r.addr i).enabled

variable {r}

/-- The servers from the preferred one on, and around. -/
def failoverOrder (health : Health r) (active : List r.Index) : List r.Index :=
  let start := (active.findIdx? fun i => i.val = health.preferred).getD 0
  (List.finRange active.length).map fun (k : Fin active.length) =>
    active.get ⟨(start + k) % active.length, Nat.mod_lt _ k.pos⟩

/-- A server that is picked by its weight, and then the others from the fastest on.  There is none
to pick if no server is active. -/
def loadBalancedOrder (health : Health r) (active : List r.Index) (random : UInt64) :
    Option (List r.Index) := do
  let weights := active.map fun i => (health.stats i).weight
  let picked ← active[pickWeighted weights random]?
  let order := active.mergeSort fun i j =>
    (health.stats i).ewmaRttUs ≤ (health.stats j).ewmaRttUs
  return picked :: order.filter (· ≠ picked)

theorem mem_active {i : r.Index} :
  i ∈ r.active ↔ (r.addr i).enabled = true
  := by
  simp [active]

theorem nodup_active :
  r.active.Nodup
  := (List.nodup_finRange _).filter _

theorem failoverOrder_eq_rotate (health : Health r) (active : List r.Index) :
  failoverOrder health active
    = active.rotate ((active.findIdx? fun i => i.val = health.preferred).getD 0)
  := by
  apply List.ext_getElem
  · simp [failoverOrder]
  · intro k h h'
    simp [failoverOrder, List.getElem_rotate, Nat.add_comm]

theorem failoverOrder_perm (health : Health r) (active : List r.Index) :
  (failoverOrder health active).Perm active
  := by
  rw [failoverOrder_eq_rotate]
  apply List.rotate_perm

/-- The preferred server comes first if it is active. -/
theorem head?_failoverOrder {health : Health r} {active : List r.Index} {i : r.Index}
    (hi : i ∈ active) (hpreferred : i.val = health.preferred) :
  (failoverOrder health active).head? = some i
  := by
  have hsome : (active.findIdx? fun i => i.val = health.preferred).isSome = true := by
    rw [List.findIdx?_isSome, List.any_eq_true]
    exact ⟨i, hi, decide_eq_true hpreferred⟩
  obtain ⟨start, hstart⟩ := Option.isSome_iff_exists.mp hsome
  obtain ⟨hlt, hfound, -⟩ := List.findIdx?_eq_some_iff_getElem.mp hstart
  have hstarti : active[start] = i := Fin.ext ((of_decide_eq_true hfound).trans hpreferred.symm)
  rw [failoverOrder_eq_rotate, hstart, Option.getD_some, List.head?_rotate hlt,
    List.getElem?_eq_getElem hlt, hstarti]

theorem loadBalancedOrder_perm (health : Health r) {active : List r.Index}
    (hnodup : active.Nodup) (hne : active ≠ []) (random : UInt64) :
  ∃ order, loadBalancedOrder health active random = some order ∧ order.Perm active
  := by
  let weights := active.map fun i => (health.stats i).weight
  have hlt : pickWeighted weights random < active.length := by
    rw [← List.length_map fun i => (health.stats i).weight]
    apply pickWeighted_lt
    rwa [Ne, List.map_eq_nil_iff]
  let picked := active[pickWeighted weights random]
  let order := active.mergeSort fun i j =>
    (health.stats i).ewmaRttUs ≤ (health.stats j).ewmaRttUs
  have hsorted : order.Perm active := List.mergeSort_perm ..
  have hmem : picked ∈ active := List.getElem_mem hlt
  refine ⟨picked :: order.filter (· ≠ picked), ?_, ?_⟩
  · rw [loadBalancedOrder, List.getElem?_eq_getElem hlt]
    rfl
  · calc picked :: order.filter (· ≠ picked)
      _ ~ picked :: active.filter (· ≠ picked) := (hsorted.filter _).cons picked
      _ = picked :: active.erase picked := by
        rw [hnodup.erase_eq_filter]
        congr 1
        apply List.filter_congr
        intro i _
        rw [Bool.eq_iff_iff, decide_eq_true_eq, bne_iff_ne]
      _ ~ active := (List.perm_cons_erase hmem).symm

end Resolver

/-! ### A query and its attempts -/

variable {H : Hickory} {r : Resolver}

/-- What a server does with a query: its reply or an error, unless it takes too long, and the
nanoseconds that it takes. -/
structure Attempt (H : Hickory) where
  outcome : Option (Except Text (Message H))
  elapsed : ℕ

/-- What goes on around a query. -/
structure Attempts (H : Hickory) (r : Resolver) where
  /-- The id that is drawn. -/
  id : UInt16
  toVec : Message H → Except Text Bytes
  random : UInt64
  /-- The timeout in nanoseconds. -/
  timeout : ℕ
  queryOne : r.Index → Bytes → Attempt H
  /-- How often a future is polled before it is ready. -/
  pending : r.Index → ℕ
  /-- The order in which the futures are polled. -/
  polls : List r.Index

/-- All futures are polled until they are ready. -/
def Attempts.Fair (w : Attempts H r) : Prop :=
  ∀ i ∈ r.active, w.pending i < w.polls.count i

/-- How far a query has come. -/
inductive Progress (α : Type) where
  | waiting
  | panicked
  | returned (result : α)

/-- What a query leads to, and the servers that it was sent to. -/
structure Resolution (H : Hickory) (r : Resolver) where
  result : Progress (Except Text (Message H × Text))
  health : Health r
  calls : List r.Index

/-- The reply that is accepted, or why there is none. -/
def verdict (up : UpstreamAddr) (id : UInt16) :
    Option (Except Text (Message H)) → Except Text (Message H)
  | some (.ok resp) =>
      if resp.metadata.id = id then .ok resp
      else .error (up.spec ++ ": response id mismatch".toList)
  | some (.error e) => .error (up.spec ++ ": ".toList ++ e)
  | none => .error (up.spec ++ ": timed out".toList)

def Health.record (health : Health r) (i : r.Index) (rtt : ℕ) (failed : Bool) : Health r :=
  { health with stats := Function.update health.stats i ((health.stats i).record rtt failed) }

namespace Resolver

section Ways

variable (ask : r.Index → Attempt H) (timeout : ℕ) (id : UInt16)

/-- The servers are asked in turn. -/
def resolveSequential : List r.Index → Text → Health r → Resolution H r
  | [], lastErr, health => ⟨.returned (.error lastErr), health, []⟩
  | idx :: order, _, health =>
      match verdict (r.addr idx) id (ask idx).outcome with
      | .ok resp =>
          ⟨.returned (.ok (resp, (r.addr idx).label)),
            { health.record idx (ask idx).elapsed false with preferred := idx }, [idx]⟩
      | .error e =>
          let rest := resolveSequential order e (health.record idx (timeout * 2) true)
          { rest with calls := idx :: rest.calls }

/-- The futures of a query that is sent to all servers. -/
structure Race (r : Resolver) where
  inFlight : List r.Index
  /-- How often each was polled. -/
  polled : r.Index → ℕ
  lastErr : Text
  health : Health r
  calls : List r.Index

/-- A future is polled.  The first time it sends the query. -/
def Race.poll (race : Race r) (i : r.Index) : Race r :=
  { race with
    polled := Function.update race.polled i (race.polled i + 1)
    calls := if race.polled i = 0 then race.calls ++ [i] else race.calls }

/-- A future has failed. -/
def Race.fail (race : Race r) (i : r.Index) (e : Text) : Race r :=
  { race with
    inFlight := race.inFlight.filter (· ≠ i)
    lastErr := e
    health := race.health.record i (timeout * 2) true }

variable (pending : r.Index → ℕ)

/-- The futures are polled until one has a reply that is accepted or all have failed. -/
def resolveParallel : List r.Index → Race r → Resolution H r
  | [], race =>
      ⟨if race.inFlight = [] then .returned (.error race.lastErr) else .waiting, race.health,
        race.calls⟩
  | i :: polls, race =>
      if i ∉ race.inFlight then resolveParallel polls race
      else if race.polled i < pending i then resolveParallel polls (race.poll i)
      else
        match verdict (r.addr i) id (ask i).outcome with
        | .ok resp =>
            ⟨.returned (.ok (resp, (r.addr i).label)),
              race.health.record i (ask i).elapsed false, (race.poll i).calls⟩
        | .error e => resolveParallel polls ((race.poll i).fail timeout i e)

end Ways

/-- The message for a query. -/
def wireMessage (id : UInt16) (query : Query H) : Message H :=
  let wire : Message H := .query id
  { wire with
    metadata := { wire.metadata with recursionDesired := true }
    queries := [query]
    edns := some { maxPayload := 1232 } }

variable (r) in
/-- The query on the wire, with the id that is drawn for it. -/
def encode (w : Attempts H r) (query : Query H) : Except Text (Bytes × UInt16) :=
  match w.toVec (wireMessage w.id query) with
  | .ok bytes => .ok (bytes, w.id)
  | .error e => .error ("encoding query: ".toList ++ e)

variable (r) in
def resolve (w : Attempts H r) (health : Health r) (query : Query H) : Resolution H r :=
  let active := r.active
  if active = [] then
    ⟨.returned (.error (if r.upstreams = [] then "no DNS upstreams configured".toList
      else "every DNS upstream is disabled".toList)), health, []⟩
  else
    match r.encode w query with
    | .error e => ⟨.returned (.error e), health, []⟩
    | .ok (bytes, id) =>
        let ask i := w.queryOne i bytes
        if r.mode = .parallel ∧ 1 < active.length then
          resolveParallel ask w.timeout id w.pending w.polls
            { inFlight := active, polled := fun _ => 0, lastErr := [], health, calls := [] }
        else if r.mode = .loadBalance ∧ 1 < active.length then
          match loadBalancedOrder health active w.random with
          | some order => resolveSequential ask w.timeout id order [] health
          | none => ⟨.panicked, health, []⟩
        else resolveSequential ask w.timeout id (failoverOrder health active) [] health

/-! ### Which servers are asked -/

/-- The server gives a reply with the id of the query in time. -/
def Accepts (ask : r.Index → Attempt H) (id : UInt16) (i : r.Index) (m : Message H) : Prop :=
  (ask i).outcome = some (.ok m) ∧ m.metadata.id = id

theorem verdict_eq_ok_iff {up : UpstreamAddr} {id : UInt16}
    {outcome : Option (Except Text (Message H))} {m : Message H} :
  verdict up id outcome = .ok m ↔ outcome = some (.ok m) ∧ m.metadata.id = id
  := by
  rcases outcome with _ | e | resp
  · simp [verdict]
  · simp [verdict]
  · by_cases h : resp.metadata.id = id
    · simp only [verdict, if_pos h, Except.ok.injEq, Option.some.injEq]
      constructor
      · rintro rfl
        exact ⟨rfl, h⟩
      · rintro ⟨rfl, -⟩
        rfl
    · simp only [verdict, if_neg h, reduceCtorEq, Option.some.injEq, Except.ok.injEq, false_iff]
      rintro ⟨rfl, hid⟩
      exact h hid

/-- The query was sent to some of the servers, once to each.  A reply that is returned is the
reply of one of them, and an error is returned after all of them have failed. -/
structure Selects (active : List r.Index) (ask : r.Index → Attempt H) (id : UInt16)
    (res : Resolution H r) : Prop where
  nodup : res.calls.Nodup
  subset : res.calls ⊆ active
  ok : ∀ m label, res.result = .returned (.ok (m, label)) →
    ∃ i ∈ res.calls, label = (r.addr i).label ∧ Accepts ask id i m
  error : ∀ e, res.result = .returned (.error e) →
    ∀ i ∈ active, i ∈ res.calls ∧ ∀ m, ¬ Accepts ask id i m
  noPanic : res.result ≠ .panicked

variable {ask : r.Index → Attempt H} {id : UInt16}

theorem not_accepts_of_verdict {i : r.Index} {e : Text}
    (h : verdict (r.addr i) id (ask i).outcome = .error e) (m : Message H) :
  ¬ Accepts ask id i m
  := by
  intro hm
  have hok : verdict (r.addr i) id (ask i).outcome = .ok m := verdict_eq_ok_iff.mpr hm
  rw [h] at hok
  cases hok

theorem Selects.of_perm {active active' : List r.Index} {res : Resolution H r}
    (h : Selects active ask id res) (hperm : active.Perm active') :
  Selects active' ask id res
  where
  nodup := h.nodup
  subset := List.Subset.trans h.subset hperm.subset
  ok := h.ok
  error e he i hi := h.error e he i (hperm.mem_iff.mpr hi)
  noPanic := h.noPanic

/-- Servers that are asked in turn are asked up to the first that is accepted. -/
theorem selects_resolveSequential (timeout : ℕ) {order : List r.Index} (hnodup : order.Nodup)
    (lastErr : Text) (health : Health r) :
  Selects order ask id (resolveSequential ask timeout id order lastErr health)
  := by
  induction order generalizing lastErr health with
  | nil =>
    constructor
    · apply List.nodup_nil
    · apply List.Subset.refl
    · intro m label h
      cases h
    · intro e _ i hi
      cases hi
    · intro h
      cases h
  | cons idx order ih =>
    obtain ⟨hidx, hnodup⟩ := List.nodup_cons.mp hnodup
    rw [resolveSequential]
    cases hverdict : verdict (r.addr idx) id (ask idx).outcome with
    | ok resp =>
      constructor
      · apply List.nodup_singleton
      · intro i hi
        rw [List.mem_singleton.mp hi]
        apply List.mem_cons_self
      · intro m label h
        injection h with h
        injection h with h
        obtain ⟨rfl, rfl⟩ := Prod.mk.inj h
        exact ⟨idx, List.mem_singleton_self idx, rfl, verdict_eq_ok_iff.mp hverdict⟩
      · intro e h
        injection h with h
        cases h
      · intro h
        cases h
    | error e =>
      have hrest := ih hnodup e (health.record idx (timeout * 2) true)
      constructor
      · apply List.nodup_cons.mpr ⟨fun h => hidx (hrest.subset h), hrest.nodup⟩
      · apply List.cons_subset_cons idx hrest.subset
      · intro m label h
        obtain ⟨i, hi, hlabel, haccepts⟩ := hrest.ok m label h
        exact ⟨i, List.mem_cons_of_mem idx hi, hlabel, haccepts⟩
      · intro e' h
        rw [List.forall_mem_cons]
        refine ⟨⟨List.mem_cons_self, not_accepts_of_verdict hverdict⟩, ?_⟩
        intro i hi
        obtain ⟨hcalled, hi⟩ := hrest.error e' h i hi
        exact ⟨List.mem_cons_of_mem idx hcalled, hi⟩
      · apply hrest.noPanic

/-- What holds while the futures are polled: those that are not in flight have failed. -/
structure Racing (active : List r.Index) (ask : r.Index → Attempt H) (id : UInt16)
    (race : Race r) : Prop where
  nodup : race.calls.Nodup
  subset : race.calls ⊆ active
  inFlight : race.inFlight ⊆ active
  polled : ∀ i ∈ race.calls, 0 < race.polled i
  called : ∀ i ∈ active, 0 < race.polled i → i ∈ race.calls
  failed : ∀ i ∈ active, i ∉ race.inFlight → i ∈ race.calls ∧ ∀ m, ¬ Accepts ask id i m

theorem Racing.poll {active : List r.Index} {race : Race r} (h : Racing active ask id race)
    {i : r.Index} (hi : i ∈ race.inFlight) :
  Racing active ask id (race.poll i) ∧ i ∈ (race.poll i).calls
  := by
  have hactive : i ∈ active := h.inFlight hi
  have hpolled (j : r.Index) : race.polled j ≤ (race.poll i).polled j := by
    by_cases hj : j = i
    · subst hj
      simp [Race.poll]
    · simp [Race.poll, hj]
  -- the query was sent before, or is sent now for the first time
  have hcalls : (race.poll i).calls.Nodup ∧ i ∈ (race.poll i).calls
      ∧ race.calls ⊆ (race.poll i).calls ∧ ∀ j ∈ (race.poll i).calls, j ∈ race.calls ∨ j = i := by
    by_cases hzero : race.polled i = 0
    · have hnew : i ∉ race.calls := fun hmem => (h.polled i hmem).ne' hzero
      simp only [Race.poll, if_pos hzero]
      refine ⟨?_, by simp, List.subset_append_left _ _, by simp⟩
      apply h.nodup.append (List.nodup_singleton i)
      rwa [List.disjoint_singleton]
    · simp only [Race.poll, if_neg hzero]
      exact ⟨h.nodup, h.called i hactive (Nat.pos_of_ne_zero hzero), List.Subset.refl _,
        fun j hj => .inl hj⟩
  obtain ⟨hnodup, hmem, hsub, hcases⟩ := hcalls
  refine ⟨⟨hnodup, ?_, h.inFlight, ?_, ?_, ?_⟩, hmem⟩
  · intro j hj
    rcases hcases j hj with hj | rfl
    · apply h.subset hj
    · apply hactive
  · intro j hj
    rcases hcases j hj with hj | rfl
    · apply (h.polled j hj).trans_le (hpolled j)
    · simp [Race.poll]
  · intro j hj hpos
    by_cases hji : j = i
    · rwa [hji]
    · apply hsub
      apply h.called j hj
      simpa [Race.poll, hji] using hpos
  · intro j hj hout
    obtain ⟨hcalled, hfailed⟩ := h.failed j hj hout
    exact ⟨hsub hcalled, hfailed⟩

theorem Racing.fail {active : List r.Index} {race : Race r} (h : Racing active ask id race)
    (timeout : ℕ) {i : r.Index} (hi : i ∈ race.calls) (hfailed : ∀ m, ¬ Accepts ask id i m)
    (e : Text) :
  Racing active ask id (race.fail timeout i e)
  where
  nodup := h.nodup
  subset := h.subset
  inFlight := List.Subset.trans (List.filter_subset_self _) h.inFlight
  polled := h.polled
  called := h.called
  failed := by
    intro j hj hout
    by_cases hji : j = i
    · rw [hji]
      exact ⟨hi, hfailed⟩
    · apply h.failed j hj
      intro hmem
      apply hout
      rw [Race.fail, List.mem_filter]
      exact ⟨hmem, decide_eq_true hji⟩

/-- Servers that are asked all at once are asked once each, and an error is returned when no
future is in flight any more. -/
theorem selects_resolveParallel (timeout : ℕ) (pending : r.Index → ℕ) (polls : List r.Index)
    {active : List r.Index} {race : Race r} (h : Racing active ask id race) :
  Selects active ask id (resolveParallel ask timeout id pending polls race)
  := by
  induction polls generalizing race with
  | nil =>
    rw [resolveParallel]
    constructor
    · apply h.nodup
    · apply h.subset
    · intro m label hresult
      simp only at hresult
      split at hresult <;> cases hresult
    · intro e hresult i hi
      simp only at hresult
      split at hresult
      · rename_i hnone
        apply h.failed i hi
        rw [hnone]
        apply List.not_mem_nil
      · cases hresult
    · simp only
      split <;> intro hresult <;> cases hresult
  | cons i polls ih =>
    rw [resolveParallel]
    split
    · apply ih h
    · rename_i hi
      obtain ⟨hpoll, hcalled⟩ := h.poll (not_not.mp hi)
      split
      · apply ih hpoll
      · cases hverdict : verdict (r.addr i) id (ask i).outcome with
        | ok resp =>
          constructor
          · apply hpoll.nodup
          · apply hpoll.subset
          · intro m label hresult
            injection hresult with hresult
            injection hresult with hresult
            obtain ⟨rfl, rfl⟩ := Prod.mk.inj hresult
            exact ⟨i, hcalled, rfl, verdict_eq_ok_iff.mp hverdict⟩
          · intro e hresult
            injection hresult with hresult
            cases hresult
          · intro hresult
            cases hresult
        | error e => apply ih (hpoll.fail timeout hcalled (not_accepts_of_verdict hverdict) e)

/-! ### Every query returns -/

theorem returned_resolveSequential (timeout : ℕ) (order : List r.Index) (lastErr : Text)
    (health : Health r) :
  ∃ result, (resolveSequential ask timeout id order lastErr health).result = .returned result
  := by
  induction order generalizing lastErr health with
  | nil => exact ⟨_, rfl⟩
  | cons idx order ih =>
    rw [resolveSequential]
    split
    · exact ⟨_, rfl⟩
    · apply ih

/-- Futures that are each polled until they are ready come to an end. -/
theorem returned_resolveParallel (timeout : ℕ) {pending : r.Index → ℕ} {polls : List r.Index}
    {race : Race r} (hbound : ∀ i ∈ race.inFlight, race.polled i ≤ pending i)
    (hfair : ∀ i ∈ race.inFlight, pending i < race.polled i + polls.count i) :
  ∃ result, (resolveParallel ask timeout id pending polls race).result = .returned result
  := by
  induction polls generalizing race with
  | nil =>
    have hnone : race.inFlight = [] := by
      rw [List.eq_nil_iff_forall_not_mem]
      intro i hi
      exact absurd (hfair i hi) (not_lt.mpr (hbound i hi))
    rw [resolveParallel, if_pos hnone]
    exact ⟨_, rfl⟩
  | cons j polls ih =>
    have hothers : ∀ i ∈ race.inFlight, i ≠ j → pending i < race.polled i + polls.count i := by
      intro i hi hij
      rw [← List.count_cons_of_ne (Ne.symm hij)]
      apply hfair i hi
    rw [resolveParallel]
    split
    · rename_i hj
      apply ih hbound
      intro i hi
      apply hothers i hi
      rintro rfl
      exact hj hi
    · rename_i hj
      have hpolled (i : r.Index) (hij : i ≠ j) : (race.poll j).polled i = race.polled i :=
        Function.update_of_ne hij ..
      have hself : (race.poll j).polled j = race.polled j + 1 := Function.update_self ..
      split
      · rename_i hpending
        apply ih
        · intro i hi
          by_cases hij : i = j
          · rw [hij, hself]
            apply hpending
          · rw [hpolled i hij]
            apply hbound i hi
        · intro i hi
          by_cases hij : i = j
          · have hlt := hfair j (not_not.mp hj)
            rw [List.count_cons_self] at hlt
            rw [hij, hself]
            omega
          · rw [hpolled i hij]
            apply hothers i hi hij
      · split
        · exact ⟨_, rfl⟩
        -- the future is not in flight any more
        · apply ih
          · intro i hi
            obtain ⟨hi, hij⟩ := List.mem_filter.mp hi
            rw [Race.fail, hpolled i (of_decide_eq_true hij)]
            apply hbound i hi
          · intro i hi
            obtain ⟨hi, hij⟩ := List.mem_filter.mp hi
            rw [Race.fail, hpolled i (of_decide_eq_true hij)]
            apply hothers i hi (of_decide_eq_true hij)

theorem racing_start (health : Health r) :
  Racing r.active ask id
    { inFlight := r.active, polled := fun _ => 0, lastErr := [], health, calls := [] }
  where
  nodup := List.nodup_nil
  subset := List.nil_subset _
  inFlight := List.Subset.refl _
  polled i hi := by cases hi
  called i _ hpos := absurd hpos (Nat.lt_irrefl 0)
  failed i hi hout := absurd hi hout

/-- What a query leads to, in any mode. -/
theorem selects_resolve {w : Attempts H r} {query : Query H} {bytes : Bytes}
    (hencode : r.encode w query = .ok (bytes, id)) (hne : r.active ≠ []) (health : Health r) :
  Selects r.active (fun i => w.queryOne i bytes) id (r.resolve w health query)
    ∧ (w.Fair → ∃ result, (r.resolve w health query).result = .returned result)
  := by
  simp only [resolve, if_neg hne, hencode]
  -- One after the other, the order does not matter.
  have hsequential {order : List r.Index} (hperm : order.Perm r.active) :
      Selects r.active (fun i => w.queryOne i bytes) id
          (resolveSequential (fun i => w.queryOne i bytes) w.timeout id order [] health)
        ∧ (w.Fair → ∃ result, (resolveSequential (fun i => w.queryOne i bytes) w.timeout id order
          [] health).result = .returned result) := by
    constructor
    · apply Selects.of_perm _ hperm
      apply selects_resolveSequential _ (hperm.nodup_iff.mpr nodup_active)
    · intro _
      apply returned_resolveSequential
  split
  · constructor
    · apply selects_resolveParallel
      apply racing_start
    · intro hfair
      apply returned_resolveParallel
      · intro i _
        apply Nat.zero_le
      · intro i hi
        rw [Nat.zero_add]
        apply hfair i hi
  · split
    · obtain ⟨order, horder, hperm⟩ := loadBalancedOrder_perm health nodup_active hne w.random
      rw [horder]
      exact hsequential hperm
    · exact hsequential (failoverOrder_perm health r.active)

/-- The preferred server is asked first, and its reply returned. -/
theorem resolve_of_preferred {w : Attempts H r} {health : Health r} {query : Query H}
    {bytes : Bytes} (hmode : r.mode = .failover) (hencode : r.encode w query = .ok (bytes, id))
    {i : r.Index} (hi : i ∈ r.active) (hpreferred : i.val = health.preferred) {m : Message H}
    (haccepts : Accepts (fun i => w.queryOne i bytes) id i m) :
  (r.resolve w health query).result = .returned (.ok (m, (r.addr i).label))
  := by
  obtain ⟨order, horder⟩ := List.head?_eq_some_iff.mp (head?_failoverOrder hi hpreferred)
  have hverdict : verdict (r.addr i) id (w.queryOne i bytes).outcome = .ok m :=
    verdict_eq_ok_iff.mpr haccepts
  simp [resolve, List.ne_nil_of_mem hi, hencode, hmode, horder, resolveSequential, hverdict]

/-- The orders have the active servers once each, from the preferred one on if it is active.  In
every mode a query is sent once at most to a server and to no server that is parked.  What is
returned is the reply of one server, if one that the query is sent to gives a reply in time, and an
error after all of them were asked and have failed. -/
theorem resolve_selects (r : Resolver) (health : Health r) (w : Attempts H r) (query : Query H) :
  (∃ start, failoverOrder health r.active = r.active.rotate start)
    ∧ (failoverOrder health r.active).Perm r.active
    ∧ (∀ i ∈ r.active, i.val = health.preferred →
      (failoverOrder health r.active).head? = some i)
    ∧ (r.active ≠ [] → ∃ order,
      loadBalancedOrder health r.active w.random = some order ∧ order.Perm r.active)
    ∧ (∀ bytes id, r.encode w query = .ok (bytes, id) → r.active ≠ [] →
      let res := r.resolve w health query
      let accepts i m := Accepts (fun i => w.queryOne i bytes) id i m
      res.calls.Nodup ∧ (∀ i ∈ res.calls, (r.addr i).enabled = true)
        ∧ (∀ m label, res.result = .returned (.ok (m, label)) →
          ∃ i ∈ res.calls, (r.addr i).enabled = true ∧ label = (r.addr i).label ∧ accepts i m)
        ∧ (w.Fair → (∃ i ∈ res.calls, ∃ m, accepts i m) →
          ∃ m label, res.result = .returned (.ok (m, label)))
        ∧ (∀ e, res.result = .returned (.error e) → ∀ i, (r.addr i).enabled = true →
          i ∈ res.calls ∧ ∀ m, ¬ accepts i m)
        ∧ res.result ≠ .panicked
        ∧ (w.Fair → ∃ result, res.result = .returned result))
  := by
  refine ⟨⟨_, failoverOrder_eq_rotate health r.active⟩, failoverOrder_perm health r.active,
    fun i hi hpreferred => head?_failoverOrder hi hpreferred,
    fun hne => loadBalancedOrder_perm health nodup_active hne w.random, ?_⟩
  intro bytes id hencode hne
  obtain ⟨hselects, hreturned⟩ := selects_resolve hencode hne health
  have henabled : ∀ i ∈ (r.resolve w health query).calls, (r.addr i).enabled = true :=
    fun i hi => mem_active.mp (hselects.subset hi)
  refine ⟨hselects.nodup, henabled, ?_, ?_, ?_, hselects.noPanic, hreturned⟩
  · intro m label hresult
    obtain ⟨i, hi, hlabel, haccepts⟩ := hselects.ok m label hresult
    exact ⟨i, hi, henabled i hi, hlabel, haccepts⟩
  · rintro hfair ⟨i, hi, m, hm⟩
    obtain ⟨result, hresult⟩ := hreturned hfair
    cases result with
    | ok reply => exact ⟨reply.1, reply.2, hresult⟩
    | error e =>
      exact absurd hm ((hselects.error e hresult i (hselects.subset hi)).2 m)
  · intro e hresult i hi
    apply hselects.error e hresult i (mem_active.mpr hi)

/-- A server for plain queries. -/
def plainServer (spec : String) (enabled : Bool) : UpstreamAddr where
  spec := spec.toList
  name := []
  enabled := enabled
  scheme := .udp
  host := spec.toList
  ip := none
  port := 53
  path := "/dns-query".toList

/-- Three servers, of which one is parked. -/
def threeServers (mode : UpstreamMode) : Resolver where
  upstreams := [plainServer "192.0.2.1" true, plainServer "192.0.2.2" false,
    plainServer "192.0.2.3" true]
  mode := mode
  bootstrap := []

/-- The first server does not answer in time, and its future is polled first. -/
def lateFirst (mode : UpstreamMode) : Attempts .written (threeServers mode) where
  id := 7
  toVec _ := .ok [0, 7]
  random := 5
  timeout := 3000000000
  queryOne i _ := ⟨if i.val = 0 then none else some (.ok (Message.response 7 .query)), 1000000⟩
  pending i := if i.val = 0 then 2 else 0
  polls := [(0 : Fin 3), (0 : Fin 3), (0 : Fin 3), (2 : Fin 3)]

theorem resolve_selects_lateFirst :
  ∃ m label, ((threeServers .parallel).resolve (lateFirst .parallel) ⟨fun _ => {}, 0⟩
    (.query "app.example.".toList .a)).result = .returned (.ok (m, label))
  := by
  have hselects := (resolve_selects (threeServers .parallel) ⟨fun _ => {}, 0⟩
    (lateFirst .parallel) (.query "app.example.".toList .a)).2.2.2.2 [0, 7] 7 rfl (by decide)
  apply hselects.2.2.2.1
  · show ∀ i ∈ (threeServers .parallel).active, _
    decide
  · have hcalled : (2 : Fin 3) ∈ ([0, 2] : List (Fin 3)) := by decide
    exact ⟨(2 : Fin 3), hcalled, Message.response 7 .query, rfl, rfl⟩

end Resolver

end Dns
