import AdBlock.Stats.Clock
import AdBlock.Stats.Retention
import Mathlib.Algebra.Order.BigOperators.Group.List

/-!
# The calls of the statistics, step by step

A denial is counted twice, as traffic and as a denial, each time in a counter and in the history.
The calls that count, and the one that clears, take their steps one by one, in any order among
each other, while the clock goes on (`Traffic.World`).  The history is the events that it recorded
(`History.Recorded`), and what can be left of a call determines what it still has to count
(`Traffic.Left`).
-/

namespace History

variable {hours now now' : ℕ} {h : History} {evs : List Event}

/-! ### The history as events -/

/-- The history is sound, and holds the events in its window if the window is not empty. -/
structure Recorded (hours : ℕ) (h : History) (evs : List Event) (now : ℕ) : Prop where
  live : h.Live
  ordered : Window.Ordered h.view.slots (now / bucketSecs)
  window : h.windowBuckets = hours * bucketsPerHour
  holds : 1 ≤ hours → Holds hours h evs now

/-- The number of events of a metric in ten minutes. -/
def eventsAt (evs : List Event) (k : ℕ) (m : Metric) : ℕ :=
  Window.countsAt (evs.map Event.slot) k (.metric m)

theorem eventsAt_concat (evs : List Event) (e : Event) (k : ℕ) (m : Metric) :
  eventsAt (evs ++ [e]) k m
    = eventsAt evs k m + if e.time / bucketSecs = k ∧ m = e.metric then 1 else 0
  := by
  rw [eventsAt, List.map_append, List.map_singleton, Window.countsAt_concat, Pi.add_apply]
  congr 1
  by_cases hk : e.time / bucketSecs = k
  · simp [hk, Event.slot, eventTally]
  · simp [hk, Event.slot]

theorem recorded_new (hours now : ℕ) :
  Recorded hours (new.setRetentionHours hours) [] now
  where
  live := live_new.call (c := .setRetentionHours hours) rfl
  ordered := Window.ordered_nil _
  window := rfl
  holds _ := (holds_new hours).mono (Nat.zero_le now)

theorem Recorded.mono (hh : Recorded hours h evs now) (hle : now ≤ now') :
  Recorded hours h evs now'
  where
  live := hh.live
  ordered := hh.ordered.mono (Nat.div_le_div_right hle)
  window := hh.window
  holds hhours := (hh.holds hhours).mono hle

theorem Recorded.reset (hh : Recorded hours h evs now) :
  Recorded hours h.reset [] now
  := by
  have hreset : h.reset = new.setRetentionHours hours := by
    rw [History.reset, hh.window]
    rfl
  rw [hreset]
  apply recorded_new

theorem Recorded.recordAt (hh : Recorded hours h evs now) (metric : Metric) (domain : Text) :
  ∃ h', h.recordAt now metric domain = some h'
    ∧ Recorded hours h' (evs ++ [⟨now, metric, domain⟩]) now
  := by
  obtain ⟨h', hrec, hlive⟩ := hh.live.recordAt now metric domain
  have hcall : h.call (.recordAt now metric domain) = some (none, h') := by
    rw [call, hrec]
    rfl
  obtain ⟨h₁, hrec₁, hview, -⟩ := recordAt_eq hh.live.sound now metric domain
  obtain rfl : h₁ = h' := Option.some_injective _ (hrec₁.symm.trans hrec)
  refine ⟨h₁, hrec, hlive, ?_, ?_, ?_⟩
  · apply ordered_call hh.live hcall hh.ordered le_rfl
    rintro t ⟨⟩
    rfl
  · have hspan := congrArg Window.span hview
    exact hspan.trans hh.window
  · intro hhours
    obtain ⟨h₂, hrec₂, hh₂⟩ := (hh.holds hhours).recordAt hhours le_rfl metric domain
    obtain rfl : h₂ = h₁ := Option.some_injective _ (hrec₂.symm.trans hrec)
    exact hh₂

/-- What a bucket counts of a metric are the events of its ten minutes. -/
theorem Holds.counts_eq (hh : Holds hours h evs now) {b : Bucket} (hb : b ∈ h.buckets)
    (m : Metric) :
  b.counts m = eventsAt evs b.idx m
  := congrFun (hh.tracks.counts_eq b.slot (List.mem_map_of_mem hb)) (.metric m)

/-- A snapshot goes through.  If one metric never has more events in ten minutes than another, it
has no greater total. -/
theorem Recorded.snapshotAt (hh : Recorded hours h evs now) :
  ∃ s h', h.snapshotAt now = some (s, h') ∧ Recorded hours h' evs now
    ∧ ∀ m m', (∀ k, eventsAt evs k m ≤ eventsAt evs k m') → s.totals m ≤ s.totals m'
  := by
  obtain ⟨h', hrot, hview, hbuckets, hwindow, -⟩ := rotate_eq hh.live.sound (now / bucketSecs)
  obtain ⟨h₁, hrot₁, hlive, -⟩ := hh.live.rotate (now / bucketSecs)
  obtain rfl : h₁ = h' := Option.some_injective _ (hrot₁.symm.trans hrot)
  have hfits := (fits_of_ordered hh.live hh.ordered le_rfl).2
  rw [← hbuckets, ← hwindow] at hfits
  have hsnap := snapshotAt_of_rotate hrot
  rw [if_pos hfits] at hsnap
  have hholds : 1 ≤ hours → Holds hours h₁ evs now := by
    intro hhours
    obtain ⟨h₂, hrot₂, hh₂, -⟩ := (hh.holds hhours).rotate le_rfl
    obtain rfl : h₂ = h₁ := Option.some_injective _ (hrot₂.symm.trans hrot)
    exact hh₂
  refine ⟨_, h₁, hsnap, ⟨hlive, ?_, hwindow.trans hh.window, hholds⟩, ?_⟩
  · rw [hview]
    apply Window.ordered_expire hh.ordered le_rfl
  · intro m m' hle
    change h₁.totals m ≤ h₁.totals m'
    rw [hlive.totals_eq, hlive.totals_eq]
    apply List.sum_le_sum
    intro b hb
    rcases Nat.eq_zero_or_pos hours with rfl | hhours
    · -- an empty window keeps no bucket
      obtain ⟨hpast, hin⟩ := hfits b hb
      rw [hwindow, hh.window] at hin
      omega
    · rw [(hholds hhours).counts_eq hb, (hholds hhours).counts_eq hb]
      apply hle

end History

/-! ### Counters and calls -/

/-- The counters since the start. -/
inductive CounterName where
  | requestsTotal
  | blockedTotal
  | errorsTotal
  | dnsQueriesTotal
  | dnsBlockedTotal
  | dnsCachedTotal
  | dnsErrorsTotal
  deriving DecidableEq, Repr

namespace Traffic

/-- The counters in the order in which they are cleared. -/
def counters : List CounterName :=
  [.requestsTotal, .blockedTotal, .errorsTotal, .dnsQueriesTotal, .dnsBlockedTotal,
    .dnsCachedTotal, .dnsErrorsTotal]

/-- The counter of a metric. -/
def counterOf : Metric → CounterName
  | .requests => .requestsTotal
  | .blocked => .blockedTotal
  | .errors => .errorsTotal
  | .dnsQueries => .dnsQueriesTotal
  | .dnsBlocked => .dnsBlockedTotal
  | .dnsCached => .dnsCachedTotal

/-- The traffic that a denial is part of. -/
def trafficOf : Metric → Option Metric
  | .blocked => some .requests
  | .dnsBlocked => some .dnsQueries
  | .requests | .errors | .dnsQueries | .dnsCached => none

/-- An atomic step of a call. -/
inductive Op where
  | fetchAdd (counter : CounterName)
  | record (metric : Metric) (domain : Text)
  | clear (counter : CounterName)
  | resetHistory
  deriving DecidableEq, Repr

/-- A call with its arguments. -/
inductive Call where
  | count (metric : Metric) (domain : Text)
  | countBlock (denial : Metric) (domain : Text)
  | countDnsError
  | resetStats
  deriving DecidableEq, Repr

def bump (metric : Metric) (domain : Text) : List Op :=
  [.fetchAdd (counterOf metric), .record metric domain]

namespace Call

/-- The steps of a call.  A domain may be excluded from being counted. -/
def steps (excluded : Bool) : Call → List Op
  | count metric domain => if excluded then [] else bump metric domain
  | countBlock denial domain =>
      if excluded then []
      else
        match trafficOf denial with
        | some traffic => bump traffic [] ++ bump denial domain
        | none => []
  | countDnsError => [.fetchAdd .dnsErrorsTotal]
  | resetStats => counters.map .clear ++ [.resetHistory]

/-- The call counts a denial. -/
def isBlock : Call → Bool
  | countBlock _ _ => true
  | count _ _ | countDnsError | resetStats => false

/-- The call clears everything. -/
def isReset : Call → Bool
  | resetStats => true
  | count _ _ | countBlock _ _ | countDnsError => false

/-- What `count` asserts: denials are not counted without their traffic. -/
def Asserted : Call → Prop
  | count metric _ => trafficOf metric = none
  | countBlock _ _ | countDnsError | resetStats => True

end Call

instance : DecidablePred Call.Asserted
  | .count metric _ => inferInstanceAs (Decidable (trafficOf metric = none))
  | .countBlock _ _ | .countDnsError | .resetStats => isTrue trivial

/-- A call with the steps that it has not taken yet. -/
structure Running where
  call : Call
  excluded : Bool
  rest : List Op
  suffix : rest <:+ call.steps excluded

/-- The next step of a call. -/
def Running.next (r : Running) : Option (Op × Running) :=
  match h : r.rest with
  | [] => none
  | op :: rest =>
      some (op, { r with rest, suffix := (List.suffix_cons op rest).trans (h ▸ r.suffix) })

theorem Running.next_eq_some {r r' : Running} {op : Op} (h : r.next = some (op, r')) :
  r.rest = op :: r'.rest ∧ r'.call = r.call
  := by
  rw [next] at h
  split at h
  · cases h
  · rename_i hrest
    cases h
    exact ⟨hrest, rfl⟩

/-- The counters, the history, the time in seconds, the calls that were made and the snapshots that
were taken.  There is no history after a call on it has failed. -/
structure World where
  counters : CounterName → ℕ
  history : Option History
  clock : ℕ
  calls : List Running
  snapshots : List Snapshot

/-- What happens next. -/
inductive Action where
  | start (call : Call) (excluded : Bool)
  /-- A call takes its next step. -/
  | advance (k : ℕ)
  | tick (secs : ℕ)
  | snapshot
  deriving DecidableEq, Repr

namespace World

def new (hours clock : ℕ) : World where
  counters _ := 0
  history := some (History.new.setRetentionHours hours)
  clock := clock
  calls := []
  snapshots := []

def perform (w : World) : Op → World
  | .fetchAdd c => { w with counters := Function.update w.counters c (w.counters c + 1) }
  | .record metric domain =>
      { w with history := w.history.bind (·.recordAt w.clock metric domain) }
  | .clear c => { w with counters := Function.update w.counters c 0 }
  | .resetHistory => { w with history := w.history.map History.reset }

def step (w : World) : Action → World
  | .start call excluded =>
      { w with calls := w.calls ++ [⟨call, excluded, call.steps excluded, List.suffix_rfl⟩] }
  | .advance k =>
      match w.calls[k]?.bind Running.next with
      | some (op, r) => { w.perform op with calls := w.calls.set k r }
      | none => w
  | .tick secs => { w with clock := w.clock + secs }
  | .snapshot =>
      match w.history.bind (·.snapshotAt w.clock) with
      | some (s, h) => { w with history := some h, snapshots := w.snapshots ++ [s] }
      | none => { w with history := none }

def run (w : World) (actions : List Action) : World :=
  actions.foldl step w

/-- A counter as it is kept.  Adding to it wraps around. -/
def stored (w : World) (c : CounterName) : UInt64 :=
  UInt64.ofNat (w.counters c)

/-- No call of a kind is in progress. -/
def Quiet (w : World) (kind : Call → Bool) : Prop :=
  ∀ r ∈ w.calls, r.rest ≠ [] → kind r.call = false

/-- No call is in progress. -/
def Idle (w : World) : Prop :=
  ∀ r ∈ w.calls, r.rest = []

/-- A denial is recorded as traffic and not yet as a denial. -/
def BetweenRecords (r : Running) : Prop :=
  r.call.isBlock = true ∧ r.rest ≠ [] ∧ r.rest.length ≤ 2

/-- No call that clears is in progress together with one that counts a denial, and the clock does
not go to the next ten minutes between the two records of a denial. -/
def Allows (w : World) : Action → Prop
  | .start call excluded =>
      call.steps excluded ≠ [] →
        (call.isBlock = true → w.Quiet Call.isReset)
          ∧ (call.isReset = true → w.Quiet Call.isBlock)
  | .tick secs =>
      (w.clock + secs) / bucketSecs = w.clock / bucketSecs
        ∨ ∀ r ∈ w.calls, ¬ BetweenRecords r
  | .advance _ | .snapshot => True

/-- Everything that happens is allowed. -/
def Calm : World → List Action → Prop
  | _, [] => True
  | w, a :: actions => w.Allows a ∧ (w.step a).Calm actions

instance (w : World) (kind : Call → Bool) : Decidable (w.Quiet kind) :=
  inferInstanceAs (Decidable (∀ r ∈ w.calls, _))

instance (w : World) : Decidable w.Idle :=
  inferInstanceAs (Decidable (∀ r ∈ w.calls, _))

instance : DecidablePred BetweenRecords :=
  fun r => inferInstanceAs (Decidable (r.call.isBlock = true ∧ _))

instance (w : World) : DecidablePred w.Allows
  | .start call excluded => inferInstanceAs (Decidable (call.steps excluded ≠ [] → _))
  | .tick _ => inferInstanceAs (Decidable (_ ∨ ∀ r ∈ w.calls, _))
  | .advance _ | .snapshot => isTrue trivial

instance decidableCalm : (w : World) → (actions : List Action) → Decidable (w.Calm actions)
  | _, [] => isTrue trivial
  | w, a :: actions =>
      have := decidableCalm (w.step a) actions
      inferInstanceAs (Decidable (w.Allows a ∧ _))

end World

/-- What the assertions of the source demand of a call that is made. -/
def Action.Asserted : Action → Prop
  | .start call _ => call.Asserted
  | .advance _ | .tick _ | .snapshot => True

instance : DecidablePred Action.Asserted
  | .start call _ => inferInstanceAs (Decidable call.Asserted)
  | .advance _ | .tick _ | .snapshot => isTrue trivial

/-- There are no more denials than traffic. -/
def BlockedWithin (counts : Metric → ℕ) : Prop :=
  counts .blocked ≤ counts .requests ∧ counts .dnsBlocked ≤ counts .dnsQueries

/-! ### The steps that are left -/

/-- The step records a metric. -/
def Op.records (m : Metric) : Op → Bool
  | .record metric _ => metric = m
  | .fetchAdd _ | .clear _ | .resetHistory => false

/-- How many additions to a counter are left. -/
def owed (c : CounterName) (ops : List Op) : ℕ :=
  ops.count (.fetchAdd c)

/-- How many records of a metric are left. -/
def noted (m : Metric) (ops : List Op) : ℕ :=
  ops.countP (Op.records m)

/-- How many more denials than traffic are left to record. -/
def due (b t : Metric) (ops : List Op) : ℕ :=
  noted b ops - noted t ops

@[simp]
theorem owed_nil (c : CounterName) :
  owed c [] = 0
  := rfl

@[simp]
theorem owed_cons (c : CounterName) (op : Op) (ops : List Op) :
  owed c (op :: ops) = owed c ops + if op = .fetchAdd c then 1 else 0
  := by
  rw [owed, List.count_cons]
  simp [owed]

@[simp]
theorem noted_nil (m : Metric) :
  noted m [] = 0
  := rfl

@[simp]
theorem noted_record (m m' : Metric) (d : Text) (ops : List Op) :
  noted m (.record m' d :: ops) = noted m ops + if m' = m then 1 else 0
  := by
  rw [noted, List.countP_cons]
  simp [noted, Op.records]

@[simp]
theorem noted_fetchAdd (m : Metric) (c : CounterName) (ops : List Op) :
  noted m (.fetchAdd c :: ops) = noted m ops
  := rfl

@[simp]
theorem noted_reset (m : Metric) (cs : List CounterName) :
  noted m (cs.map .clear ++ [.resetHistory]) = 0
  := by
  induction cs with
  | nil => rfl
  | cons c cs ih => exact ih

@[simp]
theorem counterOf_inj {m m' : Metric} :
  counterOf m = counterOf m' ↔ m = m'
  := by
  cases m <;> cases m' <;> decide

@[simp]
theorem dnsErrorsTotal_ne (m : Metric) :
  .dnsErrorsTotal ≠ counterOf m
  := by
  cases m <;> decide

/-- The steps that may be left of a call. -/
inductive Left : Call → List Op → Prop where
  | returned (call : Call) : Left call []
  | counted {m : Metric} (d : Text) (hm : trafficOf m = none) : Left (.count m d) [.record m d]
  | count {m : Metric} (d : Text) (hm : trafficOf m = none) : Left (.count m d) (bump m d)
  | denied {b t : Metric} (d : Text) (hbt : trafficOf b = some t) :
      Left (.countBlock b d) [.record b d]
  | recorded {b t : Metric} (d : Text) (hbt : trafficOf b = some t) :
      Left (.countBlock b d) (bump b d)
  | passed {b t : Metric} (d : Text) (hbt : trafficOf b = some t) :
      Left (.countBlock b d) (.record t [] :: bump b d)
  | countBlock {b t : Metric} (d : Text) (hbt : trafficOf b = some t) :
      Left (.countBlock b d) (bump t [] ++ bump b d)
  | dnsError : Left .countDnsError [.fetchAdd .dnsErrorsTotal]
  | reset {cs : List CounterName} (hcs : cs <:+ counters) :
      Left .resetStats (cs.map .clear ++ [.resetHistory])

theorem left_of_suffix {call : Call} {excluded : Bool} {rest : List Op}
    (hasserted : call.Asserted) (suffix : rest <:+ call.steps excluded) :
  Left call rest
  := by
  cases call with
  | count m d =>
    rw [Call.steps] at suffix
    split at suffix
    · rw [List.suffix_nil.mp suffix]
      apply Left.returned
    · simp only [bump, List.suffix_cons_iff, List.suffix_nil] at suffix
      rcases suffix with rfl | rfl | rfl
      · apply Left.count d hasserted
      · apply Left.counted d hasserted
      · apply Left.returned
  | countBlock b d =>
    rw [Call.steps] at suffix
    split at suffix
    · rw [List.suffix_nil.mp suffix]
      apply Left.returned
    · cases hbt : trafficOf b with
      | none =>
        rw [hbt] at suffix
        rw [List.suffix_nil.mp suffix]
        apply Left.returned
      | some t =>
        rw [hbt] at suffix
        simp only [bump, List.cons_append, List.nil_append, List.suffix_cons_iff,
          List.suffix_nil] at suffix
        rcases suffix with rfl | rfl | rfl | rfl | rfl
        · apply Left.countBlock d hbt
        · apply Left.passed d hbt
        · apply Left.recorded d hbt
        · apply Left.denied d hbt
        · apply Left.returned
  | countDnsError =>
    simp only [Call.steps, List.suffix_cons_iff, List.suffix_nil] at suffix
    rcases suffix with rfl | rfl
    · apply Left.dnsError
    · apply Left.returned
  | resetStats =>
    rw [Call.steps, List.suffix_concat_iff] at suffix
    rcases suffix with rfl | ⟨ops, rfl, hops⟩
    · apply Left.returned
    · obtain ⟨cs, hcs, rfl⟩ := List.suffix_map_iff.mp hops
      apply Left.reset hcs

variable {b t : Metric}

section Steps

variable (hbt : trafficOf b = some t)

include hbt

theorem ne_traffic :
  b ≠ t
  := by
  rintro rfl
  cases b <;> cases hbt

/-- Traffic is not a denial. -/
theorem trafficOf_traffic :
  trafficOf t = none
  := by
  cases b <;> cases hbt <;> rfl

/-- A denial has its own traffic. -/
theorem denial_eq_iff {b' t' : Metric} (hbt' : trafficOf b' = some t') :
  b' = b ↔ t' = t
  := by
  cases b <;> cases hbt <;> cases b' <;> cases hbt' <;> decide

theorem denial_ne_of_none {m : Metric} (hm : trafficOf m = none) :
  m ≠ b
  := by
  rintro rfl
  cases hm.symm.trans hbt

/-- A call adds a denial to its counter only together with traffic. -/
theorem owed_steps_le {call : Call} (hasserted : call.Asserted) (excluded : Bool) :
  owed (counterOf b) (call.steps excluded) ≤ owed (counterOf t) (call.steps excluded)
  := by
  cases call with
  | count m d =>
    rw [Call.steps]
    split
    · rfl
    · simp [bump, denial_ne_of_none hbt hasserted]
  | countBlock b' d =>
    rw [Call.steps]
    split
    · rfl
    · cases hbt' : trafficOf b' with
      | none => rfl
      | some t' =>
        simp only [bump, List.cons_append, List.nil_append, owed_cons, owed_nil,
          Op.fetchAdd.injEq, counterOf_inj, denial_ne_of_none hbt (trafficOf_traffic hbt'),
          denial_eq_iff hbt hbt', if_false, reduceCtorEq]
        omega
  | countDnsError => simp [Call.steps]
  | resetStats => simp [Call.steps, counters]

namespace Left

variable {call : Call} {rest : List Op}

/-- Only a call for a denial adds to its counter. -/
theorem owed_denial (h : Left call rest) (hblock : call.isBlock = false) :
  owed (counterOf b) rest = 0
  := by
  cases h with
  | returned => rfl
  | counted d hm => simp
  | count d hm => simp [bump, denial_ne_of_none hbt hm]
  | denied d hbt' => cases hblock
  | recorded d hbt' => cases hblock
  | passed d hbt' => cases hblock
  | countBlock d hbt' => cases hblock
  | dnsError => simp
  | reset hcs =>
    rw [owed, List.count_eq_zero]
    simp

/-- More denials than traffic are left to record only between the two records of a denial. -/
theorem due_pos (h : Left call rest) (hpos : 0 < due b t rest) :
  call.isBlock = true ∧ rest ≠ [] ∧ rest.length ≤ 2
  := by
  rw [due] at hpos
  cases h with
  | returned => simp at hpos
  | counted d hm => simp [denial_ne_of_none hbt hm] at hpos
  | count d hm => simp [bump, denial_ne_of_none hbt hm] at hpos
  | denied d hbt' => simp [Call.isBlock]
  | recorded d hbt' => simp [Call.isBlock, bump]
  | passed d hbt' =>
    simp [bump, denial_ne_of_none hbt (trafficOf_traffic hbt'), denial_eq_iff hbt hbt'] at hpos
  | countBlock d hbt' =>
    simp [bump, denial_ne_of_none hbt (trafficOf_traffic hbt'), denial_eq_iff hbt hbt'] at hpos
  | dnsError => simp at hpos
  | reset hcs => simp at hpos

/-- Nothing is left after the record of a denial. -/
theorem record_denial {d : Text} (h : Left call (.record b d :: rest)) :
  rest = []
  := by
  generalize hops : Op.record b d :: rest = ops at h
  cases h with
  | returned => cases hops
  | counted d hm =>
    cases hops
    rfl
  | count d hm => cases hops
  | denied d hbt' =>
    cases hops
    rfl
  | recorded d hbt' => cases hops
  | passed d hbt' =>
    injection hops with hop
    injection hop with hb
    cases denial_ne_of_none hbt (trafficOf_traffic hbt') hb.symm
  | countBlock d hbt' => cases hops
  | dnsError => cases hops
  | reset hcs =>
    rename_i cs
    cases cs <;> cases hops

end Left

/-- A call has as much traffic as denials left to record when it starts. -/
theorem due_steps {call : Call} (hasserted : call.Asserted) (excluded : Bool) :
  due b t (call.steps excluded) = 0
  := by
  by_contra hne
  obtain ⟨hblock, hsteps, hlength⟩ :=
    (left_of_suffix hasserted List.suffix_rfl).due_pos hbt (Nat.pos_of_ne_zero hne)
  cases call with
  | countBlock b' d =>
    rw [Call.steps] at hsteps hlength
    split at hsteps
    · exact hsteps rfl
    · rename_i hexcluded
      rw [if_neg hexcluded] at hlength
      cases hbt' : trafficOf b' with
      | none =>
        rw [hbt'] at hsteps
        exact hsteps rfl
      | some t' =>
        rw [hbt'] at hlength
        simp [bump] at hlength
  | count m d => cases hblock
  | countDnsError => cases hblock
  | resetStats => cases hblock

end Steps

namespace Left

variable {call : Call} {rest : List Op}

/-- The next step of a call that clears everything, and of the others. -/
theorem cons_cases {op : Op} (h : Left call (op :: rest)) :
  (call.isReset = false ∧ (∀ c, op ≠ .clear c) ∧ op ≠ .resetHistory) ∨
    (call = .resetStats ∧ ((∃ c, op = .clear c) ∧ rest ≠ [] ∨ op = .resetHistory ∧ rest = []))
  := by
  generalize hops : op :: rest = ops at h
  cases h with
  | returned call => cases hops
  | counted | count | denied | recorded | passed | countBlock | dnsError =>
    cases hops
    simp [Call.isReset]
  | @reset cs hcs =>
    right
    cases cs with
    | nil =>
      cases hops
      exact ⟨rfl, .inr ⟨rfl, rfl⟩⟩
    | cons c cs =>
      cases hops
      exact ⟨rfl, .inl ⟨⟨c, rfl⟩, by simp⟩⟩

/-- A counter is cleared by a call that clears everything, and not as its last step. -/
theorem clear {c : CounterName} (h : Left call (.clear c :: rest)) :
  call = .resetStats ∧ rest ≠ []
  := by
  rcases h.cons_cases with ⟨-, hclear, -⟩ | ⟨hcall, ⟨-, hrest⟩ | ⟨hop, -⟩⟩
  · exact absurd rfl (hclear c)
  · exact ⟨hcall, hrest⟩
  · cases hop

/-- The history is cleared as the last step of a call that clears everything. -/
theorem resetHistory (h : Left call (.resetHistory :: rest)) :
  call = .resetStats ∧ rest = []
  := by
  rcases h.cons_cases with ⟨-, -, hhistory⟩ | ⟨hcall, ⟨⟨c, hop⟩, -⟩ | ⟨-, hrest⟩⟩
  · exact absurd rfl hhistory
  · cases hop
  · exact ⟨hcall, hrest⟩

/-- What is counted or recorded is not cleared. -/
theorem not_reset {op : Op} (h : Left call (op :: rest)) (hclear : ∀ c, op ≠ .clear c)
    (hhistory : op ≠ .resetHistory) :
  call.isReset = false
  := by
  rcases h.cons_cases with ⟨hcall, -⟩ | ⟨-, ⟨⟨c, hop⟩, -⟩ | ⟨hop, -⟩⟩
  · exact hcall
  · exact absurd hop (hclear c)
  · exact absurd hop hhistory

end Left

end Traffic
