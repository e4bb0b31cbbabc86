import AdBlock.Stats.Series

/-!
# The window of the history is exact

When the clock never goes back, a snapshot shows a recount of the events that were recorded: the
totals and the top lists are those of the events in the window, and each entry of a series is the
number of events of its ten minutes (`snapshotAt_exact`).
-/

namespace History

/-- An event that was recorded. -/
structure Event where
  time : ℕ
  metric : Metric
  domain : Text
  deriving DecidableEq, Repr

/-- The event that a call records. -/
def Call.event : Call → Option Event
  | .recordAt now metric domain => some ⟨now, metric, domain⟩
  | _ => none

/-- The events that calls record. -/
def events (cs : List Call) : List Event :=
  cs.filterMap Call.event

/-- The events in the window of a number of hours at a time. -/
def inWindow (hours t : ℕ) (evs : List Event) : List Event :=
  evs.filter fun e => t / 600 - e.time / 600 < 6 * hours

/-- The domains that events feed to a table. -/
def tableDomains (table : Table) (evs : List Event) : List Text :=
  (evs.filter fun e => e.metric.domainTable = some table ∧ e.domain ≠ []).map Event.domain

/-- A snapshot is a recount of events. -/
structure Exact (hours t : ℕ) (evs : List Event) (s : Snapshot) : Prop where
  totals : ∀ m, s.totals m = (inWindow hours t evs).countP (·.metric = m)
  length_series : ∀ m, (s.series m).length = 6 * hours
  series : ∀ m age, age < 6 * hours → (s.series m)[6 * hours - 1 - age]?
    = some (evs.countP fun e => e.metric = m ∧ e.time / 600 + age = t / 600)
  topQueried : DomainCounts.IsTop s.topQueried (tableDomains .queried (inWindow hours t evs))
  topBlocked : DomainCounts.IsTop s.topBlocked (tableDomains .blocked (inWindow hours t evs))

/-! ### Events as counts -/

/-- An event, by what it adds to the counters. -/
def Event.slot (e : Event) : Window.Slot Counter :=
  { idx := e.time / bucketSecs, counts := eventTally e.metric e.domain }

theorem sum_slot_metric (evs : List Event) (m : Metric) :
  Window.sum (evs.map Event.slot) (.metric m) = evs.countP (·.metric = m)
  := by
  induction evs with
  | nil => rfl
  | cons e evs ih =>
    rw [List.map_cons, Window.sum_cons, Pi.add_apply, ih, List.countP_cons, add_comm]
    simp [Event.slot, eventTally, eq_comm]

theorem tableDomains_cons (e : Event) (evs : List Event) (table : Table) :
  tableDomains table (e :: evs)
    = (if e.metric.domainTable = some table ∧ e.domain ≠ [] then [e.domain] else [])
      ++ tableDomains table evs
  := by
  rw [tableDomains, List.filter_cons]
  by_cases he : e.metric.domainTable = some table ∧ e.domain ≠ []
  · rw [if_pos (decide_eq_true he), if_pos he]
    rfl
  · rw [if_neg (by simpa using he), if_neg he]
    rfl

theorem sum_slot_domain (evs : List Event) (table : Table) (name : Text) :
  Window.sum (evs.map Event.slot) (.domain table name) = (tableDomains table evs).count name
  := by
  induction evs with
  | nil => rfl
  | cons e evs ih =>
    rw [List.map_cons, Window.sum_cons, Pi.add_apply, ih, tableDomains_cons, List.count_append]
    congr 1
    by_cases he : e.metric.domainTable = some table ∧ e.domain ≠ []
    · obtain ⟨htable, hne⟩ := he
      rw [if_pos ⟨htable, hne⟩, List.count_singleton]
      by_cases hname : name = e.domain
      · simp [Event.slot, eventTally, htable, hne, hname]
      · simp [Event.slot, eventTally, hname, Ne.symm hname]
    · rw [if_neg he]
      simp only [Event.slot, eventTally, List.count_nil, ite_eq_right_iff]
      rintro ⟨htable, hne, -⟩
      exact absurd ⟨htable, hne⟩ he

theorem filter_slot (evs : List Event) (p : ℕ → Bool) :
  (evs.map Event.slot).filter (fun s => p s.idx)
    = (evs.filter fun e => p (e.time / bucketSecs)).map Event.slot
  := by
  rw [List.filter_map]
  rfl

/-! ### Runs with a clock that never goes back -/

/-- The history holds the events that are still in its window. -/
structure Holds (hours : ℕ) (h : History) (evs : List Event) (now : ℕ) : Prop where
  sound : h.view.Sound
  positive : h.Positive
  tracks : Window.Tracks h.view.span h.view.slots (evs.map Event.slot) (now / bucketSecs)
  window : h.windowBuckets = hours * bucketsPerHour

variable {hours now now' : ℕ} {h h' : History} {evs : List Event}

theorem Holds.mono (hh : Holds hours h evs now) (hle : now ≤ now') :
  Holds hours h evs now'
  := { hh with tracks := hh.tracks.mono (Nat.div_le_div_right hle) }

theorem holds_new (hours : ℕ) :
  Holds hours (new.setRetentionHours hours) [] 0
  where
  sound := by
    have := congrArg Window.totals view_new
    exact this
  positive := positive_new
  tracks := Window.tracks_nil _ _
  window := rfl

/-- A rotation keeps what is in the window, and every bucket it leaves has a place in the
series. -/
theorem Holds.rotate (hh : Holds hours h evs now) (hle : now ≤ now') :
  ∃ h', h.rotate (now' / bucketSecs) = some h' ∧ Holds hours h' evs now'
    ∧ h'.view = h.view.expire (now' / bucketSecs)
    ∧ ∀ b ∈ h'.buckets, Plots (now' / bucketSecs) h'.windowBuckets b
  := by
  obtain ⟨h', hrot, hview, hbuckets, hwindow, hpos⟩ := rotate_eq hh.sound (now' / bucketSecs)
  have hdiv : now / bucketSecs ≤ now' / bucketSecs := Nat.div_le_div_right hle
  have htracks := Window.tracks_expire hh.tracks hdiv
  refine ⟨h', hrot, ⟨?_, hpos hh.positive, ?_, hwindow.trans hh.window⟩, hview, ?_⟩
  · rw [hview]
    exact hh.sound.expire _
  · rw [hview]
    exact htracks
  · intro b hb
    have hslot : b.slot ∈ (h.view.expire (now' / bucketSecs)).slots := by
      rw [← hview]
      exact List.mem_map_of_mem hb
    refine ⟨htracks.slot_past _ hslot, ?_⟩
    rw [hwindow]
    exact ((hh.tracks.mem_dropWhile_iff _).mp hslot).2

theorem Holds.recordAt (hh : Holds hours h evs now) (hhours : 1 ≤ hours) (hle : now ≤ now')
    (metric : Metric) (domain : Text) :
  ∃ h', h.recordAt now' metric domain = some h'
    ∧ Holds hours h' (evs ++ [⟨now', metric, domain⟩]) now'
  := by
  obtain ⟨h', hrec, hview, hpos⟩ := recordAt_eq hh.sound now' metric domain
  have hspan : 0 < h.view.span := by
    rw [show h.view.span = _ from hh.window, bucketsPerHour]
    omega
  have htracks := Window.tracks_record hh.tracks hspan (Nat.div_le_div_right hle)
    (eventTally metric domain)
  refine ⟨h', hrec, ⟨?_, hpos hh.positive, ?_, ?_⟩⟩
  · rw [hview]
    exact hh.sound.record _ _
  · rw [hview, List.map_append]
    exact htracks
  · have := congrArg Window.span hview
    exact this.trans hh.window

/-- A call at the present or later goes through. -/
theorem Holds.call (hh : Holds hours h evs now) (hhours : 1 ≤ hours) {c : Call}
    (hc : c.now = some now') (hle : now ≤ now') :
  ∃ out h', h.call c = some (out, h') ∧ Holds hours h' (evs ++ c.event.toList) now'
  := by
  cases c with
  | recordAt t metric domain =>
    obtain rfl := Option.some_injective _ hc
    obtain ⟨h', hrec, hh'⟩ := hh.recordAt hhours hle metric domain
    exact ⟨none, h', by rw [History.call, hrec]; rfl, hh'⟩
  | snapshotAt t =>
    obtain rfl := Option.some_injective _ hc
    obtain ⟨h', hrot, hh', -, hplots⟩ := hh.rotate hle
    have hsnap := snapshotAt_of_rotate hrot
    rw [if_pos hplots] at hsnap
    refine ⟨some (h'.shown (t / bucketSecs)), h', by rw [History.call, hsnap]; rfl, ?_⟩
    rw [show (Call.snapshotAt t).event = none from rfl, Option.toList_none, List.append_nil]
    exact hh'
  | setRetentionHours hours => cases hc
  | reset => cases hc

/-- Calls at times that do not go back go through, and the history holds what they record. -/
theorem Holds.calls (hh : Holds hours h evs now) (hhours : 1 ≤ hours) {cs : List Call}
    {times : List ℕ} (hcs : cs.map Call.now = times.map some)
    (hmono : (now :: times).Pairwise (· ≤ ·)) {t : ℕ} (ht : ∀ t' ∈ now :: times, t' ≤ t) :
  ∃ snapshots h', h.calls cs = some (snapshots, h') ∧ Holds hours h' (evs ++ events cs) t
  := by
  induction cs generalizing h evs now times with
  | nil =>
    refine ⟨[], h, rfl, ?_⟩
    rw [events, List.filterMap_nil, List.append_nil]
    exact hh.mono (ht now List.mem_cons_self)
  | cons c cs ih =>
    cases times with
    | nil => cases hcs
    | cons now' times =>
      obtain ⟨hc, hcs⟩ := List.cons.inj hcs
      obtain ⟨hnow, hmono'⟩ := List.pairwise_cons.mp hmono
      obtain ⟨out, h₁, hcall, hh₁⟩ := hh.call hhours hc (hnow now' List.mem_cons_self)
      obtain ⟨snapshots, h', hcalls, hh'⟩ :=
        ih hh₁ hcs hmono' fun t' ht' => ht t' (List.mem_cons_of_mem now ht')
      refine ⟨out.toList ++ snapshots, h', ?_, ?_⟩
      · rw [History.calls, hcall]
        simp [hcalls]
      · rw [events, List.filterMap_cons]
        rw [List.append_assoc] at hh'
        cases hev : c.event with
        | none => simpa [hev, events] using hh'
        | some e => simpa [hev, events] using hh'

/-! ### Snapshots -/

/-- The counts of the buckets of one time. -/
theorem bucketSum_filter (buckets : List Bucket) (k : ℕ) (m : Metric) :
  bucketSum (buckets.filter fun b => b.idx = k) m
    = Window.countsAt (buckets.map Bucket.slot) k (.metric m)
  := by
  rw [Window.countsAt, List.filter_map, Window.sum, List.map_map]
  rfl

/-- The window of the history is that of the events. -/
theorem filter_slot_inWindow (hhours : 1 ≤ hours) (t : ℕ) (evs : List Event) :
  (evs.map Event.slot).filter (fun e => t / bucketSecs < e.idx + hours * bucketsPerHour)
    = (inWindow hours t evs).map Event.slot
  := by
  rw [filter_slot evs fun k => t / bucketSecs < k + hours * bucketsPerHour, inWindow]
  congr 1
  apply List.filter_congr
  intro e _
  rw [decide_eq_decide, bucketSecs, bucketsPerHour]
  omega

/-- What is shown right after a rotation is a recount of the events. -/
theorem Holds.exact_shown (hh : Holds hours h evs now) (hhours : 1 ≤ hours) (hle : now ≤ now')
    (hrot : h.rotate (now' / bucketSecs) = some h') :
  Exact hours now' evs (h'.shown (now' / bucketSecs))
  := by
  obtain ⟨h₁, hrot₁, hh', hview, hplots⟩ := hh.rotate hle
  obtain rfl : h₁ = h' := Option.some_injective _ (hrot₁.symm.trans hrot)
  have hspan : h.view.span = hours * bucketsPerHour := hh.window
  have hdiv : now / bucketSecs ≤ now' / bucketSecs := Nat.div_le_div_right hle
  have htally : h₁.tally = Window.sum ((inWindow hours now' evs).map Event.slot) := by
    have := Window.totals_expire hh.sound hh.tracks hdiv
    rw [← hview, hspan, filter_slot_inWindow hhours] at this
    exact this
  have hwindow : h₁.windowBuckets = 6 * hours := by
    rw [hh'.window, bucketsPerHour, mul_comm]
  constructor
  case totals =>
    intro m
    rw [← sum_slot_metric, ← htally]
    rfl
  case length_series =>
    intro m
    rw [shown, length_draw, length_zeros, hwindow]
  case series =>
    intro m age hage
    have hnodup : (h₁.buckets.map Bucket.idx).Nodup := by
      have := hh'.tracks.nodup
      rwa [view, List.map_map] at this
    rw [← hwindow] at hage
    rw [← hwindow, shown, getElem?_draw hplots hnodup m hage]
    by_cases hold : age ≤ now' / bucketSecs
    · -- the buckets and the events of the time that is `age` ago
      have hbuckets : h₁.buckets.filter (fun b => b.idx + age = now' / bucketSecs)
          = h₁.buckets.filter fun b => b.idx = now' / bucketSecs - age := by
        apply List.filter_congr
        intro b _
        rw [decide_eq_decide]
        omega
      have hcounts := Window.countsAt_expire (k := now' / bucketSecs - age) hh.tracks hdiv
        (by rw [hspan, ← hh'.window]; omega)
      rw [← hview] at hcounts
      rw [hbuckets, bucketSum_filter, show h₁.buckets.map Bucket.slot = h₁.view.slots from rfl,
        hcounts, Window.countsAt, filter_slot evs fun k => k = now' / bucketSecs - age,
        sum_slot_metric, List.countP_filter]
      congr 1
      apply List.countP_congr
      intro e _
      simp only [Bool.and_eq_true, decide_eq_true_eq]
      apply and_congr_right
      intro _
      rw [bucketSecs] at hold ⊢
      omega
    · have hbuckets : h₁.buckets.filter (fun b => b.idx + age = now' / bucketSecs) = [] := by
        rw [List.filter_eq_nil_iff]
        intro b _ heq
        have := of_decide_eq_true heq
        omega
      rw [hbuckets]
      congr 1
      symm
      rw [show bucketSum [] m = 0 from rfl, List.countP_eq_zero]
      intro e _ heq
      have := (of_decide_eq_true heq).2
      rw [bucketSecs] at hold
      omega
  case topQueried =>
    apply DomainCounts.isTop_top hh'.positive.1
    intro d
    rw [← sum_slot_domain, ← htally]
    rfl
  case topBlocked =>
    apply DomainCounts.isTop_top hh'.positive.2
    intro d
    rw [← sum_slot_domain, ← htally]
    rfl

theorem calls_append (h : History) (cs cs' : List Call) :
  h.calls (cs ++ cs') = (h.calls cs).bind fun r =>
    (r.2.calls cs').map fun r' => (r.1 ++ r'.1, r'.2)
  := by
  induction cs generalizing h with
  | nil =>
    simp only [List.nil_append, History.calls, Option.bind_some]
    exact Option.map_id'.symm
  | cons c cs ih =>
    rw [List.cons_append, History.calls, History.calls]
    cases h.call c with
    | none => rfl
    | some r =>
      simp only [Option.bind_eq_bind, Option.bind_some, ih]
      cases r.2.calls cs with
      | none => rfl
      | some r' =>
        simp only [Option.bind_some, Option.pure_def]
        cases hcs' : r'.2.calls cs' with
        | none => rfl
        | some r'' => simp

/-- With a retention of at least an hour and a clock that never goes back, every call goes
through and a snapshot is a recount of the events that were recorded before it. -/
theorem snapshotAt_exact {hours t : ℕ} {cs : List Call} {times : List ℕ} (hhours : 1 ≤ hours)
    (hcs : cs.map Call.now = times.map some) (hmono : (times ++ [t]).Pairwise (· ≤ ·)) :
  ∃ snapshots snapshot h,
    (new.setRetentionHours hours).calls (cs ++ [.snapshotAt t]) = some (snapshots ++ [snapshot], h)
      ∧ Exact hours t (events cs) snapshot
  := by
  obtain ⟨htimes, -, hle⟩ := List.pairwise_append.mp hmono
  have hle (t' : ℕ) (ht' : t' ∈ 0 :: times) : t' ≤ t := by
    rcases List.mem_cons.mp ht' with rfl | ht'
    · exact Nat.zero_le t
    · exact hle t' ht' t (List.mem_singleton_self t)
  have htimes : (0 :: times).Pairwise (· ≤ ·) :=
    List.pairwise_cons.mpr ⟨fun t' _ => Nat.zero_le t', htimes⟩
  obtain ⟨snapshots, h, hcalls, hh⟩ := (holds_new hours).calls hhours hcs htimes hle
  obtain ⟨h', hrot, -, -, hplots⟩ := hh.rotate le_rfl
  have hsnap := snapshotAt_of_rotate hrot
  rw [if_pos hplots] at hsnap
  refine ⟨snapshots, h'.shown (t / bucketSecs), h', ?_, hh.exact_shown hhours le_rfl hrot⟩
  rw [calls_append, hcalls]
  simp [History.calls, History.call, hsnap]

/-- Two hours of retention: of three events, the first leaves the window with the tenth minute of
the third hour. -/
theorem snapshotAt_exact_two_hours :
  [0, 600, 7200].Pairwise (· ≤ ·) ∧ ∃ snapshots snapshot h,
    (new.setRetentionHours 2).calls ([.recordAt 0 .requests "a.example".toList,
        .recordAt 600 .dnsBlocked "b.example".toList] ++ [.snapshotAt 7200])
      = some (snapshots ++ [snapshot], h)
    ∧ snapshot.totals .requests = 0 ∧ snapshot.totals .dnsBlocked = 1
    ∧ (snapshot.series .dnsBlocked)[0]? = some 1
  := by
  refine ⟨by decide, ?_⟩
  obtain ⟨snapshots, snapshot, h, hcalls, hexact⟩ := @snapshotAt_exact 2 7200
    [.recordAt 0 .requests "a.example".toList,
      .recordAt 600 .dnsBlocked "b.example".toList]
    [0, 600] (by decide) rfl (by decide)
  refine ⟨snapshots, snapshot, h, hcalls, ?_, ?_, ?_⟩
  · rw [hexact.totals]
    decide
  · rw [hexact.totals]
    decide
  · rw [hexact.series .dnsBlocked 11 (by decide)]
    decide

end History
