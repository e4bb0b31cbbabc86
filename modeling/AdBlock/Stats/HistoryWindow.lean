import AdBlock.Stats.History
import Mathlib.Data.List.Dedup

/-!
# The history as a window of counters

Seen through its counters, one for each metric and one for each domain of each table, the
history is a sliding window, and its functions are those of `Window`: `rotate` expires
(`rotate_eq`), `recordAt` counts (`recordAt_eq`).  As the totals of a window cover its buckets,
none of the subtractions of `rotate` underflows.
-/

namespace DomainCounts

/-- Every domain that is there was counted. -/
def Positive (counts : DomainCounts) : Prop :=
  ∀ domain : Text, counts[domain]? ≠ some 0

theorem positive_empty :
  Positive ∅
  := by
  intro domain
  simp

theorem getD_bump (counts : DomainCounts) (domain d : Text) :
  (counts.bump domain).getD d 0 = counts.getD d 0 + if d = domain then 1 else 0
  := by
  rw [bump, Std.TreeMap.getD_insert]
  by_cases h : d = domain
  · simp [h]
  · simp [h, Ne.symm h]

theorem Positive.bump {counts : DomainCounts} (h : counts.Positive) (domain : Text) :
  (counts.bump domain).Positive
  := by
  intro d
  rw [DomainCounts.bump, Std.TreeMap.getElem?_insert]
  split
  · simp
  · exact h d

theorem getD_subtractOne (window : DomainCounts) (domain : Text) (n : ℕ) (d : Text) :
  (window.subtractOne domain n).getD d 0 = window.getD d 0 - if d = domain then n else 0
  := by
  rw [subtractOne]
  cases hdomain : window[domain]? with
  | none =>
    by_cases h : d = domain
    · simp [h, Std.TreeMap.getD_eq_getD_getElem?, hdomain]
    · simp [h]
  | some count =>
    have hcount : window.getD domain 0 = count := by
      rw [Std.TreeMap.getD_eq_getD_getElem?, hdomain]
      rfl
    dsimp only
    by_cases h : d = domain
    · rw [h, if_pos rfl, hcount]
      split
      · simp [*]
      · simp
    · rw [if_neg h, Nat.sub_zero]
      split
      · simp [Std.TreeMap.getD_erase, Ne.symm h]
      · simp [Std.TreeMap.getD_insert, Ne.symm h]

theorem Positive.subtractOne {window : DomainCounts} (h : window.Positive) (domain : Text)
    (n : ℕ) :
  (window.subtractOne domain n).Positive
  := by
  rw [DomainCounts.subtractOne]
  cases window[domain]? with
  | none => exact h
  | some count =>
    dsimp only
    intro d
    split
    · rw [Std.TreeMap.getElem?_erase]
      split
      · simp
      · exact h d
    · rw [Std.TreeMap.getElem?_insert]
      split
      · simpa
      · exact h d

theorem Positive.subtract {window : DomainCounts} (h : window.Positive)
    (expired : DomainCounts) :
  (window.subtract expired).Positive
  := by
  rw [DomainCounts.subtract, Std.TreeMap.foldl_eq_foldl_toList]
  induction expired.toList generalizing window with
  | nil => exact h
  | cons entry entries ih => apply ih (h.subtractOne entry.1 entry.2)

/-- Taking away entries with different domains takes its own count from each domain. -/
theorem getD_foldl_subtractOne {entries : List (Text × ℕ)} (window : DomainCounts)
    (h : (entries.map Prod.fst).Nodup) (d : Text) :
  (entries.foldl (fun w e => w.subtractOne e.1 e.2) window).getD d 0
    = window.getD d 0 - ((entries.find? fun e => e.1 = d).map Prod.snd).getD 0
  := by
  induction entries generalizing window with
  | nil => simp
  | cons entry entries ih =>
    rw [List.map_cons, List.nodup_cons] at h
    rw [List.foldl_cons, ih _ h.2, getD_subtractOne, List.find?_cons]
    by_cases hd : entry.1 = d
    · have hnone : entries.find? (fun e => e.1 = d) = none := by
        rw [List.find?_eq_none]
        intro e he heq
        apply h.1
        rw [hd, ← of_decide_eq_true heq]
        exact List.mem_map_of_mem he
      simp [hd, hnone]
    · simp [hd, Ne.symm hd]

theorem nodup_toList (counts : DomainCounts) :
  (counts.toList.map Prod.fst).Nodup
  := by
  rw [List.Nodup, List.pairwise_map]
  apply counts.distinct_keys_toList.imp
  intro a b h heq
  exact h (Std.LawfulEqCmp.compare_eq_iff_eq.mpr heq)

/-- What is taken from the count of a domain is its count in the expired bucket. -/
theorem getD_subtract (window expired : DomainCounts) (d : Text) :
  (window.subtract expired).getD d 0 = window.getD d 0 - expired.getD d 0
  := by
  rw [subtract, Std.TreeMap.foldl_eq_foldl_toList,
    getD_foldl_subtractOne window (nodup_toList expired),
    Std.TreeMap.getD_eq_getD_getElem? (t := expired)]
  congr 2
  cases h : expired.toList.find? (fun e => e.1 = d) with
  | none =>
    rw [List.find?_eq_none] at h
    cases hd : expired[d]? with
    | none => rfl
    | some n =>
      have hmem := Std.TreeMap.mem_toList_iff_getElem?_eq_some.mpr hd
      exact absurd (decide_eq_true rfl) (h _ hmem)
  | some entry =>
    obtain rfl : entry.1 = d := by simpa using List.find?_some h
    have hmem := List.mem_of_find?_eq_some h
    rw [Std.TreeMap.mem_toList_iff_getElem?_eq_some.mp hmem]
    rfl

/-! ### Top lists -/

/-- An entry comes before another in a top list. -/
def Before (a b : Text × ℕ) : Prop :=
  b.2 < a.2 ∨ a.2 = b.2 ∧ a.1 < b.1

/-- The first `topN` of the domains of a list, ranked by how often each is in it and then by
name. -/
def IsTop (l : List (Text × ℕ)) (domains : List Text) : Prop :=
  ∃ ranked : List (Text × ℕ), ranked.Perm (domains.dedup.map fun d => (d, domains.count d))
    ∧ ranked.Pairwise Before ∧ l = ranked.take topN

theorem before_of_rank_le {a b : Text × ℕ} (h : rank a ≤ rank b) (hne : a.1 ≠ b.1) :
  Before a b
  := by
  rw [rank, rank, Prod.Lex.toLex_le_toLex] at h
  rcases h with h | ⟨hcount, hname⟩
  · exact Or.inl h
  · exact Or.inr ⟨hcount, lt_of_le_of_ne hname hne⟩

/-- The entries are the domains that were counted, with their counts. -/
theorem toList_perm {counts : DomainCounts} {domains : List Text} (hpos : counts.Positive)
    (h : ∀ d, counts.getD d 0 = domains.count d) :
  counts.toList.Perm (domains.dedup.map fun d => (d, domains.count d))
  := by
  rw [List.perm_ext_iff_of_nodup (List.Nodup.of_map _ (nodup_toList counts))]
  · rintro ⟨d, n⟩
    rw [Std.TreeMap.mem_toList_iff_getElem?_eq_some, List.mem_map]
    have hd := h d
    rw [Std.TreeMap.getD_eq_getD_getElem?] at hd
    constructor
    · intro hn
      rw [hn, Option.getD_some] at hd
      have hne : n ≠ 0 := by
        rintro rfl
        exact hpos d hn
      refine ⟨d, ?_, by rw [hd]⟩
      rw [List.mem_dedup, ← List.count_pos_iff]
      omega
    · rintro ⟨d', hmem, heq⟩
      obtain ⟨rfl, rfl⟩ := Prod.mk.injEq .. ▸ heq
      rw [List.mem_dedup, ← List.count_pos_iff] at hmem
      cases hn : counts[d']? with
      | none =>
        rw [hn, Option.getD_none] at hd
        omega
      | some n =>
        rw [hn, Option.getD_some] at hd
        rw [hd]
  · apply List.Nodup.map _ domains.nodup_dedup
    intro d d' heq
    exact congrArg Prod.fst heq

/-- The top list ranks the domains that were counted. -/
theorem isTop_top {counts : DomainCounts} {domains : List Text} (hpos : counts.Positive)
    (h : ∀ d, counts.getD d 0 = domains.count d) :
  IsTop counts.top domains
  := by
  have hperm := List.perm_insertionSort (fun a b => rank a ≤ rank b) counts.toList
  refine ⟨_, hperm.trans (toList_perm hpos h), ?_, rfl⟩
  have hsorted := List.pairwise_insertionSort (fun a b => rank a ≤ rank b) counts.toList
  have hnodup : ((counts.toList.insertionSort fun a b => rank a ≤ rank b).map Prod.fst).Nodup :=
    (hperm.map Prod.fst).nodup_iff.mpr (nodup_toList counts)
  rw [List.Nodup, List.pairwise_map] at hnodup
  apply (hsorted.and hnodup).imp
  rintro a b ⟨hle, hne⟩
  exact before_of_rank_le hle hne

end DomainCounts

/-- One counter for each metric, and one for each domain of each table. -/
inductive Counter where
  | metric (m : Metric)
  | domain (table : Table) (name : Text)

/-- The counts of a bucket. -/
def Bucket.tally (b : Bucket) : Counter → ℕ
  | .metric m => b.counts m
  | .domain .queried name => b.queried.getD name 0
  | .domain .blocked name => b.blocked.getD name 0

/-- A bucket, by its counters. -/
def Bucket.slot (b : Bucket) : Window.Slot Counter :=
  { idx := b.idx, counts := b.tally }

/-- What an event adds to the counters. -/
def eventTally (metric : Metric) (domain : Text) : Counter → ℕ
  | .metric m => if m = metric then 1 else 0
  | .domain table name =>
      if metric.domainTable = some table ∧ domain ≠ [] ∧ name = domain then 1 else 0

theorem Bucket.slot_new (idx : ℕ) :
  (Bucket.new idx).slot = ⟨idx, 0⟩
  := by
  rw [slot]
  congr
  funext c
  cases c with
  | metric m => rfl
  | domain table name => cases table <;> simp [tally, new]

namespace History

/-- The counts of the whole window. -/
def tally (h : History) : Counter → ℕ
  | .metric m => h.totals m
  | .domain .queried name => h.queried.getD name 0
  | .domain .blocked name => h.blocked.getD name 0

/-- The history as a window of counters. -/
def view (h : History) : Window Counter :=
  { slots := h.buckets.map Bucket.slot, totals := h.tally, span := h.windowBuckets }

/-- Every domain in the tables of the window was counted. -/
def Positive (h : History) : Prop :=
  h.queried.Positive ∧ h.blocked.Positive

theorem positive_new :
  new.Positive
  := ⟨DomainCounts.positive_empty, DomainCounts.positive_empty⟩

theorem view_new :
  new.view = Window.empty defaultWindowBuckets
  := by
  rw [view, Window.empty]
  congr
  funext c
  cases c with
  | metric m => rfl
  | domain table name => cases table <;> simp [tally, new]

/-! ### Rotation -/

variable {h h' : History}

/-- A bucket that the window covers can be taken out, and takes its counts with it. -/
theorem forget_eq {b : Bucket} (hle : b.tally ≤ h.tally) :
  ∃ h', h.forget b = some h' ∧ h'.tally = h.tally - b.tally
    ∧ h'.windowBuckets = h.windowBuckets ∧ (h.Positive → h'.Positive)
  := by
  have hcounts : ∀ m ∈ Metric.all, b.counts m ≤ h.totals m := fun m _ => hle (.metric m)
  refine ⟨_, if_pos hcounts, ?_, rfl, ?_⟩
  · funext c
    rw [Pi.sub_apply]
    cases c with
    | metric m => rfl
    | domain table name => cases table <;> apply DomainCounts.getD_subtract
  · rintro ⟨hq, hb⟩
    exact ⟨hq.subtract b.queried, hb.subtract b.blocked⟩

/-- The loop of `rotate` drops the expired buckets in front, and their counts. -/
theorem popExpired_eq {buckets : List Bucket} (idx : ℕ)
    (hle : Window.sum (buckets.map Bucket.slot) ≤ h.tally) :
  ∃ h', h.popExpired idx buckets = some h'
    ∧ h'.buckets = buckets.dropWhile (fun b => b.idx + h.windowBuckets ≤ idx)
    ∧ h'.tally = h.tally
        - Window.sum ((buckets.takeWhile fun b => b.idx + h.windowBuckets ≤ idx).map Bucket.slot)
    ∧ h'.windowBuckets = h.windowBuckets ∧ (h.Positive → h'.Positive)
  := by
  induction buckets generalizing h with
  | nil =>
    refine ⟨_, rfl, rfl, ?_, rfl, id⟩
    symm
    apply tsub_zero
  | cons b rest ih =>
    rw [List.map_cons, Window.sum_cons] at hle
    rw [popExpired]
    by_cases hexp : b.idx + h.windowBuckets ≤ idx
    · obtain ⟨h₁, hforget, htally, hwindow, hpos⟩ := forget_eq (le_self_add.trans hle)
      obtain ⟨h', hpop, hbuckets, htally', hwindow', hpos'⟩ :=
        ih (h := h₁) (by rw [htally]; exact le_tsub_of_add_le_left hle)
      rw [hwindow] at hbuckets htally' hwindow'
      refine ⟨h', ?_, ?_, ?_, hwindow', hpos' ∘ hpos⟩
      · rw [if_pos hexp, hforget, Option.bind_some, hpop]
      · rw [hbuckets, List.dropWhile_cons_of_pos (by simpa using hexp)]
      · rw [htally', htally, List.takeWhile_cons_of_pos (by simpa using hexp), List.map_cons,
          Window.sum_cons]
        apply tsub_tsub
    · refine ⟨_, if_neg hexp, ?_, ?_, rfl, id⟩
      · rw [List.dropWhile_cons_of_neg (by simpa using hexp)]
      · rw [List.takeWhile_cons_of_neg (by simpa using hexp)]
        symm
        apply tsub_zero

/-- `rotate` expires the window. -/
theorem rotate_eq (hsound : h.view.Sound) (idx : ℕ) :
  ∃ h', h.rotate idx = some h' ∧ h'.view = h.view.expire idx
    ∧ h'.buckets = h.buckets.dropWhile (fun b => b.idx + h.windowBuckets ≤ idx)
    ∧ h'.windowBuckets = h.windowBuckets ∧ (h.Positive → h'.Positive)
  := by
  obtain ⟨h', hpop, hbuckets, htally, hwindow, hpos⟩ := popExpired_eq idx hsound.ge
  refine ⟨h', hpop, ?_, hbuckets, hwindow, hpos⟩
  rw [view, hbuckets, htally, hwindow, Window.expire]
  simp only [view, List.dropWhile_map, List.takeWhile_map]
  rfl

/-! ### Recording -/

/-- What a domain adds to the counters of its table. -/
def domainTally (table : Table) (domain : Text) : Counter → ℕ
  | .metric _ => 0
  | .domain table' name => if table' = table ∧ name = domain then 1 else 0

/-- An event without a domain, or of a metric without a table, counts for its metric. -/
theorem eventTally_of_none {metric : Metric} {domain : Text}
    (h : domain = [] ∨ metric.domainTable = none) :
  eventTally metric domain = eventTally metric []
  := by
  funext c
  cases c with
  | metric m => rfl
  | domain table name =>
    rcases h with rfl | h
    · rfl
    · simp [eventTally, h]

/-- Any other event counts for its domain as well. -/
theorem eventTally_of_table {metric : Metric} {domain : Text} {table : Table}
    (htable : metric.domainTable = some table) (hne : domain ≠ []) :
  eventTally metric domain = eventTally metric [] + domainTally table domain
  := by
  funext c
  cases c with
  | metric m => rfl
  | domain table' name => simp [eventTally, domainTally, htable, hne, eq_comm]

theorem Bucket.tally_count (b : Bucket) (metric : Metric) :
  Bucket.tally { b with counts := b.counts + Pi.single metric 1 } = b.tally + eventTally metric []
  := by
  funext c
  cases c with
  | metric m => exact congrArg (b.counts m + ·) (Pi.single_apply metric 1 m)
  | domain table name => cases table <;> simp [Bucket.tally, eventTally]

theorem tally_count (h : History) (metric : Metric) :
  tally { h with totals := h.totals + Pi.single metric 1 } = h.tally + eventTally metric []
  := by
  funext c
  cases c with
  | metric m => exact congrArg (h.totals m + ·) (Pi.single_apply metric 1 m)
  | domain table name => cases table <;> simp [tally, eventTally]

theorem Bucket.tally_countDomain (h : History) (bucket : Bucket) (table : Table) (domain : Text) :
  (h.countDomain bucket table domain).2.tally = bucket.tally + domainTally table domain
  := by
  funext c
  cases c with
  | metric m => cases table <;> rfl
  | domain table' name =>
    cases table <;> cases table' <;>
      simp [countDomain, Bucket.tally, domainTally, DomainCounts.getD_bump]

theorem tally_countDomain (h : History) (bucket : Bucket) (table : Table) (domain : Text) :
  (h.countDomain bucket table domain).1.tally = h.tally + domainTally table domain
  := by
  funext c
  cases c with
  | metric m => cases table <;> rfl
  | domain table' name =>
    cases table <;> cases table' <;> simp [countDomain, tally, domainTally, DomainCounts.getD_bump]

theorem Positive.countDomain (hpos : h.Positive) (bucket : Bucket) (table : Table)
    (domain : Text) :
  (h.countDomain bucket table domain).1.Positive
  := by
  cases table with
  | queried => exact ⟨hpos.1.bump domain, hpos.2⟩
  | blocked => exact ⟨hpos.1, hpos.2.bump domain⟩

theorem countDomain_span (h : History) (bucket : Bucket) (table : Table) (domain : Text) :
  (h.countDomain bucket table domain).2.idx = bucket.idx
    ∧ (h.countDomain bucket table domain).1.windowBuckets = h.windowBuckets
  := by
  cases table with
  | queried => exact ⟨rfl, rfl⟩
  | blocked => exact ⟨rfl, rfl⟩

/-- What is recorded is added to the counters of the bucket at the back and of the window. -/
theorem recordAt_of_rotate {now : ℕ} {before : List Bucket} {bucket : Bucket}
    (hrot : h.rotate (now / bucketSecs) = some h')
    (hback : Window.splitBack (fun b => b.idx = now / bucketSecs) (Bucket.new (now / bucketSecs))
      h'.buckets = (before, bucket))
    (metric : Metric) (domain : Text) :
  ∃ h'' bucket', h.recordAt now metric domain = some h''
    ∧ h''.buckets = before ++ [bucket'] ∧ bucket'.idx = bucket.idx
    ∧ bucket'.tally = bucket.tally + eventTally metric domain
    ∧ h''.tally = h'.tally + eventTally metric domain
    ∧ h''.windowBuckets = h'.windowBuckets ∧ (h'.Positive → h''.Positive)
  := by
  rw [recordAt]
  simp only [hrot, hback, Option.bind_eq_bind, Option.bind_some, Option.pure_def]
  by_cases hdomain : domain.isEmpty
  · rw [eventTally_of_none (.inl (List.isEmpty_iff.mp hdomain))]
    exact ⟨_, _, if_pos hdomain, rfl, rfl, Bucket.tally_count bucket metric, tally_count h' metric,
      rfl, id⟩
  · rw [if_neg hdomain]
    cases htable : metric.domainTable with
    | none =>
      rw [eventTally_of_none (.inr htable)]
      exact ⟨_, _, rfl, rfl, rfl, Bucket.tally_count bucket metric, tally_count h' metric, rfl, id⟩
    | some table =>
      obtain ⟨hidx, hwindow⟩ := countDomain_span
        { h' with totals := h'.totals + Pi.single metric 1 }
        { bucket with counts := bucket.counts + Pi.single metric 1 } table domain
      rw [eventTally_of_table htable (mt List.isEmpty_iff.mpr hdomain), ← add_assoc, ← add_assoc,
        ← Bucket.tally_count, ← tally_count]
      refine ⟨_, _, rfl, rfl, hidx, ?_, ?_, hwindow, ?_⟩
      · apply Bucket.tally_countDomain
      · apply tally_countDomain
      · intro hpos
        apply Positive.countDomain
        exact hpos

/-- `recordAt` counts the event in the window. -/
theorem recordAt_eq (hsound : h.view.Sound) (now : ℕ) (metric : Metric) (domain : Text) :
  ∃ h', h.recordAt now metric domain = some h'
    ∧ h'.view = h.view.record (now / bucketSecs) (eventTally metric domain)
    ∧ (h.Positive → h'.Positive)
  := by
  obtain ⟨h₁, hrot, hview, -, hwindow₁, hpos₁⟩ := rotate_eq hsound (now / bucketSecs)
  obtain ⟨before, bucket, hback⟩ : ∃ before bucket, Window.splitBack
      (fun b => b.idx = now / bucketSecs) (Bucket.new (now / bucketSecs)) h₁.buckets
        = (before, bucket) := ⟨_, _, rfl⟩
  obtain ⟨h', bucket', hrec, hbuckets, hidx, hbucket, htally, hwindow, hpos⟩ :=
    recordAt_of_rotate hrot hback metric domain
  refine ⟨h', hrec, ?_, hpos ∘ hpos₁⟩
  -- the back slot of the window is that of the back bucket
  have hslots : Window.splitBack (fun s : Window.Slot Counter => decide (s.idx = now / bucketSecs))
      ⟨now / bucketSecs, 0⟩ (h.view.expire (now / bucketSecs)).slots
        = (before.map Bucket.slot, bucket.slot) := by
    have hmap := Window.splitBack_map Bucket.slot (fun s => decide (s.idx = now / bucketSecs))
      (Bucket.new (now / bucketSecs)) h₁.buckets
    rw [Bucket.slot_new] at hmap
    rw [← hview, view, hmap]
    exact congrArg (fun back => (back.1.map Bucket.slot, back.2.slot)) hback
  rw [Window.record]
  dsimp only
  rw [hslots, ← hview, view, hbuckets, htally, hwindow, List.map_append, List.map_singleton]
  simp only [view, Bucket.slot, hidx, hbucket]

end History
