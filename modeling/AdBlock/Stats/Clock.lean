import AdBlock.Stats.Series

/-!
# The history under any clock

Whatever the clock does, recording, resetting and changing the retention go through, and so does
every subtraction of totals.  A snapshot goes through with series that add up to the totals
exactly when the buckets it finds, after the expired ones in front are gone, are of different
times, none of the future and none expired (`Fits`).  So a run is sound exactly when its
snapshots are taken in such states (`calls_balanced_iff`), as they are when the clock never goes
back (`fitsRun_of_nondecreasing`).
-/

/-- Each series adds up to its total. -/
def Snapshot.Balanced (s : Snapshot) : Prop :=
  ∀ m, (s.series m).sum = s.totals m

namespace History

/-- The buckets left when the expired ones in front are gone are of different times, and each has
a place in the series. -/
def Fits (h : History) (idx : ℕ) : Prop :=
  ((h.buckets.dropWhile fun b => b.idx + h.windowBuckets ≤ idx).map Bucket.idx).Nodup
    ∧ ∀ b ∈ h.buckets.dropWhile (fun b => b.idx + h.windowBuckets ≤ idx),
        Plots idx h.windowBuckets b

/-- A call finds buckets that fit, if it is for a snapshot. -/
def FitsCall (h : History) : Call → Prop
  | .snapshotAt now => h.Fits (now / bucketSecs)
  | .recordAt _ _ _ | .setRetentionHours _ | .reset => True

/-- Every snapshot of a run finds buckets that fit. -/
def FitsRun : History → List Call → Prop
  | _, [] => True
  | h, c :: cs => h.FitsCall c ∧ ∀ r ∈ h.call c, FitsRun r.2 cs

/-! ### What every call keeps -/

/-- The totals are those of the buckets, and every bucket has counted something. -/
structure Live (h : History) : Prop where
  sound : h.view.Sound
  counted : ∀ b ∈ h.buckets, ∃ m, b.counts m ≠ 0

variable {h h' : History}

theorem live_new :
  new.Live
  where
  sound := by
    rw [view_new]
    exact Window.sound_empty _
  counted := by simp [new]

theorem Live.rotate (hh : h.Live) (idx : ℕ) :
  ∃ h', h.rotate idx = some h' ∧ h'.Live
    ∧ h'.buckets = h.buckets.dropWhile (fun b => b.idx + h.windowBuckets ≤ idx)
    ∧ h'.windowBuckets = h.windowBuckets
  := by
  obtain ⟨h', hrot, hview, hbuckets, hwindow, -⟩ := rotate_eq hh.sound idx
  refine ⟨h', hrot, ⟨?_, ?_⟩, hbuckets, hwindow⟩
  · rw [hview]
    exact hh.sound.expire idx
  · intro b hb
    rw [hbuckets] at hb
    exact hh.counted b ((List.dropWhile_sublist _).subset hb)

theorem Live.recordAt (hh : h.Live) (now : ℕ) (metric : Metric) (domain : Text) :
  ∃ h', h.recordAt now metric domain = some h' ∧ h'.Live
  := by
  obtain ⟨h₁, hrot, hh₁, -, -⟩ := hh.rotate (now / bucketSecs)
  obtain ⟨before, bucket, hback⟩ : ∃ before bucket, Window.splitBack
      (fun b => b.idx = now / bucketSecs) (Bucket.new (now / bucketSecs)) h₁.buckets
        = (before, bucket) := ⟨_, _, rfl⟩
  obtain ⟨h', bucket', hrec, hbuckets, -, htally, -⟩ :=
    recordAt_of_rotate hrot hback metric domain
  obtain ⟨h'', hrec', hview, -⟩ := recordAt_eq hh.sound now metric domain
  obtain rfl : h'' = h' := Option.some_injective _ (hrec'.symm.trans hrec)
  have hbefore : before ⊆ h₁.buckets := by
    rcases Window.splitBack_cases (fun b : Bucket => decide (b.idx = now / bucketSecs))
      (Bucket.new (now / bucketSecs)) h₁.buckets with ⟨init, b, hsplit, -, heq⟩ | ⟨-, heq⟩
    · obtain ⟨rfl, -⟩ := Prod.mk.injEq .. ▸ hback.symm.trans heq
      rw [hsplit]
      apply List.subset_append_left
    · obtain ⟨rfl, -⟩ := Prod.mk.injEq .. ▸ hback.symm.trans heq
      apply List.Subset.refl
  refine ⟨h'', hrec, ⟨?_, ?_⟩⟩
  · rw [hview]
    exact hh.sound.record _ _
  · intro b hb
    rw [hbuckets] at hb
    rcases List.mem_append.mp hb with hb | hb
    · exact hh₁.counted b (hbefore hb)
    · use metric
      have := congrFun htally (.metric metric)
      rw [Pi.add_apply, eventTally, if_pos rfl] at this
      rw [List.mem_singleton.mp hb, show bucket'.counts metric = bucket'.tally (.metric metric) from rfl,
        this]
      omega

/-- The totals are the counts of the buckets. -/
theorem Live.totals_eq (hh : h.Live) (m : Metric) :
  h.totals m = bucketSum h.buckets m
  := by
  have := congrFun hh.sound (.metric m)
  rw [Window.sum, view, List.map_map] at this
  exact this

/-- What is shown is balanced exactly when the buckets are of different times. -/
theorem Live.balanced_shown_iff (hh : h.Live) {idx : ℕ}
    (hplots : ∀ b ∈ h.buckets, Plots idx h.windowBuckets b) :
  (h.shown idx).Balanced ↔ (h.buckets.map Bucket.idx).Nodup
  := by
  rw [← sum_draw_iff hplots hh.counted, Snapshot.Balanced]
  apply forall_congr'
  intro m
  rw [show (h.shown idx).totals m = h.totals m from rfl, hh.totals_eq m]
  rfl

theorem Live.call (hh : h.Live) {c : Call} {out : Option Snapshot}
    (hc : h.call c = some (out, h')) :
  h'.Live
  := by
  cases c with
  | recordAt now metric domain =>
    obtain ⟨h₁, hrec, hh₁⟩ := hh.recordAt now metric domain
    rw [History.call, hrec] at hc
    cases hc
    exact hh₁
  | snapshotAt now =>
    obtain ⟨h₁, hrot, hh₁, -⟩ := hh.rotate (now / bucketSecs)
    rw [History.call, snapshotAt_of_rotate hrot] at hc
    split at hc
    · cases hc
      exact hh₁
    · cases hc
  | setRetentionHours hours =>
    cases hc
    exact ⟨hh.sound, hh.counted⟩
  | reset =>
    cases hc
    exact ⟨live_new.sound, live_new.counted⟩

/-- A call goes through, with a balanced snapshot if it is for one, exactly when it finds buckets
that fit. -/
theorem Live.call_iff (hh : h.Live) (c : Call) :
  (∃ out h', h.call c = some (out, h') ∧ ∀ s ∈ out, s.Balanced) ↔ h.FitsCall c
  := by
  cases c with
  | recordAt now metric domain =>
    obtain ⟨h', hrec, -⟩ := hh.recordAt now metric domain
    simp [History.call, FitsCall, hrec]
  | snapshotAt now =>
    obtain ⟨h', hrot, hh', hbuckets, hwindow⟩ := hh.rotate (now / bucketSecs)
    rw [History.call, snapshotAt_of_rotate hrot, FitsCall, Fits, ← hbuckets, ← hwindow]
    by_cases hplots : ∀ b ∈ h'.buckets, Plots (now / bucketSecs) h'.windowBuckets b
    · rw [if_pos hplots, ← hh'.balanced_shown_iff hplots, and_iff_left hplots]
      simp
    · rw [if_neg hplots]
      simp [hplots]
  | setRetentionHours hours => simp [History.call, FitsCall]
  | reset => simp [History.call, FitsCall]

theorem Live.calls_iff (hh : h.Live) (cs : List Call) :
  (∃ snapshots h', h.calls cs = some (snapshots, h') ∧ ∀ s ∈ snapshots, s.Balanced)
    ↔ h.FitsRun cs
  := by
  induction cs generalizing h with
  | nil => simp [calls, FitsRun]
  | cons c cs ih =>
    rw [FitsRun, ← hh.call_iff c, calls]
    cases hc : h.call c with
    | none => simp
    | some r =>
      obtain ⟨out, h₁⟩ := r
      have hrest := ih (hh.call hc)
      simp only [Option.mem_some_iff, forall_eq', ← hrest]
      constructor
      · rintro ⟨snapshots, h', hcalls, hbal⟩
        rw [Option.bind_eq_bind, Option.bind_some] at hcalls
        obtain ⟨⟨rest, h₂⟩, hcs, heq⟩ := Option.bind_eq_some_iff.mp hcalls
        cases heq
        rw [List.forall_mem_append] at hbal
        refine ⟨⟨out, h₁, rfl, ?_⟩, rest, h₂, hcs, hbal.2⟩
        intro s hs
        exact hbal.1 s (Option.mem_toList.mpr hs)
      · rintro ⟨⟨out', h₁', heq, hout⟩, rest, h', hcs, hbal⟩
        cases heq
        refine ⟨out.toList ++ rest, h', ?_, ?_⟩
        · simp [hcs]
        · rw [List.forall_mem_append]
          refine ⟨?_, hbal⟩
          intro s hs
          exact hout s (Option.mem_toList.mp hs)

/-- A run goes through with balanced snapshots exactly when each of its snapshots finds buckets
that fit. -/
theorem calls_balanced_iff (cs : List Call) :
  (∃ snapshots h, new.calls cs = some (snapshots, h) ∧ ∀ s ∈ snapshots, s.Balanced)
    ↔ new.FitsRun cs
  := live_new.calls_iff cs

/-- A clock that goes back over a bucket: the snapshot does not go through. -/
theorem calls_balanced_clock_back :
  new.calls [.recordAt 6000 .requests "a.example".toList, .snapshotAt 0] = none
  := by
  rw [← Option.isNone_iff_eq_none]
  decide +kernel

/-! ### A clock that never goes back -/

/-- Buckets in the order of their times, none of the future, fit. -/
theorem fits_of_ordered (hh : h.Live) {idx idx' : ℕ} (hord : Window.Ordered h.view.slots idx)
    (hle : idx ≤ idx') :
  h.Fits idx'
  := by
  obtain ⟨h', -, hview, hbuckets, -⟩ := rotate_eq hh.sound idx'
  have hexp := Window.ordered_expire hord hle
  rw [Fits, ← hbuckets]
  constructor
  · have := hexp.nodup
    rwa [← hview, view, List.map_map] at this
  · intro b hb
    have hslot : b.slot ∈ (h.view.expire idx').slots := by
      rw [← hview]
      exact List.mem_map_of_mem hb
    exact ⟨hexp.slot_past _ hslot, ((hord.mem_dropWhile_iff _).mp hslot).2⟩

/-- A call at the present or later leaves the buckets in order. -/
theorem ordered_call (hh : h.Live) {c : Call} {out : Option Snapshot}
    (hc : h.call c = some (out, h')) {now now' : ℕ}
    (hord : Window.Ordered h.view.slots (now / bucketSecs)) (hle : now ≤ now')
    (hnow : ∀ t ∈ c.now, t = now') :
  Window.Ordered h'.view.slots (now' / bucketSecs)
  := by
  have hdiv : now / bucketSecs ≤ now' / bucketSecs := Nat.div_le_div_right hle
  cases c with
  | recordAt t metric domain =>
    obtain rfl := hnow t rfl
    obtain ⟨h₁, hrec, hview, -⟩ := recordAt_eq hh.sound t metric domain
    rw [call, hrec] at hc
    cases hc
    rw [hview]
    exact Window.ordered_record hord hdiv _
  | snapshotAt t =>
    obtain rfl := hnow t rfl
    obtain ⟨h₁, hrot, hview, -⟩ := rotate_eq hh.sound (t / bucketSecs)
    rw [call, snapshotAt_of_rotate hrot] at hc
    split at hc
    · cases hc
      rw [hview]
      exact Window.ordered_expire hord hdiv
    · cases hc
  | setRetentionHours hours =>
    cases hc
    exact hord.mono hdiv
  | reset =>
    cases hc
    exact Window.ordered_nil _

/-- When the clock never goes back, every snapshot finds buckets that fit, whatever is done to
the retention in between. -/
theorem fitsRun_of_nondecreasing {cs : List Call}
    (hmono : (cs.filterMap Call.now).Pairwise (· ≤ ·)) :
  new.FitsRun cs
  := by
  suffices hrun : ∀ (h : History) (now : ℕ), h.Live →
      Window.Ordered h.view.slots (now / bucketSecs) →
      (now :: cs.filterMap Call.now).Pairwise (· ≤ ·) → h.FitsRun cs by
    apply hrun new 0 live_new
    · exact Window.ordered_nil _
    · exact List.pairwise_cons.mpr ⟨fun t _ => Nat.zero_le t, hmono⟩
  clear hmono
  induction cs with
  | nil => exact fun _ _ _ _ _ => trivial
  | cons c cs ih =>
    intro h now hh hord hmono
    -- the time of the call, or the present if it takes none
    obtain ⟨now', hle, hnow, hmono'⟩ : ∃ now', now ≤ now' ∧ (∀ t ∈ c.now, t = now')
        ∧ (now' :: cs.filterMap Call.now).Pairwise (· ≤ ·) := by
      cases hc : c.now with
      | none =>
        rw [List.filterMap_cons_none hc] at hmono
        exact ⟨now, le_rfl, by simp, hmono⟩
      | some t =>
        rw [List.filterMap_cons_some hc] at hmono
        obtain ⟨hle, hmono'⟩ := List.pairwise_cons.mp hmono
        exact ⟨t, hle t List.mem_cons_self, by simp, hmono'⟩
    refine ⟨?_, ?_⟩
    · cases c with
      | snapshotAt t =>
        apply fits_of_ordered hh hord
        rw [hnow t rfl]
        exact Nat.div_le_div_right hle
      | recordAt _ _ _ => trivial
      | setRetentionHours _ => trivial
      | reset => trivial
    · rintro ⟨out, h'⟩ hc
      exact ih h' now' (hh.call hc) (ordered_call hh hc hord hle hnow) hmono'

end History
