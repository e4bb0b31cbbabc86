import AdBlock.Stats.HistoryWindow

/-!
# The series of a snapshot

A bucket has a place in the series when it is not of the future and has not left the window, and
the series can be written exactly when every bucket has one (`plot_eq`).  Buckets of different
times have different places, and then each entry of the series is the count of the bucket of its
age (`getElem?_draw`).  When every bucket has counted something, the series add up to the counts
of the buckets exactly when no two buckets are of the same time (`sum_draw_iff`).
-/

namespace History

/-- A bucket has a place in the series. -/
def Plots (idx window : ℕ) (b : Bucket) : Prop :=
  b.idx ≤ idx ∧ idx < b.idx + window

instance (idx window : ℕ) (b : Bucket) : Decidable (Plots idx window b) :=
  inferInstanceAs (Decidable (_ ∧ _))

/-- The place of a bucket in the series. -/
def place (idx window : ℕ) (b : Bucket) : ℕ :=
  window - 1 - (idx - b.idx)

/-- Series of zeros. -/
def zeros (window : ℕ) : Metric → List ℕ :=
  fun _ => List.replicate window 0

/-- The counts of a metric over buckets. -/
def bucketSum (buckets : List Bucket) (m : Metric) : ℕ :=
  (buckets.map fun b => b.counts m).sum

variable {idx window : ℕ} {series series' : Metric → List ℕ} {buckets : List Bucket} {b : Bucket}

/-! ### Writing the series -/

theorem plotBucket_of_plots (hlen : ∀ m, (series m).length = window) (hb : Plots idx window b) :
  plotBucket idx window series b
    = some fun m => (series m).set (place idx window b) (b.counts m)
  := by
  obtain ⟨hle, hlt⟩ := hb
  have hpos : ∀ m ∈ Metric.all, window - 1 - (idx - b.idx) < (series m).length := by
    intro m _
    rw [hlen m]
    omega
  simp only [plotBucket, checkedSub, setAll, if_pos hle, if_pos (show 1 ≤ window by omega),
    if_pos (show idx - b.idx ≤ window - 1 by omega), if_pos hpos, Option.bind_eq_bind,
    Option.bind_some, place]

theorem plots_of_plotBucket (h : plotBucket idx window series b = some series') :
  Plots idx window b
  := by
  simp only [plotBucket, Option.bind_eq_bind, Option.bind_eq_some_iff, checkedSub] at h
  obtain ⟨age, hage, last, hlast, pos, hpos, -⟩ := h
  rw [Option.ite_none_right_eq_some, Option.some_inj] at hage hlast hpos
  constructor <;> omega

/-- The series with the buckets written at their places, each over those before it. -/
def draw (idx window : ℕ) (buckets : List Bucket) (series : Metric → List ℕ) : Metric → List ℕ :=
  buckets.foldl (fun series b m => (series m).set (place idx window b) (b.counts m)) series

/-- Writing goes through exactly when every bucket has a place. -/
theorem plot_eq (hlen : ∀ m, (series m).length = window) :
  plot idx window buckets series
    = if ∀ b ∈ buckets, Plots idx window b then some (draw idx window buckets series) else none
  := by
  induction buckets generalizing series with
  | nil => simp [plot, draw]
  | cons b buckets ih =>
    rw [plot, List.foldlM_cons]
    simp only [List.forall_mem_cons]
    by_cases hb : Plots idx window b
    · rw [plotBucket_of_plots hlen hb]
      simp only [Option.bind_eq_bind, Option.bind_some, hb, true_and]
      apply ih
      intro m
      rw [List.length_set, hlen m]
    · rw [if_neg (fun h => hb h.1)]
      cases hplot : plotBucket idx window series b with
      | none => rfl
      | some series' => exact absurd (plots_of_plotBucket hplot) hb

theorem draw_concat (buckets : List Bucket) (b : Bucket) (series : Metric → List ℕ) (m : Metric) :
  draw idx window (buckets ++ [b]) series m
    = (draw idx window buckets series m).set (place idx window b) (b.counts m)
  := by
  rw [draw, List.foldl_append]
  rfl

theorem length_draw (buckets : List Bucket) (series : Metric → List ℕ) (m : Metric) :
  (draw idx window buckets series m).length = (series m).length
  := by
  induction buckets using List.reverseRecOn with
  | nil => rfl
  | append_singleton buckets b ih => rw [draw_concat, List.length_set, ih]

/-! ### Entries and sums -/

theorem bucketSum_concat (buckets : List Bucket) (b : Bucket) (m : Metric) :
  bucketSum (buckets ++ [b]) m = bucketSum buckets m + b.counts m
  := by
  simp [bucketSum]

/-- Each entry of the series is the count of the bucket of its age. -/
theorem getElem?_draw (hplots : ∀ b ∈ buckets, Plots idx window b)
    (hnodup : (buckets.map Bucket.idx).Nodup) (m : Metric) {age : ℕ} (hage : age < window) :
  (draw idx window buckets (zeros window) m)[window - 1 - age]?
    = some (bucketSum (buckets.filter fun b => b.idx + age = idx) m)
  := by
  induction buckets using List.reverseRecOn with
  | nil =>
    have hlt : window - 1 - age < window := by omega
    simp [draw, zeros, bucketSum, hlt]
  | append_singleton buckets b ih =>
    rw [List.forall_mem_append, List.forall_mem_singleton] at hplots
    rw [List.map_append, List.map_singleton, List.nodup_append] at hnodup
    have hentry := ih hplots.1 hnodup.1
    have hb := hplots.2
    rw [draw_concat, List.getElem?_set, hentry, List.filter_append]
    by_cases hidx : b.idx + age = idx
    · -- the place of `b`, which no other bucket has
      have hplace : place idx window b = window - 1 - age := by
        rw [place]
        omega
      have hnone : buckets.filter (fun b => b.idx + age = idx) = [] := by
        rw [List.filter_eq_nil_iff]
        intro b' hb' heq
        apply hnodup.2.2 b'.idx (List.mem_map_of_mem hb') b.idx (List.mem_singleton_self _)
        have := of_decide_eq_true heq
        omega
      have hlen : place idx window b < (draw idx window buckets (zeros window) m).length := by
        rw [length_draw, zeros, List.length_replicate, hplace]
        omega
      rw [if_pos hplace, if_pos hlen, hnone]
      simp [hidx, bucketSum]
    · have hplace : place idx window b ≠ window - 1 - age := by
        obtain ⟨hle, hlt⟩ := hb
        rw [place]
        omega
      rw [if_neg hplace]
      simp [hidx]

/-- Writing a value into a list replaces the old one in the sum. -/
theorem sum_set_add {l : List ℕ} {pos old : ℕ} (h : l[pos]? = some old) (value : ℕ) :
  (l.set pos value).sum + old = l.sum + value
  := by
  induction l generalizing pos with
  | nil => cases h
  | cons n l ih =>
    cases pos with
    | zero =>
      obtain rfl : n = old := by simpa using h
      simp only [List.set_cons_zero, List.sum_cons]
      omega
    | succ pos =>
      rw [List.getElem?_cons_succ] at h
      have := ih h
      simp only [List.set_cons_succ, List.sum_cons]
      omega

/-- The value that the last bucket is written over. -/
theorem exists_getElem?_place (buckets : List Bucket) (hb : Plots idx window b) (m : Metric) :
  ∃ old, (draw idx window buckets (zeros window) m)[place idx window b]? = some old
  := by
  obtain ⟨hle, hlt⟩ := hb
  have hlen : place idx window b < (draw idx window buckets (zeros window) m).length := by
    rw [length_draw, zeros, List.length_replicate, place]
    omega
  exact ⟨_, List.getElem?_eq_getElem hlen⟩

theorem sum_draw_le (hplots : ∀ b ∈ buckets, Plots idx window b) (m : Metric) :
  (draw idx window buckets (zeros window) m).sum ≤ bucketSum buckets m
  := by
  induction buckets using List.reverseRecOn with
  | nil => simp [draw, zeros]
  | append_singleton buckets b ih =>
    rw [List.forall_mem_append, List.forall_mem_singleton] at hplots
    obtain ⟨old, hold⟩ := exists_getElem?_place buckets hplots.2 m
    have hsum := sum_set_add hold (b.counts m)
    have := ih hplots.1
    rw [draw_concat, bucketSum_concat]
    omega

/-- The series add up to the counts of the buckets exactly when no bucket is written over
another one, that is, when no two are of the same time. -/
theorem sum_draw_iff (hplots : ∀ b ∈ buckets, Plots idx window b)
    (hlive : ∀ b ∈ buckets, ∃ m, b.counts m ≠ 0) :
  (∀ m, (draw idx window buckets (zeros window) m).sum = bucketSum buckets m)
    ↔ (buckets.map Bucket.idx).Nodup
  := by
  induction buckets using List.reverseRecOn with
  | nil => simp [draw, zeros, bucketSum]
  | append_singleton buckets b ih =>
    rw [List.forall_mem_append, List.forall_mem_singleton] at hplots hlive
    have hplots' := hplots.2
    have hle (m : Metric) := sum_draw_le hplots.1 m
    -- the sum is right when it was right before and zeros were written over
    have hstep (m : Metric) : (draw idx window (buckets ++ [b]) (zeros window) m).sum
          = bucketSum (buckets ++ [b]) m
        ↔ (draw idx window buckets (zeros window) m).sum = bucketSum buckets m
          ∧ (draw idx window buckets (zeros window) m)[place idx window b]? = some 0 := by
      obtain ⟨old, hold⟩ := exists_getElem?_place buckets hplots' m
      have hsum := sum_set_add hold (b.counts m)
      have := hle m
      rw [draw_concat, bucketSum_concat, hold, Option.some_inj]
      omega
    rw [forall_congr' hstep, forall_and, ih hplots.1 hlive.1, List.map_append, List.map_singleton,
      List.nodup_append]
    have hage : idx - b.idx < window := by
      obtain ⟨hle, hlt⟩ := hplots'
      omega
    have hsame (b' : Bucket) (hb' : b' ∈ buckets) :
        b'.idx + (idx - b.idx) = idx ↔ b'.idx = b.idx := by
      obtain ⟨hle, -⟩ := hplots'
      omega
    constructor
    · rintro ⟨hnodup, hzero⟩
      refine ⟨hnodup, List.nodup_singleton _, ?_⟩
      intro k hk k' hk' heq
      obtain ⟨b', hb', rfl⟩ := List.mem_map.mp hk
      rw [List.mem_singleton.mp hk'] at heq
      obtain ⟨m, hm⟩ := hlive.1 b' hb'
      -- the bucket of the same time was written there
      have hentry := getElem?_draw hplots.1 hnodup m hage
      have hz := hzero m
      rw [place, hentry, Option.some_inj, bucketSum, List.sum_eq_zero_iff_forall_eq_nat] at hz
      apply hm
      apply hz
      rw [List.mem_map]
      refine ⟨b', List.mem_filter.mpr ⟨hb', decide_eq_true ?_⟩, rfl⟩
      exact (hsame b' hb').mpr heq
    · rintro ⟨hnodup, -, hne⟩
      refine ⟨hnodup, ?_⟩
      intro m
      rw [place, getElem?_draw hplots.1 hnodup m hage]
      have hnone : buckets.filter (fun b' => b'.idx + (idx - b.idx) = idx) = [] := by
        rw [List.filter_eq_nil_iff]
        intro b' hb' heq
        apply hne b'.idx (List.mem_map_of_mem hb') b.idx (List.mem_singleton_self _)
        exact (hsame b' hb').mp (of_decide_eq_true heq)
      rw [hnone]
      rfl

/-! ### The snapshot -/

/-- What a history shows after its rotation. -/
def shown (h : History) (idx : ℕ) : Snapshot :=
  { bucketSecs := bucketSecs
    totals := h.totals
    series := draw idx h.windowBuckets h.buckets (zeros h.windowBuckets)
    topQueried := h.queried.top
    topBlocked := h.blocked.top }

theorem length_zeros (window : ℕ) (m : Metric) :
  (zeros window m).length = window
  := List.length_replicate

/-- A snapshot goes through exactly when every bucket that the rotation leaves has a place. -/
theorem snapshotAt_of_rotate {h h' : History} {now : ℕ}
    (hrot : h.rotate (now / bucketSecs) = some h') :
  h.snapshotAt now
    = if ∀ b ∈ h'.buckets, Plots (now / bucketSecs) h'.windowBuckets b then
        some (h'.shown (now / bucketSecs), h')
      else none
  := by
  have hplot : plot (now / bucketSecs) h'.windowBuckets h'.buckets
      (fun _ => List.replicate h'.windowBuckets 0) = _ := plot_eq (length_zeros h'.windowBuckets)
  rw [snapshotAt]
  simp only [hrot, hplot, Option.bind_eq_bind, Option.bind_some]
  split <;> rfl

end History
