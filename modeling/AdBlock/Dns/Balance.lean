import AdBlock.Dns.Resolver
import AdBlock.Weights.Basic

/-!
# Balancing the load

The server that is asked first is picked by its weight, and the weight comes from the average time
its answers took.  The average stays within the times that were measured, and the weights are
neither zero nor large (`Stats.ewma_within`).  A server is picked in proportion to its weight
(`pickWeighted_proportional`).
-/

/-! ### Checked operations -/

/-- The sum, if it does not overflow. -/
def UInt64.checkedAdd (a b : UInt64) : Option UInt64 :=
  if a.toNat + b.toNat < 2 ^ 64 then some (a + b) else none

/-- The difference, if it is not negative. -/
def UInt64.checkedSub (a b : UInt64) : Option UInt64 :=
  if b ≤ a then some (a - b) else none

namespace Dns

/-! ### Averages -/

namespace Stats

def reset (_ : Stats) : Stats :=
  { queries := 0, failures := 0, ewmaRttUs := 0 }

/-- The measured time of a query in microseconds, up to the largest that is counted. -/
def sample (rtt : ℕ) : ℕ :=
  min (rtt / 1000) (2 ^ 64 - 1)

/-- A part of an average is replaced by the same part of a sample. -/
def blend (old new : ℕ) : ℕ :=
  old - old / 8 + new / 8

theorem blend_self (n : ℕ) :
  blend n n = n
  := Nat.sub_add_cancel (Nat.div_le_self n 8)

/-- What is left of an average, and the part of a sample, grow with them. -/
theorem blend_le_blend {old old' new new' : ℕ} (hold : old ≤ old') (hnew : new ≤ new') :
  blend old new ≤ blend old' new'
  := by
  have hpart : new / 8 ≤ new' / 8 := Nat.div_le_div_right hnew
  have hrest : old - old / 8 ≤ old' - old' / 8 := by omega
  exact Nat.add_le_add hrest hpart

theorem le_blend {lo old new : ℕ} (hold : lo ≤ old) (hnew : lo ≤ new) :
  lo ≤ blend old new
  := by
  rw [← blend_self lo]
  exact blend_le_blend hold hnew

theorem blend_le {hi old new : ℕ} (hold : old ≤ hi) (hnew : new ≤ hi) :
  blend old new ≤ hi
  := by
  rw [← blend_self hi]
  exact blend_le_blend hold hnew

/-- The average after a sample: the sample if there was none, and never zero again. -/
def average (old new : ℕ) : ℕ :=
  max (if old = 0 then new else blend old new) 1

theorem sample_lt (rtt : ℕ) :
  sample rtt < 2 ^ 64
  := lt_of_le_of_lt (min_le_right _ _) (by decide)

theorem toNat_sample (rtt : ℕ) :
  (UInt64.ofNat (min (rtt / 1000) (2 ^ 64 - 1))).toNat = sample rtt
  := UInt64.toNat_ofNat_of_lt' (sample_lt rtt)

theorem blend_lt (old : UInt64) (rtt : ℕ) :
  blend old.toNat (sample rtt) < 2 ^ 64
  := by
  apply Nat.lt_of_le_pred (by decide)
  exact blend_le (Nat.le_pred_of_lt old.toNat_lt) (Nat.le_pred_of_lt (sample_lt rtt))

/-- A part of an average is at most the average. -/
theorem part_le (old : UInt64) :
  old / 8 ≤ old
  := by
  rw [UInt64.le_iff_toNat_le, UInt64.toNat_div]
  apply Nat.div_le_self

/-- What is left of an average and the part of a sample, before they are added. -/
theorem toNat_parts (old : UInt64) (rtt : ℕ) :
  (old - old / 8).toNat + (UInt64.ofNat (min (rtt / 1000) (2 ^ 64 - 1)) / 8).toNat
    = blend old.toNat (sample rtt)
  := by
  rw [UInt64.toNat_sub_of_le _ _ (part_le old), UInt64.toNat_div, UInt64.toNat_div, toNat_sample]
  rfl

/-- What is stored is the average. -/
theorem toNat_record (s : Stats) (rtt : ℕ) (failed : Bool) :
  (s.record rtt failed).ewmaRttUs.toNat = average s.ewmaRttUs.toNat (sample rtt)
  := by
  simp only [record]
  rw [UInt64.toNat_max, average]
  by_cases hold : s.ewmaRttUs = 0
  · rw [if_pos hold, toNat_sample, hold, if_pos UInt64.toNat_zero]
    rfl
  · have hne : s.ewmaRttUs.toNat ≠ 0 := fun h => hold (UInt64.toNat_inj.mp h)
    rw [if_neg hold, UInt64.toNat_add, toNat_parts, Nat.mod_eq_of_lt (blend_lt _ rtt), if_neg hne]
    rfl

/-- The steps of `record`, where an operation that overflows gives nothing. -/
def recordChecked (rtt : ℕ) (failed : Bool) (s : Stats) : Option Stats := do
  let sample := UInt64.ofNat (min (rtt / 1000) (2 ^ 64 - 1))
  let old := s.ewmaRttUs
  let new ←
    if old = 0 then some sample
    else (old.checkedSub (old / 8)).bind (·.checkedAdd (sample / 8))
  return {
    queries := s.queries + 1
    failures := if failed then s.failures + 1 else s.failures
    ewmaRttUs := max new 1 }

/-- No operation overflows. -/
theorem recordChecked_eq (s : Stats) (rtt : ℕ) (failed : Bool) :
  s.recordChecked rtt failed = some (s.record rtt failed)
  := by
  rw [recordChecked, record]
  by_cases hold : s.ewmaRttUs = 0
  · simp only [if_pos hold]
    rfl
  · have hadd := blend_lt s.ewmaRttUs rtt
    rw [← toNat_parts] at hadd
    simp only [if_neg hold, UInt64.checkedSub, if_pos (part_le _), Option.bind_some,
      UInt64.checkedAdd, if_pos hadd]
    rfl

/-- Calls one after the other, each with the time its query took and whether it failed. -/
def recordAll (calls : List (ℕ × Bool)) (s : Stats) : Stats :=
  calls.foldl (fun s call => s.record call.1 call.2) s

def recordAllChecked (calls : List (ℕ × Bool)) (s : Stats) : Option Stats :=
  calls.foldlM (fun s call => s.recordChecked call.1 call.2) s

theorem recordAllChecked_eq (calls : List (ℕ × Bool)) (s : Stats) :
  recordAllChecked calls s = some (recordAll calls s)
  := by
  induction calls generalizing s with
  | nil => rfl
  | cons call calls ih =>
    rw [recordAllChecked, List.foldlM_cons, recordChecked_eq]
    apply ih

/-- The samples that were counted. -/
def samples (calls : List (ℕ × Bool)) : List ℕ :=
  calls.map fun call => sample call.1

/-- The time lies within bounds.  A time of zero counts as one. -/
def Between (lo hi n : ℕ) : Prop :=
  lo ≤ max 1 n ∧ max 1 n ≤ hi

/-- A sample within bounds keeps the average within them, and is the average if there was none. -/
theorem average_between {lo hi old new : ℕ} (hold : old = 0 ∨ lo ≤ old ∧ old ≤ hi)
    (hnew : Between lo hi new) :
  lo ≤ average old new ∧ average old new ≤ hi
  := by
  obtain ⟨hlo, hhi⟩ := hnew
  have hone : 1 ≤ hi := (le_max_left 1 new).trans hhi
  have hnewle : new ≤ hi := (le_max_right 1 new).trans hhi
  rw [average]
  by_cases hzero : old = 0
  · rw [if_pos hzero, max_comm]
    exact ⟨hlo, hhi⟩
  · obtain ⟨hlold, holdhi⟩ := hold.resolve_left hzero
    rw [if_neg hzero]
    constructor
    · by_cases hpos : 1 ≤ new
      · rw [max_eq_right hpos] at hlo
        exact (le_blend hlold hlo).trans (le_max_left _ 1)
      · rw [max_eq_left (Nat.le_of_not_le hpos)] at hlo
        exact hlo.trans (le_max_right _ 1)
    · exact max_le (blend_le holdhi hnewle) hone

/-- Samples within bounds keep the average within them. -/
theorem recordAll_between {lo hi : ℕ} {calls : List (ℕ × Bool)}
    (hcalls : ∀ n ∈ samples calls, Between lo hi n) {s : Stats}
    (h : lo ≤ s.ewmaRttUs.toNat ∧ s.ewmaRttUs.toNat ≤ hi) :
  lo ≤ (recordAll calls s).ewmaRttUs.toNat ∧ (recordAll calls s).ewmaRttUs.toNat ≤ hi
  := by
  induction calls generalizing s with
  | nil => exact h
  | cons call calls ih =>
    rw [samples, List.map_cons, List.forall_mem_cons] at hcalls
    apply ih hcalls.2
    rw [toNat_record]
    apply average_between (.inr h) hcalls.1

/-- The smallest and the largest sample are bounds. -/
theorem between_samples {calls : List (ℕ × Bool)} (hne : samples calls ≠ []) :
  ∀ n ∈ samples calls,
    Between (max 1 ((samples calls).min hne)) (max 1 ((samples calls).max hne)) n
  := by
  intro n hn
  constructor
  · apply max_le_max le_rfl (List.min_le_of_mem hn)
  · apply max_le_max le_rfl (List.le_max_of_mem hn)

/-! ### Weights -/

theorem toNat_weight (s : Stats) :
  s.weight.toNat
    = if s.ewmaRttUs.toNat = 0 then 10000 else max (10000 / max (s.ewmaRttUs.toNat / 1000) 1) 1
  := by
  rw [weight]
  by_cases hzero : s.ewmaRttUs = 0
  · rw [if_pos hzero, hzero]
    rfl
  · have hne : s.ewmaRttUs.toNat ≠ 0 := fun h => hzero (UInt64.toNat_inj.mp h)
    rw [if_neg hzero, if_neg hne, UInt64.toNat_max, UInt64.toNat_div, UInt64.toNat_max,
      UInt64.toNat_div]
    rfl

/-- The weight of a time in microseconds: how often a millisecond less goes into ten seconds. -/
theorem weight_between (s : Stats) :
  1 ≤ s.weight.toNat ∧ s.weight.toNat ≤ 10000
  := by
  rw [toNat_weight]
  split
  · decide
  · exact ⟨le_max_right _ 1, max_le (Nat.div_le_self _ _) (by decide)⟩

/-- A longer average gives no larger weight. -/
theorem weight_le_weight {s s' : Stats} (h : s.ewmaRttUs ≤ s'.ewmaRttUs) :
  s'.weight.toNat ≤ s.weight.toNat
  := by
  rw [UInt64.le_iff_toNat_le] at h
  by_cases hzero : s.ewmaRttUs.toNat = 0
  · rw [toNat_weight s, if_pos hzero]
    apply (weight_between s').2
  · rw [toNat_weight, toNat_weight, if_neg hzero, if_neg (by omega)]
    apply max_le_max _ le_rfl
    apply Nat.div_le_div_left
    · apply max_le_max (Nat.div_le_div_right h) le_rfl
    · apply lt_of_lt_of_le Nat.one_pos (le_max_right _ 1)

/-- However long the queries since the last reset took, no operation of a call overflows, and the
average lies between the smallest and the largest sample.  A weight lies between one and ten thousand
and does not grow with the average. -/
theorem ewma_within (s : Stats) (calls : List (ℕ × Bool)) :
  recordAllChecked calls s.reset = some (recordAll calls s.reset)
    ∧ (∀ hne : samples calls ≠ [],
      max 1 ((samples calls).min hne) ≤ (recordAll calls s.reset).ewmaRttUs.toNat
        ∧ (recordAll calls s.reset).ewmaRttUs.toNat ≤ max 1 ((samples calls).max hne))
    ∧ (∀ s : Stats, 1 ≤ s.weight.toNat ∧ s.weight.toNat ≤ 10000)
    ∧ ∀ s s' : Stats, s.ewmaRttUs ≤ s'.ewmaRttUs → s'.weight.toNat ≤ s.weight.toNat
  := by
  refine ⟨recordAllChecked_eq calls _, ?_, weight_between, fun s s' => weight_le_weight⟩
  intro hne
  have hcalls := between_samples hne
  cases calls with
  | nil => exact absurd rfl hne
  | cons call calls =>
    have hfirst := hcalls _ List.mem_cons_self
    apply recordAll_between fun n hn => hcalls n (List.mem_cons_of_mem _ hn)
    rw [toNat_record]
    apply average_between (.inl rfl) hfirst

/-- Samples of zero, two and ten thousand microseconds. -/
theorem ewma_within_three :
  1 ≤ (recordAll [(0, false), (2000, false), (10000000, true)] (reset {})).ewmaRttUs.toNat
    ∧ (recordAll [(0, false), (2000, false), (10000000, true)] (reset {})).ewmaRttUs.toNat
      ≤ 10000
  := by
  obtain ⟨-, hbetween, -⟩ := ewma_within {} [(0, false), (2000, false), (10000000, true)]
  exact hbetween (List.cons_ne_nil _ _)

end Stats

/-! ### Picks -/

/-- The steps of `pickFrom`, where a difference that is negative gives nothing. -/
def pickFromChecked (point : UInt64) : List UInt64 → Option (Option ℕ)
  | [] => some none
  | w :: weights =>
      if point < w then some (some 0)
      else do
        let point ← point.checkedSub w
        let place ← pickFromChecked point weights
        return place.map (· + 1)

theorem pickFromChecked_eq (point : UInt64) (weights : List UInt64) :
  pickFromChecked point weights = some (pickFrom point weights)
  := by
  induction weights generalizing point with
  | nil => rfl
  | cons w weights ih =>
    rw [pickFromChecked, pickFrom]
    by_cases hlt : point < w
    · rw [if_pos hlt, if_pos hlt]
    · rw [if_neg hlt, if_neg hlt, UInt64.checkedSub, if_pos (UInt64.not_lt.mp hlt)]
      simp only [Option.bind_eq_bind, Option.bind_some, ih]
      rfl

/-- The steps of `pickWeighted`, where an operation that overflows gives nothing. -/
def pickWeightedChecked (weights : List UInt64) (r : UInt64) : Option ℕ := do
  let total ← weights.foldlM UInt64.checkedAdd 0
  if total = 0 then return 0
  else do
    let place ← pickFromChecked (r % total) weights
    return place.getD (weights.length - 1)

/-- The point is looked for as among numbers. -/
theorem pickFrom_eq (point : UInt64) (weights : List UInt64) :
  pickFrom point weights = Weights.place point.toNat (weights.map UInt64.toNat)
  := by
  induction weights generalizing point with
  | nil => rfl
  | cons w weights ih =>
    rw [pickFrom, List.map_cons, Weights.place]
    by_cases hlt : point < w
    · rw [if_pos hlt, if_pos (UInt64.lt_iff_toNat_lt.mp hlt)]
    · rw [if_neg hlt, if_neg fun h => hlt (UInt64.lt_iff_toNat_lt.mpr h), ih,
        UInt64.toNat_sub_of_le _ _ (UInt64.not_lt.mp hlt)]

theorem toNat_sum {weights : List UInt64} (h : (weights.map UInt64.toNat).sum < 2 ^ 64) :
  weights.sum.toNat = (weights.map UInt64.toNat).sum
  := by
  induction weights with
  | nil => rfl
  | cons w weights ih =>
    rw [List.map_cons, List.sum_cons] at h
    rw [List.sum_cons, List.map_cons, List.sum_cons, UInt64.toNat_add,
      ih (lt_of_le_of_lt (Nat.le_add_left _ _) h), Nat.mod_eq_of_lt h]

/-- The weights are added one after the other. -/
theorem foldlM_checkedAdd {weights : List UInt64} {total : UInt64}
    (h : total.toNat + (weights.map UInt64.toNat).sum < 2 ^ 64) :
  weights.foldlM UInt64.checkedAdd total = some (total + weights.sum)
  := by
  induction weights generalizing total with
  | nil => rw [List.sum_nil, add_zero]; rfl
  | cons w weights ih =>
    rw [List.map_cons, List.sum_cons, ← add_assoc] at h
    have hadd : total.toNat + w.toNat < 2 ^ 64 := lt_of_le_of_lt (Nat.le_add_right _ _) h
    rw [List.foldlM_cons, UInt64.checkedAdd, if_pos hadd, List.sum_cons, ← add_assoc]
    apply ih
    rwa [UInt64.toNat_add, Nat.mod_eq_of_lt hadd]

section Picks

variable {weights : List UInt64} (hpos : 0 < (weights.map UInt64.toNat).sum)
  (hfits : (weights.map UInt64.toNat).sum < 2 ^ 64)
include hpos hfits

/-- A point is always found. -/
theorem place_eq_pickWeighted (r : UInt64) :
  Weights.place (r.toNat % (weights.map UInt64.toNat).sum) (weights.map UInt64.toNat)
    = some (pickWeighted weights r)
  := by
  have hsum := toNat_sum hfits
  have htotal : weights.sum ≠ 0 := by
    intro h
    rw [h] at hsum
    exact absurd hsum.symm hpos.ne'
  obtain ⟨i, -, hplace⟩ := Weights.exists_place (Nat.mod_lt r.toNat hpos)
  simp only [pickWeighted]
  rw [if_neg htotal, pickFrom_eq, UInt64.toNat_mod, hsum, hplace]
  rfl

/-- Points below the sum are looked for as they are. -/
theorem pickWeighted_ofNat_iff {point : ℕ} (h : point < (weights.map UInt64.toNat).sum) (i : ℕ) :
  pickWeighted weights (UInt64.ofNat point) = i
    ↔ Weights.place point (weights.map UInt64.toNat) = some i
  := by
  have hplace := place_eq_pickWeighted hpos hfits (UInt64.ofNat point)
  rw [UInt64.toNat_ofNat_of_lt' (h.trans hfits), Nat.mod_eq_of_lt h] at hplace
  rw [hplace, Option.some_inj]

theorem count_pickWeighted (i : ℕ) :
  Nat.count (fun r => pickWeighted weights (UInt64.ofNat r) = i) (weights.map UInt64.toNat).sum
    = (weights.map UInt64.toNat).getD i 0
  := by
  rw [← Weights.count_place, Nat.count_eq_card_filter_range, Nat.count_eq_card_filter_range]
  congr 1
  apply Finset.filter_congr
  intro point hpoint
  apply pickWeighted_ofNat_iff hpos hfits (Finset.mem_range.mp hpoint)

omit hpos in
/-- No operation overflows. -/
theorem pickWeightedChecked_eq (r : UInt64) :
  pickWeightedChecked weights r = some (pickWeighted weights r)
  := by
  have hfold : weights.foldlM UInt64.checkedAdd 0 = some (0 + weights.sum) := by
    apply foldlM_checkedAdd
    rwa [UInt64.toNat_zero, zero_add]
  rw [pickWeightedChecked, hfold, zero_add, pickWeighted]
  simp only [Option.bind_eq_bind, Option.bind_some, pickFromChecked_eq]
  split
  · rfl
  · rfl

/-- No operation overflows, and the place that is picked is one of the list.  Each place is picked by
as many points as its weight is large, and one of no weight is not picked. -/
theorem pickWeighted_proportional :
  (∀ r, pickWeightedChecked weights r = some (pickWeighted weights r)
      ∧ pickWeighted weights r < weights.length)
    ∧ ∀ (i : ℕ) (hi : i < weights.length),
      Nat.count (fun r => pickWeighted weights (UInt64.ofNat r) = i)
          (weights.map UInt64.toNat).sum = weights[i].toNat
        ∧ (weights[i] = 0 → ∀ r, pickWeighted weights r ≠ i)
  := by
  have hne : weights ≠ [] := by
    rintro rfl
    exact absurd hpos (Nat.lt_irrefl 0)
  constructor
  · intro r
    exact ⟨pickWeightedChecked_eq hfits r, pickWeighted_lt hne r⟩
  · intro i hi
    have hcount : Nat.count (fun r => pickWeighted weights (UInt64.ofNat r) = i)
        (weights.map UInt64.toNat).sum = weights[i].toNat := by
      rw [count_pickWeighted hpos hfits, List.getD_eq_getElem?_getD, List.getElem?_map,
        List.getElem?_eq_getElem hi]
      rfl
    use hcount
    intro hzero r hr
    rw [hzero, UInt64.toNat_zero, Nat.count_iff_forall_not] at hcount
    apply hcount _ (Nat.mod_lt r.toNat hpos)
    rw [pickWeighted_ofNat_iff hpos hfits (Nat.mod_lt r.toNat hpos),
      place_eq_pickWeighted hpos hfits, hr]

end Picks

/-- The picks among three weights, of which one is zero. -/
theorem pickWeighted_proportional_three :
  Nat.count (fun r => pickWeighted [10, 0, 100] (UInt64.ofNat r) = 2) 110 = 100
    ∧ ∀ r, pickWeighted [10, 0, 100] r ≠ 1
  := by
  obtain ⟨-, hcount⟩ :=
    @pickWeighted_proportional [10, 0, 100] (by decide +kernel) (by decide +kernel)
  exact ⟨(hcount 2 (by decide)).1, (hcount 1 (by decide)).2 rfl⟩

end Dns
