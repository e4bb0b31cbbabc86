import Mathlib.Algebra.BigOperators.Group.List.Basic
import Mathlib.Algebra.Group.Pi.Basic
import Mathlib.Algebra.GroupWithZero.Nat
import Mathlib.Algebra.Order.Group.Nat
import Mathlib.Algebra.Order.Pi
import Mathlib.Algebra.Order.Sub.Prod

/-!
# Sliding windows of counters

A window keeps counters for the last `span` points of time: a slot for each point of time at
which something was counted, and the totals over the slots.  The totals are kept by difference,
what is counted is added and what expires is subtracted.  They are the sums over the slots
whatever the clock does (`Sound`).  When the clock never goes back, the slots hold exactly what a
log of all that was ever counted has for the points of time still in the window (`Tracks`), so
the totals are a recount of that part of the log (`totals_expire`).
-/

namespace Window

/-- What was counted at one point of time. -/
structure Slot (ι : Type*) where
  idx : ℕ
  counts : ι → ℕ

end Window

/-- Counters for the last `span` points of time. -/
structure Window (ι : Type*) where
  slots : List (Window.Slot ι)
  totals : ι → ℕ
  span : ℕ

namespace Window

variable {ι : Type*}

/-- The sums of the counters over some slots. -/
def sum (slots : List (Slot ι)) : ι → ℕ :=
  fun i => (slots.map fun s => s.counts i).sum

@[simp]
theorem sum_nil :
  sum ([] : List (Slot ι)) = 0
  := rfl

@[simp]
theorem sum_cons (s : Slot ι) (slots : List (Slot ι)) :
  sum (s :: slots) = s.counts + sum slots
  := by
  funext i
  simp [sum]

@[simp]
theorem sum_append (slots slots' : List (Slot ι)) :
  sum (slots ++ slots') = sum slots + sum slots'
  := by
  funext i
  simp [sum]

/-! ### Expiring and counting -/

/-- The slots at the front that have left the window go, and their counts with them. -/
def expire (w : Window ι) (now : ℕ) : Window ι :=
  { w with
    slots := w.slots.dropWhile fun s => s.idx + w.span ≤ now
    totals := w.totals - sum (w.slots.takeWhile fun s => s.idx + w.span ≤ now) }

/-- The members of a list before its last one and the last one, where a fresh one is put at
the end if the last one does not satisfy `p`. -/
def splitBack {β : Type*} (p : β → Bool) (fresh : β) (l : List β) : List β × β :=
  match l.getLast? with
  | some b => if p b then (l.dropLast, b) else (l, fresh)
  | none => ([], fresh)

/-- Either the last member is used, or a fresh one after a last member that does not do. -/
theorem splitBack_cases {β : Type*} (p : β → Bool) (fresh : β) (l : List β) :
  (∃ init b, l = init ++ [b] ∧ p b ∧ splitBack p fresh l = (init, b))
    ∨ (∀ b ∈ l.getLast?, ¬ p b) ∧ splitBack p fresh l = (l, fresh)
  := by
  cases h : l.getLast? with
  | none =>
    obtain rfl := List.getLast?_eq_none_iff.mp h
    right
    simp [splitBack]
  | some b =>
    obtain ⟨init, rfl⟩ := List.getLast?_eq_some_iff.mp h
    by_cases hb : p b
    · left
      use init, b
      simp [splitBack, hb]
    · right
      simp [splitBack, hb]

theorem splitBack_map {β γ : Type*} (f : β → γ) (p : γ → Bool) (fresh : β) (l : List β) :
  splitBack p (f fresh) (l.map f)
    = ((splitBack (p ∘ f) fresh l).1.map f, f (splitBack (p ∘ f) fresh l).2)
  := by
  rcases splitBack_cases (p ∘ f) fresh l with ⟨init, b, rfl, hb, heq⟩ | ⟨hlast, heq⟩
  · rw [heq]
    simp only [Function.comp_apply] at hb
    simp [splitBack, hb]
  · rw [heq]
    cases h : l.getLast? with
    | none =>
      obtain rfl := List.getLast?_eq_none_iff.mp h
      rfl
    | some b =>
      have hb : ¬ p (f b) := hlast b h
      simp [splitBack, h, hb]

/-- Count something at a point of time. -/
def record (w : Window ι) (now : ℕ) (counts : ι → ℕ) : Window ι :=
  let w := w.expire now
  let back := splitBack (fun s => s.idx = now) ⟨now, 0⟩ w.slots
  { w with
    slots := back.1 ++ [{ back.2 with counts := back.2.counts + counts }]
    totals := w.totals + counts }

/-- The window with nothing counted. -/
def empty (span : ℕ) : Window ι :=
  { slots := [], totals := 0, span := span }

/-! ### Totals and slots -/

/-- The totals are the sums over the slots. -/
def Sound (w : Window ι) : Prop :=
  w.totals = sum w.slots

variable {w : Window ι}

theorem sound_empty (span : ℕ) :
  (empty span : Window ι).Sound
  := rfl

theorem Sound.expire (h : w.Sound) (now : ℕ) :
  (w.expire now).Sound
  := by
  have hsplit : w.totals = sum (w.slots.takeWhile fun s => s.idx + w.span ≤ now)
      + sum (w.slots.dropWhile fun s => s.idx + w.span ≤ now) := by
    rw [h, ← sum_append, List.takeWhile_append_dropWhile]
  rw [Sound, Window.expire]
  dsimp only
  rw [hsplit]
  apply add_tsub_cancel_left

theorem Sound.record (h : w.Sound) (now : ℕ) (counts : ι → ℕ) :
  (w.record now counts).Sound
  := by
  rw [Sound, Window.record]
  dsimp only
  rw [h.expire now]
  rcases splitBack_cases (fun s => decide (s.idx = now)) ⟨now, 0⟩ (w.expire now).slots with
    ⟨init, b, hslots, -, heq⟩ | ⟨-, heq⟩
  · rw [heq, hslots]
    simp [add_assoc]
  · rw [heq]
    simp

/-! ### A clock that never goes back -/

/-- What a log of counts has for one point of time. -/
def countsAt (log : List (Slot ι)) (k : ℕ) : ι → ℕ :=
  sum (log.filter fun e => e.idx = k)

theorem countsAt_cons (e : Slot ι) (log : List (Slot ι)) (k : ℕ) :
  countsAt (e :: log) k = (if e.idx = k then e.counts else 0) + countsAt log k
  := by
  by_cases h : e.idx = k <;> simp [countsAt, h]

theorem countsAt_concat (e : Slot ι) (log : List (Slot ι)) (k : ℕ) :
  countsAt (log ++ [e]) k = countsAt log k + if e.idx = k then e.counts else 0
  := by
  by_cases h : e.idx = k <;> simp [countsAt, h]

/-- A log has nothing for a point of time that none of its entries is of. -/
theorem countsAt_eq_zero {log : List (Slot ι)} {k : ℕ} (h : ∀ e ∈ log, e.idx ≠ k) :
  countsAt log k = 0
  := by
  have hfilter : log.filter (fun e => e.idx = k) = [] := by
    simpa using h
  rw [countsAt, hfilter, sum_nil]

/-- The slots are for different points of time and in their order, none of the future. -/
structure Ordered (slots : List (Slot ι)) (now : ℕ) : Prop where
  sorted : slots.Pairwise fun s s' => s.idx < s'.idx
  slot_past : ∀ s ∈ slots, s.idx ≤ now

/-- The slots hold what the log has for their points of time, and every point of time of the log
that is still in the window has a slot. -/
structure Tracks (span : ℕ) (slots log : List (Slot ι)) (now : ℕ) : Prop
    extends Ordered slots now where
  past : ∀ e ∈ log, e.idx ≤ now
  counts_eq : ∀ s ∈ slots, s.counts = countsAt log s.idx
  covers : ∀ e ∈ log, now < e.idx + span → ∃ s ∈ slots, s.idx = e.idx

variable {span now now' : ℕ} {slots log : List (Slot ι)}

namespace Ordered

theorem mono (h : Ordered slots now) (hle : now ≤ now') :
  Ordered slots now'
  := by
  refine ⟨h.sorted, ?_⟩
  intro s hs
  exact (h.slot_past s hs).trans hle

theorem sublist {slots' : List (Slot ι)} (h : Ordered slots now) (hsub : slots'.Sublist slots) :
  Ordered slots' now
  := ⟨h.sorted.sublist hsub, fun s hs => h.slot_past s (hsub.subset hs)⟩

theorem nodup (h : Ordered slots now) :
  (slots.map Slot.idx).Nodup
  := by
  rw [List.Nodup, List.pairwise_map]
  exact h.sorted.imp fun hlt => hlt.ne

/-- Those of the slots that stay are the ones still in the window. -/
theorem mem_dropWhile_iff (h : Ordered slots now') (s : Slot ι) :
  s ∈ slots.dropWhile (fun s => s.idx + span ≤ now) ↔ s ∈ slots ∧ now < s.idx + span
  := by
  induction slots with
  | nil => simp
  | cons t slots ih =>
    have hslots := h.sublist (List.sublist_cons_self t slots)
    have ht := (List.pairwise_cons.mp h.sorted).1
    by_cases hexp : t.idx + span ≤ now
    · rw [List.dropWhile_cons_of_pos (by simpa using hexp), ih hslots, List.mem_cons]
      constructor
      · rintro ⟨hs, hin⟩
        exact ⟨Or.inr hs, hin⟩
      · rintro ⟨rfl | hs, hin⟩
        · omega
        · exact ⟨hs, hin⟩
    · rw [List.dropWhile_cons_of_neg (by simpa using hexp), iff_self_and]
      intro hs
      rcases List.mem_cons.mp hs with rfl | hs
      · omega
      · have := ht s hs
        omega

/-- When the last slot is not of the present, none is. -/
theorem lt_of_getLast? (h : Ordered slots now) (hlast : ∀ b ∈ slots.getLast?, b.idx ≠ now) :
  ∀ s ∈ slots, s.idx < now
  := by
  intro s hs
  cases hslots : slots.getLast? with
  | none => simp [List.getLast?_eq_none_iff.mp hslots] at hs
  | some b =>
    obtain ⟨init, rfl⟩ := List.getLast?_eq_some_iff.mp hslots
    have hb : b.idx < now := by
      apply lt_of_le_of_ne (h.slot_past b (by simp)) (hlast b hslots)
    rcases List.mem_append.mp hs with hs | hs
    · have := (List.pairwise_append.mp h.sorted).2.2 s hs b (List.mem_singleton_self b)
      omega
    · rw [List.mem_singleton] at hs
      rw [hs]
      exact hb

/-- A slot of the present comes after slots of the past. -/
theorem concat (h : Ordered slots now) (hlt : ∀ s ∈ slots, s.idx < now) (counts : ι → ℕ) :
  Ordered (slots ++ [⟨now, counts⟩]) now
  := by
  constructor
  · rw [List.pairwise_append]
    refine ⟨h.sorted, List.pairwise_singleton _ _, ?_⟩
    intro s hs t ht
    rw [List.mem_singleton.mp ht]
    exact hlt s hs
  · intro s hs
    rcases List.mem_append.mp hs with hs | hs
    · exact h.slot_past s hs
    · rw [List.mem_singleton.mp hs]

theorem lt_of_concat {init : List (Slot ι)} {counts : ι → ℕ}
    (h : Ordered (init ++ [⟨now, counts⟩]) now) :
  ∀ s ∈ init, s.idx < now
  := fun s hs => (List.pairwise_append.mp h.sorted).2.2 s hs _ (List.mem_singleton_self _)

/-- What the slot of the present holds does not matter. -/
theorem setBack {init : List (Slot ι)} {counts : ι → ℕ}
    (h : Ordered (init ++ [⟨now, counts⟩]) now) (counts' : ι → ℕ) :
  Ordered (init ++ [⟨now, counts'⟩]) now
  := (h.sublist (List.sublist_append_left init _)).concat h.lt_of_concat counts'

/-- A slot for the present can be put at the end if it is not there. -/
theorem splitBack (h : Ordered slots now) :
  ∃ init counts, Window.splitBack (fun s => s.idx = now) ⟨now, 0⟩ slots = (init, ⟨now, counts⟩)
    ∧ Ordered (init ++ [⟨now, counts⟩]) now
    ∧ (slots = init ++ [⟨now, counts⟩]
      ∨ slots = init ∧ counts = 0 ∧ ∀ s ∈ slots, s.idx < now)
  := by
  rcases splitBack_cases (fun s : Slot ι => decide (s.idx = now)) ⟨now, 0⟩ slots with
    ⟨init, b, rfl, hb, heq⟩ | ⟨hlast, heq⟩
  · obtain rfl : b.idx = now := by simpa using hb
    exact ⟨init, b.counts, heq, h, Or.inl rfl⟩
  · have hlt := h.lt_of_getLast? (by simpa using hlast)
    exact ⟨slots, 0, heq, h.concat hlt 0, Or.inr ⟨rfl, rfl, hlt⟩⟩

end Ordered

namespace Tracks

theorem mono (h : Tracks span slots log now) (hle : now ≤ now') :
  Tracks span slots log now'
  where
  toOrdered := h.toOrdered.mono hle
  past e he := (h.past e he).trans hle
  counts_eq := h.counts_eq
  covers e he hin := h.covers e he (by omega)

/-- As time goes on, the expired slots are the ones whose points of time leave the window. -/
theorem dropWhile (h : Tracks span slots log now) (hle : now ≤ now') :
  Tracks span (slots.dropWhile fun s => s.idx + span ≤ now') log now'
  := by
  have hmono := h.mono hle
  constructor
  case toOrdered => exact hmono.sublist (List.dropWhile_sublist _)
  case past => exact hmono.past
  case counts_eq =>
    intro s hs
    exact h.counts_eq s ((h.mem_dropWhile_iff s).mp hs).1
  case covers =>
    intro e he hin
    obtain ⟨s, hs, hidx⟩ := hmono.covers e he hin
    use s, (h.mem_dropWhile_iff s).mpr ⟨hs, by omega⟩, hidx

/-- A slot for the present can be put at the end if it is not there. -/
theorem splitBack (h : Tracks span slots log now) (hspan : 0 < span) :
  ∃ init counts, Window.splitBack (fun s => s.idx = now) ⟨now, 0⟩ slots = (init, ⟨now, counts⟩)
    ∧ Tracks span (init ++ [⟨now, counts⟩]) log now
  := by
  obtain ⟨init, counts, heq, hord, rfl | ⟨rfl, rfl, hlt⟩⟩ := h.toOrdered.splitBack
  · exact ⟨init, counts, heq, h⟩
  · refine ⟨slots, 0, heq, ?_⟩
    constructor
    case toOrdered => exact hord
    case past => exact h.past
    case counts_eq =>
      intro s hs
      rcases List.mem_append.mp hs with hs | hs
      · exact h.counts_eq s hs
      · rw [List.mem_singleton.mp hs]
        -- an entry of the present would be in the window, and would have a slot
        symm
        apply countsAt_eq_zero
        intro e he hidx
        obtain ⟨s, hs, hs'⟩ := h.covers e he (by dsimp only at hidx; omega)
        have := hlt s hs
        dsimp only at hidx
        omega
    case covers =>
      intro e he hin
      obtain ⟨s, hs, hidx⟩ := h.covers e he hin
      use s, List.mem_append_left _ hs, hidx

/-- Something counted at the present goes to the slot of the present and to the log. -/
theorem concat {init : List (Slot ι)} {counts : ι → ℕ}
    (h : Tracks span (init ++ [⟨now, counts⟩]) log now) (counts' : ι → ℕ) :
  Tracks span (init ++ [⟨now, counts + counts'⟩]) (log ++ [⟨now, counts'⟩]) now
  := by
  constructor
  case toOrdered => exact h.setBack _
  case past =>
    intro e he
    rcases List.mem_append.mp he with he | he
    · exact h.past e he
    · rw [List.mem_singleton.mp he]
  case counts_eq =>
    intro s hs
    rw [countsAt_concat]
    rcases List.mem_append.mp hs with hs | hs
    · rw [if_neg (h.lt_of_concat s hs).ne', add_zero]
      exact h.counts_eq s (List.mem_append_left _ hs)
    · have hlast := h.counts_eq ⟨now, counts⟩ (by simp)
      rw [List.mem_singleton.mp hs, if_pos rfl, ← hlast]
  case covers =>
    intro e he hin
    rcases List.mem_append.mp he with he | he
    · obtain ⟨s, hs, hidx⟩ := h.covers e he hin
      rcases List.mem_append.mp hs with hs | hs
      · use s, List.mem_append_left _ hs, hidx
      · rw [List.mem_singleton.mp hs] at hidx
        exact ⟨⟨now, counts + counts'⟩, by simp, hidx⟩
    · rw [List.mem_singleton.mp he]
      exact ⟨⟨now, counts + counts'⟩, by simp, rfl⟩

end Tracks

theorem ordered_nil (now : ℕ) :
  Ordered ([] : List (Slot ι)) now
  := by
  constructor <;> simp

theorem tracks_nil (span now : ℕ) :
  Tracks span ([] : List (Slot ι)) [] now
  := by
  constructor
  case toOrdered => exact ordered_nil now
  all_goals simp

variable {w : Window ι}

theorem ordered_expire (h : Ordered w.slots now) (hle : now ≤ now') :
  Ordered (w.expire now').slots now'
  := (h.mono hle).sublist (List.dropWhile_sublist _)

theorem ordered_record (h : Ordered w.slots now) (hle : now ≤ now') (counts : ι → ℕ) :
  Ordered (w.record now' counts).slots now'
  := by
  obtain ⟨init, old, heq, hord, -⟩ := (ordered_expire h hle).splitBack
  have hslots : (w.record now' counts).slots = init ++ [⟨now', old + counts⟩] := by
    rw [Window.record]
    dsimp only
    rw [heq]
  rw [hslots]
  exact hord.setBack _

theorem tracks_expire (h : Tracks w.span w.slots log now) (hle : now ≤ now') :
  Tracks w.span (w.expire now').slots log now'
  := h.dropWhile hle

theorem tracks_record (h : Tracks w.span w.slots log now) (hspan : 0 < w.span) (hle : now ≤ now')
    (counts : ι → ℕ) :
  Tracks w.span (w.record now' counts).slots (log ++ [⟨now', counts⟩]) now'
  := by
  obtain ⟨init, old, heq, hopen⟩ := (tracks_expire h hle).splitBack hspan
  have hslots : (w.record now' counts).slots = init ++ [⟨now', old + counts⟩] := by
    rw [Window.record]
    dsimp only
    rw [heq]
  rw [hslots]
  exact hopen.concat counts

/-! ### Recounts -/

/-- A value at the slot of one point of time, summed over slots for different points of time. -/
theorem sum_map_ite (hslots : (slots.map Slot.idx).Nodup) (k : ℕ) (n : ℕ) :
  (slots.map fun s => if k = s.idx then n else 0).sum
    = if k ∈ slots.map Slot.idx then n else 0
  := by
  induction slots with
  | nil => rfl
  | cons s slots ih =>
    rw [List.map_cons, List.nodup_cons] at hslots
    rw [List.map_cons, List.sum_cons, ih hslots.2, List.map_cons]
    by_cases hs : k = s.idx
    · rw [hs, if_pos rfl, if_neg hslots.1, if_pos List.mem_cons_self, add_zero]
    · simp [hs]

/-- A sum over slots for different points of time, of what a log has for them, is a sum over the
entries of the log. -/
theorem sum_countsAt (hslots : (slots.map Slot.idx).Nodup) (log : List (Slot ι)) (i : ι) :
  (slots.map fun s => countsAt log s.idx i).sum
    = sum (log.filter fun e => e.idx ∈ slots.map Slot.idx) i
  := by
  induction log with
  | nil => simp [countsAt]
  | cons e log ih =>
    have hcons (s : Slot ι) : countsAt (e :: log) s.idx i
        = (if e.idx = s.idx then e.counts i else 0) + countsAt log s.idx i := by
      rw [countsAt_cons, Pi.add_apply, ite_apply, Pi.zero_apply]
    simp only [hcons, List.sum_map_add, sum_map_ite hslots, ih, List.filter_cons]
    by_cases he : e.idx ∈ slots.map Slot.idx
    · rw [if_pos he, if_pos (decide_eq_true he), sum_cons, Pi.add_apply]
    · rw [if_neg he, if_neg (by simpa using he), zero_add]

/-- After expiry the slots add up to the part of the log that is in the window. -/
theorem Tracks.sum_eq (h : Tracks span slots log now) (hin : ∀ s ∈ slots, now < s.idx + span) :
  sum slots = sum (log.filter fun e => now < e.idx + span)
  := by
  funext i
  have hcounts : (slots.map fun s => s.counts i) = slots.map fun s => countsAt log s.idx i := by
    apply List.map_congr_left
    intro s hs
    rw [h.counts_eq s hs]
  rw [sum, hcounts, sum_countsAt h.nodup]
  congr 1
  apply List.filter_congr
  intro e he
  rw [decide_eq_decide, List.mem_map]
  constructor
  · rintro ⟨s, hs, hidx⟩
    rw [← hidx]
    exact hin s hs
  · intro hwin
    exact h.covers e he hwin

/-- The totals after expiry are a recount of the part of the log that is in the window. -/
theorem totals_expire (hsound : w.Sound) (h : Tracks w.span w.slots log now) (hle : now ≤ now') :
  (w.expire now').totals = sum (log.filter fun e => now' < e.idx + w.span)
  := by
  rw [hsound.expire now']
  apply (tracks_expire h hle).sum_eq
  intro s hs
  exact ((h.mem_dropWhile_iff s).mp hs).2

/-- What the slots hold for a point of time in the window is what the log has for it. -/
theorem countsAt_expire (h : Tracks w.span w.slots log now) (hle : now ≤ now') {k : ℕ}
    (hk : now' < k + w.span) :
  countsAt (w.expire now').slots k = countsAt log k
  := by
  have h' := tracks_expire h hle
  by_cases hmem : ∃ s ∈ (w.expire now').slots, s.idx = k
  · obtain ⟨s, hs, rfl⟩ := hmem
    rw [← h'.counts_eq s hs]
    obtain ⟨init, rest, hslots⟩ := List.append_of_mem hs
    have hsorted := h'.sorted
    rw [hslots, List.pairwise_append, List.pairwise_cons] at hsorted
    have hinit : countsAt init s.idx = 0 := by
      apply countsAt_eq_zero
      intro e he
      exact (hsorted.2.2 e he s List.mem_cons_self).ne
    have hrest : countsAt rest s.idx = 0 := by
      apply countsAt_eq_zero
      intro e he
      exact (hsorted.2.1.1 e he).ne'
    have happ : countsAt (init ++ s :: rest) s.idx
        = countsAt init s.idx + countsAt (s :: rest) s.idx := by
      rw [countsAt, List.filter_append, sum_append]
      rfl
    rw [hslots, happ, countsAt_cons, hinit, hrest, if_pos rfl, zero_add, add_zero]
  · rw [countsAt_eq_zero, countsAt_eq_zero]
    · intro e he hidx
      apply hmem
      rw [← hidx]
      exact h'.covers e he (hidx ▸ hk)
    · intro s hs hidx
      exact hmem ⟨s, hs, hidx⟩

end Window
