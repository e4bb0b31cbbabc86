import AdBlock.Stats.Calls

/-!
# Denials and the traffic they are part of

If no call clears while a denial is being counted, and the clock stays within ten minutes between
the two records of a denial, then there are never more denials than traffic: in every snapshot, and
in the counters whenever no call is in progress (`blocked_le_traffic`).
-/

namespace Traffic

/-! ### What holds at any time -/

namespace World

/-- How many additions to a counter are left of all calls. -/
def owed (w : World) (c : CounterName) : ℕ :=
  (w.calls.map fun r => Traffic.owed c r.rest).sum

/-- How many more denials than traffic are left to record of all calls. -/
def due (w : World) (b t : Metric) : ℕ :=
  (w.calls.map fun r => Traffic.due b t r.rest).sum

/-- The history holds events, of which in any ten minutes there are no more denials than traffic,
also if those that are due are recorded now. -/
def Pairs (hours : ℕ) (w : World) : Prop :=
  ∃ h evs, w.history = some h ∧ History.Recorded hours h evs w.clock
    ∧ ∀ b t, trafficOf b = some t → ∀ k,
      History.eventsAt evs k b + (if k = w.clock / bucketSecs then w.due b t else 0)
        ≤ History.eventsAt evs k t

/-- What holds at any time. -/
structure Inv (hours : ℕ) (w : World) : Prop where
  asserted : ∀ r ∈ w.calls, r.call.Asserted
  apart : w.Quiet Call.isReset ∨ w.Quiet Call.isBlock
  counters {b t : Metric} (hbt : trafficOf b = some t) (hquiet : w.Quiet Call.isReset) :
    w.counters (counterOf b) + w.owed (counterOf b)
      ≤ w.counters (counterOf t) + w.owed (counterOf t)
  /-- A counter of denials that a call has cleared stays so until the call returns. -/
  cleared {b t : Metric} (hbt : trafficOf b = some t) : ∀ r ∈ w.calls, r.rest ≠ [] →
    r.call.isReset = true → .clear (counterOf b) ∉ r.rest → w.counters (counterOf b) = 0
  history : w.Pairs hours
  snapshots : ∀ s ∈ w.snapshots, BlockedWithin s.totals

variable {hours : ℕ} {w : World}

theorem inv_new (hours clock : ℕ) :
  (new hours clock).Inv hours
  where
  asserted := List.forall_mem_nil _
  apart := .inl (List.forall_mem_nil _)
  counters _ _ := le_rfl
  cleared _ := List.forall_mem_nil _
  history := by
    refine ⟨_, [], rfl, History.recorded_new hours clock, ?_⟩
    intro b t _ k
    simp [new, due, History.eventsAt, Window.countsAt]
  snapshots := List.forall_mem_nil _

theorem Inv.left (h : w.Inv hours) {r : Running} (hr : r ∈ w.calls) :
  Left r.call r.rest
  := left_of_suffix (h.asserted r hr) r.suffix

theorem Inv.owed_eq_zero (h : w.Inv hours) {b t : Metric} (hbt : trafficOf b = some t)
    (hquiet : w.Quiet Call.isBlock) :
  w.owed (counterOf b) = 0
  := by
  apply List.sum_eq_zero
  intro n hn
  obtain ⟨r, hr, rfl⟩ := List.mem_map.mp hn
  by_cases hrest : r.rest = []
  · rw [hrest]
    rfl
  · apply (h.left hr).owed_denial hbt (hquiet r hr hrest)

theorem Inv.due_eq_zero (h : w.Inv hours) {b t : Metric} (hbt : trafficOf b = some t)
    (hnone : ∀ r ∈ w.calls, ¬ BetweenRecords r) :
  w.due b t = 0
  := by
  apply List.sum_eq_zero
  intro n hn
  obtain ⟨r, hr, rfl⟩ := List.mem_map.mp hn
  by_contra hne
  apply hnone r hr ((h.left hr).due_pos hbt (Nat.pos_of_ne_zero hne))

theorem Inv.start (h : w.Inv hours) {call : Call} {excluded : Bool} (hasserted : call.Asserted)
    (hallows : w.Allows (.start call excluded)) :
  (w.step (.start call excluded)).Inv hours
  := by
  have howed (c : CounterName) : (w.step (.start call excluded)).owed c
      = w.owed c + Traffic.owed c (call.steps excluded) := by
    simp [owed, step]
  have hquiet {kind : Call → Bool} : (w.step (.start call excluded)).Quiet kind
      ↔ w.Quiet kind ∧ (call.steps excluded ≠ [] → kind call = false) := by
    simp [Quiet, step, or_imp, forall_and]
  constructor
  case asserted =>
    simpa [step, or_imp, forall_and] using ⟨h.asserted, hasserted⟩
  case apart =>
    rw [hquiet, hquiet]
    by_cases hsteps : call.steps excluded = []
    · simpa [hsteps] using h.apart
    · obtain ⟨hblock, hreset⟩ := hallows hsteps
      cases call with
      | countBlock b d => exact .inl ⟨hblock rfl, fun _ => rfl⟩
      | resetStats => exact .inr ⟨hreset rfl, fun _ => rfl⟩
      | count m d => exact h.apart.imp (⟨·, fun _ => rfl⟩) (⟨·, fun _ => rfl⟩)
      | countDnsError => exact h.apart.imp (⟨·, fun _ => rfl⟩) (⟨·, fun _ => rfl⟩)
  case counters =>
    intro b t hbt hreset
    have := h.counters hbt (hquiet.mp hreset).1
    have := owed_steps_le hbt hasserted excluded
    rw [howed, howed]
    change w.counters _ + _ ≤ w.counters _ + _
    omega
  case cleared =>
    intro b t hbt r hr hrest hkind hclear
    rcases List.mem_append.mp hr with hr | hr
    · apply h.cleared hbt r hr hrest hkind hclear
    · -- it starts with everything to clear
      rw [List.mem_singleton.mp hr] at hkind hclear
      cases call with
      | resetStats =>
        apply absurd _ hclear
        cases b <;> simp [Call.steps, Traffic.counters, counterOf]
      | count m d => cases hkind
      | countBlock b d => cases hkind
      | countDnsError => cases hkind
  case history =>
    obtain ⟨hist, evs, hhist, hrec, hle⟩ := h.history
    refine ⟨hist, evs, hhist, hrec, ?_⟩
    intro b t hbt k
    have hdue : (w.step (.start call excluded)).due b t = w.due b t := by
      simp [due, step, due_steps hbt hasserted]
    rw [hdue]
    apply hle b t hbt k
  case snapshots => exact h.snapshots

theorem Inv.tick (h : w.Inv hours) {secs : ℕ} (hallows : w.Allows (.tick secs)) :
  (w.step (.tick secs)).Inv hours
  := by
  constructor
  case asserted => exact h.asserted
  case apart => exact h.apart
  case counters => exact h.counters
  case cleared => exact h.cleared
  case history =>
    obtain ⟨hist, evs, hhist, hrec, hle⟩ := h.history
    refine ⟨hist, evs, hhist, hrec.mono (Nat.le_add_right _ _), ?_⟩
    intro b t hbt k
    have hk := hle b t hbt k
    rcases hallows with hsame | hnone
    · change _ + (if k = (w.clock + secs) / bucketSecs then w.due b t else 0) ≤ _
      rw [hsame]
      apply hk
    · -- no denial is between its records
      have hdue : (w.step (.tick secs)).due b t = 0 := h.due_eq_zero hbt hnone
      rw [hdue, ite_self]
      omega
  case snapshots => exact h.snapshots

theorem Inv.snapshot (h : w.Inv hours) :
  (w.step .snapshot).Inv hours
  := by
  obtain ⟨hist, evs, hhist, hrec, hle⟩ := h.history
  obtain ⟨s, hist', hsnap, hrec', htotals⟩ := hrec.snapshotAt
  have hstep : w.step .snapshot
      = { w with history := some hist', snapshots := w.snapshots ++ [s] } := by
    simp [step, hhist, hsnap]
  rw [hstep]
  constructor
  case asserted => exact h.asserted
  case apart => exact h.apart
  case counters => exact h.counters
  case cleared => exact h.cleared
  case history => exact ⟨hist', evs, rfl, hrec', hle⟩
  case snapshots =>
    rw [List.forall_mem_append, List.forall_mem_singleton]
    refine ⟨h.snapshots, htotals _ _ ?_, htotals _ _ ?_⟩
    · intro k
      have := hle .blocked .requests rfl k
      omega
    · intro k
      have := hle .dnsBlocked .dnsQueries rfl k
      omega

/-! ### A step of a call -/

/-- A call takes a step: it is one of those that were made, and has one step less left. -/
structure Moved (w : World) (op : Op) (w' : World) (r r' : Running) : Prop where
  rest : r.rest = op :: r'.rest
  call : r'.call = r.call
  calls : ∃ before after, w.calls = before ++ r :: after ∧ w'.calls = before ++ r' :: after
  counters : w'.counters = (w.perform op).counters
  history : w'.history = (w.perform op).history
  clock : w'.clock = w.clock
  snapshots : w'.snapshots = w.snapshots

theorem step_advance (w : World) (k : ℕ) :
  w.step (.advance k) = w ∨ ∃ op r r', w.Moved op (w.step (.advance k)) r r'
  := by
  cases hnext : w.calls[k]?.bind Running.next with
  | none =>
    left
    simp [step, hnext]
  | some next =>
    right
    obtain ⟨op, r'⟩ := next
    obtain ⟨r, hr, hop⟩ := Option.bind_eq_some_iff.mp hnext
    obtain ⟨hk, rfl⟩ := List.getElem?_eq_some_iff.mp hr
    obtain ⟨hrest, hcall⟩ := Running.next_eq_some hop
    have hstep : w.step (.advance k) = { w.perform op with calls := w.calls.set k r' } := by
      simp only [step, hnext]
    rw [hstep]
    refine ⟨op, w.calls[k], r', hrest, hcall, ⟨w.calls.take k, w.calls.drop (k + 1), ?_, ?_⟩, rfl,
      rfl, ?_, ?_⟩
    · rw [List.getElem_cons_drop, List.take_append_drop]
    · change w.calls.set k r' = _
      rw [List.set_eq_take_append_cons_drop, if_pos hk]
    · cases op <;> rfl
    · cases op <;> rfl

/-- While one call clears, none counts a denial. -/
theorem Inv.quiet_of_isReset (h : w.Inv hours) {x : Running} (hx : x ∈ w.calls)
    (hrest : x.rest ≠ []) (hreset : x.call.isReset = true) :
  w.Quiet Call.isBlock
  := by
  apply h.apart.resolve_left
  intro hquiet
  rw [hquiet x hx hrest] at hreset
  cases hreset

namespace Moved

variable {op : Op} {w' : World} {r r' : Running}

theorem mem (hm : w.Moved op w' r r') :
  r ∈ w.calls
  := by
  obtain ⟨before, after, hcalls, -⟩ := hm.calls
  simp [hcalls]

theorem mem' (hm : w.Moved op w' r r') :
  r' ∈ w'.calls
  := by
  obtain ⟨before, after, -, hcalls⟩ := hm.calls
  simp [hcalls]

theorem inProgress (hm : w.Moved op w' r r') :
  r.rest ≠ []
  := by
  rw [hm.rest]
  apply List.cons_ne_nil

/-- The other calls are as they were. -/
theorem mem_or (hm : w.Moved op w' r r') {x : Running} (hx : x ∈ w'.calls) :
  x = r' ∨ x ∈ w.calls
  := by
  obtain ⟨before, after, hcalls, hcalls'⟩ := hm.calls
  rw [hcalls'] at hx
  rw [hcalls]
  simp only [List.mem_append, List.mem_cons] at hx ⊢
  tauto

theorem mem_or' (hm : w.Moved op w' r r') {x : Running} (hx : x ∈ w.calls) :
  x = r ∨ x ∈ w'.calls
  := by
  obtain ⟨before, after, hcalls, hcalls'⟩ := hm.calls
  rw [hcalls] at hx
  rw [hcalls']
  simp only [List.mem_append, List.mem_cons] at hx ⊢
  tauto

theorem owed (hm : w.Moved op w' r r') (c : CounterName) :
  w'.owed c + (if op = .fetchAdd c then 1 else 0) = w.owed c
  := by
  obtain ⟨before, after, hcalls, hcalls'⟩ := hm.calls
  simp only [World.owed, hcalls, hcalls', List.map_append, List.map_cons, List.sum_append,
    List.sum_cons, hm.rest, owed_cons]
  omega

theorem due (hm : w.Moved op w' r r') (b t : Metric) :
  w'.due b t + Traffic.due b t (op :: r'.rest) = w.due b t + Traffic.due b t r'.rest
  := by
  obtain ⟨before, after, hcalls, hcalls'⟩ := hm.calls
  simp only [World.due, hcalls, hcalls', List.map_append, List.map_cons, List.sum_append,
    List.sum_cons, hm.rest]
  omega

theorem quiet (hm : w.Moved op w' r r') {kind : Call → Bool} (h : w.Quiet kind) :
  w'.Quiet kind
  := by
  intro x hx hxrest
  rcases hm.mem_or hx with rfl | hx
  · rw [hm.call]
    apply h r hm.mem hm.inProgress
  · apply h x hx hxrest

theorem of_quiet (hm : w.Moved op w' r r') {kind : Call → Bool} (h : w'.Quiet kind)
    (hkind : kind r.call = false) :
  w.Quiet kind
  := by
  intro x hx hxrest
  rcases hm.mem_or' hx with rfl | hx
  · exact hkind
  · apply h x hx hxrest

theorem asserted (hm : w.Moved op w' r r') (h : w.Inv hours) :
  ∀ x ∈ w'.calls, x.call.Asserted
  := by
  intro x hx
  rcases hm.mem_or hx with rfl | hx
  · rw [hm.call]
    apply h.asserted r hm.mem
  · apply h.asserted x hx

theorem left (hm : w.Moved op w' r r') (h : w.Inv hours) :
  Left r.call (op :: r'.rest)
  := hm.rest ▸ h.left hm.mem

/-- A step keeps what holds if it does so for the counters and for the history. -/
theorem inv (hm : w.Moved op w' r r') (h : w.Inv hours)
    (hcounters : ∀ {b t}, trafficOf b = some t → w'.Quiet Call.isReset →
      w'.counters (counterOf b) + w'.owed (counterOf b)
        ≤ w'.counters (counterOf t) + w'.owed (counterOf t))
    (hcleared : ∀ {b t}, trafficOf b = some t → ∀ x ∈ w'.calls, x.rest ≠ [] →
      x.call.isReset = true → .clear (counterOf b) ∉ x.rest → w'.counters (counterOf b) = 0)
    (hhistory : w'.Pairs hours) :
  w'.Inv hours
  where
  asserted := hm.asserted h
  apart := h.apart.imp hm.quiet hm.quiet
  counters := hcounters
  cleared := hcleared
  history := hhistory
  snapshots := hm.snapshots ▸ h.snapshots

/-- A step of which the history knows nothing keeps what holds of it. -/
theorem pairs (hm : w.Moved op w' r r') (h : w.Inv hours) (hhistory : w'.history = w.history)
    (hdue : ∀ b t, Traffic.due b t (op :: r'.rest) = Traffic.due b t r'.rest) :
  w'.Pairs hours
  := by
  obtain ⟨hist, evs, hhist, hrec, hle⟩ := h.history
  rw [Pairs, hhistory, hm.clock]
  refine ⟨hist, evs, hhist, hrec, ?_⟩
  intro b t hbt k
  have hsame := hm.due b t
  rw [hdue, Nat.add_right_cancel_iff] at hsame
  rw [hsame]
  apply hle b t hbt k

/-- A counter of denials that is cleared stays so while a call adds nothing to it. -/
theorem cleared (hm : w.Moved op w' r r') (h : w.Inv hours) (hreset : r.call.isReset = false)
    {b t : Metric} (hbt : trafficOf b = some t)
    (hcounter : r.call.isBlock = false → w'.counters (counterOf b) = w.counters (counterOf b)) :
  ∀ x ∈ w'.calls, x.rest ≠ [] → x.call.isReset = true → .clear (counterOf b) ∉ x.rest →
    w'.counters (counterOf b) = 0
  := by
  intro x hx hxrest hkind hclear
  rcases hm.mem_or hx with rfl | hx
  · rw [hm.call, hreset] at hkind
    cases hkind
  -- a denial is not counted while everything is cleared
  rw [hcounter (h.quiet_of_isReset hx hxrest hkind r hm.mem hm.inProgress)]
  apply h.cleared hbt x hx hxrest hkind hclear

end Moved

variable {w' : World} {r r' : Running}

theorem Inv.fetchAdd (h : w.Inv hours) {c : CounterName} (hm : w.Moved (.fetchAdd c) w' r r') :
  w'.Inv hours
  := by
  have hreset : r.call.isReset = false := (hm.left h).not_reset nofun nofun
  apply hm.inv h
  case hcounters =>
    intro b t hbt hquiet
    -- what is added to a counter is not owed any more
    have hsum (x : CounterName) : w'.counters x + w'.owed x = w.counters x + w.owed x := by
      rw [hm.counters, ← hm.owed x, perform]
      by_cases hx : c = x
      · rw [hx, if_pos rfl]
        dsimp only
        rw [Function.update_self]
        omega
      · rw [if_neg (by simpa using hx)]
        dsimp only
        rw [Function.update_of_ne (Ne.symm hx), Nat.add_zero]
    rw [hsum, hsum]
    apply h.counters hbt (hm.of_quiet hquiet hreset)
  case hcleared =>
    intro b t hbt
    apply hm.cleared h hreset hbt
    intro hblock
    have howed := (hm.left h).owed_denial hbt hblock
    have hne : counterOf b ≠ c := by
      rintro rfl
      simp at howed
    rw [hm.counters, perform]
    apply Function.update_of_ne hne
  case hhistory => exact hm.pairs h hm.history fun _ _ => rfl

/-- A record of traffic may be for a denial that is due then, and a record of a denial is for one
that was due. -/
theorem Inv.record (h : w.Inv hours) {m : Metric} {d : Text}
    (hm : w.Moved (.record m d) w' r r') :
  w'.Inv hours
  := by
  have hreset : r.call.isReset = false := (hm.left h).not_reset nofun nofun
  apply hm.inv h
  case hcounters =>
    intro b t hbt hquiet
    have hle := h.counters hbt (hm.of_quiet hquiet hreset)
    rw [← hm.owed, ← hm.owed] at hle
    rw [hm.counters]
    exact hle
  case hcleared =>
    intro b t hbt
    apply hm.cleared h hreset hbt
    intro _
    rw [hm.counters, perform]
  case hhistory =>
    obtain ⟨hist, evs, hhist, hrec, hle⟩ := h.history
    obtain ⟨hist', hrecord, hrec'⟩ := hrec.recordAt m d
    rw [Pairs, hm.history, hm.clock]
    refine ⟨hist', _, ?_, hrec', ?_⟩
    · rw [perform]
      dsimp only
      rw [hhist, Option.bind_some, hrecord]
    · intro b t hbt k
      have hk := hle b t hbt k
      have hdue := hm.due b t
      have hne := ne_traffic hbt
      rw [History.eventsAt_concat, History.eventsAt_concat]
      dsimp only
      by_cases hnow : w.clock / bucketSecs = k
      · subst hnow
        simp only [true_and, if_true] at hk ⊢
        rw [Traffic.due, Traffic.due, noted_record, noted_record] at hdue
        by_cases hb : b = m
        · -- nothing is left after the denial
          subst hb
          rw [(hm.left h).record_denial hbt] at hdue
          simp only [if_true, hne, Ne.symm hne, if_false, noted_nil] at hdue ⊢
          omega
        · simp only [Ne.symm hb, hb, if_false] at hdue ⊢
          by_cases ht : t = m
          · simp only [ht, if_true] at hdue hk ⊢
            omega
          · simp only [Ne.symm ht, ht, if_false] at hdue ⊢
            omega
      · rw [if_neg (Ne.symm hnow)] at hk ⊢
        simpa [hnow] using hk

theorem Inv.clear (h : w.Inv hours) {c : CounterName} (hm : w.Moved (.clear c) w' r r') :
  w'.Inv hours
  := by
  obtain ⟨hcall, hrest⟩ := (hm.left h).clear
  apply hm.inv h
  case hcounters =>
    intro b t hbt hquiet
    have hreset := hquiet r' hm.mem' hrest
    rw [hm.call, hcall] at hreset
    cases hreset
  case hcleared =>
    intro b t hbt x hx hxrest hkind hclear
    rw [hm.counters, perform]
    dsimp only
    rw [Function.update_apply]
    split
    · rfl
    · rename_i hne
      rcases hm.mem_or hx with rfl | hx
      · apply h.cleared hbt r hm.mem hm.inProgress
        · rw [hcall]
          rfl
        · rw [hm.rest, List.mem_cons, not_or]
          exact ⟨by simpa using hne, hclear⟩
      · apply h.cleared hbt x hx hxrest hkind hclear
  case hhistory => exact hm.pairs h hm.history fun _ _ => rfl

/-- When everything is cleared, there are no denials, and none is due. -/
theorem Inv.resetHistory (h : w.Inv hours) (hm : w.Moved .resetHistory w' r r') :
  w'.Inv hours
  := by
  obtain ⟨hcall, hrest⟩ := (hm.left h).resetHistory
  have hkind : r.call.isReset = true := by
    rw [hcall]
    rfl
  have hblock := h.quiet_of_isReset hm.mem hm.inProgress hkind
  apply hm.inv h
  case hcounters =>
    intro b t hbt _
    have hzero := h.cleared hbt r hm.mem hm.inProgress hkind (by rw [hm.rest, hrest]; simp)
    have howed := h.owed_eq_zero hbt hblock
    rw [← hm.owed] at howed
    rw [hm.counters]
    change w.counters _ + _ ≤ w.counters _ + _
    omega
  case hcleared =>
    intro b t hbt x hx hxrest hkind hclear
    rcases hm.mem_or hx with rfl | hx
    · exact absurd hrest hxrest
    rw [hm.counters]
    apply h.cleared hbt x hx hxrest hkind hclear
  case hhistory =>
    obtain ⟨hist, evs, hhist, hrec, -⟩ := h.history
    rw [Pairs, hm.history, hm.clock]
    refine ⟨hist.reset, [], ?_, hrec.reset, ?_⟩
    · rw [perform]
      dsimp only
      rw [hhist]
      rfl
    · intro b t hbt k
      have hnone : ∀ x ∈ w.calls, ¬ BetweenRecords x := by
        rintro x hx ⟨hxblock, hxrest, -⟩
        rw [hblock x hx hxrest] at hxblock
        cases hxblock
      have hdue := hm.due b t
      rw [h.due_eq_zero hbt hnone, hrest] at hdue
      have hzero : w'.due b t = 0 := Nat.eq_zero_of_add_eq_zero_right hdue
      rw [hzero, ite_self]
      rfl

theorem Inv.advance (h : w.Inv hours) (k : ℕ) :
  (w.step (.advance k)).Inv hours
  := by
  rcases step_advance w k with hsame | ⟨op, r, r', hm⟩
  · rw [hsame]
    exact h
  · cases op with
    | fetchAdd c => exact h.fetchAdd hm
    | record m d => exact h.record hm
    | clear c => exact h.clear hm
    | resetHistory => exact h.resetHistory hm

theorem Inv.step (h : w.Inv hours) {a : Action} (hasserted : a.Asserted) (hallows : w.Allows a) :
  (w.step a).Inv hours
  := by
  cases a with
  | start call excluded => exact h.start hasserted hallows
  | advance k => exact h.advance k
  | tick secs => exact h.tick hallows
  | snapshot => exact h.snapshot

theorem Inv.run (h : w.Inv hours) {actions : List Action}
    (hasserted : ∀ a ∈ actions, a.Asserted) (hcalm : w.Calm actions) :
  (w.run actions).Inv hours
  := by
  induction actions generalizing w with
  | nil => exact h
  | cons a actions ih =>
    obtain ⟨hallows, hcalm⟩ := hcalm
    rw [List.forall_mem_cons] at hasserted
    apply ih (h.step hasserted.1 hallows) hasserted.2 hcalm

/-! ### Runs -/

theorem counters_step_le (w : World) (a : Action) (c : CounterName) :
  (w.step a).counters c ≤ w.counters c + 1
  := by
  cases a with
  | start call excluded => apply Nat.le_succ
  | tick secs => apply Nat.le_succ
  | snapshot =>
    rw [step]
    split
    · apply Nat.le_succ
    · apply Nat.le_succ
  | advance k =>
    rcases step_advance w k with hsame | ⟨op, r, r', hm⟩
    · rw [hsame]
      apply Nat.le_succ
    · rw [hm.counters]
      cases op with
      | fetchAdd c' =>
        simp only [perform, Function.update_apply]
        split
        · next h => rw [h]
        · apply Nat.le_succ
      | record m d => apply Nat.le_succ
      | clear c' =>
        simp only [perform, Function.update_apply]
        split
        · apply Nat.zero_le
        · apply Nat.le_succ
      | resetHistory => apply Nat.le_succ

/-- No counter grows faster than things happen. -/
theorem counters_run_le (w : World) (actions : List Action) (c : CounterName) :
  (w.run actions).counters c ≤ w.counters c + actions.length
  := by
  induction actions generalizing w with
  | nil => apply Nat.le_refl
  | cons a actions ih =>
    have hstep := counters_step_le w a c
    have hrun := ih (w.step a)
    change ((w.step a).run actions).counters c ≤ _
    rw [List.length_cons]
    omega

theorem toNat_stored {hours clock : ℕ} {actions : List Action} (h : actions.length < 2 ^ 64)
    (c : CounterName) :
  (((new hours clock).run actions).stored c).toNat = ((new hours clock).run actions).counters c
  := by
  apply UInt64.toNat_ofNat_of_lt'
  apply lt_of_le_of_lt (counters_run_le _ actions c)
  rwa [new, Nat.zero_add]

/-- There are never more denials than traffic, also not in the counters as they are kept, unless
they wrap around. -/
theorem blocked_le_traffic {hours clock : ℕ} {actions : List Action}
    (hasserted : ∀ a ∈ actions, a.Asserted) (hcalm : (new hours clock).Calm actions) :
  ((new hours clock).run actions).history ≠ none
    ∧ (∀ s ∈ ((new hours clock).run actions).snapshots, BlockedWithin s.totals)
    ∧ (((new hours clock).run actions).Idle →
      BlockedWithin (((new hours clock).run actions).counters ∘ counterOf)
        ∧ (actions.length < 2 ^ 64 →
          BlockedWithin fun m => (((new hours clock).run actions).stored (counterOf m)).toNat))
  := by
  have h := (inv_new hours clock).run hasserted hcalm
  obtain ⟨hist, evs, hhist, -⟩ := h.history
  refine ⟨by rw [hhist]; nofun, h.snapshots, ?_⟩
  intro hidle
  have howed (c : CounterName) : ((new hours clock).run actions).owed c = 0 := by
    apply List.sum_eq_zero
    intro n hn
    obtain ⟨r, hr, rfl⟩ := List.mem_map.mp hn
    rw [hidle r hr]
    rfl
  have hquiet : ((new hours clock).run actions).Quiet Call.isReset := by
    intro r hr hrest
    exact absurd (hidle r hr) hrest
  have hle {b t : Metric} (hbt : trafficOf b = some t) :
      ((new hours clock).run actions).counters (counterOf b)
        ≤ ((new hours clock).run actions).counters (counterOf t) := by
    have := h.counters hbt hquiet
    rw [howed, howed] at this
    exact this
  refine ⟨⟨hle rfl, hle rfl⟩, ?_⟩
  intro hfew
  simp only [BlockedWithin, toNat_stored hfew]
  exact ⟨hle rfl, hle rfl⟩

/-- A denial, and between two of its steps a request and a snapshot; then everything is cleared. -/
def calmDay : List Action :=
  [.start (.countBlock .blocked "ads.example".toList) false, .advance 0, .advance 0,
    .start (.count .requests "news.example".toList) false, .advance 1, .snapshot, .advance 0,
    .tick 599, .advance 0, .advance 1, .tick 86400, .snapshot, .start .resetStats false]
    ++ List.replicate 8 (.advance 2)

theorem blocked_le_traffic_calmDay :
  ((new 24 0).run calmDay).Idle
    ∧ BlockedWithin (((new 24 0).run calmDay).counters ∘ counterOf)
    ∧ BlockedWithin fun m => (((new 24 0).run calmDay).stored (counterOf m)).toNat
  := by
  have hidle : ((new 24 0).run calmDay).Idle := by decide +kernel
  use hidle
  obtain ⟨hcounters, hstored⟩ :=
    (blocked_le_traffic (by decide +kernel) (by decide +kernel)).2.2 hidle
  exact ⟨hcounters, hstored (by decide +kernel)⟩

/-- Everything is cleared between the two halves of a denial. -/
def clearedBetween : World :=
  (new 24 0).run ([.start (.countBlock .blocked "ads.example".toList) false, .advance 0,
    .advance 0, .start .resetStats false] ++ List.replicate 8 (.advance 1)
    ++ [.advance 0, .advance 0, .snapshot])

/-- The traffic of a denial is recorded in the last second of ten minutes, and leaves the window
ten minutes before the denial. -/
def recordedLater : World :=
  (new 24 599).run [.start (.countBlock .blocked "ads.example".toList) false, .advance 0,
    .advance 0, .tick 1, .advance 0, .advance 0, .tick 85800, .snapshot]

/-- There is a denial without traffic: in the counters and in a snapshot after everything is cleared
between the two halves, and in a snapshot a day after the records fall into different times. -/
theorem blocked_le_traffic_between :
  clearedBetween.Idle ∧ clearedBetween.counters .blockedTotal = 1
    ∧ clearedBetween.counters .requestsTotal = 0
    ∧ clearedBetween.snapshots.map (fun s => (s.totals .blocked, s.totals .requests)) = [(1, 0)]
    ∧ recordedLater.Idle
    ∧ recordedLater.snapshots.map (fun s => (s.totals .blocked, s.totals .requests)) = [(1, 0)]
  := by
  decide +kernel

end World

end Traffic
