import AdBlock.Stats.SharedState

/-!
# Numbers after a restart

On a restart the numbers go on above those of the newest line of each log.  If requests and
queries were sent to their logs in the order of their numbers, that is above every line on disk
(`restart_above`).  The lines with details are in any order, but each has the number of a request
that was sent before.  Taking a number and sending the line are two steps, so nothing keeps two
recorders from sending in another order (`restart_reused`).
-/

namespace SharedState

variable {S : SerdeJson}

/-- A number is above those of all lines in the files of a log and on their way to it. -/
def Above (S : SerdeJson) (ch : LogChannel) (seq : ℕ) : Prop :=
  ∀ line ∈ ch.log.newestFirst ++ ch.queue.map Prod.snd, ∀ s ∈ lineSeq S line, s < seq

instance (ch : LogChannel) (seq : ℕ) : Decidable (Above S ch seq) :=
  inferInstanceAs (Decidable (∀ line ∈ _, ∀ s, s ∈ lineSeq S line → s < seq))

/-- A request or a query is only sent above what was sent to its log before. -/
def InOrder (S : SerdeJson) (st : SharedState) : Action → Prop
  | .sendRequest i => ∀ record ∈ st.begun[i]?, Above S (st.logs .requestLog) record.seq.toNat
  | .sendQuery i => ∀ record ∈ st.asked[i]?, Above S (st.logs .queryLog) record.seq.toNat
  | _ => True

instance (st : SharedState) (a : Action) : Decidable (InOrder S st a) := by
  cases a <;> unfold InOrder <;> infer_instance

/-- Every step of a run sends in order. -/
def RunInOrder (S : SerdeJson) : SharedState → List Action → Prop
  | _, [] => True
  | st, a :: actions => InOrder S st a ∧ ∀ st' ∈ step S st a, RunInOrder S st' actions

instance decidableRunInOrder :
    (st : SharedState) → (actions : List Action) → Decidable (RunInOrder S st actions)
  | _, [] => .isTrue trivial
  | st, a :: actions =>
      have (st' : SharedState) := decidableRunInOrder st' actions
      inferInstanceAs (Decidable (InOrder S st a ∧ ∀ st' ∈ step S st a, _))

/-! ### What a step sends -/

variable {st st' : SharedState} {a : Action} {l : Logged} {lines : LogName → List Logged}

theorem above_of_sent (h : InOrder S st a) (hsent : st.sent a = some l)
    (hl : l.log ≠ .requestDetail) :
  Above S (st.logs l.log) l.seq
  := by
  cases a with
  | sendRequest i =>
    obtain ⟨record, hrecord, rfl⟩ := Option.map_eq_some_iff.mp hsent
    exact h record hrecord
  | sendQuery i =>
    obtain ⟨record, hrecord, rfl⟩ := Option.map_eq_some_iff.mp hsent
    exact h record hrecord
  | dropExchange i =>
    obtain ⟨record, -, hdetail⟩ := Option.bind_eq_some_iff.mp hsent
    obtain ⟨d, -, rfl⟩ := Option.map_eq_some_iff.mp hdetail
    exact absurd rfl hl
  | _ => cases hsent

theorem seq_fromRecord {record : RequestRecord} {d : RequestDetail}
    (h : RequestDetail.fromRecord record = some d) :
  d.seq = record.seq
  := by
  rw [RequestDetail.fromRecord] at h
  split at h
  · cases h
  · cases h
    rfl

theorem exchange_of_sent (hsent : st.sent a = some l) (hl : l.log = .requestDetail) :
  ∃ record ∈ st.exchanges, l.seq = record.seq.toNat
  := by
  cases a with
  | sendRequest i =>
    obtain ⟨record, -, rfl⟩ := Option.map_eq_some_iff.mp hsent
    cases hl
  | sendQuery i =>
    obtain ⟨record, -, rfl⟩ := Option.map_eq_some_iff.mp hsent
    cases hl
  | dropExchange i =>
    obtain ⟨record, hrecord, hdetail⟩ := Option.bind_eq_some_iff.mp hsent
    obtain ⟨d, hd, rfl⟩ := Option.map_eq_some_iff.mp hdetail
    use record, List.mem_of_getElem? hrecord
    rw [Logged.seq, seq_fromRecord hd]
  | _ => cases hsent

theorem seq_apply (slot : CaptureSlot) (record : RequestRecord) (text : Text) :
  (slot.apply record text).seq = record.seq
  := by
  cases slot <;> rfl

/-- An exchange that is open after a step was open before, with the same number, or is that of
the request that the step sends. -/
theorem exchanges_step (hstep : step S st a = some st') :
  ∀ record' ∈ st'.exchanges, (∃ record ∈ st.exchanges, record'.seq = record.seq)
    ∨ st.sent a = some (.request record')
  := by
  intro record' hrecord'
  cases a with
  | begin | recordDns | setRotateHours =>
    cases hstep
    exact .inl ⟨record', hrecord', rfl⟩
  | sendRequest i =>
    obtain ⟨record, hrecord, hst⟩ := Option.bind_eq_some_iff.mp hstep
    cases hst
    rcases List.mem_append.mp hrecord' with hmem | hmem
    · exact .inl ⟨record', hmem, rfl⟩
    · rw [List.mem_singleton.mp hmem, sent, hrecord]
      exact .inr rfl
  | sendQuery i =>
    obtain ⟨record, hrecord, hst⟩ := Option.bind_eq_some_iff.mp hstep
    cases hst
    exact .inl ⟨record', hrecord', rfl⟩
  | attach i slot text =>
    obtain ⟨record, hrecord, hst⟩ := Option.bind_eq_some_iff.mp hstep
    cases hst
    rcases List.mem_or_eq_of_mem_set hrecord' with hmem | rfl
    · exact .inl ⟨record', hmem, rfl⟩
    · exact .inl ⟨record, List.mem_of_getElem? hrecord, seq_apply slot record text⟩
  | dropExchange i =>
    obtain ⟨record, hrecord, hst⟩ := Option.bind_eq_some_iff.mp hstep
    cases hst
    exact .inl ⟨record', List.mem_of_mem_eraseIdx hrecord', rfl⟩
  | write name =>
    obtain ⟨ch, hch, hst⟩ := Option.bind_eq_some_iff.mp hstep
    cases hst
    exact .inl ⟨record', hrecord', rfl⟩
  | restart rotateHours =>
    obtain ⟨hflushed, hst⟩ := Option.ite_none_right_eq_some.mp hstep
    cases hst
    cases hrecord'

/-! ### The order of the lines -/

/-- A number is reached by some line. -/
def Reached (ls : List Logged) (seq : ℕ) : Prop :=
  ∃ l ∈ ls, seq ≤ l.seq

/-- The numbers of a log increase. -/
def Increasing (ls : List Logged) : Prop :=
  ls.Pairwise fun l l' => l.seq < l'.seq

theorem Increasing.reached_getLast {ls : List Logged} (h : Increasing ls) {seq : ℕ}
    (hreached : Reached ls seq) :
  ∃ last ∈ ls.getLast?, seq ≤ last.seq
  := by
  obtain ⟨l, hl, hle⟩ := hreached
  cases ls using List.reverseRecOn with
  | nil => cases hl
  | append_singleton ls last =>
    use last, List.getLast?_concat
    rcases List.mem_append.mp hl with hl | hl
    · have := (List.pairwise_append.mp h).2.2 l hl last (List.mem_singleton_self last)
      omega
    · rwa [List.mem_singleton.mp hl] at hle

theorem Reached.keeps {ls ls' : List Logged} {seq : ℕ} (hreached : Reached ls seq)
    (h : Increasing ls) (hkeeps : Keeps ls ls') :
  Reached ls' seq
  := by
  obtain ⟨last, hlast, hle⟩ := h.reached_getLast hreached
  rw [← hkeeps.getLast?] at hlast
  exact ⟨last, List.mem_of_getLast? hlast, hle⟩

theorem lt_of_above (hS : S.Lawful) {name : LogName} {ch : LogChannel} {ls : List Logged}
    (h : Backs S name ch ls) {seq : ℕ} (habove : Above S ch seq) :
  ∀ l ∈ ls, l.seq < seq
  := by
  intro l hl
  apply habove (l.line S) _ l.seq (l.lineSeq_line hS)
  obtain ⟨⟨g, queued, hholds, hqueue, rfl⟩, -⟩ := h
  rw [hholds.newestFirst hS, hqueue]
  rcases List.mem_append.mp hl with hl | hl
  · exact List.mem_append_left _ (List.mem_reverse.mpr (List.mem_map_of_mem hl))
  · apply List.mem_append_right
    rw [List.map_map]
    exact List.mem_map_of_mem hl

/-- The numbers of requests and queries increase, and each exchange and each line with details
has a number that is reached by the requests. -/
structure Ordered (st : SharedState) (lines : LogName → List Logged) : Prop where
  increasing : ∀ name, name ≠ .requestDetail → Increasing (lines name)
  details : ∀ l ∈ lines .requestDetail, Reached (lines .requestLog) l.seq
  exchanges : ∀ record ∈ st.exchanges, Reached (lines .requestLog) record.seq.toNat

theorem ordered_start (rotate : ℕ) :
  Ordered (start S rotate) (fun _ => [])
  where
  increasing _ _ := List.Pairwise.nil
  details := List.forall_mem_nil _
  exchanges := List.forall_mem_nil _

theorem mem_withSent {l' : Option Logged} {name : LogName} :
  l ∈ withSent lines l' name ↔ l ∈ lines name ∨ (l' = some l ∧ l.log = name)
  := by
  rw [withSent, List.mem_append, List.mem_filter, Option.mem_toList, decide_eq_true_iff]

theorem Ordered.increasing_withSent (hS : S.Lawful) (h : Ordered st lines)
    (hrecorded : Recorded S st lines) (horder : InOrder S st a) {name : LogName}
    (hname : name ≠ .requestDetail) :
  Increasing (withSent lines (st.sent a) name)
  := by
  rw [Increasing, withSent, List.pairwise_append]
  refine ⟨h.increasing name hname, ?_, ?_⟩
  · apply List.Pairwise.filter
    cases st.sent a <;> simp
  · intro l hl l' hl'
    obtain ⟨hsent, hlog⟩ := List.mem_filter.mp hl'
    obtain rfl : l'.log = name := of_decide_eq_true hlog
    have habove := above_of_sent horder (Option.mem_toList.mp hsent) hname
    exact lt_of_above hS (hrecorded _) habove l hl

theorem Ordered.step (hS : S.Lawful) {lines' : LogName → List Logged} (h : Ordered st lines)
    (hrecorded : Recorded S st lines) (horder : InOrder S st a)
    (hstep : SharedState.step S st a = some st')
    (hkeeps : ∀ name, Keeps (withSent lines (st.sent a) name) (lines' name)) :
  Ordered st' lines'
  := by
  have hincr {name : LogName} (hname : name ≠ .requestDetail) :=
    h.increasing_withSent hS hrecorded horder hname
  have hreached {seq : ℕ} (hseq : Reached (lines .requestLog) seq) :
      Reached (lines' .requestLog) seq := by
    obtain ⟨l, hl, hle⟩ := hseq
    exact Reached.keeps ⟨l, mem_withSent.mpr (.inl hl), hle⟩ (hincr (by decide)) (hkeeps _)
  constructor
  · intro name hname
    exact (hincr hname).sublist (hkeeps name).suffix.sublist
  · intro l hl
    rcases mem_withSent.mp ((hkeeps _).suffix.mem hl) with hl | ⟨hsent, hlog⟩
    · exact hreached (h.details l hl)
    · obtain ⟨record, hrecord, hseq⟩ := exchange_of_sent hsent hlog
      rw [hseq]
      exact hreached (h.exchanges record hrecord)
  · intro record' hrecord'
    rcases exchanges_step hstep record' hrecord' with ⟨record, hrecord, hseq⟩ | hsent
    · rw [hseq]
      exact hreached (h.exchanges record hrecord)
    · apply Reached.keeps _ (hincr (by decide)) (hkeeps _)
      exact ⟨.request record', mem_withSent.mpr (.inr ⟨hsent, rfl⟩), le_rfl⟩

theorem run_ordered (hS : S.Lawful) {actions : List Action} (hrecorded : Recorded S st lines)
    (h : Ordered st lines) (horder : RunInOrder S st actions)
    (hrun : run S st actions = some st') :
  ∃ lines', Recorded S st' lines' ∧ Ordered st' lines'
  := by
  induction actions generalizing st lines with
  | nil => cases hrun; exact ⟨lines, hrecorded, h⟩
  | cons a actions ih =>
    rw [run, List.foldlM_cons] at hrun
    obtain ⟨st₁, hstep, hrun⟩ := Option.bind_eq_some_iff.mp hrun
    obtain ⟨lines₁, hrecorded₁, hkeeps⟩ := step_recorded hS hrecorded hstep
    exact ih hrecorded₁ (h.step hS hrecorded horder.1 hstep hkeeps) (horder.2 st₁ hstep) hrun

/-! ### Going on after a restart -/

/-- The newest line of each log is counted. -/
theorem le_onDisk (hS : S.Lawful) {logs : LogName → RotatingLog} {name : LogName}
    {ls : List Logged} (hlog : (logs name).newestFirst = (ls.map (Logged.line S)).reverse)
    {last : Logged} (hlast : last ∈ ls.getLast?) :
  last.seq ≤ onDisk S logs
  := by
  obtain ⟨ls, rfl⟩ := List.getLast?_eq_some_iff.mp hlast
  have hfind : ((logs name).find fun _ => true) = some (last.line S) := by
    rw [RotatingLog.find, hlog, List.map_append, List.reverse_append]
    rfl
  apply List.le_max?_getD_of_mem
  rw [List.mem_filterMap]
  use name, name.mem_all
  rw [hfind]
  exact last.lineSeq_line hS

/-- What is counted is the number of some line, if any. -/
theorem onDisk_eq_zero_or (logs : LogName → RotatingLog) :
  onDisk S logs = 0
    ∨ ∃ name, ∃ line ∈ (logs name).newestFirst, lineSeq S line = some (onDisk S logs)
  := by
  rw [onDisk]
  cases hmax : (LogName.all.filterMap
      fun name => ((logs name).find fun _ => true) >>= lineSeq S).max? with
  | none => exact .inl rfl
  | some seq =>
    obtain ⟨name, -, hname⟩ := List.mem_filterMap.mp (List.max?_mem hmax)
    obtain ⟨line, hfind, hseq⟩ := Option.bind_eq_some_iff.mp hname
    exact .inr ⟨name, line, List.mem_of_find?_eq_some hfind, hseq⟩

/-- Every line on disk has a number below the next one after a restart, if requests and queries
were sent in order and no number is the largest there is. -/
theorem restart_above (hS : S.Lawful) {rotate hours : ℕ} {actions : List Action}
    (hrun : run S (start S rotate) actions = some st)
    (horder : RunInOrder S (start S rotate) actions)
    (hrestart : step S st (.restart hours) = some st')
    (hroom : ∀ name, ∀ line ∈ (st.logs name).log.newestFirst, ∀ seq ∈ lineSeq S line,
      seq + 1 < 2 ^ 64) :
  ∀ name, ∀ line ∈ (st.logs name).log.newestFirst,
    ∃ seq ∈ lineSeq S line, seq < st'.nextSeq.toNat
  := by
  obtain ⟨lines, hrecorded, hordered⟩ :=
    run_ordered hS (recorded_start rotate) (ordered_start rotate) horder hrun
  obtain ⟨hflushed, hst⟩ := Option.ite_none_right_eq_some.mp hrestart
  let logs name := RotatingLog.openLog S (st.logs name).log.files hours
  have hnewest (name : LogName) :
      (logs name).newestFirst = ((lines name).map (Logged.line S)).reverse :=
    (hrecorded name).newestFirst hS (hflushed name name.mem_all)
  have hnext : st'.nextSeq.toNat = onDisk S logs + 1 := by
    rw [← Option.some.inj hst, withDataDir, UInt64.toNat_ofNat', Nat.mod_eq_of_lt]
    rcases onDisk_eq_zero_or (S := S) logs with hzero | ⟨name, line, hline, hseq⟩
    · rw [hzero]
      decide
    · exact hroom name line hline _ hseq
  -- each line is at most the newest line of its own log or of the requests
  have hcounted (name : LogName) (l : Logged) (hl : l ∈ lines name) : l.seq ≤ onDisk S logs := by
    have hreached : ∃ name', name' ≠ .requestDetail ∧ Reached (lines name') l.seq := by
      by_cases hname : name = .requestDetail
      · subst hname
        exact ⟨.requestLog, by decide, hordered.details l hl⟩
      · exact ⟨name, hname, l, hl, le_rfl⟩
    obtain ⟨name', hname', hreached⟩ := hreached
    obtain ⟨last, hlast, hle⟩ := (hordered.increasing name' hname').reached_getLast hreached
    exact hle.trans (le_onDisk hS (hnewest name') hlast)
  intro name line hline
  have hline : line ∈ ((lines name).map (Logged.line S)).reverse := hnewest name ▸ hline
  obtain ⟨l, hl, rfl⟩ := List.mem_map.mp (List.mem_reverse.mp hline)
  use l.seq, l.lineSeq_line hS
  rw [hnext]
  exact Nat.lt_succ_of_le (hcounted name l hl)

/-- Two recorders send their requests in the order of their numbers. -/
theorem restart_above_two :
  ∃ st st', run .reference (start .reference 24)
      [.begin .forwarded {} 200 [] false 0, .begin .forwarded {} 200 [] false 0, .sendRequest 0,
        .write .requestLog, .sendRequest 0, .write .requestLog] = some st
    ∧ step .reference st (.restart 24) = some st'
    ∧ ∀ name, ∀ line ∈ (st.logs name).log.newestFirst,
        ∃ seq ∈ lineSeq .reference line, seq < st'.nextSeq.toNat
  := by
  refine ⟨_, _, rfl, rfl, @restart_above _ _ _ SerdeJson.lawful_reference 24 24
    [.begin .forwarded {} 200 [] false 0, .begin .forwarded {} 200 [] false 0, .sendRequest 0,
      .write .requestLog, .sendRequest 0, .write .requestLog] rfl ?_ rfl ?_⟩
  · decide +kernel
  · intro name
    cases name <;> decide +kernel

/-- Two recorders send their requests in the other order, and the number of the first line of
the log is handed out again after a restart. -/
theorem restart_reused :
  (do
    let st ← run .reference (start .reference 24)
      [.begin .forwarded {} 200 [] false 0, .begin .forwarded {} 200 [] false 0,
        .sendRequest 1, .sendRequest 0, .write .requestLog, .write .requestLog]
    let st' ← step .reference st (.restart 24)
    some ((st.logs .requestLog).log.newestFirst.map (lineSeq .reference), st'.nextSeq))
      = some ([some 1, some 2], 2)
  := by decide +kernel

end SharedState
