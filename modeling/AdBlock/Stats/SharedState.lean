import AdBlock.Stats.LogRotation

/-!
# Recording requests and queries

Any number of recorders take a number for a record and then send its line to a log, as two steps.
A request that is recorded stays open as an exchange, which collects what is captured and sends a
line with that when it is dropped.  Each log has a thread that writes the lines sent to it.  The
process can be restarted once all lines are written.

The lines of a log are those in its files followed by those on their way.  A step adds what it
sends and loses at most lines at the front, never the last one (`step_recorded`).
-/

/-- A log, and the lines sent to its writer thread that are not written yet. -/
structure LogChannel where
  log : RotatingLog
  queue : List (ℕ × Text) := []
  deriving DecidableEq, Repr

namespace LogChannel

/-- Send a line to the writer thread. -/
def append (ch : LogChannel) (tsMs : ℕ) (line : Text) : LogChannel :=
  { ch with queue := ch.queue ++ [(tsMs, line)] }

/-- One round of the writer thread. -/
def writerLoop (ch : LogChannel) : Option LogChannel :=
  match ch.queue with
  | [] => none
  | (tsMs, line) :: queue => some { log := ch.log.writeLine tsMs line, queue := queue }

end LogChannel

/-- What is known of a request when it begins. -/
structure RequestFacts where
  method : Text := []
  reqType : Text := []
  url : Text := []
  deriving DecidableEq, Repr

structure SharedState where
  nextSeq : UInt64
  logs : LogName → LogChannel
  /-- The records of requests that have their number, but are not sent yet. -/
  begun : List RequestRecord := []
  /-- The records of queries that have their number, but are not sent yet. -/
  asked : List DnsRecord := []
  /-- The records of the exchanges that are open. -/
  exchanges : List RequestRecord := []

inductive SharedState.Action where
  | begin (kind : RequestKind) (facts : RequestFacts) (status : UInt16) (blockedBy : Text)
      (ech : Bool) (nowMs : UInt64)
  | sendRequest (i : ℕ)
  | recordDns (record : DnsRecord)
  | sendQuery (i : ℕ)
  | attach (i : ℕ) (slot : CaptureSlot) (text : Text)
  | dropExchange (i : ℕ)
  | write (name : LogName)
  | setRotateHours (name : LogName) (hours : ℕ)
  | restart (rotateHours : ℕ)

def LogName.all : List LogName :=
  [.requestLog, .requestDetail, .queryLog]

theorem LogName.mem_all (name : LogName) :
  name ∈ LogName.all
  := by
  cases name <;> simp [LogName.all]

namespace SharedState

variable (S : SerdeJson)

/-- The largest number among the newest lines of the logs. -/
def onDisk (logs : LogName → RotatingLog) : ℕ :=
  (LogName.all.filterMap fun name => ((logs name).find fun _ => true) >>= lineSeq S).max?.getD 0

/-- Open the logs under a data directory, and go on above the numbers found there. -/
def withDataDir (files : LogName → LogFiles) (rotate : ℕ) : SharedState :=
  let logs name := RotatingLog.openLog S (files name) rotate
  { nextSeq := UInt64.ofNat (onDisk S logs + 1)
    logs := fun name => { log := logs name } }

/-- Send a record to its log. -/
def send (st : SharedState) (l : Logged) : SharedState :=
  { st with
    logs := Function.update st.logs l.log ((st.logs l.log).append l.tsMs (l.line S)) }

/-- Send what was captured of a request. -/
def persistDetail (st : SharedState) (record : RequestRecord) : SharedState :=
  match RequestDetail.fromRecord record with
  | none => st
  | some d => st.send S (.detail d record.tsMs)

/-- All lines are written. -/
def Flushed (st : SharedState) : Prop :=
  ∀ name ∈ LogName.all, (st.logs name).queue = []

instance (st : SharedState) : Decidable st.Flushed :=
  inferInstanceAs (Decidable (∀ name ∈ LogName.all, _))

/-- One step of a recorder, of a writer thread or of the process. -/
def step (st : SharedState) : Action → Option SharedState
  | .begin kind facts status blockedBy ech nowMs =>
      some { st with
        nextSeq := st.nextSeq + 1
        begun := st.begun ++
          [{ seq := st.nextSeq, tsMs := nowMs, method := facts.method, status := status
             kind := kind, reqType := facts.reqType, url := facts.url, blockedBy := blockedBy
             ech := ech }] }
  | .sendRequest i => do
      let record ← st.begun[i]?
      some { st.send S (.request record) with
        begun := st.begun.eraseIdx i
        exchanges := st.exchanges ++ [record] }
  | .recordDns record =>
      some { st with
        nextSeq := st.nextSeq + 1
        asked := st.asked ++ [{ record with seq := st.nextSeq }] }
  | .sendQuery i => do
      let record ← st.asked[i]?
      some { st.send S (.dns record) with asked := st.asked.eraseIdx i }
  | .attach i slot text => do
      let record ← st.exchanges[i]?
      some { st with exchanges := st.exchanges.set i (slot.apply record text) }
  | .dropExchange i => do
      let record ← st.exchanges[i]?
      some { st.persistDetail S record with exchanges := st.exchanges.eraseIdx i }
  | .write name => do
      let ch ← (st.logs name).writerLoop
      some { st with logs := Function.update st.logs name ch }
  | .setRotateHours name hours =>
      some { st with
        logs := Function.update st.logs name
          { st.logs name with log := (st.logs name).log.setRotateHours hours } }
  | .restart rotateHours =>
      -- what is open or not sent is gone with the process
      if st.Flushed then some (withDataDir S (fun name => (st.logs name).log.files) rotateHours)
      else none

def run (st : SharedState) (actions : List Action) : Option SharedState :=
  actions.foldlM (step S) st

/-- The first process on an empty data directory. -/
def start (rotate : ℕ) : SharedState :=
  withDataDir S (fun _ => LogFiles.empty) rotate

/-- The record that a step sends. -/
def sent (st : SharedState) : Action → Option Logged
  | .sendRequest i => st.begun[i]?.map .request
  | .sendQuery i => st.asked[i]?.map .dns
  | .dropExchange i => do
      let record ← st.exchanges[i]?
      (RequestDetail.fromRecord record).map (.detail · record.tsMs)
  | _ => none

end SharedState

/-! ### The lines of a log -/

variable {S : SerdeJson}

/-- The files of a log and the lines on their way to it hold some records, all of that log. -/
structure Backs (S : SerdeJson) (name : LogName) (ch : LogChannel) (ls : List Logged) :
    Prop where
  exists_split : ∃ g queued, Holds S ch.log g
    ∧ ch.queue = queued.map (fun l => (l.tsMs, l.line S)) ∧ ls = g.kept ++ queued
  log_eq : ∀ l ∈ ls, l.log = name

/-- Some lines are lost at the front, but never the last one. -/
structure Keeps (ls ls' : List Logged) : Prop where
  suffix : ls' <:+ ls
  ne_nil : ls ≠ [] → ls' ≠ []

namespace Keeps

theorem refl (ls : List Logged) :
  Keeps ls ls
  := ⟨List.suffix_rfl, id⟩

theorem getLast? {ls ls' : List Logged} (h : Keeps ls ls') :
  ls'.getLast? = ls.getLast?
  := by
  obtain ⟨lost, rfl⟩ := h.suffix
  cases ls' using List.reverseRecOn with
  | nil =>
    cases lost with
    | nil => rfl
    | cons l lost => exact absurd rfl (h.ne_nil (by simp))
  | append_singleton ls' l => rw [← List.append_assoc, List.getLast?_concat, List.getLast?_concat]

end Keeps

namespace Backs

variable {name : LogName} {ch : LogChannel} {ls : List Logged}

theorem append (h : Backs S name ch ls) {l : Logged} (hl : l.log = name) :
  Backs S name (ch.append l.tsMs (l.line S)) (ls ++ [l])
  := by
  obtain ⟨⟨g, queued, hholds, hqueue, rfl⟩, hlog⟩ := h
  constructor
  · use g, queued ++ [l], hholds
    rw [LogChannel.append, hqueue, List.map_append, List.append_assoc]
    exact ⟨rfl, rfl⟩
  · rw [List.forall_mem_append, List.forall_mem_singleton]
    exact ⟨hlog, hl⟩

theorem writerLoop {ch' : LogChannel} (h : Backs S name ch ls) (hw : ch.writerLoop = some ch') :
  ∃ ls', Keeps ls ls' ∧ Backs S name ch' ls'
  := by
  obtain ⟨⟨g, queued, hholds, hqueue, rfl⟩, hlog⟩ := h
  cases queued with
  | nil => rw [LogChannel.writerLoop, hqueue] at hw; cases hw
  | cons l queued =>
    rw [LogChannel.writerLoop, hqueue] at hw
    cases hw
    -- what the write loses is in front of what it keeps, which ends in `l`
    have hkept := Generations.kept_write Logged.tsMs ch.log.rotateMs g l
    have hsuffix : (g.write Logged.tsMs ch.log.rotateMs l).kept ++ queued
        <:+ g.kept ++ l :: queued := by
      have hsplit : g.kept ++ l :: queued = (g.kept ++ [l]) ++ queued := by
        rw [List.append_assoc]
        rfl
      rw [hsplit, hkept, List.append_assoc]
      exact List.suffix_append _ _
    refine ⟨_, ⟨hsuffix, ?_⟩, ⟨_, queued, hholds.writeLine l, rfl, rfl⟩, ?_⟩
    · intro _ hnil
      exact Generations.kept_write_ne_nil (List.append_eq_nil_iff.mp hnil).1
    · intro l' hl'
      exact hlog l' (hsuffix.mem hl')

theorem setRotateHours (h : Backs S name ch ls) (hours : ℕ) :
  Backs S name { ch with log := ch.log.setRotateHours hours } ls
  := by
  obtain ⟨⟨g, queued, hholds, hqueue, hls⟩, hlog⟩ := h
  exact ⟨⟨g, queued, hholds.setRotateHours hours, hqueue, hls⟩, hlog⟩

theorem openLog (hS : S.Lawful) (h : Backs S name ch ls) (hflushed : ch.queue = [])
    (hours : ℕ) :
  Backs S name { log := RotatingLog.openLog S ch.log.files hours } ls
  := by
  obtain ⟨⟨g, queued, hholds, hqueue, rfl⟩, hlog⟩ := h
  obtain rfl := List.map_eq_nil_iff.mp (hqueue.symm.trans hflushed)
  exact ⟨⟨_, [], hholds.openLog hS hours, rfl, rfl⟩, hlog⟩

/-- When all lines are written, they are what can be read. -/
theorem newestFirst (hS : S.Lawful) (h : Backs S name ch ls) (hflushed : ch.queue = []) :
  ch.log.newestFirst = (ls.map (Logged.line S)).reverse
  := by
  obtain ⟨⟨g, queued, hholds, hqueue, rfl⟩, -⟩ := h
  obtain rfl := List.map_eq_nil_iff.mp (hqueue.symm.trans hflushed)
  rw [hholds.newestFirst hS, List.append_nil]

end Backs

namespace SharedState

/-- The lines of each log, in its files and on their way. -/
def Recorded (S : SerdeJson) (st : SharedState) (lines : LogName → List Logged) : Prop :=
  ∀ name, Backs S name (st.logs name) (lines name)

variable {st st' : SharedState} {lines : LogName → List Logged}

theorem recorded_start (rotate : ℕ) :
  Recorded S (start S rotate) (fun _ => [])
  := fun _ => ⟨⟨_, [], holds_empty rotate, rfl, rfl⟩, List.forall_mem_nil _⟩

/-- The lines of a log with what a step sends to it. -/
def withSent (lines : LogName → List Logged) (l : Option Logged) (name : LogName) :
    List Logged :=
  lines name ++ l.toList.filter (·.log = name)

theorem withSent_none (lines : LogName → List Logged) :
  withSent lines none = lines
  := by
  funext name
  exact List.append_nil _

theorem Recorded.send (h : Recorded S st lines) (l : Logged) :
  Recorded S (st.send S l) (withSent lines (some l))
  := by
  intro name
  by_cases hname : name = l.log
  · subst hname
    simpa [SharedState.send, withSent] using (h l.log).append rfl
  · have hne : l.log ≠ name := Ne.symm hname
    simpa [SharedState.send, withSent, hname, hne] using h name

theorem Recorded.update {name : LogName} {ch : LogChannel} {ls : List Logged}
    (h : Recorded S st lines) (hch : Backs S name ch ls) :
  Recorded S { st with logs := Function.update st.logs name ch } (Function.update lines name ls)
  := by
  intro name'
  by_cases hname : name' = name
  · subst hname
    simpa using hch
  · simpa [hname] using h name'

theorem Recorded.persistDetail (h : Recorded S st lines) (record : RequestRecord) :
  Recorded S (st.persistDetail S record)
    (withSent lines ((RequestDetail.fromRecord record).map (.detail · record.tsMs)))
  := by
  rw [SharedState.persistDetail]
  cases RequestDetail.fromRecord record with
  | none => rwa [Option.map_none, withSent_none]
  | some d => exact h.send _

theorem Recorded.restart (hS : S.Lawful) (h : Recorded S st lines) (hflushed : st.Flushed)
    (hours : ℕ) :
  Recorded S (withDataDir S (fun name => (st.logs name).log.files) hours) lines
  := fun name => (h name).openLog hS (hflushed name name.mem_all) hours

/-- A step adds what it sends, and loses at most lines at the front. -/
theorem step_recorded (hS : S.Lawful) {a : Action} (h : Recorded S st lines)
    (hstep : step S st a = some st') :
  ∃ lines', Recorded S st' lines' ∧ ∀ name, Keeps (withSent lines (st.sent a) name) (lines' name)
  := by
  have hrefl {lines' : LogName → List Logged} (h' : Recorded S st' lines')
      (heq : withSent lines (st.sent a) = lines') :
      ∃ lines', Recorded S st' lines'
        ∧ ∀ name, Keeps (withSent lines (st.sent a) name) (lines' name) :=
    ⟨lines', h', fun name => heq ▸ Keeps.refl _⟩
  cases a with
  | begin | recordDns =>
    cases hstep
    exact hrefl h (withSent_none lines)
  | sendRequest i =>
    obtain ⟨record, hrecord, hst⟩ := Option.bind_eq_some_iff.mp hstep
    cases hst
    exact hrefl (h.send (.request record)) (by rw [sent, hrecord]; rfl)
  | sendQuery i =>
    obtain ⟨record, hrecord, hst⟩ := Option.bind_eq_some_iff.mp hstep
    cases hst
    exact hrefl (h.send (.dns record)) (by rw [sent, hrecord]; rfl)
  | attach i slot text =>
    obtain ⟨record, hrecord, hst⟩ := Option.bind_eq_some_iff.mp hstep
    cases hst
    exact hrefl h (withSent_none lines)
  | dropExchange i =>
    obtain ⟨record, hrecord, hst⟩ := Option.bind_eq_some_iff.mp hstep
    cases hst
    exact hrefl (h.persistDetail record) (by rw [sent, hrecord]; rfl)
  | write name =>
    obtain ⟨ch, hch, hst⟩ := Option.bind_eq_some_iff.mp hstep
    cases hst
    obtain ⟨ls, hkeeps, hls⟩ := (h name).writerLoop hch
    refine ⟨_, h.update hls, ?_⟩
    intro name'
    by_cases hname : name' = name
    · subst hname
      simpa [withSent, sent] using hkeeps
    · simpa [withSent, sent, hname] using Keeps.refl (lines name')
  | setRotateHours name hours =>
    cases hstep
    refine hrefl (h.update ((h name).setRotateHours hours)) ?_
    rw [Function.update_eq_self]
    exact withSent_none lines
  | restart rotateHours =>
    obtain ⟨hflushed, hst⟩ := Option.ite_none_right_eq_some.mp hstep
    cases hst
    exact hrefl (h.restart hS hflushed rotateHours) (withSent_none lines)

/-- At each point of a run from an empty data directory, the logs hold records. -/
theorem run_recorded (hS : S.Lawful) {actions : List Action} (h : Recorded S st lines)
    (hrun : run S st actions = some st') :
  ∃ lines', Recorded S st' lines'
  := by
  induction actions generalizing st lines with
  | nil => cases hrun; exact ⟨lines, h⟩
  | cons a actions ih =>
    rw [run, List.foldlM_cons] at hrun
    obtain ⟨st₁, hstep, hrun⟩ := Option.bind_eq_some_iff.mp hrun
    obtain ⟨lines₁, h₁, -⟩ := step_recorded hS h hstep
    exact ih h₁ hrun

end SharedState
