import AdBlock.Framing.Basic

/-!
# The stream kept by a DNS-over-TLS upstream

A query locks the slot of its upstream, uses the stream that is kept there or dials a new one,
and leaves a stream that has answered in the slot.  A query can be dropped whenever it waits: at
its timeout, or when another upstream has answered first.  The server answers the queries on a
stream in order, each at any later time.

If no query is dropped between the first byte that it writes to the kept stream and the end of
its reply, every query starts on a clean stream and gets its own reply (`kept_stream_clean`).  A
query that is dropped in between leaves its reply to the next one (`reply_of_dropped_query`).
-/

open Framing

namespace Dot

/-- A stream, with the side of the server. -/
structure Stream where
  /-- What the server has read of the next query. -/
  server : Decoder := .start
  /-- The queries that the server has read and not answered. -/
  owed : List Bytes := []
  /-- The bytes of the server that are not read. -/
  inbound : Bytes := []
  deriving DecidableEq, Repr

namespace Stream

/-- The server reads a byte. -/
def receive (s : Stream) (b : UInt8) : Stream :=
  { s with server := (s.server.step b).1, owed := s.owed ++ (s.server.step b).2.toList }

/-- The server answers the oldest query. -/
def answer (reply : Bytes → Bytes) (s : Stream) : Option Stream :=
  match s.owed with
  | [] => none
  | query :: owed => some { s with owed := owed, inbound := s.inbound ++ frame (reply query) }

/-- No reply is owed or unread, and no frame is written or read in part. -/
structure Clean (s : Stream) : Prop where
  server : s.server = .start
  owed : s.owed = []
  inbound : s.inbound = []

end Stream

/-! ### One exchange -/

/-- How far `exchange_framed` is: some bytes of the query are to be written, or the reply is
read. -/
inductive Exchange where
  | writing (rest : Bytes)
  | reading (d : Decoder)
  deriving DecidableEq, Repr

/-- The bytes to write for a query, unless it is too large. -/
def writeFramed (wire : Bytes) : Option Bytes :=
  if wire.length < maxLength then some (frame wire) else none

namespace Exchange

/-- Write one byte. -/
def write (s : Stream) : Exchange → Option (Stream × Exchange)
  | .writing (b :: rest) =>
      some (s.receive b, if rest = [] then .reading .start else .writing rest)
  | _ => none

variable {M : Type} (fromVec : Bytes → Option M)

/-- Read one byte.  After the last one the reply is parsed, which can fail. -/
def read (s : Stream) : Exchange → Option (Stream × (Exchange ⊕ Option M))
  | .reading d =>
      match s.inbound with
      | [] => none
      | b :: inbound =>
          match d.step b with
          | (d, none) => some ({ s with inbound := inbound }, .inl (.reading d))
          | (_, some buf) => some ({ s with inbound := inbound }, .inr (fromVec buf))
  | .writing _ => none

end Exchange

/-! ### The queries of one upstream -/

/-- How far a query with the lock is: on the kept stream, dialing, or on a stream of its own. -/
inductive Phase where
  | kept (io : Exchange)
  | dialing
  | fresh (stream : Stream) (io : Exchange)
  deriving DecidableEq, Repr

/-- The slot of an upstream, and the query that has its lock. -/
structure State where
  dot : Option Stream := none
  holder : Option (Bytes × Phase) := none
  deriving DecidableEq, Repr

inductive Action where
  | lock (wire : Bytes)
  | write
  | read
  | fail
  | dialed
  | drop
  | answer
  deriving DecidableEq, Repr

/-- What a query returns: a message, or an error. -/
abbrev Outcome (M : Type) := Bytes × Option M

variable {M : Type} (fromVec : Bytes → Option M) (reply : Bytes → Bytes)

/-- One step of a query or of the server. -/
def step (st : State) : Action → Option (State × Option (Outcome M))
  | .lock wire =>
      match st.holder, st.dot, writeFramed wire with
      | some _, _, _ => none
      | none, some s, some bytes =>
          some ({ dot := some s, holder := some (wire, .kept (.writing bytes)) }, none)
      -- there is no stream, or it is given up as the query is too large
      | none, _, _ => some ({ dot := none, holder := some (wire, .dialing) }, none)
  | .write =>
      match st.holder with
      | some (wire, .kept io) => do
          let s ← st.dot
          let (s, io) ← io.write s
          some ({ dot := some s, holder := some (wire, .kept io) }, none)
      | some (wire, .fresh s io) => do
          let (s, io) ← io.write s
          some ({ st with holder := some (wire, .fresh s io) }, none)
      | _ => none
  | .read =>
      match st.holder with
      | some (wire, .kept io) => do
          let s ← st.dot
          match ← io.read fromVec s with
          | (s, .inl io) => some ({ dot := some s, holder := some (wire, .kept io) }, none)
          | (s, .inr (some m)) => some ({ dot := some s, holder := none }, some (wire, some m))
          | (_, .inr none) => some ({ dot := none, holder := some (wire, .dialing) }, none)
      | some (wire, .fresh s io) => do
          match ← io.read fromVec s with
          | (s, .inl io) => some ({ st with holder := some (wire, .fresh s io) }, none)
          | (s, .inr (some m)) => some ({ dot := some s, holder := none }, some (wire, some m))
          | (_, .inr none) => some ({ st with holder := none }, some (wire, none))
      | _ => none
  | .fail =>
      match st.holder with
      | some (wire, .kept _) => some ({ dot := none, holder := some (wire, .dialing) }, none)
      | some (wire, _) => some ({ st with holder := none }, some (wire, none))
      | none => none
  | .dialed =>
      match st.holder with
      | some (wire, .dialing) =>
          match writeFramed wire with
          | some bytes => some ({ st with holder := some (wire, .fresh {} (.writing bytes)) }, none)
          | none => some ({ st with holder := none }, some (wire, none))
      | _ => none
  | .drop =>
      -- the lock is released, a stream of its own is closed, and the kept one stays
      match st.holder with
      | some _ => some ({ st with holder := none }, none)
      | none => none
  | .answer =>
      match st.dot, st.holder with
      | some s, _ => do
          let s ← s.answer reply
          some ({ st with dot := some s }, none)
      | none, some (wire, .fresh s io) => do
          let s ← s.answer reply
          some ({ st with holder := some (wire, .fresh s io) }, none)
      | none, _ => none

/-- The state after some steps, and what the queries returned. -/
def run : State → List Action → Option (State × List (Outcome M))
  | st, [] => some (st, [])
  | st, a :: actions => do
      let (st, outcome) ← step fromVec reply st a
      let (st, outcomes) ← run st actions
      some (st, outcome.toList ++ outcomes)

/-- A query on the kept stream is only dropped before it has written a byte. -/
def Undisturbed (st : State) : Action → Prop
  | .drop =>
      match st.holder with
      | some (wire, .kept io) => io = .writing (frame wire)
      | _ => True
  | _ => True

instance (st : State) (a : Action) : Decidable (Undisturbed st a) := by
  unfold Undisturbed
  split
  · split <;> infer_instance
  · infer_instance

/-- No step of a run drops a query in the middle of its use of the kept stream. -/
def RunUndisturbed : State → List Action → Prop
  | _, [] => True
  | st, a :: actions => Undisturbed st a
      ∧ ∀ next ∈ step fromVec reply st a, RunUndisturbed next.1 actions

instance decidableRunUndisturbed (st : State) (actions : List Action) :
    Decidable (RunUndisturbed fromVec reply st actions) :=
  match actions with
  | [] => isTrue trivial
  | a :: actions =>
      have (next : State × Option (Outcome M)) := decidableRunUndisturbed next.1 actions
      inferInstanceAs (Decidable (Undisturbed st a
        ∧ ∀ next ∈ step fromVec reply st a, RunUndisturbed fromVec reply next.1 actions))

/-! ### The stream during an exchange -/

/-- A stream is used for one query only, and its reply is the one that is read. -/
def Serves (wire : Bytes) (s : Stream) : Exchange → Prop
  | .writing rest => s.server.Expects rest wire ∧ s.owed = [] ∧ s.inbound = []
  | .reading d => s.server = .start
      ∧ (s.owed = [wire] ∧ s.inbound = [] ∧ d = .start
        ∨ s.owed = [] ∧ d.Expects s.inbound (reply wire))

variable {fromVec reply} {wire : Bytes} {s s' : Stream} {io io' : Exchange}

theorem serves_of_clean {bytes : Bytes} (hs : s.Clean) (hbytes : writeFramed wire = some bytes) :
  Serves reply wire s (.writing bytes)
  := by
  obtain ⟨hlt, heq⟩ := Option.ite_none_right_eq_some.mp hbytes
  cases heq
  rw [Serves, hs.server]
  exact ⟨Decoder.expects_frame hlt, hs.owed, hs.inbound⟩

/-- A stream that nothing was written to is clean. -/
theorem Serves.clean (h : Serves reply wire s (.writing (frame wire))) :
  s.Clean
  := ⟨h.1.eq_start, h.2.1, h.2.2⟩

theorem Serves.write (h : Serves reply wire s io) (hw : io.write s = some (s', io')) :
  Serves reply wire s' io'
  := by
  cases io with
  | reading d => cases hw
  | writing bytes =>
    cases bytes with
    | nil => cases hw
    | cons b rest =>
      cases hw
      obtain ⟨hexpects, howed, hinbound⟩ := h
      rcases hexpects.step with ⟨hrest, hstep⟩ | ⟨d, hstep, hexpects⟩
      · rw [if_pos hrest]
        refine ⟨by rw [Stream.receive, hstep], .inl ⟨?_, hinbound, rfl⟩⟩
        rw [Stream.receive, hstep, howed]
        rfl
      · rw [if_neg hexpects.ne_nil]
        refine ⟨by rwa [Stream.receive, hstep], ?_, hinbound⟩
        rw [Stream.receive, hstep, howed]
        rfl

/-- The reply that is read is that to the query, and leaves the stream clean. -/
theorem Serves.read {res : Exchange ⊕ Option M} (h : Serves reply wire s io)
    (hr : io.read fromVec s = some (s', res)) :
  match res with
  | .inl io' => Serves reply wire s' io'
  | .inr m => s'.Clean ∧ m = fromVec (reply wire)
  := by
  cases io with
  | writing bytes => cases hr
  | reading d =>
    rw [Exchange.read] at hr
    obtain ⟨hserver, ⟨-, hinbound, -⟩ | ⟨howed, hexpects⟩⟩ := h
    · rw [hinbound] at hr
      cases hr
    · cases hinbound : s.inbound with
      | nil => exact absurd hinbound hexpects.ne_nil
      | cons b inbound =>
        rw [hinbound] at hexpects hr
        dsimp only at hr
        rcases hexpects.step with ⟨hnil, hstep⟩ | ⟨d', hstep, hexpects⟩
        · rw [hstep] at hr
          cases hr
          exact ⟨⟨hserver, howed, hnil⟩, rfl⟩
        · rw [hstep] at hr
          cases hr
          exact ⟨hserver, .inr ⟨howed, hexpects⟩⟩

theorem Serves.answer (hreply : ∀ query, (reply query).length < maxLength)
    (h : Serves reply wire s io) (ha : s.answer reply = some s') :
  Serves reply wire s' io
  := by
  rw [Stream.answer] at ha
  cases io with
  | writing bytes =>
    rw [h.2.1] at ha
    cases ha
  | reading d =>
    obtain ⟨hserver, ⟨howed, hinbound, rfl⟩ | ⟨howed, -⟩⟩ := h
    · rw [howed] at ha
      cases ha
      refine ⟨hserver, .inr ⟨rfl, ?_⟩⟩
      rw [hinbound]
      exact Decoder.expects_frame (hreply wire)
    · rw [howed] at ha
      cases ha

/-! ### Every run -/

/-- The kept stream is clean when no query has the lock, and otherwise it serves the query that
has it. -/
def Sound (reply : Bytes → Bytes) (st : State) : Prop :=
  match st.holder with
  | none => ∀ s ∈ st.dot, s.Clean
  | some (wire, .kept io) => ∃ s, st.dot = some s ∧ Serves reply wire s io
  | some (_, .dialing) => st.dot = none
  | some (wire, .fresh s io) => st.dot = none ∧ Serves reply wire s io

/-- A message that is returned is the reply to the query. -/
def OwnReply (fromVec : Bytes → Option M) (reply : Bytes → Bytes) (outcome : Outcome M) : Prop :=
  ∀ m, outcome.2 = some m → fromVec (reply outcome.1) = some m

/-- A step leaves the state sound, and a message that it returns is the reply to its query. -/
structure Keeps (fromVec : Bytes → Option M) (reply : Bytes → Bytes) (st : State)
    (outcome : Option (Outcome M)) : Prop where
  sound : Sound reply st
  own : ∀ o ∈ outcome, OwnReply fromVec reply o

theorem keeps_silent {st : State} (h : Sound reply st) :
  Keeps fromVec reply st none
  := ⟨h, by simp⟩

/-- An error can be returned in any sound state. -/
theorem keeps_error {st : State} (h : Sound reply st) :
  Keeps fromVec reply st (some (wire, none))
  := by
  refine ⟨h, ?_⟩
  rintro _ ⟨⟩ _ ⟨⟩

/-- The reply to a query is returned, and the stream is kept. -/
theorem keeps_reply {m : M} (hs : s.Clean) (hm : some m = fromVec (reply wire)) :
  Keeps fromVec reply { dot := some s, holder := none } (some (wire, some m))
  := by
  constructor
  · rintro _ ⟨⟩
    exact hs
  · rintro _ ⟨⟩ _ ⟨⟩
    exact hm.symm

/-- Without a stream and without a query there is nothing to keep sound. -/
theorem sound_empty :
  Sound reply { dot := none, holder := none }
  := by
  rintro _ ⟨⟩

section Step

variable {st st' : State} {outcome : Option (Outcome M)} (h : Sound reply st)
include h

theorem keeps_lock (hstep : step fromVec reply st (.lock wire) = some (st', outcome)) :
  Keeps fromVec reply st' outcome
  := by
  obtain ⟨dot, holder⟩ := st
  cases holder with
  | some holder => cases hstep
  | none =>
    cases dot with
    | none => cases hstep; exact keeps_silent rfl
    | some s =>
      rw [step] at hstep
      cases hbytes : writeFramed wire with
      | none => rw [hbytes] at hstep; cases hstep; exact keeps_silent rfl
      | some bytes =>
        rw [hbytes] at hstep
        cases hstep
        exact keeps_silent ⟨s, rfl, serves_of_clean (h s rfl) hbytes⟩

theorem keeps_write (hstep : step fromVec reply st .write = some (st', outcome)) :
  Keeps fromVec reply st' outcome
  := by
  obtain ⟨dot, holder⟩ := st
  rcases holder with _ | ⟨wire, io | - | ⟨s, io⟩⟩
  · cases hstep
  · obtain ⟨s, rfl, hserves⟩ := h
    obtain ⟨⟨s', io'⟩, hwrite, hst⟩ := Option.bind_eq_some_iff.mp hstep
    cases hst
    exact keeps_silent ⟨s', rfl, hserves.write hwrite⟩
  · cases hstep
  · obtain ⟨rfl, hserves⟩ := h
    obtain ⟨⟨s', io'⟩, hwrite, hst⟩ := Option.bind_eq_some_iff.mp hstep
    cases hst
    exact keeps_silent ⟨rfl, hserves.write hwrite⟩

theorem keeps_read (hstep : step fromVec reply st .read = some (st', outcome)) :
  Keeps fromVec reply st' outcome
  := by
  obtain ⟨dot, holder⟩ := st
  rcases holder with _ | ⟨wire, io | - | ⟨s, io⟩⟩
  · cases hstep
  · obtain ⟨s, rfl, hserves⟩ := h
    obtain ⟨⟨s', res⟩, hread, hst⟩ := Option.bind_eq_some_iff.mp hstep
    have hres := hserves.read hread
    rcases res with io' | _ | m <;> cases hst
    · exact keeps_silent ⟨s', rfl, hres⟩
    · exact keeps_silent rfl
    · exact keeps_reply hres.1 hres.2
  · cases hstep
  · obtain ⟨rfl, hserves⟩ := h
    obtain ⟨⟨s', res⟩, hread, hst⟩ := Option.bind_eq_some_iff.mp hstep
    have hres := hserves.read hread
    rcases res with io' | _ | m <;> cases hst
    · exact keeps_silent ⟨rfl, hres⟩
    · exact keeps_error sound_empty
    · exact keeps_reply hres.1 hres.2

theorem keeps_fail (hstep : step fromVec reply st .fail = some (st', outcome)) :
  Keeps fromVec reply st' outcome
  := by
  obtain ⟨dot, holder⟩ := st
  rcases holder with _ | ⟨wire, io | - | ⟨s, io⟩⟩ <;> cases hstep
  · exact keeps_silent rfl
  · obtain rfl : dot = none := h
    exact keeps_error sound_empty
  · obtain ⟨rfl, -⟩ := h
    exact keeps_error sound_empty

theorem keeps_dialed (hstep : step fromVec reply st .dialed = some (st', outcome)) :
  Keeps fromVec reply st' outcome
  := by
  obtain ⟨dot, holder⟩ := st
  rcases holder with _ | ⟨wire, io | - | ⟨s, io⟩⟩
  · cases hstep
  · cases hstep
  · obtain rfl : dot = none := h
    rw [step] at hstep
    dsimp only at hstep
    cases hbytes : writeFramed wire with
    | none => rw [hbytes] at hstep; cases hstep; exact keeps_error sound_empty
    | some bytes =>
      rw [hbytes] at hstep
      cases hstep
      exact keeps_silent ⟨rfl, serves_of_clean ⟨rfl, rfl, rfl⟩ hbytes⟩
  · cases hstep

/-- A query on the kept stream that has written nothing leaves the stream clean. -/
theorem keeps_drop (hdrop : Undisturbed st .drop)
    (hstep : step fromVec reply st .drop = some (st', outcome)) :
  Keeps fromVec reply st' outcome
  := by
  obtain ⟨dot, holder⟩ := st
  rcases holder with _ | ⟨wire, io | - | ⟨s, io⟩⟩ <;> cases hstep
  · obtain ⟨s, rfl, hserves⟩ := h
    obtain rfl : io = .writing (frame wire) := hdrop
    refine keeps_silent ?_
    rintro _ ⟨⟩
    exact hserves.clean
  · obtain rfl : dot = none := h
    exact keeps_silent sound_empty
  · obtain ⟨rfl, -⟩ := h
    exact keeps_silent sound_empty

theorem keeps_answer (hreply : ∀ query, (reply query).length < maxLength)
    (hstep : step fromVec reply st .answer = some (st', outcome)) :
  Keeps fromVec reply st' outcome
  := by
  obtain ⟨dot, holder⟩ := st
  cases dot with
  | some s =>
    obtain ⟨s', hanswer, hst⟩ := Option.bind_eq_some_iff.mp hstep
    cases hst
    rcases holder with _ | ⟨wire, io | - | ⟨s₁, io⟩⟩
    · -- a clean stream owes nothing
      rw [Stream.answer, (h s rfl).owed] at hanswer
      cases hanswer
    · obtain ⟨_, ⟨⟩, hserves⟩ := h
      exact keeps_silent ⟨s', rfl, hserves.answer hreply hanswer⟩
    · cases h
    · cases h.1
  | none =>
    rcases holder with _ | ⟨wire, io | - | ⟨s, io⟩⟩
    · cases hstep
    · cases hstep
    · cases hstep
    · obtain ⟨s', hanswer, hst⟩ := Option.bind_eq_some_iff.mp hstep
      cases hst
      exact keeps_silent ⟨rfl, h.2.answer hreply hanswer⟩

theorem keeps_step (hreply : ∀ query, (reply query).length < maxLength) {a : Action}
    (hdrop : Undisturbed st a) (hstep : step fromVec reply st a = some (st', outcome)) :
  Keeps fromVec reply st' outcome
  := by
  cases a with
  | lock wire => exact keeps_lock h hstep
  | write => exact keeps_write h hstep
  | read => exact keeps_read h hstep
  | fail => exact keeps_fail h hstep
  | dialed => exact keeps_dialed h hstep
  | drop => exact keeps_drop h hdrop hstep
  | answer => exact keeps_answer h hreply hstep

end Step

theorem sound_run (hreply : ∀ query, (reply query).length < maxLength) {actions : List Action}
    {st st' : State} {outcomes : List (Outcome M)} (h : Sound reply st)
    (hrun : run fromVec reply st actions = some (st', outcomes))
    (hdrops : RunUndisturbed fromVec reply st actions) :
  Sound reply st' ∧ ∀ o ∈ outcomes, OwnReply fromVec reply o
  := by
  induction actions generalizing st outcomes with
  | nil => cases hrun; exact ⟨h, List.forall_mem_nil _⟩
  | cons a actions ih =>
    obtain ⟨⟨st₁, outcome⟩, hstep, hrest⟩ := Option.bind_eq_some_iff.mp hrun
    obtain ⟨⟨st₂, outcomes'⟩, htail, hst⟩ := Option.bind_eq_some_iff.mp hrest
    cases hst
    have hkeeps := keeps_step h hreply hdrops.1 hstep
    obtain ⟨hsound, hown⟩ := ih hkeeps.sound htail (hdrops.2 (st₁, outcome) hstep)
    refine ⟨hsound, ?_⟩
    rw [List.forall_mem_append]
    exact ⟨fun o ho => hkeeps.own o (Option.mem_toList.mp ho), hown⟩

/-- In every run without such drops, the stream that is kept is clean whenever a query can take
it, and each message that a query returns is the reply to it. -/
theorem kept_stream_clean (hreply : ∀ query, (reply query).length < maxLength)
    {actions : List Action} {st : State} {outcomes : List (Outcome M)}
    (hrun : run fromVec reply {} actions = some (st, outcomes))
    (hdrops : RunUndisturbed fromVec reply {} actions) :
  (st.holder = none → ∀ s ∈ st.dot, s.Clean)
    ∧ ∀ wire m, (wire, some m) ∈ outcomes → fromVec (reply wire) = some m
  := by
  obtain ⟨hsound, hown⟩ := sound_run hreply sound_empty hrun hdrops
  constructor
  · intro hholder
    rw [Sound, hholder] at hsound
    exact hsound
  · intro wire m ho
    exact hown (wire, some m) ho m rfl

/-- A query is dropped before it has written a byte, and the next one uses the stream. -/
theorem kept_stream_clean_after_drop :
  ∃ st outcomes, run some (List.take 3) {} [.lock [1], .dialed, .write, .write, .write, .answer,
        .read, .read, .read, .lock [2], .drop,
        .lock [3], .write, .write, .write, .answer, .read, .read, .read] = some (st, outcomes)
    ∧ (st.holder = none → ∀ s ∈ st.dot, s.Clean)
    ∧ ∀ wire m, (wire, some m) ∈ outcomes → some (List.take 3 wire) = some m
  := by
  have hreply (query : Bytes) : (query.take 3).length < maxLength :=
    lt_of_le_of_lt (List.length_take_le 3 query) (by decide)
  exact ⟨_, _, rfl, @kept_stream_clean _ some (List.take 3) hreply [.lock [1], .dialed, .write,
    .write, .write, .answer, .read, .read, .read, .lock [2], .drop, .lock [3], .write, .write,
    .write, .answer, .read, .read, .read] _ _ rfl (by decide)⟩

/-- A query is dropped after it is written, and the next one gets the reply to it. -/
theorem reply_of_dropped_query :
  (run some id {} [.lock [1], .dialed, .write, .write, .write, .answer, .read, .read, .read,
      .lock [2], .write, .write, .write, .drop, .answer,
      .lock [3], .write, .write, .write, .read, .read, .read]).map Prod.snd
    = some [([1], some [1]), ([3], some [2])]
  := by decide

end Dot
