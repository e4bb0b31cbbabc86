import AdBlock.Json.Serde
import AdBlock.Json.Struct
import AdBlock.Journal.Basic

/-!
# The error log

The last errors are kept in memory and mirrored to a file, one line for each.  When the file has
twice as many lines as are kept, it is written anew.  Whatever is pushed, cleared and loaded again,
the errors in memory and those of the file are the last ones since the log was cleared
(`ErrorLog.run_survives`).
-/

namespace ErrorLog

/-! ### Events -/

inductive EventKind where
  | blocked
  | error
  | info
  deriving DecidableEq, Repr

namespace EventKind

def name : EventKind → Text
  | .blocked => "blocked".toList
  | .error => "error".toList
  | .info => "info".toList

def read (v : Json) : Option EventKind :=
  v.asStr.bind fun s => [EventKind.blocked, .error, .info].find? fun kind => kind.name = s

theorem read_name (kind : EventKind) :
  read (.str kind.name) = some kind
  := by
  cases kind <;> decide

end EventKind

structure Event where
  tsMs : UInt64
  kind : EventKind
  message : Text
  trace : Option Text := none
  deriving DecidableEq, Repr

namespace Event

def fields (e : Event) : List (Text × Option Json) :=
  [("ts_ms".toList, some (.ofU64 e.tsMs)),
    ("kind".toList, some (.str e.kind.name)),
    ("message".toList, some (.str e.message)),
    ("trace".toList, e.trace.map .str)]

def keys : List Text :=
  ["ts_ms".toList, "kind".toList, "message".toList, "trace".toList]

def toJson (e : Event) : Json :=
  Json.record e.fields

def fromJson (v : Json) : Option Event := do
  let fields ← Json.structFields keys v
  return {
    tsMs := ← Json.required fields "ts_ms".toList Json.readU64
    kind := ← Json.required fields "kind".toList EventKind.read
    message := ← Json.required fields "message".toList Json.asStr
    trace := ← Json.optional fields "trace".toList Json.asStr }

theorem nodup_keys (e : Event) :
  (e.fields.map Prod.fst).Nodup
  := by
  have hkeys : keys.Nodup := by decide
  exact hkeys

theorem occurrences_fields (e : Event) {i : ℕ} {key : Text} {v : Option Json}
    (h : e.fields[i]? = some (key, v)) :
  Json.occurrences (e.fields.filterMap fun f => f.2.map fun v => (f.1, v)) key = v.toList
  := Json.occurrences_record e.nodup_keys (List.mem_of_getElem? h)

/-- An event is read back as it was written. -/
theorem fromJson_toJson (e : Event) :
  fromJson e.toJson = some e
  := by
  have htrace : Json.optional (e.fields.filterMap fun f => f.2.map fun v => (f.1, v))
      "trace".toList Json.asStr = some e.trace := by
    rw [Json.optional, e.occurrences_fields (i := 3) rfl]
    cases e.trace with
    | none => rfl
    | some trace => rfl
  rw [fromJson, toJson, Json.record, Json.structFields]
  simp only [Option.bind_eq_bind, Option.bind_some, Json.required,
    e.occurrences_fields (i := 0) rfl, e.occurrences_fields (i := 1) rfl,
    e.occurrences_fields (i := 2) rfl, Option.toList_some, Json.readU64_ofU64,
    EventKind.read_name, Json.asStr, htrace]
  rfl

theorem toJson_of_scalars (e : Event) :
  e.toJson.Plain ∧ e.toJson.depth ≤ 1
  := by
  apply Json.record_of_scalars
  simp only [fields, List.forall_mem_cons, Option.mem_some_iff, forall_eq', Json.scalar_ofU64,
    Json.scalar_str, true_and, List.not_mem_nil, false_implies, implies_true, and_true]
  intro v hv
  obtain ⟨trace, -, rfl⟩ := Option.map_eq_some_iff.mp hv
  apply Json.scalar_str

section Line

variable (S : SerdeJson)

def line (e : Event) : Text :=
  S.toString e.toJson

def ofLine (line : Text) : Option Event :=
  (S.fromStr line).bind fromJson

variable {S} (hS : S.Lawful) (e : Event)
include hS

theorem ofLine_line :
  ofLine S (e.line S) = some e
  := by
  obtain ⟨hplain, hdepth⟩ := e.toJson_of_scalars
  have hread := hS.fromStr_toString hplain (lt_of_le_of_lt hdepth (by decide))
    (List.forall_mem_nil _)
  rw [List.append_nil] at hread
  rw [ofLine, line, hread, Option.bind_some, fromJson_toJson]

theorem line_inLine :
  '\n' ∉ e.line S ∧ '\r' ∉ e.line S
  := by
  have hline := hS.toString_line e.toJson_of_scalars.1
  exact ⟨fun h => (hline _ h).1 rfl, fun h => (hline _ h).2 rfl⟩

end Line

end Event

end ErrorLog

/-! ### The log -/

structure ErrorLog where
  ring : List ErrorLog.Event
  fileLines : ℕ
  path : Option Text
  deriving DecidableEq, Repr

namespace ErrorLog

@[irreducible]
def errorLogCap : ℕ := 300

/-- Drop events at the front while there are more than are kept. -/
def capped : List Event → List Event
  | [] => []
  | e :: ring => if ring.length + 1 > errorLogCap then capped ring else e :: ring

variable (S : SerdeJson)

/-- Load the log from its file, if that is there. -/
def load (path : Text) (file : Option Text) : ErrorLog :=
  let text := file.getD []
  { ring := capped ((Text.lines text).filterMap (Event.ofLine S))
    fileLines := (Text.lines text).length
    path := some path }

/-- The text with a line for each event. -/
def body (ring : List Event) : Text :=
  ring.flatMap fun e => e.line S ++ ['\n']

/-- Push an event, with the file before and after. -/
def push (event : Event) (log : ErrorLog) (file : Option Text) : ErrorLog × Option Text :=
  let ring := capped (log.ring ++ [event])
  match log.path with
  | none => ({ log with ring }, file)
  | some _ =>
      if log.fileLines ≥ errorLogCap * 2 then
        ({ log with ring, fileLines := ring.length }, some (body S ring))
      else
        ({ log with ring, fileLines := log.fileLines + 1 },
          some (file.getD [] ++ (event.line S ++ ['\n'])))

/-- Clear the log and remove its file.  The number of events that there were is returned. -/
def clear (log : ErrorLog) (file : Option Text) : ℕ × ErrorLog × Option Text :=
  (log.ring.length, { log with ring := [], fileLines := 0 }, log.path.elim file fun _ => none)

inductive Op where
  | push (event : Event)
  | clear
  /-- The process is started again. -/
  | reload

def step (path : Text) (op : Op) (st : ErrorLog × Option Text) : ErrorLog × Option Text :=
  match op with
  | .push event => push S event st.1 st.2
  | .clear => (clear st.1 st.2).2
  | .reload => (load S path st.2, st.2)

/-- What is done to the log of a file that is missing at first. -/
def run (path : Text) (ops : List Op) : ErrorLog × Option Text :=
  ops.foldl (fun st op => step S path op st) (load S path none, none)

/-- The events pushed since the log was cleared, after one more step. -/
def pushedBy (es : List Event) : Op → List Event
  | .push event => es ++ [event]
  | .clear => []
  | .reload => es

def pushed (ops : List Op) : List Event :=
  ops.foldl pushedBy []

/-! ### The log as a journal -/

theorem capped_eq_rtake (ring : List Event) :
  capped ring = ring.rtake errorLogCap
  := by
  induction ring with
  | nil => exact (List.rtake_nil _).symm
  | cons e ring ih =>
    rw [capped, List.rtake, List.length_cons]
    split
    next hlt =>
      have hsub : ring.length + 1 - errorLogCap = ring.length - errorLogCap + 1 := by omega
      rw [hsub, List.drop_succ_cons, ih, List.rtake]
    next hle =>
      have hsub : ring.length + 1 - errorLogCap = 0 := by omega
      rw [hsub, List.drop_zero]

/-- The log has the ring of a journal, and the file its entries. -/
structure Backs (path : Text) (st : ErrorLog × Option Text) (j : Journal Event) : Prop where
  ring_eq : st.1.ring = j.ring
  fileLines_eq : st.1.fileLines = j.entries.length
  path_eq : st.1.path = some path
  file_eq : st.2.getD [] = body S j.entries

section Lawful

variable {S} (hS : S.Lawful) {path : Text} {st : ErrorLog × Option Text} {j : Journal Event}
include hS

theorem lines_body (es : List Event) :
  Text.lines (body S es) = es.map (Event.line S)
  := by
  induction es with
  | nil => exact Text.lines_nil
  | cons e es ih =>
    obtain ⟨hfeed, hreturn⟩ := e.line_inLine hS
    rw [body, List.flatMap_cons, List.append_assoc, List.singleton_append,
      Text.lines_append hfeed hreturn, List.map_cons, ← ih, body]

/-- A load reads the journal off the file. -/
theorem backs_load {file : Option Text} {es : List Event} (hfile : file.getD [] = body S es) :
  Backs S path (load S path file, file) (Journal.reload errorLogCap { ring := [], entries := es })
  := by
  have hread : (es.map (Event.line S)).filterMap (Event.ofLine S) = es := by
    rw [List.filterMap_map, List.filterMap_congr (fun e _ => e.ofLine_line hS), List.filterMap_some]
  refine ⟨?_, ?_, rfl, hfile⟩
  · rw [load, hfile, lines_body hS, hread]
    exact capped_eq_rtake es
  · rw [load, hfile, lines_body hS, List.length_map]
    rfl

omit hS in
theorem Backs.push (h : Backs S path st j) (event : Event) :
  Backs S path (push S event st.1 st.2) (j.push errorLogCap event)
  := by
  have hring : capped (st.1.ring ++ [event]) = (j.ring ++ [event]).rtake errorLogCap := by
    rw [h.ring_eq, capped_eq_rtake]
  rw [ErrorLog.push, Journal.push, h.path_eq, h.fileLines_eq, hring]
  dsimp only
  split
  · exact ⟨rfl, rfl, rfl, rfl⟩
  · refine ⟨rfl, ?_, rfl, ?_⟩
    · rw [List.length_append, List.length_singleton]
    · rw [Option.getD_some, h.file_eq, body, body, List.flatMap_append, List.flatMap_singleton]

omit hS in
theorem Backs.clear (h : Backs S path st j) :
  Backs S path (clear st.1 st.2).2 Journal.empty
  := by
  rw [ErrorLog.clear, h.path_eq]
  exact ⟨rfl, rfl, rfl, rfl⟩

theorem Backs.reload (h : Backs S path st j) :
  Backs S path (load S path st.2, st.2) (j.reload errorLogCap)
  := backs_load hS h.file_eq

/-- A step is one of the journal. -/
theorem Backs.step {es : List Event} (h : Backs S path st j) (hj : j.Holds errorLogCap es)
    (op : Op) :
  ∃ j' : Journal Event, Backs S path (step S path op st) j' ∧ j'.Holds errorLogCap (pushedBy es op)
  := by
  cases op with
  | push event => exact ⟨_, h.push event, hj.push event⟩
  | clear => exact ⟨_, h.clear, Journal.Holds.empty⟩
  | reload => exact ⟨_, h.reload hS, hj.reload⟩

/-- After every run there is a journal with the events since the log was cleared. -/
theorem Backs.run {es : List Event} (h : Backs S path st j) (hj : j.Holds errorLogCap es)
    (ops : List Op) :
  ∃ j' : Journal Event, Backs S path (ops.foldl (fun st op => ErrorLog.step S path op st) st) j'
    ∧ j'.Holds errorLogCap (ops.foldl pushedBy es)
  := by
  induction ops generalizing st j es with
  | nil => exact ⟨j, h, hj⟩
  | cons op ops ih =>
    obtain ⟨j₁, h₁, hj₁⟩ := h.step hS hj op
    exact ih h₁ hj₁

end Lawful

/-- After every run from a missing file, the errors in memory and those that a load of the file
gives are the last ones pushed since the log was cleared, and the file has at most 600 lines. -/
theorem run_survives {S : SerdeJson} (hS : S.Lawful) (path : Text) (ops : List Op) :
  (run S path ops).1.ring = (pushed ops).rtake (min 300 (pushed ops).length)
    ∧ (load S path (run S path ops).2).ring = (pushed ops).rtake (min 300 (pushed ops).length)
    ∧ (Text.lines ((run S path ops).2.getD [])).length ≤ 600
  := by
  have hstart : Backs S path (load S path none, none) (Journal.empty.reload errorLogCap) :=
    backs_load hS rfl
  obtain ⟨j, hbacks, hholds⟩ := hstart.run hS Journal.Holds.empty.reload ops
  have hcap : errorLogCap = 300 := by rw [errorLogCap]
  have hlast : (pushed ops).rtake (min 300 (pushed ops).length) = (pushed ops).rtake errorLogCap := by
    have hlen : (pushed ops).length - min 300 (pushed ops).length = (pushed ops).length - 300 := by
      omega
    rw [hcap, List.rtake, List.rtake, hlen]
  rw [hlast]
  refine ⟨hbacks.ring_eq.trans hholds.ring_eq, ?_, ?_⟩
  · exact (hbacks.reload hS).ring_eq.trans hholds.reload.ring_eq
  · have hle := hholds.length_le
    rw [hcap] at hle
    rw [run, hbacks.file_eq, lines_body hS, List.length_map]
    exact hle

/-- Two errors with the log cleared before the second, and a restart. -/
theorem run_survives_cleared :
  SerdeJson.reference.Lawful
    ∧ (run .reference [] [.push ⟨1, .error, "a".toList, none⟩, .clear,
        .push ⟨2, .error, "b".toList, none⟩, .reload]).1.ring
      = [⟨2, .error, "b".toList, none⟩]
  := by
  use SerdeJson.lawful_reference
  exact (run_survives SerdeJson.lawful_reference _ _).1

end ErrorLog
