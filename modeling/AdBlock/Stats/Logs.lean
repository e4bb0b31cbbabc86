import AdBlock.Json.Serde
import AdBlock.Rotation.Basic
import AdBlock.Stats.Records

/-!
# Rotating log files

A log is one current file and one old file of lines.  A line that comes the rotation time or more
after the start of the current file makes it the old one, in place of the old one before.  The
start is kept in memory, and read off the first line of the current file when the log is opened.

The lines that the program writes are records of three kinds.  Seen by its records, a log is one
in two generations (`Holds`): opening it is `Generations.reopen` and writing to it is
`Generations.write`, and what can be read from it is what is kept.
-/

/-! ### The files -/

/-- The files of a log, as far as they are there. -/
structure LogFiles where
  current : Option Text
  old : Option Text
  deriving DecidableEq, Repr

namespace LogFiles

/-- No file. -/
def empty : LogFiles := ⟨none, none⟩

/-- The current file becomes the old one, if it is there. -/
def rename (files : LogFiles) : LogFiles :=
  match files.current with
  | none => files
  | some text => { current := none, old := some text }

/-- Write a line at the end of the current file. -/
def appendLine (files : LogFiles) (line : Text) : LogFiles :=
  { files with current := some (files.current.getD [] ++ line ++ ['\n']) }

end LogFiles

/-- A log that is open. -/
structure RotatingLog where
  files : LogFiles
  startedMs : Option ℕ
  rotateMs : ℕ
  deriving DecidableEq, Repr

def hoursMs (hours : ℕ) : ℕ :=
  hours * 3600000

variable (S : SerdeJson)

/-- The time that a line says it is of. -/
def lineTs (line : Text) : Option ℕ := do
  let v ← S.fromStr line
  let ts ← v.get "ts_ms".toList
  ts.asU64

/-- The time of the first line of a file. -/
def firstLineTs (file : Option Text) : Option ℕ := do
  let text ← file
  lineTs S (Text.readLine text)

namespace RotatingLog

/-- Open the files of a log. -/
def openLog (files : LogFiles) (rotateHours : ℕ) : RotatingLog :=
  { files := files
    startedMs := firstLineTs S files.current
    rotateMs := hoursMs rotateHours }

def setRotateHours (log : RotatingLog) (hours : ℕ) : RotatingLog :=
  { log with rotateMs := hoursMs hours }

/-- The current file is aged out by a line. -/
def Aged (log : RotatingLog) (tsMs : ℕ) : Prop :=
  ∃ s ∈ log.startedMs, log.rotateMs ≤ tsMs - s

instance (log : RotatingLog) (tsMs : ℕ) : Decidable (log.Aged tsMs) :=
  inferInstanceAs (Decidable (∃ s, s ∈ log.startedMs ∧ _))

/-- Write a line, after moving the current file aside if the line ages it out. -/
def writeLine (log : RotatingLog) (tsMs : ℕ) (line : Text) : RotatingLog :=
  let log := if log.Aged tsMs then { log with files := log.files.rename, startedMs := none } else log
  { log with
    files := log.files.appendLine line
    startedMs := some (log.startedMs.getD tsMs) }

/-- The lines of the current file and then of the old one, each from the last. -/
def newestFirst (log : RotatingLog) : List Text :=
  (Text.lines (log.files.current.getD [])).reverse ++ (Text.lines (log.files.old.getD [])).reverse

/-- Up to `limit` of some lines whose number is below `before`.  Lines without a number are
skipped. -/
def pageLines (before : Option ℕ) (seqOf : Text → Option ℕ) : ℕ → List Text → List Text
  | 0, _ => []
  | _ + 1, [] => []
  | limit + 1, line :: lines =>
      match seqOf line with
      | none => pageLines before seqOf (limit + 1) lines
      | some seq =>
          if before.any (· ≤ seq) then pageLines before seqOf (limit + 1) lines
          else line :: pageLines before seqOf limit lines

def page (log : RotatingLog) (before : Option ℕ) (limit : ℕ) (seqOf : Text → Option ℕ) :
    List Text :=
  pageLines before seqOf limit log.newestFirst

/-- The newest line that satisfies a predicate. -/
def find (log : RotatingLog) (pred : Text → Bool) : Option Text :=
  log.newestFirst.find? pred

/-- A line has a number below a bound. -/
def inPage (before : Option ℕ) (seqOf : Text → Option ℕ) (line : Text) : Bool :=
  (seqOf line).any fun seq => !before.any (· ≤ seq)

/-- A page has the first lines with a number below the bound. -/
theorem pageLines_eq (before : Option ℕ) (seqOf : Text → Option ℕ) (limit : ℕ)
    (lines : List Text) :
  pageLines before seqOf limit lines = (lines.filter (inPage before seqOf)).take limit
  := by
  induction lines generalizing limit with
  | nil => cases limit <;> rfl
  | cons line lines ih =>
    cases limit with
    | zero => rfl
    | succ limit =>
      rw [pageLines, List.filter_cons, inPage]
      cases hseq : seqOf line with
      | none => simp [ih]
      | some seq =>
        by_cases hbefore : before.any (· ≤ seq)
        · simp [hbefore, ih]
        · simp [hbefore, ih]

end RotatingLog

/-! ### The lines of the program -/

/-- A line that the program writes to a log: a request, what was captured of a request with the
time of the request, or a DNS query. -/
inductive Logged where
  | request (record : RequestRecord)
  | detail (d : RequestDetail) (tsMs : UInt64)
  | dns (record : DnsRecord)
  deriving DecidableEq, Repr

/-- The number of a line. -/
def lineSeq (line : Text) : Option ℕ := do
  let v ← S.fromStr line
  let seq ← v.get "seq".toList
  seq.asU64

namespace Logged

def json : Logged → Json
  | .request record => record.toJson
  | .detail d _ => d.toJson
  | .dns record => record.toJson

/-- The time that a line is written with. -/
def tsMs : Logged → ℕ
  | .request record => record.tsMs.toNat
  | .detail _ tsMs => tsMs.toNat
  | .dns record => record.tsMs.toNat

/-- The time that can be read off a line. -/
def shownMs : Logged → Option ℕ
  | .request record => some record.tsMs.toNat
  | .detail _ _ => none
  | .dns record => some record.tsMs.toNat

def seq : Logged → ℕ
  | .request record => record.seq.toNat
  | .detail d _ => d.seq.toNat
  | .dns record => record.seq.toNat

/-- The line as it is written. -/
def line (l : Logged) : Text :=
  S.toString l.json

theorem json_of_scalars (l : Logged) :
  l.json.Plain ∧ l.json.depth ≤ 1
  := by
  cases l with
  | request record => exact record.toJson_of_scalars
  | detail d tsMs => exact d.toJson_of_scalars
  | dns record => exact record.toJson_of_scalars

theorem shownMs_eq {l : Logged} {t : ℕ} (h : t ∈ l.shownMs) :
  t = l.tsMs
  := by
  cases l with
  | request record => exact (Option.some.inj h).symm
  | detail d tsMs => cases h
  | dns record => exact (Option.some.inj h).symm

variable {S} (hS : S.Lawful) (l : Logged)
include hS

theorem fromStr_line {space : Text} (hspace : ∀ c ∈ space, Json.isSpace c) :
  S.fromStr (l.line S ++ space) = some l.json
  := by
  obtain ⟨hplain, hdepth⟩ := l.json_of_scalars
  exact hS.fromStr_toString hplain (lt_of_le_of_lt hdepth (by decide)) hspace

theorem fromStr_line_nil :
  S.fromStr (l.line S) = some l.json
  := by
  have := l.fromStr_line hS (List.forall_mem_nil _)
  rwa [List.append_nil] at this

theorem line_inLine :
  '\n' ∉ l.line S ∧ '\r' ∉ l.line S
  := by
  have hline := hS.toString_line l.json_of_scalars.1
  exact ⟨fun h => (hline _ h).1 rfl, fun h => (hline _ h).2 rfl⟩

/-- The number of a line is that of its record. -/
theorem lineSeq_line :
  lineSeq S (l.line S) = some l.seq
  := by
  have hseq : l.json.get "seq".toList >>= Json.asU64 = some l.seq := by
    cases l with
    | request record =>
      rw [json, record.get_toJson (i := 0) rfl]
      rw [Option.bind_eq_bind, Option.bind_some, Json.asU64_ofU64, seq]
    | detail d tsMs =>
      rw [json, d.get_seq]
      rw [Option.bind_eq_bind, Option.bind_some, Json.asU64_ofU64, seq]
    | dns record =>
      rw [json, record.get_toJson (i := 0) rfl]
      rw [Option.bind_eq_bind, Option.bind_some, Json.asU64_ofU64, seq]
  rw [lineSeq, l.fromStr_line_nil hS]
  exact hseq

/-- The time of a line is read back, with the line feed after it, if it is written. -/
theorem lineTs_line :
  lineTs S (l.line S ++ ['\n']) = l.shownMs
  := by
  have hts : l.json.get "ts_ms".toList >>= Json.asU64 = l.shownMs := by
    cases l with
    | request record =>
      rw [json, record.get_toJson (i := 1) rfl]
      rw [Option.bind_eq_bind, Option.bind_some, Json.asU64_ofU64, shownMs]
    | detail d tsMs =>
      rw [json, d.get_tsMs]
      rfl
    | dns record =>
      rw [json, record.get_toJson (i := 1) rfl]
      rw [Option.bind_eq_bind, Option.bind_some, Json.asU64_ofU64, shownMs]
  rw [lineTs, l.fromStr_line hS (by decide)]
  exact hts

end Logged

/-! ### A log by its records -/

/-- The text of a file with some lines. -/
def content (ls : List Logged) : Text :=
  ls.flatMap fun l => l.line S ++ ['\n']

/-- The files of a log hold the records of two generations. -/
structure Holds (log : RotatingLog) (g : Generations Logged) : Prop where
  current : log.files.current.getD [] = content S g.current
  old : log.files.old.getD [] = content S g.old
  started : log.startedMs = g.started
  exists_current : g.started.isSome → log.files.current.isSome

variable {S} {log : RotatingLog} {g : Generations Logged}

theorem content_append (ls ls' : List Logged) :
  content S (ls ++ ls') = content S ls ++ content S ls'
  := List.flatMap_append

theorem content_singleton (l : Logged) :
  content S [l] = l.line S ++ ['\n']
  := List.flatMap_singleton _ l

section Lawful

variable (hS : S.Lawful)
include hS

theorem lines_content (ls : List Logged) :
  Text.lines (content S ls) = ls.map (Logged.line S)
  := by
  induction ls with
  | nil => rfl
  | cons l ls ih =>
    obtain ⟨hfeed, hreturn⟩ := l.line_inLine hS
    have hcons : content S (l :: ls) = l.line S ++ '\n' :: content S ls := by
      rw [content, List.flatMap_cons, List.append_assoc]
      rfl
    rw [hcons, Text.lines_append hfeed hreturn, ih, List.map_cons]

/-- The time of the first line of a file, as far as it is written there. -/
theorem firstLineTs_eq {file : Option Text} {ls : List Logged}
    (h : file.getD [] = content S ls) :
  firstLineTs S file = ls.head?.bind Logged.shownMs
  := by
  cases ls with
  | nil =>
    cases file with
    | none => rfl
    | some text =>
      obtain rfl : text = [] := h
      simp [firstLineTs, lineTs, Text.readLine, hS.fromStr_nil]
  | cons l ls =>
    have hcons : content S (l :: ls) = l.line S ++ '\n' :: content S ls := by
      rw [content, List.flatMap_cons, List.append_assoc]
      rfl
    cases file with
    | none =>
      rw [Option.getD_none, hcons] at h
      simp at h
    | some text =>
      obtain rfl : text = content S (l :: ls) := h
      rw [firstLineTs, hcons]
      simp only [Option.bind_eq_bind, Option.bind_some, List.head?_cons]
      rw [Text.readLine_append (l.line_inLine hS).1, l.lineTs_line hS]

/-- Opening the files of a log reopens it. -/
theorem Holds.openLog (h : Holds S log g) (hours : ℕ) :
  Holds S (RotatingLog.openLog S log.files hours) (g.reopen Logged.shownMs)
  where
  current := h.current
  old := h.old
  started := firstLineTs_eq hS h.current
  exists_current := by
    intro hstarted
    cases hcurrent : log.files.current with
    | some text =>
      rw [RotatingLog.openLog, hcurrent]
      rfl
    | none =>
      have hts := firstLineTs_eq hS h.current
      rw [hcurrent] at hts
      rw [Generations.reopen, ← hts] at hstarted
      cases hstarted

end Lawful

/-- No files hold nothing. -/
theorem holds_empty (hours : ℕ) :
  Holds S (RotatingLog.openLog S LogFiles.empty hours) Generations.empty
  where
  current := rfl
  old := rfl
  started := rfl
  exists_current h := by cases h

theorem Holds.setRotateHours (h : Holds S log g) (hours : ℕ) :
  Holds S (log.setRotateHours hours) g
  := ⟨h.current, h.old, h.started, h.exists_current⟩

theorem Holds.aged_iff (h : Holds S log g) (l : Logged) :
  log.Aged l.tsMs ↔ Generations.Due Logged.tsMs log.rotateMs g l
  := by
  rw [RotatingLog.Aged, h.started]
  rfl

/-- Writing a line writes its record. -/
theorem Holds.writeLine (h : Holds S log g) (l : Logged) :
  Holds S (log.writeLine l.tsMs (l.line S)) (g.write Logged.tsMs log.rotateMs l)
  := by
  rw [RotatingLog.writeLine]
  by_cases hdue : Generations.Due Logged.tsMs log.rotateMs g l
  · rw [if_pos ((h.aged_iff l).mpr hdue), Generations.write_of_due hdue]
    -- the current file is there, as it has started
    obtain ⟨s, hs, -⟩ := hdue
    obtain ⟨text, htext⟩ := Option.isSome_iff_exists.mp (h.exists_current (by rw [hs]; rfl))
    have hcurrent := h.current
    rw [htext] at hcurrent
    constructor
    · simp [LogFiles.rename, LogFiles.appendLine, htext, content_singleton]
    · simpa [LogFiles.rename, LogFiles.appendLine, htext] using hcurrent
    · rfl
    · intro _
      rfl
  · rw [if_neg (mt (h.aged_iff l).mp hdue), Generations.write_of_not_due hdue]
    constructor
    · simp [LogFiles.appendLine, content_append, content_singleton, h.current]
    · exact h.old
    · simp [h.started]
    · intro _
      rfl

theorem Holds.rotateMs_writeLine (log : RotatingLog) (tsMs : ℕ) (line : Text) :
  (log.writeLine tsMs line).rotateMs = log.rotateMs
  := by
  rw [RotatingLog.writeLine]
  split <;> rfl

/-- What can be read from a log, newest first, is what is kept. -/
theorem Holds.newestFirst (hS : S.Lawful) (h : Holds S log g) :
  log.newestFirst = (g.kept.map (Logged.line S)).reverse
  := by
  rw [RotatingLog.newestFirst, h.current, h.old, lines_content hS, lines_content hS,
    Generations.kept, List.map_append, List.reverse_append]
