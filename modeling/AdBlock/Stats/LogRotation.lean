import AdBlock.Stats.Logs

/-!
# Rotation and restarts of one log

Lines are written to a log, with timestamps that do not decrease, and the log is opened anew at
any points.  A line can be read until one is written a rotation time later
(`reachable_until_rotation`).  The current file never spans a rotation time if the log is that of
requests or of queries.  For the details of requests, whose lines do not show their time, that
needs that the log is only opened anew while its current file has no line (`current_spans`).
-/

open Generations (Op written)

/-- The logs that are opened under a data directory. -/
inductive LogName where
  | requestLog
  | requestDetail
  | queryLog
  deriving DecidableEq, Repr

/-- The log that a line is written to. -/
def Logged.log : Logged → LogName
  | .request _ => .requestLog
  | .detail _ _ => .requestDetail
  | .dns _ => .queryLog

namespace RotatingLog

variable (S : SerdeJson)

def apply (hours : ℕ) (log : RotatingLog) : Op Logged → RotatingLog
  | .write l => log.writeLine l.tsMs (l.line S)
  | .reopen => openLog S log.files hours

/-- Write to a log and open it anew, from no files. -/
def run (hours : ℕ) (ops : List (Op Logged)) : RotatingLog :=
  ops.foldl (apply S hours) (openLog S LogFiles.empty hours)

/-- The lines of the current file. -/
def currentLines (log : RotatingLog) : List Text :=
  Text.lines (log.files.current.getD [])

/-- The records that a run leaves in the two generations. -/
def records (hours : ℕ) (ops : List (Op Logged)) : Generations Logged :=
  Generations.run Logged.tsMs Logged.shownMs (hoursMs hours) Generations.empty ops

variable {S} (hS : S.Lawful)
include hS

/-- The files after a run hold the records that it leaves. -/
theorem holds_run (hours : ℕ) (ops : List (Op Logged)) :
  Holds S (run S hours ops) (records hours ops) ∧ (run S hours ops).rotateMs = hoursMs hours
  := by
  induction ops using List.reverseRecOn with
  | nil => exact ⟨holds_empty hours, rfl⟩
  | append_singleton ops op ih =>
    obtain ⟨hholds, hrotate⟩ := ih
    rw [run, List.foldl_append, records, Generations.run_append]
    cases op with
    | write l =>
      have hwrite := hholds.writeLine l
      rw [hrotate] at hwrite
      exact ⟨hwrite, (Holds.rotateMs_writeLine _ _ _).trans hrotate⟩
    | reopen => exact ⟨hholds.openLog hS hours, rfl⟩

theorem currentLines_run (hours : ℕ) (ops : List (Op Logged)) :
  (run S hours ops).currentLines = (records hours ops).current.map (Logged.line S)
  := by
  rw [currentLines, (holds_run hS hours ops).1.current, lines_content hS]

/-- A page without bounds shows every line that is kept. -/
theorem page_none {log : RotatingLog} {g : Generations Logged} (h : Holds S log g) {limit : ℕ}
    (hlimit : g.kept.length ≤ limit) :
  log.page none limit (lineSeq S) = (g.kept.map (Logged.line S)).reverse
  := by
  have hall : ∀ line ∈ (g.kept.map (Logged.line S)).reverse, inPage none (lineSeq S) line := by
    intro line hline
    obtain ⟨l, -, rfl⟩ := List.mem_map.mp (List.mem_reverse.mp hline)
    rw [inPage, l.lineSeq_line hS]
    rfl
  rw [page, pageLines_eq, h.newestFirst hS, List.filter_eq_self.mpr hall, List.take_of_length_le]
  rw [List.length_reverse, List.length_map]
  exact hlimit

/-- What can be read are the last lines that were written, in their order, and each line that is
lost is a rotation time older than one that was written. -/
theorem reachable_until_rotation {hours : ℕ} {ops : List (Op Logged)}
    (hmono : (written ops).Pairwise fun l l' => l.tsMs ≤ l'.tsMs) :
  ∃ lost kept, written ops = lost ++ kept
    ∧ (∀ l ∈ lost, ∃ l' ∈ written ops, l.tsMs + hoursMs hours ≤ l'.tsMs)
    ∧ (∀ limit, kept.length ≤ limit →
        (run S hours ops).page none limit (lineSeq S) = (kept.map (Logged.line S)).reverse)
    ∧ ∀ pred, (run S hours ops).find pred = (kept.map (Logged.line S)).reverse.find? pred
  := by
  obtain ⟨hholds, -⟩ := holds_run hS hours ops
  obtain ⟨lost, hsplit, hold, -⟩ := Generations.lost_of_run (hoursMs hours)
    (fun l t ht => Logged.shownMs_eq ht) Generations.timely_empty hmono
  refine ⟨lost, (records hours ops).kept, hsplit, hold, ?_, ?_⟩
  · intro limit hlimit
    exact page_none hS hholds hlimit
  · intro pred
    rw [find, hholds.newestFirst hS]

omit hS in
/-- A request that is still there after a restart and a rotation. -/
theorem reachable_until_rotation_request :
  ∃ ops : List (Op Logged), ops = [.write (.request { seq := 1, tsMs := 0 }), .reopen,
      .write (.request { seq := 2, tsMs := 3600000 })]
    ∧ (written ops).Pairwise (fun l l' => l.tsMs ≤ l'.tsMs)
    ∧ ∃ lost kept, written ops = lost ++ kept
        ∧ (∀ l ∈ lost, ∃ l' ∈ written ops, l.tsMs + hoursMs 1 ≤ l'.tsMs)
        ∧ (∀ limit, kept.length ≤ limit →
            (run .reference 1 ops).page none limit (lineSeq .reference)
              = (kept.map (Logged.line .reference)).reverse)
        ∧ ∀ pred, (run .reference 1 ops).find pred
            = (kept.map (Logged.line .reference)).reverse.find? pred
  := ⟨_, rfl, by decide, reachable_until_rotation SerdeJson.lawful_reference (by decide)⟩

/-- The first line of a log other than that of details shows its time.  The lines of a file that
is empty do so as well. -/
theorem readsStart {name : LogName} {hours : ℕ} {ops : List (Op Logged)}
    (hname : ∀ l ∈ written ops, l.log = name)
    (hreopen : name = .requestDetail → ∀ before after, ops = before ++ .reopen :: after →
      (run S hours before).currentLines = []) :
  Generations.ReadsStart Logged.tsMs Logged.shownMs (hoursMs hours) Generations.empty ops
  := by
  intro before after heq l hl
  have hcurrent : l ∈ (records hours before).current := List.mem_of_mem_head? hl
  have hwritten : l ∈ written ops := by
    have hmem := (Generations.kept_run Logged.tsMs Logged.shownMs (hoursMs hours) Generations.empty
      before).mem
      (List.mem_append_right _ hcurrent)
    rw [heq, Generations.written_append]
    exact List.mem_append_left _ hmem
  cases l with
  | request record => rfl
  | dns record => rfl
  | detail d tsMs =>
    have hlines := currentLines_run hS hours before
    rw [hreopen (hname _ hwritten).symm before after heq] at hlines
    rw [List.map_eq_nil_iff.mp hlines.symm] at hcurrent
    cases hcurrent

/-- Right after a line is written, every line of the current file was written less than a
rotation time before it.  For the details of requests, that needs that the log is only opened
anew while its current file has no line. -/
theorem current_spans {name : LogName} {hours : ℕ} {ops : List (Op Logged)} {l : Logged}
    (hhours : 1 ≤ hours) (hname : ∀ l' ∈ written ops ++ [l], l'.log = name)
    (hmono : (written ops ++ [l]).Pairwise fun l l' => l.tsMs ≤ l'.tsMs)
    (hreopen : name = .requestDetail → ∀ before after, ops = before ++ .reopen :: after →
      (run S hours before).currentLines = []) :
  ∃ before recent, written ops ++ [l] = before ++ recent
    ∧ (run S hours (ops ++ [.write l])).currentLines = recent.map (Logged.line S)
    ∧ ∀ l' ∈ recent, l.tsMs < l'.tsMs + hoursMs hours
  := by
  obtain ⟨lost, hsplit⟩ :=
    Generations.kept_run Logged.tsMs Logged.shownMs (hoursMs hours) Generations.empty
      (ops ++ [.write l])
  refine ⟨lost ++ (records hours (ops ++ [.write l])).old,
    (records hours (ops ++ [.write l])).current, ?_, currentLines_run hS hours _, ?_⟩
  · rw [Generations.written_append] at hsplit
    rw [List.append_assoc]
    exact hsplit.symm
  · intro l' hl'
    rw [records, Generations.run_append] at hl'
    apply Generations.current_of_run (fun l t ht => Logged.shownMs_eq ht) hmono
      (readsStart hS (fun l hl => hname l (List.mem_append_left _ hl)) hreopen) ?_ l' hl'
    rw [hoursMs]
    omega

omit hS in
/-- The log of requests over a restart. -/
theorem current_spans_request :
  ∃ (ops : List (Op Logged)) (l : Logged),
    ops = [.write (.request { seq := 1, tsMs := 0 }), .reopen]
    ∧ l = .request { seq := 2, tsMs := 3600000 }
    ∧ (∀ l' ∈ written ops ++ [l], l'.log = .requestLog)
    ∧ (written ops ++ [l]).Pairwise (fun l l' => l.tsMs ≤ l'.tsMs)
    ∧ ∃ before recent, written ops ++ [l] = before ++ recent
        ∧ (run .reference 1 (ops ++ [.write l])).currentLines
            = recent.map (Logged.line .reference)
        ∧ ∀ l' ∈ recent, l.tsMs < l'.tsMs + hoursMs 1
  := ⟨_, _, rfl, rfl, by decide, by decide,
    @current_spans _ SerdeJson.lawful_reference .requestLog _ _ _ (by decide) (by decide)
      (by decide) (fun h => by cases h)⟩

omit hS in
/-- The log of details is opened anew between two lines that are an hour apart, and the current
file has both of them. -/
theorem current_spans_detail_reopened :
  (run .reference 1 [.write (.detail { seq := 1, reqHeaders := "a".toList } 0), .reopen,
      .write (.detail { seq := 2, reqHeaders := "b".toList } 3600000)]).currentLines
    = [(Logged.detail { seq := 1, reqHeaders := "a".toList } 0).line .reference,
      (Logged.detail { seq := 2, reqHeaders := "b".toList } 3600000).line .reference]
    ∧ ¬ (3600000 < (Logged.detail { seq := 1, reqHeaders := "a".toList } 0).tsMs + hoursMs 1)
  := ⟨by decide +kernel, by decide⟩

end RotatingLog
