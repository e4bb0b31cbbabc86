import AdBlock.Cursor.Basic
import AdBlock.Stats.SharedState

/-!
# Pages of requests

The requests in the two files of the log are shown page by page, newest first, and the smallest
number shown so far is the cursor of the next page.  This shows each request exactly once, by
decreasing numbers, if and only if the requests in the files are in the order of their numbers
(`requestPage_walk_iff`).  They need not be, as taking a number and sending the line are two steps
of a recorder (`requestPage_walk_unordered`).
-/

namespace SharedState

variable (S : SerdeJson) (st : SharedState)

/-- The record of a line in the log of requests. -/
def readRequest (line : Text) : Option RequestRecord := do
  let v ← S.fromStr line
  RequestRecord.fromJson v

/-- A page of requests, newest first, with numbers below `before`. -/
def requestPage (before : Option ℕ) (limit : ℕ) : List RequestRecord :=
  ((st.logs .requestLog).log.page before limit (lineSeq S)).filterMap (readRequest S)

/-- The requests in the two files of the log, newest first. -/
def requestsOnDisk : List RequestRecord :=
  (st.logs .requestLog).log.newestFirst.filterMap (readRequest S)

variable {S st} (hS : S.Lawful)
include hS

theorem readRequest_line (record : RequestRecord) :
  readRequest S ((Logged.request record).line S) = some record
  := by
  rw [readRequest, Logged.fromStr_line_nil hS]
  exact record.fromJson_toJson

/-- The lines in the files are those of the requests on disk. -/
theorem newestFirst_eq {lines : LogName → List Logged} (h : Recorded S st lines) :
  (st.logs .requestLog).log.newestFirst
    = (requestsOnDisk S st).map fun record => (Logged.request record).line S
  := by
  obtain ⟨⟨g, queued, hholds, -, hlines⟩, hlog⟩ := h .requestLog
  have hread : ∀ l ∈ g.kept.reverse,
      (readRequest S (l.line S)).map (fun record => (Logged.request record).line S)
        = some (l.line S) := by
    intro l hl
    have hl : l ∈ lines .requestLog := by
      rw [hlines]
      exact List.mem_append_left _ (List.mem_reverse.mp hl)
    cases l with
    | request record => rw [readRequest_line hS, Option.map_some]
    | detail d tsMs => cases hlog _ hl
    | dns record => cases hlog _ hl
  rw [requestsOnDisk, hholds.newestFirst hS, ← List.map_reverse, List.map_filterMap,
    List.filterMap_map]
  rw [← List.filterMap_eq_map]
  exact (List.filterMap_congr hread).symm

theorem requestPage_eq {lines : LogName → List Logged} (h : Recorded S st lines) :
  requestPage S st
    = Cursor.page (fun record : RequestRecord => record.seq.toNat) (requestsOnDisk S st)
  := by
  have hread : readRequest S ∘ (fun record => (Logged.request record).line S) = some := by
    funext record
    exact readRequest_line hS record
  funext before limit
  have hbelow : RotatingLog.inPage before (lineSeq S) ∘ (fun record => (Logged.request record).line S)
      = Cursor.below (fun record : RequestRecord => record.seq.toNat) before := by
    funext record
    rw [Function.comp_apply, RotatingLog.inPage, Logged.lineSeq_line hS]
    rfl
  rw [requestPage, RotatingLog.page, RotatingLog.pageLines_eq, newestFirst_eq hS h,
    List.filter_map, hbelow, ← List.map_take, List.filterMap_map, hread, List.filterMap_some,
    Cursor.page]

/-- From every state that a run reaches, walking through the pages of requests shows each request
on disk exactly once, by decreasing numbers, if and only if the numbers on disk decrease from the
newest line. -/
theorem requestPage_walk_iff {rotate : ℕ} {actions : List Action}
    (hrun : run S (start S rotate) actions = some st) :
  (∀ limits : ℕ → ℕ, (∀ i, 1 ≤ limits i) → ∃ fuel shown,
      Cursor.walk (fun record => record.seq.toNat) (requestPage S st) limits fuel 0 [] = some shown
        ∧ shown.Perm (requestsOnDisk S st)
        ∧ shown.Pairwise fun record record' => record'.seq.toNat < record.seq.toNat)
    ↔ (requestsOnDisk S st).Pairwise fun record record' => record'.seq.toNat < record.seq.toNat
  := by
  obtain ⟨lines, hrecorded⟩ := run_recorded hS (recorded_start rotate) hrun
  rw [requestPage_eq hS hrecorded]
  exact Cursor.walk_iff

omit hS in
/-- Two requests that are sent and written in order. -/
theorem requestPage_walk_iff_two :
  ∃ st, run .reference (start .reference 24)
      [.begin .forwarded {} 200 [] false 0, .begin .forwarded {} 200 [] false 0,
        .sendRequest 0, .sendRequest 0, .write .requestLog, .write .requestLog] = some st
    ∧ ∀ limits : ℕ → ℕ, (∀ i, 1 ≤ limits i) → ∃ fuel shown,
        Cursor.walk (fun record => record.seq.toNat) (requestPage .reference st) limits fuel 0 []
            = some shown
          ∧ shown.Perm (requestsOnDisk .reference st)
          ∧ shown.Pairwise fun record record' => record'.seq.toNat < record.seq.toNat
  := by
  refine ⟨_, rfl, (@requestPage_walk_iff _ _ SerdeJson.lawful_reference 24
    [.begin .forwarded {} 200 [] false 0, .begin .forwarded {} 200 [] false 0,
      .sendRequest 0, .sendRequest 0, .write .requestLog, .write .requestLog] rfl).mpr ?_⟩
  decide +kernel

omit hS in
/-- Two recorders send their requests in the other order.  Pages of one request show the newest
line, with the number 1, and then nothing. -/
theorem requestPage_walk_unordered :
  (do
    let st ← run .reference (start .reference 24)
      [.begin .forwarded {} 200 [] false 0, .begin .forwarded {} 200 [] false 0,
        .sendRequest 1, .sendRequest 0, .write .requestLog, .write .requestLog]
    let shown ← Cursor.walk (fun record => record.seq.toNat) (requestPage .reference st)
      (fun _ => 1) 2 0 []
    some (shown.map (·.seq), (requestsOnDisk .reference st).map (·.seq)))
      = some ([1], [1, 2])
  := by decide +kernel

end SharedState
