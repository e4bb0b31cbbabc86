import AdBlock.Rust.Text
import AdBlock.Window.Basic
import Mathlib.Data.Char
import Mathlib.Data.List.Lex
import Mathlib.Data.List.Sort
import Mathlib.Data.Prod.Lex
import Std.Data.TreeMap

/-!
# The metric history

The metrics of the last hours in buckets of ten minutes, with the number of times each domain
was queried and blocked.  The counts of the whole window are kept beside the buckets: recording
adds to them, and a bucket that leaves the window is subtracted.

An arithmetic operation of the source that would underflow, or an index out of bounds, makes a
call fail: the result is `none`.
-/

/-- What is counted. -/
inductive Metric where
  | requests
  | blocked
  | errors
  | dnsQueries
  | dnsBlocked
  | dnsCached
  deriving DecidableEq, Repr

/-- The tables of domains. -/
inductive Table where
  | queried
  | blocked
  deriving DecidableEq, Repr

/-- All the metrics. -/
def Metric.all : List Metric :=
  [.requests, .blocked, .errors, .dnsQueries, .dnsBlocked, .dnsCached]

/-- The table that the domain of a metric is counted in. -/
def Metric.domainTable : Metric → Option Table
  | .requests | .dnsQueries => some .queried
  | .blocked | .dnsBlocked => some .blocked
  | .errors | .dnsCached => none

def bucketSecs : ℕ := 600

def bucketsPerHour : ℕ := 6

def defaultWindowBuckets : ℕ := 24 * bucketsPerHour

def topN : ℕ := 25

/-- `-` on unsigned integers. -/
def checkedSub (a b : ℕ) : Option ℕ :=
  if b ≤ a then some (a - b) else none

/-- Counts by domain. -/
abbrev DomainCounts := Std.TreeMap Text ℕ

/-- The counts of ten minutes. -/
structure Bucket where
  idx : ℕ
  counts : Metric → ℕ
  queried : DomainCounts
  blocked : DomainCounts

def Bucket.new (idx : ℕ) : Bucket :=
  { idx := idx, counts := fun _ => 0, queried := ∅, blocked := ∅ }

/-- The buckets, from the oldest, and the counts over all of them. -/
structure History where
  buckets : List Bucket
  totals : Metric → ℕ
  queried : DomainCounts
  blocked : DomainCounts
  windowBuckets : ℕ

/-- What is shown of the history. -/
structure Snapshot where
  bucketSecs : ℕ
  totals : Metric → ℕ
  series : Metric → List ℕ
  topQueried : List (Text × ℕ)
  topBlocked : List (Text × ℕ)

namespace DomainCounts

/-- Count a domain once more. -/
def bump (counts : DomainCounts) (domain : Text) : DomainCounts :=
  counts.insert domain (counts.getD domain 0 + 1)

/-- Take the count of one domain away, and the domain with it when nothing is left. -/
def subtractOne (window : DomainCounts) (domain : Text) (n : ℕ) : DomainCounts :=
  match window[domain]? with
  | none => window
  | some count => if count - n = 0 then window.erase domain else window.insert domain (count - n)

/-- Take the counts of an expired bucket away from those of the window. -/
def subtract (window expired : DomainCounts) : DomainCounts :=
  expired.foldl subtractOne window

/-- The order of the top lists: by count from the highest, then by name. -/
def rank (entry : Text × ℕ) : ℕᵒᵈ ×ₗ Text :=
  toLex (OrderDual.toDual entry.2, entry.1)

/-- The domains with the highest counts. -/
def top (counts : DomainCounts) : List (Text × ℕ) :=
  (counts.toList.insertionSort fun a b => rank a ≤ rank b).take topN

end DomainCounts

namespace History

/-- The history with nothing recorded, for a window of 24 hours. -/
def new : History :=
  { buckets := [], totals := fun _ => 0, queried := ∅, blocked := ∅,
    windowBuckets := defaultWindowBuckets }

/-- Take the counts of an expired bucket out of the window. -/
def forget (h : History) (b : Bucket) : Option History :=
  if ∀ m ∈ Metric.all, b.counts m ≤ h.totals m then
    some { h with
      totals := fun m => h.totals m - b.counts m
      queried := h.queried.subtract b.queried
      blocked := h.blocked.subtract b.blocked }
  else none

/-- Pop buckets as long as the one in front has left the window. -/
def popExpired (h : History) (idx : ℕ) : List Bucket → Option History
  | [] => some { h with buckets := [] }
  | b :: rest =>
      if b.idx + h.windowBuckets ≤ idx then
        (h.forget b).bind fun h => h.popExpired idx rest
      else some { h with buckets := b :: rest }

def rotate (h : History) (idx : ℕ) : Option History :=
  h.popExpired idx h.buckets

/-- Count a domain in a bucket and in the window. -/
def countDomain (h : History) (bucket : Bucket) (table : Table) (domain : Text) :
    History × Bucket :=
  match table with
  | .queried =>
      ({ h with queried := h.queried.bump domain },
        { bucket with queried := bucket.queried.bump domain })
  | .blocked =>
      ({ h with blocked := h.blocked.bump domain },
        { bucket with blocked := bucket.blocked.bump domain })

def recordAt (h : History) (now : ℕ) (metric : Metric) (domain : Text) : Option History := do
  let idx := now / bucketSecs
  let h ← h.rotate idx
  -- the bucket at the back, pushed if the one there is not of `idx`
  let (before, bucket) := Window.splitBack (fun b => b.idx = idx) (Bucket.new idx) h.buckets
  let bucket := { bucket with counts := bucket.counts + Pi.single metric 1 }
  let h := { h with totals := h.totals + Pi.single metric 1 }
  if domain.isEmpty then
    return { h with buckets := before ++ [bucket] }
  match metric.domainTable with
  | none => return { h with buckets := before ++ [bucket] }
  | some table =>
      let (h, bucket) := h.countDomain bucket table domain
      return { h with buckets := before ++ [bucket] }

def reset (h : History) : History :=
  { new with windowBuckets := h.windowBuckets }

def setRetentionHours (h : History) (hours : ℕ) : History :=
  { h with windowBuckets := hours * bucketsPerHour }

/-- Write a value at an index of each series. -/
def setAll (series : Metric → List ℕ) (pos : ℕ) (counts : Metric → ℕ) :
    Option (Metric → List ℕ) :=
  if ∀ m ∈ Metric.all, pos < (series m).length then
    some fun m => (series m).set pos (counts m)
  else none

/-- Write the counts of a bucket into the series, at the place its age gives. -/
def plotBucket (idx window : ℕ) (series : Metric → List ℕ) (b : Bucket) :
    Option (Metric → List ℕ) := do
  let age ← checkedSub idx b.idx
  let last ← checkedSub window 1
  let pos ← checkedSub last age
  setAll series pos b.counts

/-- Write the counts of the buckets into the series, from the oldest. -/
def plot (idx window : ℕ) (buckets : List Bucket) (series : Metric → List ℕ) :
    Option (Metric → List ℕ) :=
  buckets.foldlM (plotBucket idx window) series

def snapshotAt (h : History) (now : ℕ) : Option (Snapshot × History) := do
  let idx := now / bucketSecs
  let h ← h.rotate idx
  let window := h.windowBuckets
  let series ← plot idx window h.buckets fun _ => List.replicate window 0
  return ({ bucketSecs := bucketSecs, totals := h.totals, series := series,
            topQueried := h.queried.top, topBlocked := h.blocked.top }, h)

/-! ### Calls -/

/-- A call on the history. -/
inductive Call where
  | recordAt (now : ℕ) (metric : Metric) (domain : Text)
  | snapshotAt (now : ℕ)
  | setRetentionHours (hours : ℕ)
  | reset
  deriving DecidableEq, Repr

/-- The time a call is made at, for the calls that take one. -/
def Call.now : Call → Option ℕ
  | .recordAt now _ _ => some now
  | .snapshotAt now => some now
  | .setRetentionHours _ => none
  | .reset => none

/-- What a call does, and the snapshot it returns if it is for one. -/
def call (h : History) : Call → Option (Option Snapshot × History)
  | .recordAt now metric domain => (h.recordAt now metric domain).map fun h => (none, h)
  | .snapshotAt now => (h.snapshotAt now).map fun (snapshot, h) => (some snapshot, h)
  | .setRetentionHours hours => some (none, h.setRetentionHours hours)
  | .reset => some (none, h.reset)

/-- Calls one after the other, with the snapshots they return. -/
def calls (h : History) : List Call → Option (List Snapshot × History)
  | [] => some ([], h)
  | c :: cs => do
      let (snapshot, h) ← h.call c
      let (snapshots, h) ← h.calls cs
      return (snapshot.toList ++ snapshots, h)

end History
