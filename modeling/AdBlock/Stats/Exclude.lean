import AdBlock.Domain.Basic
import AdBlock.Persist.Lines
import Mathlib.Data.List.Lex
import Mathlib.Data.List.Sort

/-!
# Domains kept out of the statistics

A list of domains that are not counted, with their subdomains.  The domains are brought to lower
case when they are added and when they are read from the file (`normal_run`), and are compared with
hosts as they are given.
-/

namespace StatsExclusions

/-- A domain in lower case, without `*.` in front and without outer dots and spaces. -/
def normalize (domain : Text) : Text :=
  let d := Unicode.toLowercase (Text.trim domain)
  let d := (Text.stripPrefix d "*.".toList).getD d
  Text.trim (Text.trimMatches d '.')

/-- Nothing is added to the lower case. -/
theorem normalize_sublist_toLowercase (domain : Text) :
  (normalize domain).Sublist (Unicode.toLowercase (Text.trim domain))
  := by
  have htrim (d : Text) : (Text.trim (Text.trimMatches d '.')).Sublist d :=
    (Text.trim_sublist _).trans (Text.trimMatches_sublist _ _)
  rw [normalize]
  cases hstrip : Text.stripPrefix (Unicode.toLowercase (Text.trim domain)) "*.".toList with
  | none => exact htrim _
  | some rest =>
    rw [Text.eq_append_of_stripPrefix hstrip]
    exact (htrim rest).trans (List.sublist_append_right _ rest)

theorem isLower_normalize (domain : Text) :
  Text.IsLower (normalize domain)
  := Unicode.isLower_of_sublist (normalize_sublist_toLowercase domain)

-- evaluating it on a variable would go through the tables of lower case
attribute [irreducible] normalize

/-- The domain on a line of the file. -/
def parse (line : Text) : Option Text :=
  let d := normalize line
  if d = [] then none else some d

def lineFormat : LineFormat Text where
  parse
  format := id

/-- The first lines of the file. -/
def header : Text :=
  "# Domains excluded from statistics and logging. Managed by the admin UI;\n".toList
    ++ "# one host per line. Matches the exact host or any subdomain (a leading\n".toList
    ++ "# *. is accepted and means the same thing).".toList

end StatsExclusions

/-- The domains that are excluded, and the file they are kept in. -/
abbrev StatsExclusions := PersistedSet Text

namespace StatsExclusions

/-- The domains of the file, sorted, each once. -/
def load (file : Option Text) : StatsExclusions :=
  PersistedSet.load lineFormat
    (fun domains => dedupBy (· == ·) (domains.insertionSort (· ≤ ·))) file

/-- The host or a parent domain of it is excluded. -/
def excludes (store : StatsExclusions) (host : Text) : Bool :=
  if host = [] then false else store.entries.any (Domain.covers · host)

/-- Add a domain that is not there yet, and return all of them. -/
def addEdit (domain : Text) (domains : List Text) : (List Text × Bool) × List Text :=
  let domains :=
    if domain ∈ domains then domains else (domains ++ [domain]).insertionSort (· ≤ ·)
  ((domains, true), domains)

variable (persisted : Except Text Unit)

def add (domain : Text) (store : StatsExclusions) :
    Except Text (List Text) × StatsExclusions :=
  let domain := normalize domain
  if domain = [] then (.error "excluded domain is empty".toList, store)
  else PersistedSet.mutate lineFormat header persisted (addEdit domain) store

def remove (domain : Text) (store : StatsExclusions) : Except Text Bool × StatsExclusions :=
  let domain := normalize domain
  PersistedSet.mutate lineFormat header persisted (PersistedSet.removeEdit (· == domain)) store

/-! ### Runs -/

/-- A call with what the disk does. -/
inductive Op where
  | add (domain : Text) (persisted : Except Text Unit)
  | remove (domain : Text) (persisted : Except Text Unit)

def step (op : Op) (store : StatsExclusions) : StatsExclusions :=
  match op with
  | .add domain persisted => (add persisted domain store).2
  | .remove domain persisted => (remove persisted domain store).2

/-- Calls one after the other. -/
def run (ops : List Op) (store : StatsExclusions) : StatsExclusions :=
  ops.foldl (fun store op => step op store) store

/-- The domains of a list are not empty and in lower case. -/
def Normal (domains : List Text) : Prop :=
  ∀ d ∈ domains, d ≠ [] ∧ Text.IsLower d

theorem normal_of_parse {line d : Text} (h : parse line = some d) :
  d ≠ [] ∧ Text.IsLower d
  := by
  simp only [parse] at h
  split at h
  · cases h
  · next hne =>
    rw [← Option.some.inj h]
    exact ⟨hne, isLower_normalize line⟩

theorem normal_load (file : Option Text) :
  Normal (load file).entries
  := by
  intro d hd
  have hmem := (List.perm_insertionSort _ _).mem_iff.mp ((dedupBy_sublist _ _).mem hd)
  cases file with
  | none => cases hmem
  | some text =>
    rw [Option.map_some, Option.getD_some] at hmem
    apply PersistedSet.forall_parseLines lineFormat _ text d hmem
    intro line d hparse
    exact normal_of_parse hparse

theorem normal_addEdit {domain : Text} {domains : List Text} (hne : domain ≠ [])
    (hlower : Text.IsLower domain) (h : Normal domains) :
  Normal (addEdit domain domains).2
  := by
  simp only [addEdit]
  split
  · exact h
  · intro d hd
    rcases List.mem_append.mp ((List.perm_insertionSort _ _).mem_iff.mp hd) with hd | hd
    · exact h d hd
    · rw [List.mem_singleton.mp hd]
      exact ⟨hne, hlower⟩

/-- A call keeps the domains normal, whether or not the disk takes it. -/
theorem normal_step {store : StatsExclusions} (h : Normal store.entries) (op : Op) :
  Normal (step op store).entries
  := by
  cases op with
  | add domain persisted =>
    simp only [step, add]
    split
    · exact h
    · next hne =>
      apply PersistedSet.mutate_inv _ h
      exact normal_addEdit hne (isLower_normalize domain) h
  | remove domain persisted =>
    apply PersistedSet.mutate_inv _ h
    exact fun d hd => h d ((PersistedSet.removeEdit_sublist _ _).mem hd)

/-- In every list that calls reach the domains are in lower case. -/
theorem normal_run {store : StatsExclusions} (h : Normal store.entries) (ops : List Op) :
  Normal (run ops store).entries
  := by
  induction ops generalizing store with
  | nil => exact h
  | cons op ops ih => exact ih (normal_step h op)

/-- A host is excluded exactly if a domain covers it in lower case, and the part of it that is
compared is in lower case. -/
theorem excludes_iff {store : StatsExclusions} (h : Normal store.entries) (host : Text) :
  excludes store host = true
    ↔ ∃ d ∈ store.entries, Domain.covers d (Text.toAsciiLowercase host) = true
      ∧ Text.IsLower (Domain.tail d host)
  := by
  have hiff : excludes store host = true ↔ ∃ d ∈ store.entries, Domain.covers d host = true := by
    unfold excludes
    split
    · next hhost =>
      rw [hhost]
      refine iff_of_false Bool.false_ne_true ?_
      rintro ⟨d, hd, hcovers⟩
      rcases Domain.covers_iff_suffix.mp hcovers with heq | hsuffix
      · exact (h d hd).1 heq.symm
      · exact List.cons_ne_nil _ _ (List.suffix_nil.mp hsuffix)
    · exact List.any_eq_true
  rw [hiff]
  constructor
  · rintro ⟨d, hd, hcovers⟩
    exact ⟨d, hd, (Domain.covers_iff (h d hd).2).mp hcovers⟩
  · rintro ⟨d, hd, hcovers⟩
    exact ⟨d, hd, (Domain.covers_iff (h d hd).2).mpr hcovers⟩

end StatsExclusions
