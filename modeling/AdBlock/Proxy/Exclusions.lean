import AdBlock.Domain.Basic
import AdBlock.Persist.Lines
import Mathlib.Data.List.Lex
import Mathlib.Data.List.Sort

/-!
# Domains that are not inspected

The proxy keeps a list of domains whose connections it passes on as they are.  The domains are
brought to lower case when they are added and when they are read from the file
(`lowered_run`), and are compared with hosts as the client spells them.
-/

namespace Proxy

/-- A domain that is not inspected.  One that is parked stays in the list. -/
structure Exclusion where
  domain : Text
  enabled : Bool
  deriving DecidableEq, Repr

namespace Exclusion

/-- The domain in lower case without points at its ends.  A `*.` in front stays. -/
def normalize (domain : Text) : Text :=
  let d := Unicode.toLowercase (Text.trim domain)
  let (wildcard, rest) := Domain.splitWildcard d
  let core := Text.trim (Text.trimMatches rest '.')
  if core = [] then []
  else if wildcard then "*.".toList ++ core
  else core

/-- Nothing is added to the lower case. -/
theorem normalize_sublist_toLowercase (domain : Text) :
  (normalize domain).Sublist (Unicode.toLowercase (Text.trim domain))
  := by
  simp only [normalize]
  generalize Unicode.toLowercase (Text.trim domain) = d
  have hcore : (Text.trim (Text.trimMatches (Domain.splitWildcard d).2 '.')).Sublist
      (Domain.splitWildcard d).2 :=
    (Text.trim_sublist _).trans (Text.trimMatches_sublist _ _)
  have hd := Domain.append_splitWildcard d
  split
  · exact List.nil_sublist d
  · split
    · next hwildcard =>
      have happend := hcore.append_left "*.".toList
      rw [if_pos hwildcard] at hd
      rw [hd] at happend
      exact happend
    · next hwildcard =>
      rw [if_neg hwildcard, List.nil_append] at hd
      rw [hd] at hcore ⊢
      exact hcore

theorem isLower_normalize (domain : Text) :
  Text.IsLower (normalize domain)
  := Unicode.isLower_of_sublist (normalize_sublist_toLowercase domain)

-- evaluating it on a variable would go through the tables of lower case
attribute [irreducible] normalize

/-- The line without the mark of an entry that is parked, and whether it has none. -/
def splitMark (line : Text) : Text × Bool :=
  match Text.stripPrefix line ['!'] with
  | some rest => (rest, false)
  | none => (line, true)

def parse (line : Text) : Option Exclusion :=
  let (line, enabled) := splitMark line
  let d := normalize line
  if d = [] then none else some { domain := d, enabled }

def format (e : Exclusion) : Text :=
  (if e.enabled then [] else ['!']) ++ e.domain

def lineFormat : LineFormat Exclusion where
  parse
  format

/-- The domain that the entry is about, without `*.` in front. -/
def base (e : Exclusion) : Text :=
  (Text.stripPrefix e.domain "*.".toList).getD e.domain

/-- A `*.` entry is about subdomains, any other about the domain too. -/
def excludes (e : Exclusion) (host : Text) : Bool :=
  match Text.stripPrefix e.domain "*.".toList with
  | some base => Domain.coversSub base host
  | none => Domain.covers e.domain host

end Exclusion

def exclusionsHeader : Text :=
  "# Domains that bypass MITM inspection (blind tunnel). Managed by the\n".toList
    ++ "# admin UI; one host per line. A bare domain (example.com) matches the\n".toList
    ++ "# domain and every subdomain; a leading *. (*.example.com) matches only\n".toList
    ++ "# subdomains, not the domain itself. A leading ! parks the entry: kept\n".toList
    ++ "# and listed, but inspected like any other host.".toList

abbrev ExclusionStore := PersistedSet Exclusion

namespace ExclusionStore

/-- `sort_by`, which is stable. -/
def sort (domains : List Exclusion) : List Exclusion :=
  domains.insertionSort fun e e' => e.domain ≤ e'.domain

def load (file : Option Text) : ExclusionStore :=
  PersistedSet.load Exclusion.lineFormat
    (fun domains => dedupBy (fun a b => a.domain == b.domain) (sort domains)) file

/-- The first entry that is not parked and excludes the host. -/
def matching (store : ExclusionStore) (host : Text) : Option Text :=
  ((store.entries.filter (·.enabled)).find? (·.excludes host)).map (·.domain)

def addEdit (domain : Text) (domains : List Exclusion) : (Unit × Bool) × List Exclusion :=
  if domains.any (·.domain == domain) then (((), false), domains)
  else (((), true), sort (domains ++ [{ domain, enabled := true }]))

variable (persisted : Except Text Unit)

def mutate {ρ : Type} (edit : List Exclusion → (ρ × Bool) × List Exclusion)
    (store : ExclusionStore) : Except Text ρ × ExclusionStore :=
  PersistedSet.mutate Exclusion.lineFormat exclusionsHeader persisted edit store

def add (domain : Text) (store : ExclusionStore) : Except Text Unit × ExclusionStore :=
  let domain := Exclusion.normalize domain
  if domain = [] then (.error "excluded domain is empty".toList, store)
  else mutate persisted (addEdit domain) store

def remove (domain : Text) (store : ExclusionStore) : Except Text Bool × ExclusionStore :=
  let domain := Exclusion.normalize domain
  mutate persisted (PersistedSet.removeEdit (·.domain == domain)) store

def setEnabled (domain : Text) (enabled : Bool) (store : ExclusionStore) :
    Except Text Bool × ExclusionStore :=
  let domain := Exclusion.normalize domain
  mutate persisted (PersistedSet.setFlagEdit (·.domain == domain) (·.enabled)
    (fun enabled e => { e with enabled }) enabled) store

/-! ### Runs -/

/-- A call with what the disk does. -/
inductive Op where
  | add (domain : Text) (persisted : Except Text Unit)
  | remove (domain : Text) (persisted : Except Text Unit)
  | setEnabled (domain : Text) (enabled : Bool) (persisted : Except Text Unit)

def step (op : Op) (store : ExclusionStore) : ExclusionStore :=
  match op with
  | .add domain persisted => (add persisted domain store).2
  | .remove domain persisted => (remove persisted domain store).2
  | .setEnabled domain enabled persisted => (setEnabled persisted domain enabled store).2

def run (ops : List Op) (store : ExclusionStore) : ExclusionStore :=
  ops.foldl (fun store op => step op store) store

/-! ### Lower case -/

theorem isLower_of_parse {line : Text} {e : Exclusion} (h : Exclusion.parse line = some e) :
  Text.IsLower e.domain
  := by
  simp only [Exclusion.parse] at h
  split at h
  · cases h
  · rw [← Option.some.inj h]
    exact Exclusion.isLower_normalize (Exclusion.splitMark line).1

/-- The domains of a list are in lower case. -/
def Lowered (domains : List Exclusion) : Prop :=
  ∀ d ∈ domains.map (·.domain), Text.IsLower d

theorem Lowered.of_subset {domains domains' : List Exclusion} (h : Lowered domains)
    (hsub : ∀ e ∈ domains', e ∈ domains) :
  Lowered domains'
  := by
  intro d hd
  obtain ⟨e, he, rfl⟩ := List.mem_map.mp hd
  exact h _ (List.mem_map_of_mem (hsub e he))

theorem lowered_load (file : Option Text) :
  Lowered (load file).entries
  := by
  have hparsed : Lowered ((file.map (PersistedSet.parseLines Exclusion.lineFormat)).getD []) := by
    intro d hd
    obtain ⟨e, he, rfl⟩ := List.mem_map.mp hd
    cases file with
    | none => cases he
    | some text =>
      rw [Option.map_some, Option.getD_some] at he
      apply PersistedSet.forall_parseLines Exclusion.lineFormat _ text e he
      intro line e hparse
      exact isLower_of_parse hparse
  apply hparsed.of_subset
  intro e he
  exact (List.perm_insertionSort _ _).mem_iff.mp ((dedupBy_sublist _ _).mem he)

theorem lowered_addEdit {domain : Text} {domains : List Exclusion} (hdomain : Text.IsLower domain)
    (h : Lowered domains) :
  Lowered (addEdit domain domains).2
  := by
  unfold addEdit
  split
  · exact h
  · have happend : Lowered (domains ++ [{ domain, enabled := true }]) := by
      intro d hd
      rw [List.map_append, List.mem_append] at hd
      rcases hd with hd | hd
      · exact h d hd
      · rw [List.mem_singleton.mp hd]
        exact hdomain
    exact happend.of_subset fun e he => (List.perm_insertionSort _ _).mem_iff.mp he

theorem lowered_step {store : ExclusionStore} (h : Lowered store.entries) (op : Op) :
  Lowered (step op store).entries
  := by
  cases op with
  | add domain persisted =>
    simp only [step, add]
    split
    · exact h
    · exact PersistedSet.mutate_inv _ h (lowered_addEdit (Exclusion.isLower_normalize domain) h) _ _
  | remove domain persisted =>
    apply PersistedSet.mutate_inv _ h
    exact h.of_subset fun e he => (PersistedSet.removeEdit_sublist _ _).mem he
  | setEnabled domain enabled persisted =>
    apply PersistedSet.mutate_inv _ h
    rw [Lowered, PersistedSet.map_setFlagEdit fun _ => rfl]
    exact h

/-- In every store that calls reach the domains are in lower case. -/
theorem lowered_run {store : ExclusionStore} (h : Lowered store.entries) (ops : List Op) :
  Lowered (run ops store).entries
  := by
  induction ops generalizing store with
  | nil => exact h
  | cons op ops ih => exact ih (lowered_step h op)

/-! ### What is excluded -/

theorem isLower_base {e : Exclusion} (h : Text.IsLower e.domain) :
  Text.IsLower e.base
  := by
  unfold Exclusion.base
  cases hstrip : Text.stripPrefix e.domain "*.".toList with
  | none => exact h
  | some base => exact fun c hc => h c (Text.mem_of_stripPrefix hstrip hc)

/-- An entry excludes a host exactly if it excludes the host in lower case, and the part of the
host that is compared is in lower case. -/
theorem excludes_iff {e : Exclusion} {host : Text} (h : Text.IsLower e.domain) :
  e.excludes host = true
    ↔ e.excludes (Text.toAsciiLowercase host) = true ∧ Text.IsLower (Domain.tail e.base host)
  := by
  have hbase := isLower_base h
  unfold Exclusion.base Exclusion.excludes at *
  split
  · next base hstrip =>
    rw [hstrip] at hbase ⊢
    exact Domain.coversSub_iff hbase
  · next hstrip =>
    rw [hstrip] at hbase ⊢
    exact Domain.covers_iff hbase

theorem isSome_matching_iff (store : ExclusionStore) (host : Text) :
  (matching store host).isSome = true
    ↔ ∃ e ∈ store.entries, e.enabled = true ∧ e.excludes host = true
  := by
  rw [matching, Option.isSome_map, List.find?_isSome]
  constructor
  · rintro ⟨e, he, hexcludes⟩
    obtain ⟨hmem, henabled⟩ := List.mem_filter.mp he
    exact ⟨e, hmem, henabled, hexcludes⟩
  · rintro ⟨e, hmem, henabled, hexcludes⟩
    exact ⟨e, List.mem_filter.mpr ⟨hmem, henabled⟩, hexcludes⟩

end ExclusionStore

end Proxy
