import AdBlock.Dns.Rewrites
import AdBlock.Process.Fallible
import Mathlib.Data.List.Lex
import Mathlib.Data.List.Sort
import Mathlib.Data.Prod.Lex

/-!
# The local records

The rewrites are kept in a file of lines and edited one record at a time.  A name stands alone
among the answers of its pattern.  In every run of edits the records are consistent, and the file
is read back as the list in memory (`run_consistent`).
-/

namespace Dns

def rewritesHeader : Text :=
  "# DNS rewrites (local records). Managed by the admin UI; one\n".toList
    ++ "# \"domain answer\" per line. *.domain covers the domain and subdomains.\n".toList
    ++ "# A leading ! parks the record: kept and listed, never answered.".toList

abbrev RewriteStore := PersistedSet Rewrite

def RewriteAnswer.isCname : RewriteAnswer → Bool
  | .v4 _ => false
  | .cname _ => true

/-- One record is identified by its domain and answer. -/
def sameRecord (r : Rewrite) (domain : Text) (answer : RewriteAnswer) : Bool :=
  r.domain == domain && r.answer == answer

/-- The rewrites are sorted by domain and text of the answer. -/
def sortKey (r : Rewrite) : Text ×ₗ Text :=
  toLex (r.domain, r.answer.toText)

def patternMatches (pattern domain : Text) : Bool :=
  match Text.stripPrefix pattern "*.".toList with
  | some suffix => Domain.covers suffix domain
  | none => domain == pattern

def patternSpecificity (pattern : Text) : Bool ×ₗ Nat :=
  toLex (!Text.startsWith pattern "*.".toList, Text.len pattern)

/-- `Iterator::max_by_key`: the last of the greatest elements. -/
def maxByKey {α β : Type} [LE β] [DecidableLE β] (key : α → β) : List α → Option α
  | [] => none
  | a :: as => some (as.foldl (fun best a => if key best ≤ key a then a else best) a)

namespace RewriteStore

def load (file : Option Text) : RewriteStore :=
  PersistedSet.load Rewrite.lineFormat id file

def matching (store : RewriteStore) (domain : Text) : List RewriteAnswer :=
  let live := store.entries.filter (·.enabled)
  let best := maxByKey patternSpecificity
    ((live.filter fun r => patternMatches r.domain domain).map (·.domain))
  match best with
  | none => []
  | some best => (live.filter (·.domain == best)).map (·.answer)

/-- Another answer for the pattern that cannot stand beside the entry. -/
def conflict (rewrites : List Rewrite) (entry : Rewrite) : Bool :=
  match entry.answer with
  | .cname _ => rewrites.any (·.domain == entry.domain)
  | .v4 _ => rewrites.any fun r => r.domain == entry.domain && r.answer.isCname

def addEdit (entry : Rewrite) (rewrites : List Rewrite) :
    (Except Text Unit × Bool) × List Rewrite :=
  if rewrites.any (sameRecord · entry.domain entry.answer) then ((.ok (), false), rewrites)
  else if conflict rewrites entry then
    ((.error ('\'' :: entry.domain ++ "' already has a rewrite that cannot coexist with '".toList
      ++ entry.answer.toText
      ++ ("' — a CNAME excludes every other answer for a domain; remove the existing "
        ++ "rewrite first").toList), false), rewrites)
  else
    -- sorting is stable, as `sort_by` is
    ((.ok (), true), (rewrites ++ [entry]).insertionSort fun r r' => sortKey r ≤ sortKey r')

def removeEdit (domain : Text) (answer : RewriteAnswer) :
    List Rewrite → (Bool × Bool) × List Rewrite :=
  PersistedSet.removeEdit (sameRecord · domain answer)

def setEnabledEdit (domain : Text) (answer : RewriteAnswer) (enabled : Bool) :
    List Rewrite → (Bool × Bool) × List Rewrite :=
  PersistedSet.setFlagEdit (sameRecord · domain answer) (·.enabled)
    (fun enabled r => { r with enabled }) enabled

/-- Read the domain and the answer of a record. -/
def parseRecord (domain answer : Text) : Except Text (Text × RewriteAnswer) := do
  let domain ← normalizePattern domain
  let answer ← RewriteAnswer.parse answer
  .ok (domain, answer)

variable (persisted : Except Text Unit)

/-- Edit the list.  Whether the file can be written is up to the disk. -/
def mutate {ρ : Type} (edit : List Rewrite → (ρ × Bool) × List Rewrite) (store : RewriteStore) :
    Except Text ρ × RewriteStore :=
  PersistedSet.mutate Rewrite.lineFormat rewritesHeader persisted edit store

def add (domain answer : Text) (store : RewriteStore) : Except Text Unit × RewriteStore :=
  match parseRecord domain answer with
  | .error e => (.error e, store)
  | .ok (domain, answer) =>
      if answer = .cname (Text.trimStartText domain "*.".toList) then
        (.error ("CNAME '".toList ++ answer.toText ++ "' points at itself".toList), store)
      else
        match mutate persisted (addEdit { domain, answer, enabled := true }) store with
        | (.error e, store) => (.error e, store)
        | (.ok added, store) => (added, store)

def remove (domain answer : Text) (store : RewriteStore) : Except Text Bool × RewriteStore :=
  match parseRecord domain answer with
  | .error e => (.error e, store)
  | .ok (domain, answer) => mutate persisted (removeEdit domain answer) store

def setEnabled (domain answer : Text) (enabled : Bool) (store : RewriteStore) :
    Except Text Bool × RewriteStore :=
  match parseRecord domain answer with
  | .error e => (.error e, store)
  | .ok (domain, answer) => mutate persisted (setEnabledEdit domain answer enabled) store

/-! ### Consistency -/

/-- What identifies a record. -/
def record (r : Rewrite) : Text × RewriteAnswer :=
  (r.domain, r.answer)

/-- Two records can be in one list: a name stands alone for its pattern, and no answer is there
twice. -/
def Compatible (p p' : Text × RewriteAnswer) : Prop :=
  p.1 = p'.1 → p.2.isCname = false ∧ p'.2.isCname = false ∧ p.2 ≠ p'.2

theorem Compatible.symm {p p' : Text × RewriteAnswer} (h : Compatible p p') :
  Compatible p' p
  := by
  intro hdomain
  obtain ⟨hp, hp', hne⟩ := h hdomain.symm
  exact ⟨hp', hp, hne.symm⟩

/-- What holds of the list of records, whether they are parked or not. -/
structure Consistent (rewrites : List Rewrite) : Prop where
  compatible : (rewrites.map record).Pairwise Compatible
  sorted : (rewrites.map sortKey).Pairwise (· ≤ ·)
  normal : ∀ r ∈ rewrites, r.Normal

theorem consistent_nil :
  Consistent []
  where
  compatible := .nil
  sorted := .nil
  normal := fun _ h => absurd h List.not_mem_nil

theorem sameRecord_iff {r : Rewrite} {domain : Text} {answer : RewriteAnswer} :
  sameRecord r domain answer = true ↔ r.domain = domain ∧ r.answer = answer
  := by
  rw [sameRecord, Bool.and_eq_true_iff, beq_iff_eq, beq_iff_eq]

/-- A new record without conflict can be in the list. -/
theorem compatible_of_conflict {rewrites : List Rewrite} {entry r : Rewrite}
    (hnew : ¬ rewrites.any (sameRecord · entry.domain entry.answer) = true)
    (hconflict : ¬ conflict rewrites entry = true) (hr : r ∈ rewrites) :
  Compatible (record r) (record entry)
  := by
  intro hdomain
  change r.domain = entry.domain at hdomain
  have hanswer : r.answer ≠ entry.answer := by
    intro hanswer
    apply hnew
    exact List.any_eq_true.mpr ⟨r, hr, sameRecord_iff.mpr ⟨hdomain, hanswer⟩⟩
  unfold conflict at hconflict
  change r.answer.isCname = false ∧ entry.answer.isCname = false ∧ r.answer ≠ entry.answer
  cases hentry : entry.answer with
  | cname host =>
    have hany : rewrites.any (·.domain == entry.domain) = true :=
      List.any_eq_true.mpr ⟨r, hr, beq_iff_eq.mpr hdomain⟩
    rw [hentry] at hconflict
    exact absurd hany hconflict
  | v4 ip =>
    rw [hentry] at hconflict hanswer
    refine ⟨?_, rfl, hanswer⟩
    by_contra hcname
    rw [Bool.not_eq_false] at hcname
    apply hconflict
    refine List.any_eq_true.mpr ⟨r, hr, ?_⟩
    rw [hcname, beq_iff_eq.mpr hdomain]
    rfl

theorem Consistent.addEdit {rewrites : List Rewrite} {entry : Rewrite} (h : Consistent rewrites)
    (hentry : entry.Normal) (hchanged : (addEdit entry rewrites).1.2 = true) :
  Consistent (RewriteStore.addEdit entry rewrites).2
    ∧ (RewriteStore.addEdit entry rewrites).2 ≠ rewrites
  := by
  unfold RewriteStore.addEdit at hchanged ⊢
  split
  · next hold =>
    rw [if_pos hold] at hchanged
    cases hchanged
  · next hnew =>
    rw [if_neg hnew] at hchanged
    split
    · next hconflict =>
      rw [if_pos hconflict] at hchanged
      cases hchanged
    · next hconflict =>
      have hperm := List.perm_insertionSort (fun r r' => sortKey r ≤ sortKey r')
        (rewrites ++ [entry])
      constructor
      · constructor
        case compatible =>
          apply ((hperm.map record).pairwise_iff fun h => h.symm).mpr
          rw [List.map_append, List.pairwise_append]
          refine ⟨h.compatible, List.pairwise_singleton _ _, ?_⟩
          intro p hp p' hp'
          obtain ⟨r, hr, rfl⟩ := List.mem_map.mp hp
          rw [List.mem_singleton.mp hp']
          exact compatible_of_conflict hnew hconflict hr
        case sorted =>
          rw [List.pairwise_map]
          have : Std.Total fun r r' : Rewrite => sortKey r ≤ sortKey r' :=
            ⟨fun r r' => le_total _ _⟩
          have : IsTrans Rewrite fun r r' => sortKey r ≤ sortKey r' :=
            ⟨fun _ _ _ => le_trans⟩
          exact List.pairwise_insertionSort _ _
        case normal =>
          intro r hr
          rcases List.mem_append.mp (hperm.mem_iff.mp hr) with hr | hr
          · exact h.normal r hr
          · rw [List.mem_singleton.mp hr]
            exact hentry
      · intro heq
        have hlength := (congrArg List.length heq).symm.trans hperm.length_eq
        rw [List.length_append, List.length_singleton] at hlength
        omega

theorem addEdit_ok {rewrites : List Rewrite} {entry : Rewrite}
    (hchanged : (addEdit entry rewrites).1.2 = true) :
  (addEdit entry rewrites).1.1 = .ok ()
  := by
  unfold addEdit at hchanged ⊢
  split
  · rfl
  · next hnew =>
    rw [if_neg hnew] at hchanged
    split
    · next hconflict =>
      rw [if_pos hconflict] at hchanged
      cases hchanged
    · rfl

theorem Consistent.sublist {rewrites rewrites' : List Rewrite} (h : Consistent rewrites)
    (hsub : rewrites'.Sublist rewrites) :
  Consistent rewrites'
  where
  compatible := h.compatible.sublist (hsub.map record)
  sorted := h.sorted.sublist (hsub.map sortKey)
  normal := fun r hr => h.normal r (hsub.mem hr)

theorem Consistent.removeEdit {rewrites : List Rewrite} (h : Consistent rewrites) (domain : Text)
    (answer : RewriteAnswer) (hchanged : (removeEdit domain answer rewrites).1.2 = true) :
  Consistent (RewriteStore.removeEdit domain answer rewrites).2
    ∧ (RewriteStore.removeEdit domain answer rewrites).2 ≠ rewrites
  := ⟨h.sublist (PersistedSet.removeEdit_sublist _ _), PersistedSet.removeEdit_ne hchanged⟩

/-- Lists of the same records are consistent together. -/
theorem Consistent.of_records {rewrites rewrites' : List Rewrite} (h : Consistent rewrites)
    (hrecords : rewrites'.map record = rewrites.map record) :
  Consistent rewrites'
  := by
  have hmem : ∀ r ∈ rewrites', ∃ r' ∈ rewrites, record r' = record r := by
    intro r hr
    have hr' := List.mem_map_of_mem (f := record) hr
    rw [hrecords] at hr'
    exact List.mem_map.mp hr'
  constructor
  case compatible =>
    rw [hrecords]
    exact h.compatible
  case sorted =>
    have hkeys (rewrites : List Rewrite) : rewrites.map sortKey
        = (rewrites.map record).map fun p => toLex (p.1, p.2.toText) := by
      rw [List.map_map]
      rfl
    rw [hkeys, hrecords, ← hkeys]
    exact h.sorted
  case normal =>
    intro r hr
    obtain ⟨r', hr', heq⟩ := hmem r hr
    obtain ⟨hdomain, hanswer⟩ := Prod.mk.inj heq
    have hnormal := h.normal r' hr'
    exact ⟨hdomain ▸ hnormal.domain, hanswer ▸ hnormal.answer⟩

theorem Consistent.setEnabledEdit {rewrites : List Rewrite} (h : Consistent rewrites)
    (domain : Text) (answer : RewriteAnswer) (enabled : Bool)
    (hchanged : (setEnabledEdit domain answer enabled rewrites).1.2 = true) :
  Consistent (RewriteStore.setEnabledEdit domain answer enabled rewrites).2
    ∧ (RewriteStore.setEnabledEdit domain answer enabled rewrites).2 ≠ rewrites
  := by
  obtain ⟨heq, hne⟩ := PersistedSet.setFlagEdit_spec (fun _ => rfl) hchanged
  refine ⟨h.of_records ?_, hne⟩
  rw [RewriteStore.setEnabledEdit, heq]
  apply PersistedSet.map_modifyFirst
  intro r
  rfl

/-! ### Runs -/

/-- A call with what the disk does. -/
inductive Op where
  | add (domain answer : Text) (persisted : Except Text Unit)
  | remove (domain answer : Text) (persisted : Except Text Unit)
  | setEnabled (domain answer : Text) (enabled : Bool) (persisted : Except Text Unit)

inductive Reply where
  | done
  | found (found : Bool)

def step (op : Op) (store : RewriteStore) : Except Text Reply × RewriteStore :=
  match op with
  | .add domain answer persisted =>
      (add persisted domain answer store).map (.map fun _ => .done) id
  | .remove domain answer persisted =>
      (remove persisted domain answer store).map (.map .found) id
  | .setEnabled domain answer enabled persisted =>
      (setEnabled persisted domain answer enabled store).map (.map .found) id

def run (ops : List Op) (store : RewriteStore) : RewriteStore :=
  ops.foldl (fun store op => (step op store).2) store

/-- The records are consistent and are the ones that are loaded from the file. -/
abbrev Kept (store : RewriteStore) : Prop :=
  PersistedSet.Backed Rewrite.lineFormat id Consistent store

theorem kept_load_none :
  Kept (load none)
  where
  inv := consistent_nil
  load := rfl

theorem isComment_rewritesHeader :
  PersistedSet.IsComment rewritesHeader
  := by
  decide +kernel

theorem normal_of_parseRecord {domain answer : Text} {p : Text × RewriteAnswer}
    (h : parseRecord domain answer = .ok p) (enabled : Bool) :
  Rewrite.Normal { domain := p.1, answer := p.2, enabled }
  := by
  obtain ⟨domain, hdomain, h⟩ := Fallible.bind_eq_ok h
  obtain ⟨answer, hanswer, h⟩ := Fallible.bind_eq_ok h
  cases h
  exact ⟨isPattern_of_normalizePattern hdomain, isAnswer_of_parse hanswer⟩

variable {store : RewriteStore}

/-- What an edit of consistent records does. -/
theorem mutate_kept {ρ : Type} {edit : List Rewrite → (ρ × Bool) × List Rewrite}
    (hedit : (edit store.entries).1.2 = true →
      Consistent (edit store.entries).2 ∧ (edit store.entries).2 ≠ store.entries)
    (persisted : Except Text Unit) :
  (mutate persisted edit store).2 = store
    ∨ (edit store.entries).1.2 = true
      ∧ (mutate persisted edit store).1 = .ok (edit store.entries).1.1
      ∧ (mutate persisted edit store).2.entries ≠ store.entries
      ∧ Kept (mutate persisted edit store).2
  := PersistedSet.mutate_backed isComment_rewritesHeader
    (fun _ hl => ⟨fun r hr => (hl.normal r hr).readable, rfl⟩) hedit persisted

/-- What a call does. -/
abbrev Edited {ρ : Type} (store : RewriteStore) (result : Except Text ρ × RewriteStore) : Prop :=
  PersistedSet.Edited Rewrite.lineFormat id Consistent store result

theorem edited_add (h : Kept store) (persisted : Except Text Unit) (domain answer : Text) :
  Edited store (add persisted domain answer store)
  := by
  unfold add
  split
  · exact .inl rfl
  · next domain answer hrecord =>
    split
    · exact .inl rfl
    · have hentry := normal_of_parseRecord hrecord true
      have hmutate := mutate_kept (h.inv.addEdit hentry) persisted
      split
      · next heq =>
        rw [heq] at hmutate
        rcases hmutate with hstore | ⟨-, herror, -⟩
        · exact .inl hstore
        · cases herror
      · next added store' heq =>
        rw [heq] at hmutate
        rcases hmutate with hstore | ⟨hchanged, hadded, hne, hkept⟩
        · exact .inl hstore
        · cases hadded
          exact .inr ⟨⟨(), addEdit_ok hchanged⟩, hne, hkept⟩

/-- What a call does that answers whether there is such a record. -/
theorem edited_mutate {ρ : Type} {edit : List Rewrite → (ρ × Bool) × List Rewrite}
    (hedit : (edit store.entries).1.2 = true →
      Consistent (edit store.entries).2 ∧ (edit store.entries).2 ≠ store.entries)
    (persisted : Except Text Unit) :
  Edited store (mutate persisted edit store)
  := by
  rcases mutate_kept hedit persisted with hstore | ⟨-, hok, hne, hkept⟩
  · exact .inl hstore
  · exact .inr ⟨⟨_, hok⟩, hne, hkept⟩

theorem edited_remove (h : Kept store) (persisted : Except Text Unit) (domain answer : Text) :
  Edited store (remove persisted domain answer store)
  := by
  unfold remove
  split
  · exact .inl rfl
  · exact edited_mutate (h.inv.removeEdit _ _) persisted

theorem edited_setEnabled (h : Kept store) (persisted : Except Text Unit) (domain answer : Text)
    (enabled : Bool) :
  Edited store (setEnabled persisted domain answer enabled store)
  := by
  unfold setEnabled
  split
  · exact .inl rfl
  · exact edited_mutate (h.inv.setEnabledEdit _ _ _) persisted

theorem Edited.map {ρ σ : Type} {result : Except Text ρ × RewriteStore} (h : Edited store result)
    (f : ρ → σ) :
  Edited store (result.map (.map f) id)
  := by
  rcases h with hstore | ⟨⟨r, hr⟩, hne, hkept⟩
  · exact .inl hstore
  · right
    refine ⟨⟨f r, ?_⟩, hne, hkept⟩
    rw [Prod.map_fst, hr]
    rfl

theorem edited_step (h : Kept store) (op : Op) :
  Edited store (step op store)
  := by
  cases op with
  | add domain answer persisted => exact (edited_add h persisted domain answer).map _
  | remove domain answer persisted => exact (edited_remove h persisted domain answer).map _
  | setEnabled domain answer enabled persisted =>
    exact (edited_setEnabled h persisted domain answer enabled).map _

theorem kept_run (h : Kept store) (ops : List Op) :
  Kept (run ops store)
  := by
  induction ops generalizing store with
  | nil => exact h
  | cons op ops ih => exact ih ((edited_step h op).backed h)

/-- After every run of calls from a missing file, whatever the disk does: no two records are the
same, a name stands alone for its pattern, the records are sorted, a call that fails or leaves the
list as it is leaves the file too, and the file is read back as the list. -/
theorem run_consistent (ops : List Op) :
  let store := run ops (load none)
  store.entries.Pairwise (fun r r' => ¬ (r.domain = r'.domain ∧ r.answer = r'.answer))
    ∧ store.entries.Pairwise (fun r r' => r.domain = r'.domain →
      r.answer.isCname = false ∧ r'.answer.isCname = false)
    ∧ store.entries.Pairwise (fun r r' => sortKey r ≤ sortKey r')
    ∧ (∀ op, (∃ e, (step op store).1 = .error e) ∨ (step op store).2.entries = store.entries →
      (step op store).2 = store)
    ∧ load store.file = store
  := by
  intro store
  have hkept : Kept store := kept_run kept_load_none ops
  have hcompatible := List.pairwise_map.mp hkept.inv.compatible
  refine ⟨hcompatible.imp ?_, hcompatible.imp ?_, List.pairwise_map.mp hkept.inv.sorted, ?_, ?_⟩
  · rintro r r' h ⟨hdomain, hanswer⟩
    exact (h hdomain).2.2 hanswer
  · intro r r' h hdomain
    obtain ⟨hr, hr', -⟩ := h hdomain
    exact ⟨hr, hr'⟩
  · intro op
    exact (edited_step hkept op).eq_self
  · apply PersistedSet.ext
    · exact hkept.load
    · rfl

end RewriteStore

end Dns
