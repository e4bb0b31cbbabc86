import Mathlib.Data.List.Infix
import Mathlib.Tactic.Common

/-!
# Logs in two generations

A log keeps the entries written last in a current and an old generation.  An entry that comes a
period or more after the start of the current generation makes it the old one, and the old one is
lost.  When the log is reopened, the start of the current generation is read off its first entry,
if that shows one.

What is kept is always the end of all that was written (`kept_run`).  With timestamps that do not
decrease, an entry is only lost once one is written a period later (`lost_of_run`), and if every
reopening can read the start, the current generation never spans a period (`current_of_run`).
-/

/-- A log of entries in two generations, and when the current one started. -/
structure Generations (ε : Type) where
  current : List ε
  old : List ε
  started : Option ℕ

namespace Generations

variable {ε : Type} (stamp : ε → ℕ) (shown : ε → Option ℕ)

/-- The log with nothing in it. -/
def empty : Generations ε :=
  { current := [], old := [], started := none }

/-- All that is kept, from the oldest entry. -/
def kept (g : Generations ε) : List ε :=
  g.old ++ g.current

/-- The entry comes a period or more after the start of the current generation. -/
def Due (period : ℕ) (g : Generations ε) (e : ε) : Prop :=
  ∃ s ∈ g.started, period ≤ stamp e - s

instance (period : ℕ) (g : Generations ε) (e : ε) : Decidable (Due stamp period g e) :=
  inferInstanceAs (Decidable (∃ s, s ∈ g.started ∧ _))

/-- Write an entry. -/
def write (period : ℕ) (g : Generations ε) (e : ε) : Generations ε :=
  if Due stamp period g e then
    { current := [e], old := g.current, started := some (stamp e) }
  else
    { g with
      current := g.current ++ [e]
      started := some (g.started.getD (stamp e)) }

/-- Reopen the log. -/
def reopen (g : Generations ε) : Generations ε :=
  { g with started := g.current.head?.bind shown }

/-- What is done to a log. -/
inductive Op (ε : Type) where
  | write (e : ε)
  | reopen

/-- The entries that are written. -/
def written (ops : List (Op ε)) : List ε :=
  ops.filterMap fun
    | .write e => some e
    | .reopen => none

def apply (period : ℕ) (g : Generations ε) : Op ε → Generations ε
  | .write e => write stamp period g e
  | .reopen => reopen shown g

def run (period : ℕ) (g : Generations ε) (ops : List (Op ε)) : Generations ε :=
  ops.foldl (apply stamp shown period) g

variable {stamp : ε → ℕ} {shown : ε → Option ℕ} {period : ℕ} {g : Generations ε} {e : ε}

theorem write_of_due (h : Due stamp period g e) :
  write stamp period g e = { current := [e], old := g.current, started := some (stamp e) }
  := if_pos h

theorem write_of_not_due (h : ¬ Due stamp period g e) :
  write stamp period g e
    = { g with current := g.current ++ [e], started := some (g.started.getD (stamp e)) }
  := if_neg h

theorem written_append (ops ops' : List (Op ε)) :
  written (ops ++ ops') = written ops ++ written ops'
  := List.filterMap_append

theorem run_append (ops ops' : List (Op ε)) :
  run stamp shown period g (ops ++ ops')
    = run stamp shown period (run stamp shown period g ops) ops'
  := List.foldl_append

/-! ### What is kept -/

/-- What is lost by a write is the old generation, when the entry is due for another one. -/
theorem kept_write (stamp : ε → ℕ) (period : ℕ) (g : Generations ε) (e : ε) :
  g.kept ++ [e]
    = (if Due stamp period g e then g.old else []) ++ (write stamp period g e).kept
  := by
  by_cases h : Due stamp period g e
  · rw [if_pos h, write_of_due h, kept, kept, List.append_assoc]
  · rw [if_neg h, write_of_not_due h, kept, kept, List.append_assoc]
    rfl

theorem kept_write_ne_nil :
  (write stamp period g e).kept ≠ []
  := by
  by_cases h : Due stamp period g e
  · rw [write_of_due h]
    simp [kept]
  · rw [write_of_not_due h]
    simp [kept]

theorem kept_run (stamp : ε → ℕ) (shown : ε → Option ℕ) (period : ℕ) (g : Generations ε)
    (ops : List (Op ε)) :
  (run stamp shown period g ops).kept <:+ g.kept ++ written ops
  := by
  induction ops generalizing g with
  | nil => rw [written, List.filterMap_nil, List.append_nil]; exact List.suffix_rfl
  | cons op ops ih =>
    apply (ih (apply stamp shown period g op)).trans
    cases op with
    | reopen => exact List.suffix_rfl
    | write e =>
      have hsplit : g.kept ++ written (.write e :: ops) = (g.kept ++ [e]) ++ written ops := by
        rw [List.append_assoc]
        rfl
      rw [hsplit, kept_write stamp period g e, List.append_assoc]
      exact List.suffix_append _ _

/-! ### Timestamps that do not decrease -/

/-- The timestamps do not decrease, and the old generation ends before the current one
starts. -/
structure Timely (stamp : ε → ℕ) (g : Generations ε) : Prop where
  sorted : g.kept.Pairwise fun e e' => stamp e ≤ stamp e'
  old_le : ∀ s ∈ g.started, ∀ e ∈ g.old, stamp e ≤ s

theorem timely_empty :
  Timely stamp (empty : Generations ε)
  := by
  constructor <;> simp [empty, kept]

theorem Timely.write (h : Timely stamp g) (hle : ∀ e' ∈ g.kept, stamp e' ≤ stamp e) :
  Timely stamp (write stamp period g e)
  := by
  have hsorted : (g.kept ++ [e]).Pairwise fun e e' => stamp e ≤ stamp e' := by
    rw [List.pairwise_append]
    refine ⟨h.sorted, List.pairwise_singleton _ _, ?_⟩
    intro e' he' e'' he''
    rw [List.mem_singleton.mp he'']
    exact hle e' he'
  constructor
  · rw [kept_write stamp period g e] at hsorted
    exact hsorted.sublist (List.sublist_append_right _ _)
  · by_cases hdue : Due stamp period g e
    · rw [write_of_due hdue]
      rintro s ⟨⟩ e' he'
      exact hle e' (List.mem_append_right _ he')
    · rw [write_of_not_due hdue]
      rintro s ⟨⟩ e' he'
      cases hs : g.started with
      | none => exact hle e' (List.mem_append_left _ he')
      | some s => exact h.old_le s hs e' he'

theorem Timely.reopen (h : Timely stamp g) (hshown : ∀ e, ∀ t ∈ shown e, t = stamp e) :
  Timely stamp (reopen shown g)
  := by
  refine ⟨h.sorted, ?_⟩
  intro s hs e' he'
  obtain ⟨e, he, hse⟩ := Option.bind_eq_some_iff.mp hs
  rw [hshown e s hse]
  exact (List.pairwise_append.mp h.sorted).2.2 e' he' e (List.mem_of_mem_head? he)

/-- An entry that is lost by a write is a period older. -/
theorem Timely.lost (h : Timely stamp g) (hle : ∀ e' ∈ g.kept, stamp e' ≤ stamp e) :
  ∀ e' ∈ if Due stamp period g e then g.old else [], stamp e' + period ≤ stamp e
  := by
  intro e' he'
  split at he'
  · next hdue =>
    obtain ⟨s, hs, hperiod⟩ := hdue
    have hold := h.old_le s hs e' he'
    have hnow := hle e' (List.mem_append_left _ he')
    omega
  · cases he'

/-- Everything before the last entries that are kept is lost, and each entry that is lost is a
period older than one that was written.  The log stays timely. -/
theorem lost_of_run (period : ℕ) (hshown : ∀ e, ∀ t ∈ shown e, t = stamp e) {ops : List (Op ε)}
    (h : Timely stamp g)
    (hmono : (g.kept ++ written ops).Pairwise fun e e' => stamp e ≤ stamp e') :
  ∃ lost, g.kept ++ written ops = lost ++ (run stamp shown period g ops).kept
    ∧ (∀ e ∈ lost, ∃ e' ∈ written ops, stamp e + period ≤ stamp e')
    ∧ Timely stamp (run stamp shown period g ops)
  := by
  induction ops generalizing g with
  | nil => exact ⟨[], List.append_nil _, by simp, h⟩
  | cons op ops ih =>
    cases op with
    | reopen => exact ih (h.reopen hshown) hmono
    | write e =>
      have hsplit : g.kept ++ written (.write e :: ops) = (g.kept ++ [e]) ++ written ops := by
        rw [List.append_assoc]
        rfl
      have hle : ∀ e' ∈ g.kept, stamp e' ≤ stamp e := by
        intro e' he'
        exact (List.pairwise_append.mp hmono).2.2 e' he' e List.mem_cons_self
      rw [hsplit, kept_write stamp period g e, List.append_assoc] at hmono ⊢
      obtain ⟨lost, hlost, hold, htimely⟩ :=
        ih (h.write hle) (hmono.sublist (List.sublist_append_right _ _))
      refine ⟨_, by rw [hlost, ← List.append_assoc]; rfl, ?_, htimely⟩
      intro e' he'
      rcases List.mem_append.mp he' with he' | he'
      · exact ⟨e, List.mem_cons_self, h.lost hle e' he'⟩
      · obtain ⟨e'', he'', hperiod⟩ := hold e' he'
        exact ⟨e'', List.mem_cons_of_mem e he'', hperiod⟩

/-! ### Generations that start when their first entry says -/

/-- The current generation starts with its first entry. -/
def Dated (stamp : ε → ℕ) (g : Generations ε) : Prop :=
  g.started = g.current.head?.map stamp

theorem dated_empty :
  Dated stamp (empty : Generations ε)
  := rfl

theorem Dated.write (h : Dated stamp g) :
  Dated stamp (write stamp period g e)
  := by
  by_cases hdue : Due stamp period g e
  · rw [write_of_due hdue]
    rfl
  · rw [write_of_not_due hdue, Dated]
    dsimp only
    rw [h]
    cases g.current <;> rfl

theorem dated_reopen (h : ∀ e ∈ g.current.head?, shown e = some (stamp e)) :
  Dated stamp (reopen shown g)
  := by
  rw [Dated, reopen]
  dsimp only
  cases hhead : g.current.head? with
  | none => rfl
  | some e => exact h e hhead

/-- Right after a write, the current generation spans less than a period. -/
theorem Dated.current_write (h : Dated stamp g) (hsorted : Timely stamp g)
    (hle : ∀ e' ∈ g.kept, stamp e' ≤ stamp e) (hperiod : 0 < period) :
  ∀ e' ∈ (Generations.write stamp period g e).current, stamp e < stamp e' + period
  := by
  intro e' he'
  have hdated : Dated stamp (Generations.write stamp period g e) := h.write
  have htimely : Timely stamp (Generations.write stamp period g e) := hsorted.write hle
  by_cases hdue : Due stamp period g e
  · rw [write_of_due hdue, List.mem_singleton] at he'
    rw [he']
    omega
  · -- the start is the timestamp of the first entry, which is not later than that of `e'`
    rw [write_of_not_due hdue] at hdated htimely he'
    obtain ⟨e₀, hhead⟩ : ∃ e₀, (g.current ++ [e]).head? = some e₀ := by
      cases g.current with
      | nil => exact ⟨e, rfl⟩
      | cons e₀ _ => exact ⟨e₀, rfl⟩
    have hstart : g.started.getD (stamp e) = stamp e₀ := by
      have := hdated
      rw [Dated] at this
      dsimp only at this
      rw [hhead] at this
      exact Option.some.inj this
    have hfirst : stamp e₀ ≤ stamp e' := by
      have hcurrent := htimely.sorted.sublist (List.sublist_append_right _ _)
      dsimp only at hcurrent he'
      obtain ⟨tail, htail⟩ := List.head?_eq_some_iff.mp hhead
      rw [htail] at hcurrent he'
      rcases List.mem_cons.mp he' with rfl | he'
      · rfl
      · exact (List.pairwise_cons.mp hcurrent).1 e' he'
    have hspan : stamp e - stamp e₀ < period := by
      by_contra hnot
      apply hdue
      rw [← hstart] at hnot
      cases hs : g.started with
      | none =>
        rw [hs, Option.getD_none] at hnot
        omega
      | some s =>
        rw [hs, Option.getD_some] at hnot
        exact ⟨s, hs, by omega⟩
    omega

/-- Every reopening of a run finds an empty current generation or one whose first entry shows
its timestamp. -/
def ReadsStart (stamp : ε → ℕ) (shown : ε → Option ℕ) (period : ℕ) (g : Generations ε)
    (ops : List (Op ε)) : Prop :=
  ∀ before after, ops = before ++ .reopen :: after →
    ∀ e ∈ (run stamp shown period g before).current.head?, shown e = some (stamp e)

theorem Dated.run {ops : List (Op ε)} (h : Dated stamp g)
    (hreads : ReadsStart stamp shown period g ops) :
  Dated stamp (run stamp shown period g ops)
  := by
  induction ops using List.reverseRecOn with
  | nil => exact h
  | append_singleton ops op ih =>
    have hdated := ih fun before after heq =>
      hreads before (after ++ [op]) (by rw [heq, List.append_assoc]; rfl)
    rw [run_append]
    cases op with
    | write e => exact hdated.write
    | reopen => exact dated_reopen (hreads ops [] rfl)

/-- In a run whose reopenings can read the start, the current generation spans less than a
period right after each write. -/
theorem current_of_run (hshown : ∀ e, ∀ t ∈ shown e, t = stamp e) {ops : List (Op ε)}
    (hmono : (written ops ++ [e]).Pairwise fun e e' => stamp e ≤ stamp e')
    (hreads : ReadsStart stamp shown period empty ops) (hperiod : 0 < period) :
  ∀ e' ∈ (write stamp period (run stamp shown period empty ops) e).current,
    stamp e < stamp e' + period
  := by
  obtain ⟨hops, -, hlast⟩ := List.pairwise_append.mp hmono
  obtain ⟨lost, hsplit, -, htimely⟩ := lost_of_run period hshown timely_empty hops
  apply (dated_empty.run hreads).current_write htimely _ hperiod
  intro e' he'
  apply hlast e' _ e (List.mem_singleton_self e)
  have hkept : written ops = lost ++ (run stamp shown period empty ops).kept := hsplit
  rw [hkept]
  exact List.mem_append_right _ he'

end Generations
