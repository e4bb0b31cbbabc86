import Mathlib.Control.Basic
import Mathlib.Tactic.Common

/-!
# Processes on a shared state

A process over a state type `σ` takes atomic steps, each of which updates the state and
chooses, from the state it found, how to go on, until it returns a result.  `run` carries a
process out without interruption.  `Steps` says what the atomic steps of a process can do to the
state, and a property that is kept by that holds after the run (`run_of_steps`).
-/

/-- A process on the state `σ` with results in `α`: it has returned, or it takes an atomic
step. -/
inductive Process (σ α : Type) where
  | done (result : α)
  | step (update : σ → σ) (next : σ → Process σ α)

namespace Process

variable {σ α β : Type}

/-- Go on as `f` tells from the result of a process. -/
def bind : Process σ α → (α → Process σ β) → Process σ β
  | .done a, f => f a
  | .step update next, f => .step update fun s => (next s).bind f

instance : Monad (Process σ) where
  pure := .done
  bind := bind

/-- The process of one atomic step. -/
def atomic (f : σ → α × σ) : Process σ α :=
  .step (fun s => (f s).2) fun s => .done (f s).1

/-- Carry a process out without interruption. -/
def run : Process σ α → σ → α × σ
  | .done a, s => (a, s)
  | .step update next, s => (next s).run (update s)

@[simp]
theorem run_pure (a : α) (s : σ) :
  (pure a : Process σ α).run s = (a, s)
  := rfl

@[simp]
theorem run_atomic (f : σ → α × σ) (s : σ) :
  (atomic f).run s = f s
  := rfl

@[simp]
theorem run_bind (p : Process σ α) (f : α → Process σ β) (s : σ) :
  (p >>= f).run s = (f (p.run s).1).run (p.run s).2
  := by
  induction p generalizing s with
  | done a => rfl
  | step update next ih => apply ih

/-- Running a process for each member of a list threads the state through the members. -/
theorem run_forM (f : β → Process σ PUnit) (l : List β) (s : σ) :
  ((forM l f : Process σ PUnit).run s).2 = l.foldl (fun s b => ((f b).run s).2) s
  := by
  induction l generalizing s with
  | nil => rfl
  | cons b l ih =>
    rw [List.forM_cons, run_bind, ih]
    rfl

/-! ### What the atomic steps do -/

/-- Every atomic step of the process changes the state as `R` tells. -/
inductive Steps (R : σ → σ → Prop) : Process σ α → Prop where
  | done (a : α) : Steps R (.done a)
  | step {update : σ → σ} {next : σ → Process σ α} (hupdate : ∀ s, R s (update s))
      (hnext : ∀ s, Steps R (next s)) : Steps R (.step update next)

variable {R : σ → σ → Prop}

theorem steps_pure (a : α) :
  (pure a : Process σ α).Steps R
  := Steps.done a

theorem steps_atomic {f : σ → α × σ} (h : ∀ s, R s (f s).2) :
  (atomic f).Steps R
  := Steps.step h fun _ => Steps.done _

theorem steps_bind {p : Process σ α} {f : α → Process σ β} (hp : p.Steps R)
    (hf : ∀ a, (f a).Steps R) :
  (p >>= f).Steps R
  := by
  induction hp with
  | done a => apply hf
  | step hupdate _ ih => apply Steps.step hupdate ih

theorem steps_forM {f : β → Process σ PUnit} {l : List β} (h : ∀ b ∈ l, (f b).Steps R) :
  (forM l f : Process σ PUnit).Steps R
  := by
  induction l with
  | nil => apply steps_pure
  | cons b l ih =>
    rw [List.forM_cons]
    apply steps_bind
    · apply h b List.mem_cons_self
    · intro _
      apply ih
      intro c hc
      apply h c (List.mem_cons_of_mem b hc)

/-- A property that the atomic steps of a process keep holds after its run. -/
theorem run_of_steps {p : Process σ α} (hp : p.Steps R) {P : σ → Prop}
    (hkeep : ∀ s s', R s s' → P s → P s') {s : σ} (hs : P s) :
  P (p.run s).2
  := by
  induction hp generalizing s with
  | done a => apply hs
  | step hupdate _ ih => apply ih s (hkeep s _ (hupdate s) hs)

end Process
