import AdBlock.Process.Basic

/-!
# Processes that may fail

A process that returns an error or a result.  What follows a failed process is not carried out.
-/

/-- A process on the state `σ` that fails with an `ε` or returns an `α`. -/
abbrev Fallible (σ ε α : Type) :=
  ExceptT ε (Process σ) α

namespace Fallible

variable {σ ε α β : Type}

/-- The process of one atomic step. -/
def atomic (f : σ → Except ε α × σ) : Fallible σ ε α :=
  ExceptT.mk (Process.atomic f)

/-- Fail or go on, without a step. -/
def ofExcept (r : Except ε α) : Fallible σ ε α :=
  ExceptT.mk (.done r)

/-- Carry a process out without interruption. -/
def run (p : Fallible σ ε α) (s : σ) : Except ε α × σ :=
  Process.run (ExceptT.run p) s

@[simp]
theorem run_pure (a : α) (s : σ) :
  run (pure a : Fallible σ ε α) s = (.ok a, s)
  := rfl

@[simp]
theorem run_throw (e : ε) (s : σ) :
  run (throw e : Fallible σ ε α) s = (.error e, s)
  := rfl

@[simp]
theorem run_atomic (f : σ → Except ε α × σ) (s : σ) :
  run (atomic f) s = f s
  := rfl

@[simp]
theorem run_ofExcept (r : Except ε α) (s : σ) :
  run (ofExcept r) s = (r, s)
  := rfl

variable {p : Fallible σ ε α} {f : α → Fallible σ ε β} {s s' : σ}

theorem run_bind (p : Fallible σ ε α) (f : α → Fallible σ ε β) (s : σ) :
  run (p >>= f) s
    = match run p s with
      | (.ok a, s') => run (f a) s'
      | (.error e, s') => (.error e, s')
  := by
  change Process.run (ExceptT.run p >>= ExceptT.bindCont f) s = _
  rw [Process.run_bind, run]
  cases Process.run (ExceptT.run p) s with
  | mk r s' => cases r <;> rfl

theorem run_bind_ok {a : α} (h : run p s = (.ok a, s')) :
  run (p >>= f) s = run (f a) s'
  := by
  rw [run_bind, h]

theorem run_bind_error {e : ε} (h : run p s = (.error e, s')) :
  run (p >>= f) s = (.error e, s')
  := by
  rw [run_bind, h]

theorem run_ofExcept_bind_ok (a : α) (s : σ) :
  run (ofExcept (.ok a) >>= f) s = run (f a) s
  := by
  rw [run_bind_ok (run_ofExcept _ s)]

theorem run_ofExcept_bind_error (e : ε) (s : σ) :
  run (ofExcept (.error e) >>= f) s = (.error e, s)
  := by
  rw [run_bind_error (run_ofExcept _ s)]

/-- A sequence that returns has a first part that returns. -/
theorem run_bind_eq_ok {b : β} {s'' : σ} (h : run (p >>= f) s = (.ok b, s'')) :
  ∃ a s', run p s = (.ok a, s') ∧ run (f a) s' = (.ok b, s'')
  := by
  rw [run_bind] at h
  split at h
  · rename_i a s' hp
    exact ⟨a, s', hp, h⟩
  · cases h

/-- A step that goes through goes through in both its parts. -/
theorem bind_eq_ok {ε α β : Type} {x : Except ε α} {f : α → Except ε β} {b : β}
    (h : x >>= f = .ok b) :
  ∃ a, x = .ok a ∧ f a = .ok b
  := by
  cases x with
  | error e => cases h
  | ok a => exact ⟨a, rfl, h⟩

end Fallible
