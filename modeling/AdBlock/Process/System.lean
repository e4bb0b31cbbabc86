import AdBlock.Process.Basic
import Mathlib.Data.Option.Basic
import Mathlib.Logic.Function.Basic

/-!
# Systems of processes

Several processes on one state take their atomic steps in the order that a schedule gives.  A
process that has returned stays so (`proc_of_done`), and when all the others have returned, the
rest of the schedule carries the last one out without interruption (`run_of_exec`).
-/

namespace Process

variable {ι σ α : Type}

/-- The next atomic step of a process, if it has not returned. -/
def advance : Process σ α → σ → Option (Process σ α × σ)
  | .done _, _ => none
  | .step update next, s => some (next s, update s)

theorem advance_atomic_bind {β : Type} (f : σ → α × σ) (g : α → Process σ β) (s : σ) :
  (atomic f >>= g).advance s = some (g (f s).1, (f s).2)
  := rfl

/-- What the process has returned. -/
def result : Process σ α → Option α
  | .done a => some a
  | .step _ _ => none

theorem eq_done_of_result {p : Process σ α} {a : α} (h : p.result = some a) :
  p = .done a
  := by
  cases p with
  | done b =>
    cases h
    rfl
  | step update next => cases h

/-- Processes and the state they share. -/
structure System (ι σ α : Type) where
  proc : ι → Process σ α
  state : σ

namespace System

variable [DecidableEq ι]

/-- One of the processes takes its next atomic step, if it has not returned. -/
def advance (c : System ι σ α) (i : ι) : Option (System ι σ α) :=
  ((c.proc i).advance c.state).map fun next =>
    { proc := Function.update c.proc i next.1, state := next.2 }

/-- The processes take their steps in the order of the schedule. -/
def exec (c : System ι σ α) : List ι → Option (System ι σ α)
  | [] => some c
  | i :: schedule => (c.advance i).bind fun c' => c'.exec schedule

variable {c c' : System ι σ α} {i : ι}

theorem exec_append (c : System ι σ α) (schedule schedule' : List ι) :
  c.exec (schedule ++ schedule') = (c.exec schedule).bind fun c' => c'.exec schedule'
  := by
  induction schedule generalizing c with
  | nil => rfl
  | cons i schedule ih =>
    rw [List.cons_append, exec, exec, Option.bind_assoc]
    congr
    funext c'
    apply ih

/-- A schedule starts with a step of a process. -/
theorem exec_cons {p p' : Process σ α} {s : σ} (hproc : c.proc i = p)
    (h : p.advance c.state = some (p', s)) :
  ∃ c₁ : System ι σ α, (∀ schedule, c.exec (i :: schedule) = c₁.exec schedule) ∧ c₁.state = s
    ∧ c₁.proc i = p' ∧ ∀ j, j ≠ i → c₁.proc j = c.proc j
  := by
  refine ⟨⟨Function.update c.proc i p', s⟩, ?_, rfl, Function.update_self _ _ _, ?_⟩
  · intro schedule
    rw [exec, advance, hproc, h]
    rfl
  · intro j hj
    exact Function.update_of_ne hj _ _

/-- A step of a process leaves the other processes. -/
theorem advance_inv (h : c.advance i = some c') :
  ∃ next, (c.proc i).advance c.state = some next
    ∧ c' = { proc := Function.update c.proc i next.1, state := next.2 }
  := by
  obtain ⟨next, hnext, rfl⟩ := Option.map_eq_some_iff.mp h
  use next

/-- A process that takes a step has one to take. -/
theorem advance_step_inv (h : c.advance i = some c') :
  ∃ update next, c.proc i = .step update next
    ∧ c' = { proc := Function.update c.proc i (next c.state), state := update c.state }
  := by
  obtain ⟨follow, hfollow, rfl⟩ := advance_inv h
  cases hproc : c.proc i with
  | done a =>
    rw [hproc] at hfollow
    cases hfollow
  | step update next =>
    rw [hproc] at hfollow
    obtain rfl := Option.some_injective _ hfollow
    exact ⟨update, next, rfl, rfl⟩

/-- A process that has returned takes no step. -/
theorem advance_of_done {a : α} (h : c.proc i = .done a) :
  c.advance i = none
  := by
  rw [advance, h]
  rfl

/-- What every step keeps holds after a schedule. -/
theorem exec_keeps {Φ : System ι σ α → Prop}
    (hkeep : ∀ c i c', Φ c → c.advance i = some c' → Φ c') {schedule : List ι}
    (hexec : c.exec schedule = some c') (h : Φ c) :
  Φ c'
  := by
  induction schedule generalizing c with
  | nil =>
    obtain rfl := Option.some_injective _ hexec
    exact h
  | cons i schedule ih =>
    obtain ⟨c₁, hstep, hrest⟩ := Option.bind_eq_some_iff.mp hexec
    exact ih hrest (hkeep c i c₁ h hstep)

/-- A process that has returned stays so. -/
theorem proc_of_done {schedule : List ι} {a : α} (hexec : c.exec schedule = some c')
    (h : c.proc i = .done a) :
  c'.proc i = .done a
  := by
  apply exec_keeps _ hexec h
  intro c j c' h hstep
  have hne : i ≠ j := by
    rintro rfl
    rw [advance_of_done h] at hstep
    cases hstep
  obtain ⟨next, -, rfl⟩ := advance_inv hstep
  simp [hne, h]

/-- What the steps of processes keep of the processes holds after a schedule. -/
theorem proc_exec {Φ : ι → Process σ α → Prop}
    (hstep : ∀ i p s p' s', Φ i p → p.advance s = some (p', s') → Φ i p') {schedule : List ι}
    (hexec : c.exec schedule = some c') (h : ∀ i, Φ i (c.proc i)) (i : ι) :
  Φ i (c'.proc i)
  := by
  revert i
  apply exec_keeps _ hexec h
  intro c j c' h hadvance
  obtain ⟨⟨p', s'⟩, hnext, rfl⟩ := advance_inv hadvance
  apply (Function.forall_update_iff c.proc Φ).mpr
  exact ⟨hstep j _ _ _ _ (h j) hnext, fun k _ => h k⟩

/-- When all the others have returned, a process is carried out without interruption. -/
theorem run_of_exec {schedule : List ι} {a : α} (hexec : c.exec schedule = some c')
    (hothers : ∀ j, j ≠ i → ∃ b, c.proc j = .done b) (hdone : c'.proc i = .done a) :
  (c.proc i).run c.state = (a, c'.state)
  := by
  induction schedule generalizing c with
  | nil =>
    obtain rfl := Option.some_injective _ hexec
    rw [hdone]
    rfl
  | cons j schedule ih =>
    obtain ⟨c₁, hstep, hrest⟩ := Option.bind_eq_some_iff.mp hexec
    have hj : j = i := by
      by_contra hne
      obtain ⟨b, hb⟩ := hothers j hne
      rw [advance_of_done hb] at hstep
      cases hstep
    subst hj
    obtain ⟨update, next, hproc, rfl⟩ := advance_step_inv hstep
    have hothers' : ∀ k, k ≠ j → ∃ b, Function.update c.proc j (next c.state) k = .done b := by
      intro k hk
      obtain ⟨b, hb⟩ := hothers k hk
      use b
      simp [hk, hb]
    have hrun := ih hrest hothers'
    rw [hproc]
    simpa [run] using hrun

/-- A process can be carried out to its end before the others take a step. -/
theorem exists_exec_run (c : System ι σ α) (i : ι) :
  ∃ (schedule : List ι) (c' : System ι σ α),
    (∀ rest, c.exec (schedule ++ rest) = c'.exec rest)
      ∧ c'.proc i = .done ((c.proc i).run c.state).1 ∧ c'.state = ((c.proc i).run c.state).2
      ∧ ∀ j, j ≠ i → c'.proc j = c.proc j
  := by
  generalize hp : c.proc i = p
  induction p generalizing c with
  | done a => exact ⟨[], c, fun _ => rfl, hp, rfl, fun _ _ => rfl⟩
  | step update next ih =>
    obtain ⟨c₁, hexec, hstate, hproc, hothers⟩ := exec_cons hp rfl
    obtain ⟨schedule, c', hexec', hproc', hstate', hothers'⟩ := ih c.state c₁ hproc
    rw [hstate] at hproc' hstate'
    refine ⟨i :: schedule, c', ?_, hproc', hstate', ?_⟩
    · intro rest
      rw [List.cons_append, hexec, hexec']
    · intro j hj
      rw [hothers' j hj, hothers j hj]

end System

end Process
