import AdBlock.Process.System

/-!
# What the processes of a run find

A process chooses how to go on from the states that it finds, and in a system these are states that
the run goes through.  `Sees I R Q p` says what `p` does if `I` holds of every state that it finds.
With the states of the run for `I`, it tells what the steps of the run do (`System.exec_of_sees`).
-/

namespace Process

variable {ι σ α β : Type}

/-- Every atomic step of the process changes the state as `R` tells, and what it returns has the
property `Q`, if the states that it finds have the property `I`. -/
inductive Sees (I : σ → Prop) (R : σ → σ → Prop) (Q : α → Prop) : Process σ α → Prop where
  | done {a : α} (h : Q a) : Sees I R Q (.done a)
  | step {update : σ → σ} {next : σ → Process σ α} (hupdate : ∀ s, I s → R s (update s))
      (hnext : ∀ s, I s → Sees I R Q (next s)) : Sees I R Q (.step update next)

variable {I : σ → Prop} {R : σ → σ → Prop} {Q : α → Prop} {Q' : β → Prop}

theorem sees_pure {a : α} (h : Q a) :
  Sees I R Q (pure a)
  := Sees.done h

theorem sees_atomic {f : σ → α × σ} (h : ∀ s, I s → R s (f s).2 ∧ Q (f s).1) :
  Sees I R Q (atomic f)
  := Sees.step (fun s hs => (h s hs).1) fun s hs => Sees.done (h s hs).2

theorem sees_bind {p : Process σ α} {f : α → Process σ β} (hp : Sees I R Q p)
    (hf : ∀ a, Q a → Sees I R Q' (f a)) :
  Sees I R Q' (p >>= f)
  := by
  induction hp with
  | done h => apply hf _ h
  | step hupdate _ ih => apply Sees.step hupdate ih

namespace System

variable [DecidableEq ι] {c c' : System ι σ α} {schedule : List ι}

/-- The state is one that the system is in while it follows the schedule. -/
def During (c : System ι σ α) (schedule : List ι) (s : σ) : Prop :=
  ∃ past rest c', schedule = past ++ rest ∧ c.exec past = some c' ∧ c'.state = s

theorem during_start (c : System ι σ α) (schedule : List ι) :
  c.During schedule c.state
  := ⟨[], schedule, c, rfl, rfl, rfl⟩

theorem During.cons {i : ι} {s : σ} (hstep : c.advance i = some c') (h : c'.During schedule s) :
  c.During (i :: schedule) s
  := by
  obtain ⟨past, rest, c'', rfl, hexec, hs⟩ := h
  refine ⟨i :: past, rest, c'', rfl, ?_, hs⟩
  rw [exec, hstep]
  exact hexec

/-- What the steps keep that the processes take in states of the run holds after it. -/
theorem exec_of_sees {R : ι → σ → σ → Prop} {Q : ι → α → Prop}
    (hI : ∀ s, c.During schedule s → I s) (hsees : ∀ i, Sees I (R i) (Q i) (c.proc i))
    {P : σ → Prop} (hkeep : ∀ i s s', R i s s' → P s → P s')
    (hexec : c.exec schedule = some c') (h : P c.state) :
  P c'.state
  := by
  induction schedule generalizing c with
  | nil =>
    obtain rfl := Option.some_injective _ hexec
    exact h
  | cons i schedule ih =>
    obtain ⟨c₁, hstep, hrest⟩ := Option.bind_eq_some_iff.mp hexec
    have hstate : I c.state := hI _ (during_start c _)
    obtain ⟨update, next, hproc, rfl⟩ := advance_step_inv hstep
    have hi := hsees i
    rw [hproc] at hi
    cases hi with
    | step hupdate hnext =>
      refine ih (fun s hs => hI s (hs.cons hstep)) ?_ hrest (hkeep i _ _ (hupdate _ hstate) h)
      apply (Function.forall_update_iff c.proc fun i => Sees I (R i) (Q i)).mpr
      exact ⟨hnext _ hstate, fun j _ => hsees j⟩

end System

end Process
