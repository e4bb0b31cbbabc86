import AdBlock.Process.Basic
import Mathlib.Logic.Relation

/-!
# A process in an environment

A process is carried out while its environment takes steps of its own on the same state, before
any of the atomic steps and after the last.  `Runs env G` are the runs in which every state that
an atomic step leads to satisfies `G`.
-/

namespace Process

variable {σ α β : Type}

/-- The process leads from a state to a result and a state, with steps of the environment in
between, through states that satisfy `G`. -/
inductive Runs (env : σ → σ → Prop) (G : σ → Prop) : Process σ α → σ → α → σ → Prop where
  | done (a : α) (s : σ) : Runs env G (.done a) s a s
  | step {update : σ → σ} {next : σ → Process σ α} {s s' : σ} {a : α} (hG : G (update s))
      (h : Runs env G (next s) (update s) a s') : Runs env G (.step update next) s a s'
  | env {p : Process σ α} {s s₁ s' : σ} {a : α} (henv : env s s₁)
      (h : Runs env G p s₁ a s') : Runs env G p s a s'

namespace Runs

variable {env : σ → σ → Prop} {G : σ → Prop} {p : Process σ α} {s s' : σ} {a : α}

/-- A property that the atomic steps of a process and the steps of its environment keep holds
after its run. -/
theorem of_steps {R : σ → σ → Prop} {P : σ → Prop} (h : Runs env G p s a s')
    (hp : p.Steps R) (hkeep : ∀ s s', R s s' → G s' → P s → P s')
    (henv : ∀ s s', env s s' → P s → P s') (hs : P s) :
  P s'
  := by
  induction h with
  | done a s => apply hs
  | step hG _ ih =>
    cases hp with
    | step hupdate hnext => apply ih (hnext _) (hkeep _ _ (hupdate _) hG hs)
  | env hstep _ ih => apply ih hp (henv _ _ hstep hs)

/-- A process that has returned leaves the state to the environment. -/
theorem pure_inv {b : α} (h : Runs env G (pure b) s a s') :
  a = b ∧ Relation.ReflTransGen env s s'
  := by
  generalize hp : (pure b : Process σ α) = p at h
  induction h with
  | done a s =>
    cases hp
    use rfl
  | step _ _ _ => cases hp
  | env hstep _ ih =>
    obtain ⟨ha, hrest⟩ := ih hp
    use ha
    apply Relation.ReflTransGen.head hstep hrest

/-- A process that starts with an atomic step takes it, after some steps of the environment. -/
theorem atomic_bind_inv {f : σ → β × σ} {g : β → Process σ α}
    (h : Runs env G (atomic f >>= g) s a s') :
  ∃ s₁, Relation.ReflTransGen env s s₁ ∧ G (f s₁).2
    ∧ Runs env G (g (f s₁).1) (f s₁).2 a s'
  := by
  generalize hp : atomic f >>= g = p at h
  induction h with
  | done a s => cases hp
  | step hG hrest _ =>
    cases hp
    exact ⟨_, Relation.ReflTransGen.refl, hG, hrest⟩
  | env hstep _ ih =>
    obtain ⟨s₁, hsteps, hG, hrest⟩ := ih hp
    use s₁, Relation.ReflTransGen.head hstep hsteps

end Runs

end Process
