import AdBlock.Process.System

/-!
# Processes that rely on each other

`Keeps P rely guar pre p Q` says of the process `p`, started where `pre` holds: if the steps of
the other processes are as `rely` tells, its own are as `guar` tells and keep `P`, and `Q` holds of
its result when it returns.  Processes each of which guarantees what the others rely on keep `P`
together, in any order of their steps (`System.Kept.exec`).
-/

namespace Process

variable {ι σ α β : Type}

/-- The process guarantees its steps and keeps `P`, as long as the others do what it relies on. -/
inductive Keeps (P : σ → Prop) (rely guar : σ → σ → Prop) :
    (σ → Prop) → Process σ α → (α → σ → Prop) → Prop where
  | done {pre : σ → Prop} {Q : α → σ → Prop} {a : α} (h : ∀ s, P s → pre s → Q a s) :
      Keeps P rely guar pre (.done a) Q
  /-- The step is taken where `I` holds, which the others do not disturb. -/
  | step {pre : σ → Prop} {Q : α → σ → Prop} {update : σ → σ} {next : σ → Process σ α}
      (I : σ → Prop) (post : σ → σ → Prop) (hpre : ∀ s, P s → pre s → I s)
      (hstable : ∀ s s', P s → I s → rely s s' → I s')
      (hguar : ∀ s, P s → I s → P (update s) ∧ guar s (update s) ∧ post s (update s))
      (hnext : ∀ s, P s → I s → Keeps P rely guar (post s) (next s) Q) :
      Keeps P rely guar pre (.step update next) Q

variable {P : σ → Prop} {rely guar : σ → σ → Prop} {pre pre' : σ → Prop} {Q : α → σ → Prop}

theorem keeps_pure {a : α} (h : ∀ s, P s → pre s → Q a s) :
  Keeps P rely guar pre (pure a) Q
  := Keeps.done h

theorem keeps_atomic {f : σ → α × σ} (hstable : ∀ s s', P s → pre s → rely s s' → pre s')
    (h : ∀ s, P s → pre s → P (f s).2 ∧ guar s (f s).2 ∧ Q (f s).1 (f s).2) :
  Keeps P rely guar pre (atomic f) Q
  := by
  apply Keeps.step pre (fun s => Q (f s).1) (fun _ _ hs => hs) hstable h
  intro s _ _
  apply Keeps.done
  intro s' _ hs'
  apply hs'

theorem Keeps.weaken {p : Process σ α} (h : Keeps P rely guar pre p Q)
    (hpre : ∀ s, P s → pre' s → pre s) :
  Keeps P rely guar pre' p Q
  := by
  cases h with
  | done hQ => apply Keeps.done fun s hP hs => hQ s hP (hpre s hP hs)
  | step I post hI hstable hguar hnext =>
    apply Keeps.step I post (fun s hP hs => hI s hP (hpre s hP hs)) hstable hguar hnext

/-- A process may rely on more and guarantee less. -/
theorem Keeps.mono {p : Process σ α} {rely' guar' : σ → σ → Prop}
    (h : Keeps P rely guar pre p Q) (hrely : ∀ s s', rely' s s' → rely s s')
    (hguar : ∀ s s', guar s s' → guar' s s') :
  Keeps P rely' guar' pre p Q
  := by
  induction h with
  | done hQ => apply Keeps.done hQ
  | step I post hpre hstable hstep _ ih =>
    apply Keeps.step I post hpre _ _ ih
    · intro s s' hP hs hstep
      apply hstable s s' hP hs (hrely s s' hstep)
    · intro s hP hs
      obtain ⟨hP', hguar', hpost⟩ := hstep s hP hs
      exact ⟨hP', hguar s _ hguar', hpost⟩

/-- Less may be said of the result. -/
theorem Keeps.imp {p : Process σ α} {Q' : α → σ → Prop} (h : Keeps P rely guar pre p Q)
    (hQ : ∀ a s, Q a s → Q' a s) :
  Keeps P rely guar pre p Q'
  := by
  induction h with
  | done hpost => apply Keeps.done fun s hP hs => hQ _ s (hpost s hP hs)
  | step I post hpre hstable hguar _ ih =>
    apply Keeps.step I post hpre hstable hguar
    intro s hP hs
    apply ih s hP hs hQ

theorem keeps_bind {p : Process σ α} {f : α → Process σ β} {R : β → σ → Prop}
    (hp : Keeps P rely guar pre p Q) (hf : ∀ a, Keeps P rely guar (Q a) (f a) R) :
  Keeps P rely guar pre (p >>= f) R
  := by
  induction hp with
  | done hQ => apply (hf _).weaken hQ
  | step I post hpre hstable hguar _ ih =>
    apply Keeps.step I post hpre hstable hguar
    intro s hP hs
    apply ih s hP hs hf

/-- A step that keeps what the rest of the process needs. -/
theorem keeps_atomic_bind {f : σ → β × σ} {g : β → Process σ α}
    (hstable : ∀ s s', P s → pre s → rely s s' → pre s')
    (hf : ∀ s, P s → pre s → P (f s).2 ∧ guar s (f s).2 ∧ pre (f s).2)
    (hg : ∀ b, Keeps P rely guar pre (g b) Q) :
  Keeps P rely guar pre (atomic f >>= g) Q
  := keeps_bind (keeps_atomic hstable hf) hg

/-- A process that is not disturbed keeps `P`. -/
theorem Keeps.run {p : Process σ α} (h : Keeps P rely guar pre p Q) {s : σ} (hP : P s)
    (hs : pre s) :
  P (p.run s).2
  := by
  induction h generalizing s with
  | done _ => apply hP
  | step I post hpre _ hguar _ ih =>
    have hI := hpre s hP hs
    obtain ⟨hP', -, hpost⟩ := hguar s hP hI
    apply ih s hP hI hP' hpost

/-- A process whose atomic steps are all of one kind guarantees that kind. -/
theorem Steps.keeps {R : σ → σ → Prop} {p : Process σ α} (hp : p.Steps R)
    (hP : ∀ s s', R s s' → P s → P s') :
  Keeps P rely R (fun _ => True) p fun _ _ => True
  := by
  induction hp with
  | done a => apply Keeps.done fun _ _ _ => trivial
  | step hupdate _ ih =>
    apply Keeps.step (fun _ => True) (fun _ _ => True) (fun _ _ _ => trivial)
      (fun _ _ _ _ _ => trivial)
    · intro s hs _
      exact ⟨hP s _ (hupdate s) hs, hupdate s, trivial⟩
    · intro s _ _
      apply ih

/-! ### Processes together -/

namespace System

variable [DecidableEq ι] {c c' : System ι σ α} {relyOf guarOf : ι → σ → σ → Prop}
  {post : ι → α → σ → Prop}

/-- Every process goes on as it should from where the state is. -/
def Kept (P : σ → Prop) (relyOf guarOf : ι → σ → σ → Prop) (post : ι → α → σ → Prop)
    (c : System ι σ α) : Prop :=
  P c.state
    ∧ ∀ i, ∃ pre, pre c.state ∧ Keeps P (relyOf i) (guarOf i) pre (c.proc i) (post i)

/-- The processes guarantee what the others rely on, also for what they have returned. -/
structure Compatible (P : σ → Prop) (relyOf guarOf : ι → σ → σ → Prop)
    (post : ι → α → σ → Prop) : Prop where
  rely : ∀ i j, i ≠ j → ∀ s s', guarOf i s s' → relyOf j s s'
  stable : ∀ i a s s', P s → post i a s → relyOf i s s' → post i a s'

/-- A step of one process leaves all of them as they should be. -/
theorem Kept.advance (h : c.Kept P relyOf guarOf post)
    (hcompat : Compatible P relyOf guarOf post) {i : ι} (hstep : c.advance i = some c') :
  c'.Kept P relyOf guarOf post
  := by
  obtain ⟨hP, hprocs⟩ := h
  obtain ⟨update, next, hproc, rfl⟩ := advance_step_inv hstep
  obtain ⟨pre, hpre, hkeeps⟩ := hprocs i
  rw [hproc] at hkeeps
  cases hkeeps with
  | step I mid hI hstable hguar hnext =>
    have hIs := hI _ hP hpre
    obtain ⟨hP', hguar', hmid⟩ := hguar _ hP hIs
    use hP'
    intro j
    by_cases hj : j = i
    · subst hj
      use mid c.state, hmid
      simp only [Function.update_self]
      apply hnext _ hP hIs
    -- Another process is where it was, and what it needs is not disturbed.
    · simp only [Function.update_of_ne hj]
      have hrely := hcompat.rely i j (Ne.symm hj) _ _ hguar'
      obtain ⟨pre, hpre, hkeeps⟩ := hprocs j
      generalize c.proc j = p at hkeeps
      cases hkeeps with
      | done hpost =>
        exact ⟨_, hcompat.stable j _ _ _ hP (hpost _ hP hpre) hrely, .done fun _ _ hs => hs⟩
      | step I mid hI hstable hguar hnext =>
        use I, hstable _ _ hP (hI _ hP hpre) hrely
        exact .step I mid (fun _ _ hs => hs) hstable hguar hnext

/-- Processes that guarantee what the others rely on keep `P` in any order of their steps, also
when they are stopped before they have returned. -/
theorem Kept.exec {schedule : List ι} (h : c.Kept P relyOf guarOf post)
    (hcompat : Compatible P relyOf guarOf post) (hexec : c.exec schedule = some c') :
  c'.Kept P relyOf guarOf post
  := exec_keeps (fun _ _ _ h hstep => h.advance hcompat hstep) hexec h

omit [DecidableEq ι] in
/-- What a process has returned is as it should be. -/
theorem Kept.result (h : c.Kept P relyOf guarOf post) {i : ι} {a : α}
    (hdone : c.proc i = .done a) :
  post i a c.state
  := by
  obtain ⟨hP, hprocs⟩ := h
  obtain ⟨pre, hpre, hkeeps⟩ := hprocs i
  rw [hdone] at hkeeps
  cases hkeeps with
  | done hpost => exact hpost _ hP hpre

end System

end Process
