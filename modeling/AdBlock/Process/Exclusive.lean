import AdBlock.Process.Fallible
import AdBlock.Process.System
import Mathlib.Data.List.Induction
import Mathlib.Data.List.Nodup

/-!
# Exclusive changes

A schedule is exclusive if a process takes a step that may change the state only when each of the
others has not started or is settled: it changes nothing any more, and returns the same whatever it
finds.  Processes on an exclusive schedule do what they do in turn (`Exclusive.serialized`).  A
process that returns without a step that may change the state needs no turn.
-/

namespace Process

variable {ι σ α β : Type}

/-- The process has returned, or its next step leaves every state as it is. -/
def Silent : Process σ α → Prop
  | .done _ => True
  | .step update _ => ∀ s, update s = s

/-- The process leaves every state as it is and returns `a`, whatever it finds. -/
inductive Settles : Process σ α → α → Prop where
  | done (a : α) : Settles (.done a) a
  | step {update : σ → σ} {next : σ → Process σ α} {a : α} (hupdate : ∀ s, update s = s)
      (hnext : ∀ s, Settles (next s) a) : Settles (.step update next) a

namespace Settles

variable {p : Process σ α} {a : α}

theorem silent (h : Settles p a) :
  p.Silent
  := by
  cases h with
  | done => trivial
  | step hupdate _ => exact hupdate

theorem run_eq (h : Settles p a) (s : σ) :
  p.run s = (a, s)
  := by
  induction h generalizing s with
  | done a => rfl
  | step hupdate _ ih => rw [run, hupdate, ih]

end Settles

/-- The process can return with steps that leave every state as it is. -/
inductive ReturnsSilently : Process σ α → α → Prop where
  | done (a : α) : ReturnsSilently (.done a) a
  | step {update : σ → σ} {next : σ → Process σ α} {a : α} (hupdate : ∀ s, update s = s) (s : σ)
      (h : ReturnsSilently (next s) a) : ReturnsSilently (.step update next) a

theorem ReturnsSilently.atomic_inv {f : σ → α × σ} {a : α} (h : ReturnsSilently (atomic f) a)
    (s : σ) :
  (f s).2 = s
  := by
  cases h with
  | step hupdate _ _ => exact hupdate s

theorem ReturnsSilently.bind_inv {p : Process σ α} {f : α → Process σ β} {b : β}
    (h : ReturnsSilently (p >>= f) b) :
  ∃ a, ReturnsSilently p a ∧ ReturnsSilently (f a) b
  := by
  induction p with
  | done a => exact ⟨a, .done a, h⟩
  | step update next ih =>
    cases h with
    | step hupdate s hnext =>
      obtain ⟨a, ha, hb⟩ := ih s hnext
      exact ⟨a, .step hupdate s ha, hb⟩

namespace System

variable {c₀ c c' : System ι σ α} {i : ι} {started order : List ι}

/-- The process changes nothing any more, and returns the same whatever it finds. -/
def Settled (c : System ι σ α) (i : ι) : Prop :=
  ∃ a, Settles (c.proc i) a

theorem settled_of_done {a : α} (h : c.proc i = .done a) :
  c.Settled i
  := by
  use a
  rw [h]
  exact .done a

theorem not_settled (hchange : ¬ (c.proc i).Silent) :
  ¬ c.Settled i
  := by
  rintro ⟨a, ha⟩
  exact hchange ha.silent

/-- The state after some processes were carried out in turn. -/
def inTurn (c₀ : System ι σ α) (order : List ι) : σ :=
  order.foldl (fun s i => ((c₀.proc i).run s).2) c₀.state

theorem inTurn_append (c₀ : System ι σ α) (order : List ι) (i : ι) :
  c₀.inTurn (order ++ [i]) = ((c₀.proc i).run (c₀.inTurn order)).2
  := by
  rw [inTurn, List.foldl_append]
  rfl

/-- Processes have had their turns in some order.  The last one may not be settled yet. -/
structure Turns (c₀ : System ι σ α) (started : List ι) (c : System ι σ α) (order : List ι) :
    Prop where
  nodup : order.Nodup
  started : ∀ i ∈ order, i ∈ started
  settled : ∀ before i after, order = before ++ i :: after → after ≠ [] → c.Settled i
  result : ∀ before i after, order = before ++ i :: after →
    ((c.proc i).run c.state).1 = ((c₀.proc i).run (c₀.inTurn before)).1
  first : order = [] → c.state = c₀.state
  last : ∀ before i, order = before ++ [i] → ((c.proc i).run c.state).2 = c₀.inTurn order
  waiting : ∀ i ∉ order, c.Settled i ∨ (c.proc i).run c.state = (c₀.proc i).run c.state
  silent : ∀ i ∉ order, ∀ a, ReturnsSilently (c.proc i) a → ReturnsSilently (c₀.proc i) a

theorem turns_nil (c₀ : System ι σ α) :
  Turns c₀ [] c₀ []
  where
  nodup := List.nodup_nil
  started := by simp
  settled := by simp
  result := by simp
  first _ := rfl
  last := by simp
  waiting _ _ := .inr rfl
  silent _ _ _ h := h

/-- When all that had their turns are settled, the state is the one after their turns. -/
theorem Turns.state_eq (h : Turns c₀ started c order) (hsettled : ∀ i ∈ order, c.Settled i) :
  c.state = c₀.inTurn order
  := by
  rcases List.eq_nil_or_concat order with rfl | ⟨before, i, hsplit⟩
  · exact h.first rfl
  · rw [List.concat_eq_append] at hsplit
    obtain ⟨a, ha⟩ := hsettled i (by simp [hsplit])
    have hlast := h.last before i hsplit
    rwa [ha.run_eq] at hlast

theorem Turns.settled_of_mem (h : Turns c₀ started c order)
    (hothers : ∀ j, j ≠ i → j ∉ started ∧ c.proc j = c₀.proc j ∨ c.Settled j) {j : ι}
    (hj : j ∈ order) (hne : j ≠ i) :
  c.Settled j
  := by
  apply (hothers j hne).resolve_left
  rintro ⟨hnot, -⟩
  exact hnot (h.started j hj)

/-- The places of a list with a new last member. -/
theorem split_concat {before after : List ι} {j : ι} (h : order ++ [i] = before ++ j :: after) :
  before = order ∧ j = i ∧ after = []
    ∨ ∃ after', after = after' ++ [i] ∧ order = before ++ j :: after'
  := by
  rcases List.eq_nil_or_concat after with rfl | ⟨after', k, rfl⟩
  · obtain ⟨hbefore, hj⟩ := List.append_inj' h rfl
    exact .inl ⟨hbefore.symm, (List.singleton_inj.mp hj).symm, rfl⟩
  · rw [List.concat_eq_append, ← List.cons_append, ← List.append_assoc] at h
    obtain ⟨horder, hk⟩ := List.append_inj' h rfl
    rw [List.concat_eq_append, ← List.singleton_inj.mp hk]
    exact .inr ⟨after', rfl, horder⟩

variable [DecidableEq ι] {schedule : List ι}

/-! ### One step -/

theorem proc_of_ne (hstep : c.advance i = some c') {j : ι} (hne : j ≠ i) :
  c'.proc j = c.proc j
  := by
  obtain ⟨next, -, rfl⟩ := advance_inv hstep
  exact Function.update_of_ne hne _ _

theorem settles_advance {j : ι} {a : α} (h : Settles (c.proc j) a)
    (hstep : c.advance i = some c') :
  Settles (c'.proc j) a
  := by
  by_cases hj : j = i
  · subst hj
    obtain ⟨update, next, hproc, rfl⟩ := advance_step_inv hstep
    rw [hproc] at h
    cases h with
    | step _ hnext =>
      simp only [Function.update_self]
      exact hnext c.state
  · rw [proc_of_ne hstep hj]
    exact h

theorem Settled.advance {j : ι} (h : c.Settled j) (hstep : c.advance i = some c') :
  c'.Settled j
  := h.imp fun _ ha => settles_advance ha hstep

theorem Settled.exec {schedule : List ι} {j : ι} (h : c.Settled j)
    (hexec : c.exec schedule = some c') :
  c'.Settled j
  := by
  apply exec_keeps _ hexec h
  exact fun _ _ _ h hstep => h.advance hstep

theorem Settled.run_fst {j : ι} (h : c.Settled j) (hstep : c.advance i = some c') :
  ((c'.proc j).run c'.state).1 = ((c.proc j).run c.state).1
  := by
  obtain ⟨a, ha⟩ := h
  rw [ha.run_eq, (settles_advance ha hstep).run_eq]

/-- A step leaves what the process comes to as it was. -/
theorem run_of_advance (hstep : c.advance i = some c') :
  (c'.proc i).run c'.state = (c.proc i).run c.state
  := by
  obtain ⟨update, next, hproc, rfl⟩ := advance_step_inv hstep
  rw [hproc]
  simp [run]

/-- A step that leaves every state as it is. -/
theorem state_of_silent (hstep : c.advance i = some c') (hsilent : (c.proc i).Silent) :
  c'.state = c.state
    ∧ ∀ a, ReturnsSilently (c'.proc i) a → ReturnsSilently (c.proc i) a
  := by
  obtain ⟨update, next, hproc, rfl⟩ := advance_step_inv hstep
  rw [hproc] at hsilent ⊢
  use hsilent c.state
  intro a ha
  simp only [Function.update_self] at ha
  exact .step hsilent c.state ha

namespace Turns

/-- A step that leaves every state as it is gives no turn. -/
theorem advance_silent (h : Turns c₀ started c order) (hstep : c.advance i = some c')
    (hsilent : (c.proc i).Silent) :
  Turns c₀ (started ++ [i]) c' order
  := by
  obtain ⟨hstate, hreturns⟩ := state_of_silent hstep hsilent
  have hrun (j : ι) : (c'.proc j).run c'.state = (c.proc j).run c.state := by
    by_cases hj : j = i
    · rw [hj, run_of_advance hstep]
    · rw [proc_of_ne hstep hj, hstate]
  constructor
  · exact h.nodup
  · intro j hj
    exact List.mem_append_left _ (h.started j hj)
  · intro before j after hsplit hne
    exact (h.settled before j after hsplit hne).advance hstep
  · intro before j after hsplit
    rw [hrun, h.result before j after hsplit]
  · intro hnil
    rw [hstate, h.first hnil]
  · intro before j hsplit
    rw [hrun, h.last before j hsplit]
  · intro j hj
    rw [hrun, hstate]
    exact (h.waiting j hj).imp_left fun hsettled => hsettled.advance hstep
  · intro j hj a ha
    apply h.silent j hj
    by_cases hji : j = i
    · subst hji
      exact hreturns a ha
    · rw [← proc_of_ne hstep hji]
      exact ha

theorem silent_advance (h : Turns c₀ started c order) (hstep : c.advance i = some c') {j : ι}
    (hj : j ∉ order) (hne : j ≠ i) (a : α) (ha : ReturnsSilently (c'.proc j) a) :
  ReturnsSilently (c₀.proc j) a
  := by
  apply h.silent j hj
  rw [← proc_of_ne hstep hne]
  exact ha

section Change

variable (hothers : ∀ j, j ≠ i → j ∉ started ∧ c.proc j = c₀.proc j ∨ c.Settled j)
include hothers

theorem waiting_advance (hstep : c.advance i = some c') {j : ι} (hne : j ≠ i) :
  c'.Settled j ∨ (c'.proc j).run c'.state = (c₀.proc j).run c'.state
  := by
  rcases hothers j hne with ⟨-, hfresh⟩ | hsettled
  · right
    rw [proc_of_ne hstep hne, hfresh]
  · left
    exact hsettled.advance hstep

/-- The process that has its turn goes on. -/
theorem advance_last (h : Turns c₀ started c order) (hstep : c.advance i = some c')
    (hchange : ¬ (c.proc i).Silent) (hi : i ∈ order) :
  Turns c₀ (started ++ [i]) c' order
  := by
  obtain ⟨turns, rest, hsplit⟩ := List.append_of_mem hi
  obtain rfl : rest = [] := by
    by_contra hne
    exact not_settled hchange (h.settled turns i rest hsplit hne)
  have hne {j : ι} (hj : j ∉ order) : j ≠ i := by
    rintro rfl
    exact hj hi
  constructor
  · exact h.nodup
  · intro j hj
    exact List.mem_append_left _ (h.started j hj)
  · intro before j after hsplit' hafter
    exact (h.settled before j after hsplit' hafter).advance hstep
  · intro before j after hsplit'
    rw [← h.result before j after hsplit']
    by_cases hji : j = i
    · rw [hji, run_of_advance hstep]
    · have hj : j ∈ order := by simp [hsplit']
      exact (h.settled_of_mem hothers hj hji).run_fst hstep
  · intro hnil
    rw [hnil] at hi
    cases hi
  · intro before j hsplit'
    obtain rfl : j = i := by
      rw [hsplit] at hsplit'
      exact (List.singleton_inj.mp (List.append_inj' hsplit' rfl).2).symm
    rw [run_of_advance hstep, h.last before j hsplit']
  · intro j hj
    exact waiting_advance hothers hstep (hne hj)
  · intro j hj a ha
    exact h.silent_advance hstep hj (hne hj) a ha

/-- A process gets its turn. -/
theorem advance_new (h : Turns c₀ started c order) (hstep : c.advance i = some c')
    (hchange : ¬ (c.proc i).Silent) (hi : i ∉ order) :
  Turns c₀ (started ++ [i]) c' (order ++ [i])
  := by
  have hsettled (j : ι) (hj : j ∈ order) : c.Settled j := by
    apply h.settled_of_mem hothers hj
    rintro rfl
    exact hi hj
  have hstate : c.state = c₀.inTurn order := h.state_eq hsettled
  have hrun : (c'.proc i).run c'.state = (c₀.proc i).run (c₀.inTurn order) := by
    rw [run_of_advance hstep, (h.waiting i hi).resolve_left (not_settled hchange), hstate]
  constructor
  · rw [← List.concat_eq_append]
    exact List.Nodup.concat hi h.nodup
  · intro j hj
    exact List.mem_append.mpr ((List.mem_append.mp hj).imp_left (h.started j))
  · intro before j after hsplit hafter
    rcases split_concat hsplit with ⟨-, -, rfl⟩ | ⟨after', -, horder⟩
    · exact absurd rfl hafter
    · exact (hsettled j (by simp [horder])).advance hstep
  · intro before j after hsplit
    rcases split_concat hsplit with ⟨rfl, rfl, -⟩ | ⟨after', -, horder⟩
    · rw [hrun]
    · rw [← h.result before j after' horder]
      exact (hsettled j (by simp [horder])).run_fst hstep
  · intro hnil
    simp at hnil
  · intro before j hsplit
    rcases split_concat hsplit with ⟨rfl, rfl, -⟩ | ⟨after', hafter, -⟩
    · rw [hrun, inTurn_append]
    · simp at hafter
  · intro j hj
    rw [List.mem_append, not_or, List.mem_singleton] at hj
    exact waiting_advance hothers hstep hj.2
  · intro j hj a ha
    rw [List.mem_append, not_or, List.mem_singleton] at hj
    exact h.silent_advance hstep hj.1 hj.2 a ha

end Change

end Turns

/-! ### Whole schedules -/

theorem proc_of_not_mem (hexec : c.exec schedule = some c') (h : i ∉ schedule) :
  c'.proc i = c.proc i
  := by
  induction schedule generalizing c with
  | nil =>
    obtain rfl := Option.some_injective _ hexec
    rfl
  | cons j schedule ih =>
    obtain ⟨c₁, hstep, hrest⟩ := Option.bind_eq_some_iff.mp hexec
    rw [List.mem_cons, not_or] at h
    rw [ih hrest h.2, proc_of_ne hstep h.1]

/-- A process takes a step that may change the state only when each of the others has not started
or is settled. -/
def Exclusive (c₀ : System ι σ α) (schedule : List ι) : Prop :=
  ∀ before i after c, schedule = before ++ i :: after → c₀.exec before = some c →
    ¬ (c.proc i).Silent → ∀ j, j ≠ i → j ∉ before ∨ c.Settled j

namespace Exclusive

theorem init (h : Exclusive c₀ (schedule ++ [i])) :
  Exclusive c₀ schedule
  := by
  intro before j after c hschedule
  apply h before j (after ++ [i]) c
  rw [hschedule, List.append_assoc, List.cons_append]

theorem nil (c₀ : System ι σ α) :
  Exclusive c₀ []
  := by
  intro before i after c hsplit
  simp at hsplit

/-- When the others that have started are settled, a process can go on, also while they do. -/
theorem append {schedule' : List ι} {k : ι} (h : Exclusive c₀ schedule)
    (hexec : c₀.exec schedule = some c) (hstarted : ∀ j ∈ schedule, j ≠ k → c.Settled j)
    (hgoes : ∀ j ∈ schedule', j ≠ k → c.Settled j) :
  Exclusive c₀ (schedule ++ schedule')
  := by
  intro before j after c' hsplit hbefore hchange l hl
  have hlater (rest : List ι) (hrest : before = schedule ++ rest)
      (hafter : schedule' = rest ++ j :: after) : l ∉ before ∨ c'.Settled l := by
    subst hrest
    rw [exec_append, hexec] at hbefore
    have hkeeps {m : ι} (hm : c.Settled m) : c'.Settled m := hm.exec hbefore
    obtain rfl : j = k := by
      by_contra hj
      exact not_settled hchange (hkeeps (hgoes j (by simp [hafter]) hj))
    rw [or_iff_not_imp_left, not_not, List.mem_append]
    rintro (hmem | hmem)
    · exact hkeeps (hstarted l hmem hl)
    · exact hkeeps (hgoes l (by simp [hafter, hmem]) hl)
  rcases List.append_eq_append_iff.mp hsplit with ⟨rest, hrest, hafter⟩ | ⟨rest, hrest, hafter⟩
  · exact hlater rest hrest hafter
  · cases rest with
    | nil => exact hlater [] (by simpa using hrest.symm) hafter.symm
    | cons m rest =>
      obtain rfl : j = m := (List.cons.inj hafter).1
      exact h before j rest c' hrest hbefore hchange l hl

/-- On an exclusive schedule the processes have turns. -/
theorem turns (h : Exclusive c₀ schedule) (hexec : c₀.exec schedule = some c) :
  ∃ order, Turns c₀ schedule c order
  := by
  induction schedule using List.reverseRecOn generalizing c with
  | nil =>
    obtain rfl := Option.some_injective _ hexec
    exact ⟨[], turns_nil c₀⟩
  | append_singleton schedule i ih =>
    rw [exec_append] at hexec
    obtain ⟨c₁, hexec₁, hlast⟩ := Option.bind_eq_some_iff.mp hexec
    obtain ⟨c₂, hstep, hc⟩ := Option.bind_eq_some_iff.mp hlast
    obtain rfl := Option.some_injective _ hc
    obtain ⟨order, hturns⟩ := ih h.init hexec₁
    by_cases hsilent : (c₁.proc i).Silent
    · exact ⟨order, hturns.advance_silent hstep hsilent⟩
    · have hothers (j : ι) (hne : j ≠ i) :
          j ∉ schedule ∧ c₁.proc j = c₀.proc j ∨ c₁.Settled j := by
        apply (h schedule i [] c₁ rfl hexec₁ hsilent j hne).imp_left
        intro hj
        exact ⟨hj, proc_of_not_mem hexec₁ hj⟩
      by_cases hi : i ∈ order
      · exact ⟨order, hturns.advance_last hothers hstep hsilent hi⟩
      · exact ⟨order ++ [i], hturns.advance_new hothers hstep hsilent hi⟩

/-- On an exclusive schedule the processes do what they do in turn, except for those that return
without a step that may change the state. -/
theorem serialized (h : Exclusive c₀ schedule) (hexec : c₀.exec schedule = some c)
    {results : ι → α} (hdone : ∀ i, c.proc i = .done (results i)) :
  ∃ order : List ι, order.Nodup ∧ c.state = c₀.inTurn order
    ∧ (∀ before i after, order = before ++ i :: after →
      results i = ((c₀.proc i).run (c₀.inTurn before)).1)
    ∧ ∀ i ∉ order, ReturnsSilently (c₀.proc i) (results i)
  := by
  obtain ⟨order, hturns⟩ := h.turns hexec
  use order, hturns.nodup, hturns.state_eq fun i _ => settled_of_done (hdone i)
  constructor
  · intro before i after hsplit
    rw [← hturns.result before i after hsplit, hdone i]
    rfl
  · intro i hi
    apply hturns.silent i hi
    rw [hdone i]
    exact .done _

end Exclusive

end System

end Process

namespace Fallible

open Process

variable {σ ε α β : Type} {p : Fallible σ ε α} {f : α → Fallible σ ε β}

/-- What succeeds without a step that may change the state does so in each of its parts. -/
theorem returnsSilently_bind_inv {b : β} (h : ReturnsSilently (ExceptT.run (p >>= f)) (.ok b)) :
  ∃ a, ReturnsSilently (ExceptT.run p) (.ok a) ∧ ReturnsSilently (ExceptT.run (f a)) (.ok b)
  := by
  obtain ⟨r, hp, hf⟩ := ReturnsSilently.bind_inv (p := ExceptT.run p) (f := ExceptT.bindCont f) h
  cases r with
  | error e => cases hf
  | ok a => exact ⟨a, hp, hf⟩

end Fallible
