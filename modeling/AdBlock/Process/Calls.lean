import Mathlib.Init

/-!
# Calls one after the other

Each call changes the state at once.  Two properties of calls are the same for all calls of a run if
they are the same in every state with an invariant, and calls with the property keep the invariant
(`each_iff`).
-/

namespace Calls

variable {ω σ : Type} (step : ω → σ → σ)

/-- The state after calls. -/
def run (calls : List ω) (s : σ) : σ :=
  calls.foldl (fun s call => step call s) s

/-- Every call of a run has a property in the state in which it is made. -/
def Each (P : ω → σ → Prop) (calls : List ω) (s : σ) : Prop :=
  ∀ before call after, calls = before ++ call :: after → P call (run step before s)

variable {step} {P Q : ω → σ → Prop}

theorem each_nil (s : σ) :
  Each step P [] s
  := by
  intro before call after h
  exact absurd h.symm (List.append_ne_nil_of_right_ne_nil _ (List.cons_ne_nil _ _))

theorem each_cons {call : ω} {calls : List ω} {s : σ} :
  Each step P (call :: calls) s ↔ P call s ∧ Each step P calls (step call s)
  := by
  constructor
  · intro h
    refine ⟨h [] call calls rfl, ?_⟩
    rintro before call' after rfl
    exact h (call :: before) call' after rfl
  · rintro ⟨hcall, hcalls⟩ before call' after h
    cases before with
    | nil =>
      cases h
      exact hcall
    | cons first before =>
      cases h
      exact hcalls before call' after rfl

/-- Properties that agree while an invariant holds agree on runs, if calls with the property keep
the invariant. -/
theorem each_iff {Inv : σ → Prop} (hcall : ∀ call s, Inv s → (P call s ↔ Q call s))
    (hkeep : ∀ call s, Inv s → Q call s → Inv (step call s)) {s : σ} (hs : Inv s)
    (calls : List ω) :
  Each step P calls s ↔ Each step Q calls s
  := by
  induction calls generalizing s with
  | nil => exact ⟨fun _ => each_nil s, fun _ => each_nil s⟩
  | cons call calls ih =>
    rw [each_cons, each_cons, hcall call s hs]
    constructor
    · rintro ⟨hQ, hrest⟩
      exact ⟨hQ, (ih (hkeep call s hs hQ)).mp hrest⟩
    · rintro ⟨hQ, hrest⟩
      exact ⟨hQ, (ih (hkeep call s hs hQ)).mpr hrest⟩

end Calls
