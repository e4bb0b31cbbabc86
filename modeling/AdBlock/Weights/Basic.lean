import Mathlib.Algebra.Ring.Nat
import Mathlib.Data.Nat.Count

/-!
# Points among weights

Weights are laid end to end, and a point lies in one of them if it is below their sum.  Each weight
has as many points as it is large (`count_place`).
-/

namespace Weights

/-- The place of the weight in which a point lies. -/
def place (point : ℕ) : List ℕ → Option ℕ
  | [] => none
  | w :: weights => if point < w then some 0 else (place (point - w) weights).map (· + 1)

variable {w point : ℕ} {weights : List ℕ}

theorem place_cons_of_lt (h : point < w) :
  place point (w :: weights) = some 0
  := if_pos h

theorem place_cons_add (w point : ℕ) (weights : List ℕ) :
  place (w + point) (w :: weights) = (place point weights).map (· + 1)
  := by
  rw [place, if_neg (Nat.not_lt.mpr (Nat.le_add_right w point)), Nat.add_sub_cancel_left]

/-- A point that is below the sum lies in a weight. -/
theorem exists_place (h : point < weights.sum) :
  ∃ i < weights.length, place point weights = some i
  := by
  induction weights generalizing point with
  | nil => cases h
  | cons w weights ih =>
    by_cases hw : point < w
    · exact ⟨0, Nat.succ_pos _, place_cons_of_lt hw⟩
    · obtain ⟨rest, rfl⟩ := Nat.exists_eq_add_of_le (Nat.le_of_not_lt hw)
      rw [List.sum_cons, Nat.add_lt_add_iff_left] at h
      obtain ⟨i, hi, hplace⟩ := ih h
      use i + 1, Nat.succ_lt_succ hi
      rw [place_cons_add, hplace]
      rfl

/-- Each weight has as many points as it is large. -/
theorem count_place (weights : List ℕ) (i : ℕ) :
  Nat.count (fun point => place point weights = some i) weights.sum = weights.getD i 0
  := by
  induction weights generalizing i with
  | nil => rfl
  | cons w weights ih =>
    rw [List.sum_cons, Nat.count_add]
    cases i with
    | zero =>
      have hfirst : Nat.count (fun point => place point (w :: weights) = some 0) w = w := by
        apply Nat.count_iff_forall.mpr
        intro point h
        apply place_cons_of_lt h
      have hrest : Nat.count (fun point => place (w + point) (w :: weights) = some 0) weights.sum
          = 0 := by
        apply Nat.count_iff_forall_not.mpr
        intro point _
        rw [place_cons_add]
        cases place point weights with
        | none => simp
        | some j => simp
      rw [hfirst, hrest]
      rfl
    | succ i =>
      have hfirst : Nat.count (fun point => place point (w :: weights) = some (i + 1)) w = 0 := by
        apply Nat.count_iff_forall_not.mpr
        intro point h
        rw [place_cons_of_lt h]
        simp
      rw [hfirst, Nat.zero_add, List.getD_cons_succ, ← ih i]
      congr 1
      funext point
      rw [place_cons_add]
      cases place point weights with
      | none => simp
      | some j => simp

end Weights
