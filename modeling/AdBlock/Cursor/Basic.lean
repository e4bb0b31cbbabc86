import Mathlib.Data.List.Pairwise
import Mathlib.Order.Lattice
import Mathlib.Order.Lattice.Nat

/-!
# Paging with a cursor

A list is shown page by page.  The cursor is the smallest key shown so far, and a page has the
first items of the list whose key is below it.  Every way to cut the list into pages shows each
item exactly once, by decreasing keys, if and only if the keys of the list decrease
(`walk_iff`).
-/

namespace Cursor

variable {α : Type*} (key : α → ℕ)

/-- The key of an item is below the cursor, if there is one. -/
def below (before : Option ℕ) (x : α) : Bool :=
  !before.any (· ≤ key x)

/-- The first items below the cursor. -/
def page (items : List α) (before : Option ℕ) (limit : ℕ) : List α :=
  (items.filter (below key before)).take limit

/-- The smallest key that is shown. -/
def smallest (shown : List α) : Option ℕ :=
  (shown.map key).min?

/-- Ask for pages of the given sizes until one is empty. -/
def walk (page : Option ℕ → ℕ → List α) (limits : ℕ → ℕ) :
    (fuel i : ℕ) → (shown : List α) → Option (List α)
  | 0, _, _ => none
  | fuel + 1, i, shown =>
      match page (smallest key shown) (limits i) with
      | [] => some shown
      | x :: rest => walk page limits fuel (i + 1) (shown ++ x :: rest)

variable {key} {items shown rest : List α} {limits : ℕ → ℕ} {fuel i : ℕ}

theorem walk_of_nil {page : Option ℕ → ℕ → List α}
    (h : page (smallest key shown) (limits i) = []) :
  walk key page limits (fuel + 1) i shown = some shown
  := by
  rw [walk, h]

theorem walk_of_ne_nil {page : Option ℕ → ℕ → List α}
    (h : page (smallest key shown) (limits i) ≠ []) :
  walk key page limits (fuel + 1) i shown
    = walk key page limits fuel (i + 1) (shown ++ page (smallest key shown) (limits i))
  := by
  rw [walk]
  cases hpage : page (smallest key shown) (limits i) with
  | nil => exact absurd hpage h
  | cons x rest => rfl

/-! ### Keys that decrease -/

/-- An item is below the smallest key shown if its key is below all of them. -/
theorem below_smallest {x : α} :
  below key (smallest key shown) x ↔ ∀ y ∈ shown, key x < key y
  := by
  cases hmin : smallest key shown with
  | none =>
    have hnil : shown = [] := by
      rw [smallest, List.min?_eq_none_iff, List.map_eq_nil_iff] at hmin
      exact hmin
    simp [below, hnil]
  | some k =>
    obtain ⟨hmem, hle⟩ := List.min?_eq_some_iff.mp hmin
    obtain ⟨y, hy, rfl⟩ := List.mem_map.mp hmem
    have hbelow : below key (some (key y)) x ↔ key x < key y := by simp [below]
    rw [hbelow]
    constructor
    · intro hlt y' hy'
      exact lt_of_lt_of_le hlt (hle _ (List.mem_map_of_mem hy'))
    · intro hall
      exact hall y hy

/-- When the keys decrease, what is below the cursor is what is not shown yet. -/
theorem filter_below (h : (shown ++ rest).Pairwise fun x y => key y < key x) :
  (shown ++ rest).filter (below key (smallest key shown)) = rest
  := by
  obtain ⟨-, -, hlt⟩ := List.pairwise_append.mp h
  have hshown : shown.filter (below key (smallest key shown)) = [] := by
    rw [List.filter_eq_nil_iff]
    intro x hx hbelow
    exact lt_irrefl _ (below_smallest.mp hbelow x hx)
  have hrest : rest.filter (below key (smallest key shown)) = rest := by
    rw [List.filter_eq_self]
    intro x hx
    exact below_smallest.mpr fun y hy => hlt y hy x hx
  rw [List.filter_append, hshown, hrest, List.nil_append]

/-- The rest of a list is shown, in as many pages as it has items at most. -/
theorem walk_of_pairwise (h : (shown ++ rest).Pairwise fun x y => key y < key x)
    (hlimits : ∀ i, 1 ≤ limits i) (hfuel : rest.length < fuel) :
  walk key (page key (shown ++ rest)) limits fuel i shown = some (shown ++ rest)
  := by
  induction fuel generalizing shown rest i with
  | zero => omega
  | succ fuel ih =>
    have hpage : page key (shown ++ rest) (smallest key shown) (limits i)
        = rest.take (limits i) := by
      rw [page, filter_below h]
    cases rest with
    | nil =>
      rw [walk_of_nil (by rw [hpage]; exact List.take_nil), List.append_nil]
    | cons x rest =>
      obtain ⟨n, hn⟩ := Nat.exists_eq_add_of_le' (hlimits i)
      have htake : (x :: rest).take (limits i) = x :: rest.take n := by
        rw [hn, List.take_succ_cons]
      have hsplit : shown ++ x :: rest = (shown ++ x :: rest.take n) ++ rest.drop n := by
        rw [List.append_assoc, List.cons_append, List.take_append_drop]
      rw [walk_of_ne_nil (by rw [hpage, htake]; exact List.cons_ne_nil _ _), hpage, htake]
      rw [hsplit] at h ⊢
      apply ih h
      rw [List.length_drop]
      rw [List.length_cons] at hfuel
      omega

/-! ### Every way to cut a list into pages -/

/-- When the first page is large enough, it is the whole list. -/
theorem eq_of_walk (hlimit : items.length ≤ limits 0)
    (h : walk key (page key items) limits fuel 0 [] = some shown) :
  shown = items
  := by
  have hfirst : page key items (smallest key []) (limits 0) = items := by
    have hall : items.filter (below key none) = items := List.filter_eq_self.mpr fun _ _ => rfl
    exact (congrArg (List.take _) hall).trans (List.take_of_length_le hlimit)
  have hnone (limit : ℕ) : page key items (smallest key items) limit = [] := by
    have hnil : items.filter (below key (smallest key items)) = [] := by
      rw [List.filter_eq_nil_iff]
      intro x hx hbelow
      exact lt_irrefl _ (below_smallest.mp hbelow x hx)
    rw [page, hnil, List.take_nil]
  cases fuel with
  | zero => cases h
  | succ fuel =>
    cases hitems : items with
    | nil =>
      rw [walk_of_nil (by rw [hfirst, hitems])] at h
      exact (Option.some.inj h).symm
    | cons x rest =>
      rw [walk_of_ne_nil (by rw [hfirst, hitems]; exact List.cons_ne_nil _ _), hfirst,
        List.nil_append] at h
      cases fuel with
      | zero => cases h
      | succ fuel =>
        rw [walk_of_nil (hnone _), hitems] at h
        exact (Option.some.inj h).symm

theorem walk_iff :
  (∀ limits : ℕ → ℕ, (∀ i, 1 ≤ limits i) → ∃ fuel shown,
      walk key (page key items) limits fuel 0 [] = some shown
        ∧ shown.Perm items ∧ shown.Pairwise fun x y => key y < key x)
    ↔ items.Pairwise fun x y => key y < key x
  := by
  constructor
  · intro h
    obtain ⟨fuel, shown, hwalk, -, hpairwise⟩ := h (fun _ => items.length + 1) (by omega)
    rwa [eq_of_walk (Nat.le_succ _) hwalk] at hpairwise
  · intro h limits hlimits
    refine ⟨items.length + 1, items, ?_, List.Perm.refl _, h⟩
    exact @walk_of_pairwise _ _ [] items _ _ _ h hlimits (Nat.lt_succ_self _)

end Cursor
