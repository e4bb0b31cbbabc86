import AdBlock.Lru.Basic

/-!
# What a cache gives back

A value that was put under a key is found there next, and is found only there until it is dropped or
replaced.
-/

/-- The caches of a capacity. -/
inductive LruCrate.Built (L : LruCrate) {κ ν : Type} [DecidableEq κ] (cap : ℕ) :
    L.Cache κ ν → Prop where
  | new : Built L cap (L.new cap)
  | get {c : L.Cache κ ν} (h : Built L cap c) (k : κ) : Built L cap (L.get k c).2
  | put {c : L.Cache κ ν} (h : Built L cap c) (k : κ) (v : ν) : Built L cap (L.put k v c)
  | pop {c : L.Cache κ ν} (h : Built L cap c) (k : κ) : Built L cap (L.pop k c)
  | clear {c : L.Cache κ ν} (h : Built L cap c) : Built L cap (L.clear c)

/-- What is found after each operation. -/
structure LruCrate.Retrieves (L : LruCrate) : Prop where
  get_get {κ ν : Type} [DecidableEq κ] (k k' : κ) (c : L.Cache κ ν) :
    (L.get k' (L.get k c).2).1 = (L.get k' c).1
  get_put_self {κ ν : Type} [DecidableEq κ] {cap : ℕ} {c : L.Cache κ ν} (hc : L.Built cap c)
    (hcap : 0 < cap) (k : κ) (v : ν) : (L.get k (L.put k v c)).1 = some v
  get_put {κ ν : Type} [DecidableEq κ] {k k' : κ} {u v : ν} {c : L.Cache κ ν} :
    (L.get k' (L.put k u c)).1 = some v → v = u ∨ (L.get k' c).1 = some v
  get_pop {κ ν : Type} [DecidableEq κ] {k k' : κ} {v : ν} {c : L.Cache κ ν} :
    (L.get k' (L.pop k c)).1 = some v → (L.get k' c).1 = some v
  get_clear {κ ν : Type} [DecidableEq κ] (k : κ) (c : L.Cache κ ν) :
    (L.get k (L.clear c)).1 = none

/-- No operation looks at the values: they can be replaced before an operation or after it. -/
structure LruCrate.Natural (L : LruCrate) where
  map {κ ν μ : Type} : (ν → μ) → L.Cache κ ν → L.Cache κ μ
  get_map {κ ν μ : Type} [DecidableEq κ] (f : ν → μ) (k : κ) (c : L.Cache κ ν) :
    L.get k (map f c) = ((L.get k c).1.map f, map f (L.get k c).2)
  put_map {κ ν μ : Type} [DecidableEq κ] (f : ν → μ) (k : κ) (v : ν) (c : L.Cache κ ν) :
    L.put k (f v) (map f c) = map f (L.put k v c)
  pop_map {κ ν μ : Type} [DecidableEq κ] (f : ν → μ) (k : κ) (c : L.Cache κ ν) :
    L.pop k (map f c) = map f (L.pop k c)

/-! ### The cache as a list -/

namespace RecentList

variable {κ ν : Type} [DecidableEq κ] {k k' : κ} {items : List (κ × ν)}

theorem get_fst (k : κ) (c : LruCrate.recent.Cache κ ν) :
  (LruCrate.recent.get k c).1 = ((RecentList.items c).find? (·.1 = k)).map Prod.snd
  := by
  simp only [LruCrate.recent]
  cases (RecentList.items c).find? (·.1 = k) with
  | none => rfl
  | some item => rfl

theorem find?_filter_ne (hne : k' ≠ k) :
  (items.filter (·.1 ≠ k)).find? (·.1 = k') = items.find? (·.1 = k')
  := by
  rw [List.find?_filter]
  congr 1
  funext item
  by_cases hitem : item.1 = k'
  · simp [hitem, hne]
  · simp [hitem]

theorem find?_filter_self :
  (items.filter (·.1 ≠ k)).find? (·.1 = k) = none
  := by
  rw [List.find?_eq_none]
  intro item hitem
  simpa using (List.mem_filter.mp hitem).2

/-- What is found among the values of the other keys is found among all. -/
theorem find?_filter_eq_some {item : κ × ν}
    (h : (items.filter (·.1 ≠ k)).find? (·.1 = k') = some item) :
  items.find? (·.1 = k') = some item
  := by
  by_cases hne : k' = k
  · rw [hne, find?_filter_self] at h
    cases h
  · rw [find?_filter_ne hne] at h
    exact h

theorem find?_of_take {n : ℕ} {item : κ × ν}
    (h : (items.take n).find? (·.1 = k) = some item) :
  items.find? (·.1 = k) = some item
  := by
  rw [← List.take_append_drop n items, List.find?_append, h]
  rfl

/-- A list keeps its capacity. -/
theorem cap_of_built {cap : ℕ} {c : LruCrate.recent.Cache κ ν} (h : LruCrate.recent.Built cap c) :
  RecentList.cap c = cap
  := by
  induction h with
  | new => rfl
  | @get c _ k ih =>
    rw [← ih]
    simp only [LruCrate.recent]
    cases (RecentList.items c).find? (·.1 = k) with
    | none => rfl
    | some item => rfl
  | put _ k v ih => exact ih
  | pop _ k ih => exact ih
  | clear _ ih => exact ih

end RecentList

open RecentList in
theorem LruCrate.retrieves_recent :
  LruCrate.recent.Retrieves
  where
  get_get {κ ν _} k k' c := by
    rw [get_fst, get_fst]
    simp only [recent]
    cases hfind : (RecentList.items c).find? (·.1 = k) with
    | none => rfl
    | some item =>
      have hkey : item.1 = k := by simpa using List.find?_some hfind
      by_cases hne : k' = k
      · rw [hne, hfind, List.find?_cons_of_pos (by simpa using hkey)]
      · rw [List.find?_cons_of_neg (by simpa [hkey] using Ne.symm hne), find?_filter_ne hne]
  get_put_self {κ ν _ cap c} hc hcap k v := by
    have hcap' : 0 < RecentList.cap c := cap_of_built hc ▸ hcap
    rw [get_fst]
    obtain ⟨n, hn⟩ := Nat.exists_eq_add_of_lt hcap'
    simp only [recent, hn]
    rw [List.take_succ_cons, List.find?_cons_of_pos (by simp)]
    rfl
  get_put {κ ν _ k k' u v c} h := by
    rw [get_fst, Option.map_eq_some_iff] at h
    obtain ⟨item, hfind, rfl⟩ := h
    replace hfind := find?_of_take hfind
    rw [List.find?_cons] at hfind
    split at hfind
    · left
      rw [← Option.some.inj hfind]
    · right
      rw [get_fst, find?_filter_eq_some hfind]
      rfl
  get_pop {κ ν _ k k' v c} h := by
    rw [get_fst, Option.map_eq_some_iff] at h ⊢
    obtain ⟨item, hfind, hitem⟩ := h
    exact ⟨item, find?_filter_eq_some hfind, hitem⟩
  get_clear k c := by
    rw [get_fst]
    rfl

/-- The values of a list are replaced one by one. -/
def LruCrate.recentNatural : LruCrate.recent.Natural where
  map f c := ⟨RecentList.cap c, (RecentList.items c).map (Prod.map id f)⟩
  get_map f k c := by
    simp only [recent, List.find?_map, Function.comp_def, Prod.map_fst, id_eq]
    cases (RecentList.items c).find? (·.1 = k) with
    | none => rfl
    | some item => simp [List.filter_map, Function.comp_def]
  put_map f k v c := by
    simp [recent, List.filter_map, Function.comp_def, List.map_take]
  pop_map f k c := by
    simp [recent, List.filter_map, Function.comp_def]
