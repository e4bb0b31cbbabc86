import Mathlib.Data.List.Basic

/-!
# A cache of recent values

What a program uses of a cache that keeps the values that were used last, up to a capacity.
`recent` is the cache as a list, with the value that was used last in front.
-/

/-- The functions of the cache. -/
structure LruCrate where
  Cache : Type → Type → Type
  new {κ ν : Type} : ℕ → Cache κ ν
  get {κ ν : Type} [DecidableEq κ] : κ → Cache κ ν → Option ν × Cache κ ν
  put {κ ν : Type} [DecidableEq κ] : κ → ν → Cache κ ν → Cache κ ν
  pop {κ ν : Type} [DecidableEq κ] : κ → Cache κ ν → Cache κ ν
  resize {κ ν : Type} : ℕ → Cache κ ν → Cache κ ν
  clear {κ ν : Type} : Cache κ ν → Cache κ ν
  len {κ ν : Type} : Cache κ ν → ℕ

/-- Values by key, the one that was used last in front, and how many are kept. -/
structure RecentList (κ ν : Type) where
  cap : ℕ
  items : List (κ × ν)

/-- The cache as a list. -/
def LruCrate.recent : LruCrate where
  Cache := RecentList
  new cap := ⟨cap, []⟩
  get key cache :=
    match cache.items.find? (·.1 = key) with
    | none => (none, cache)
    | some item => (some item.2, { cache with items := item :: cache.items.filter (·.1 ≠ key) })
  put key value cache :=
    { cache with items := ((key, value) :: cache.items.filter (·.1 ≠ key)).take cache.cap }
  pop key cache := { cache with items := cache.items.filter (·.1 ≠ key) }
  resize cap cache := ⟨cap, cache.items.take cap⟩
  clear cache := { cache with items := [] }
  len cache := cache.items.length

/-! ### What the cache holds -/

/-- What the values of a cache are: for a key, the last one that was put under it, or none. -/
structure LruCrate.Lawful (L : LruCrate) where
  /-- The cache holds the value under the key. -/
  Holds {κ ν : Type} : L.Cache κ ν → κ → ν → Prop
  not_holds_new {κ ν : Type} (cap : ℕ) (k : κ) (v : ν) : ¬ Holds (L.new cap) k v
  holds_of_get {κ ν : Type} [DecidableEq κ] {k : κ} {c : L.Cache κ ν} {v : ν} :
    (L.get k c).1 = some v → Holds c k v
  holds_get {κ ν : Type} [DecidableEq κ] {k k' : κ} {c : L.Cache κ ν} {v : ν} :
    Holds (L.get k c).2 k' v → Holds c k' v
  holds_put {κ ν : Type} [DecidableEq κ] {k k' : κ} {u v : ν} {c : L.Cache κ ν} :
    Holds (L.put k u c) k' v → k' = k ∧ v = u ∨ k' ≠ k ∧ Holds c k' v
  holds_pop {κ ν : Type} [DecidableEq κ] {k k' : κ} {c : L.Cache κ ν} {v : ν} :
    Holds (L.pop k c) k' v → k' ≠ k ∧ Holds c k' v
  holds_resize {κ ν : Type} {cap : ℕ} {c : L.Cache κ ν} {k : κ} {v : ν} :
    Holds (L.resize cap c) k v → Holds c k v
  not_holds_clear {κ ν : Type} (c : L.Cache κ ν) (k : κ) (v : ν) : ¬ Holds (L.clear c) k v

/-- The cache as a list holds what is in the list. -/
def LruCrate.recentLawful : LruCrate.recent.Lawful where
  Holds c k v := (k, v) ∈ c.items
  not_holds_new cap k v h := by cases h
  holds_of_get {κ ν _ k c v} h := by
    simp only [recent] at h
    split at h
    · cases h
    · rename_i item hfind
      have hkey : item.1 = k := by simpa using List.find?_some hfind
      rw [← hkey, ← Option.some.inj h]
      apply List.mem_of_find?_eq_some hfind
  holds_get {κ ν _ k k' c v} h := by
    simp only [recent] at h
    split at h
    · apply h
    · rename_i item hfind
      rcases List.mem_cons.mp h with rfl | hrest
      · apply List.mem_of_find?_eq_some hfind
      · apply List.mem_of_mem_filter hrest
  holds_put {κ ν _ k k' u v c} h := by
    rcases List.mem_cons.mp (List.mem_of_mem_take h) with heq | hrest
    · left
      apply Prod.mk.inj heq
    · right
      have hfilter := List.mem_filter.mp hrest
      exact ⟨by simpa using hfilter.2, hfilter.1⟩
  holds_pop {κ ν _ k k' c v} h := by
    have hfilter := List.mem_filter.mp h
    exact ⟨by simpa using hfilter.2, hfilter.1⟩
  holds_resize h := List.mem_of_mem_take h
  not_holds_clear c k v h := by cases h
