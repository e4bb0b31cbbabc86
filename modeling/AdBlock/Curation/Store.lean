import AdBlock.Rust.Text
import Mathlib.Data.List.Nodup
import Std.Data.TreeMap

/-!
# The list store

Where the text of the blocklists is kept, by list id.  `ListStore` is what the program asks
of a store, `LawfulListStore` says that a store behaves as a map from ids to texts, and
`MemoryListStore` is the store in memory, `DiskStore` the one on disk.
-/

/-- The errors of the adblock module. -/
inductive Error where
  | config (message : Text)
  deriving DecidableEq, Repr

/-- The id a list is stored under. -/
structure ListId where
  key : Text
  deriving DecidableEq, Repr

namespace ListId

/-- The id of the list with a given name. -/
def of (name : Text) : ListId := ⟨Unicode.toLowercase name⟩

/-- The id as the store found it. -/
def raw (key : Text) : ListId := ⟨key⟩

def isEmpty (id : ListId) : Bool := id.key.isEmpty

instance : Ord ListId := ⟨compareOn key⟩

instance : Std.TransOrd ListId :=
  inferInstanceAs (Std.TransCmp (compareOn key))

instance : Std.LawfulEqOrd ListId where
  eq_of_compare := by
    rintro ⟨a⟩ ⟨b⟩ h
    obtain rfl : a = b := Std.LawfulEqOrd.eq_of_compare h
    rfl

end ListId

/-- A list as the store hands it over. -/
structure StoredList where
  id : ListId
  origin : Text
  text : Text
  deriving DecidableEq, Repr

/-- The operations of a list store with states in `σ`. -/
class ListStore (σ : Type) where
  load : σ → List StoredList
  persist : σ → ListId → Text → Except Error Unit × σ
  remove : σ → ListId → σ
  /-- Where the compiled engine may be cached, if the store keeps anything on disk. -/
  engineCache : σ → Option Text

namespace ListStore

variable {σ : Type} [ListStore σ]

/-- The text stored under an id. -/
def get (s : σ) (id : ListId) : Option Text :=
  ((load s).find? (·.id = id)).map StoredList.text

end ListStore

/-- A store that behaves as a map from ids to texts. -/
class LawfulListStore (σ : Type) [ListStore σ] : Prop where
  nodup_load (s : σ) : ((ListStore.load s).map StoredList.id).Nodup
  get_persist {s s' : σ} {id : ListId} {text : Text}
    (h : ListStore.persist s id text = (.ok (), s')) (id' : ListId) :
    ListStore.get s' id' = if id' = id then some text else ListStore.get s id'
  get_remove (s : σ) (id id' : ListId) :
    ListStore.get (ListStore.remove s id) id'
      = if id' = id then none else ListStore.get s id'

/-- A store that keeps its lists: a write puts a text in the place of the one under its id, a removal
drops what is under an id, and the other lists stay as they are.  After a write the lists may come in
another order. -/
class KeepingListStore (σ : Type) [ListStore σ] : Prop where
  load_persist {s : σ} (h : ((ListStore.load s).map StoredList.id).Nodup) (id : ListId)
    (text : Text) :
    ∃ origin, (ListStore.load (ListStore.persist s id text).2).Perm
      ({ id, origin, text } :: (ListStore.load s).filter (·.id ≠ id))
  load_remove (s : σ) (id : ListId) :
    ListStore.load (ListStore.remove s id) = (ListStore.load s).filter (·.id ≠ id)

namespace ListStore

variable {σ : Type} [ListStore σ] {s s' : σ} {id : ListId}

/-- What is stored under an id, when the ids are different. -/
theorem get_eq_some_iff (h : ((load s).map StoredList.id).Nodup) {text : Text} :
  get s id = some text ↔ ∃ x ∈ load s, x.id = id ∧ x.text = text
  := by
  rw [get, Option.map_eq_some_iff]
  constructor
  · rintro ⟨x, hfind, htext⟩
    use x, List.mem_of_find?_eq_some hfind, by simpa using List.find?_some hfind
  · rintro ⟨x, hx, rfl, rfl⟩
    obtain ⟨y, hy⟩ : ∃ y, (load s).find? (·.id = x.id) = some y := by
      rw [← Option.isSome_iff_exists, List.find?_isSome]
      use x, hx
      simp
    have hid : y.id = x.id := by simpa using List.find?_some hy
    use y, hy
    rw [List.inj_on_of_nodup_map h (List.mem_of_find?_eq_some hy) hx hid]

theorem get_eq_none_iff :
  get s id = none ↔ ∀ x ∈ load s, x.id ≠ id
  := by
  simp [get]

/-- The order in which a store gives its lists does not matter to what is stored under an id. -/
theorem get_of_perm (hnodup : ((load s).map StoredList.id).Nodup)
    (h : (load s).Perm (load s')) (id : ListId) :
  get s id = get s' id
  := by
  have hnodup' : ((load s').map StoredList.id).Nodup := (h.map _).nodup_iff.mp hnodup
  apply Option.ext
  intro text
  rw [get_eq_some_iff hnodup, get_eq_some_iff hnodup']
  simp only [h.mem_iff]

section Keeping

variable [KeepingListStore σ]

theorem load_removeAll (s : σ) (ids : List ListId) :
  load (ids.foldl remove s) = (load s).filter (·.id ∉ ids)
  := by
  induction ids generalizing s with
  | nil => simp
  | cons id ids ih =>
    rw [List.foldl_cons, ih, KeepingListStore.load_remove, List.filter_filter]
    congr 1
    funext x
    simp [Bool.and_comm]

/-- Writing keeps the ids different. -/
theorem nodup_load_persist (h : ((load s).map StoredList.id).Nodup) (id : ListId) (text : Text) :
  ((load (persist s id text).2).map StoredList.id).Nodup
  := by
  obtain ⟨origin, hperm⟩ := KeepingListStore.load_persist h id text
  rw [(hperm.map _).nodup_iff, List.map_cons, List.nodup_cons]
  constructor
  · rw [List.mem_map]
    rintro ⟨x, hx, hid⟩
    exact absurd hid (of_decide_eq_true (List.mem_filter.mp hx).2)
  · apply h.sublist (List.filter_sublist.map _)

end Keeping

end ListStore

/-! ### The store in memory -/

/-- The store in memory: texts by id, in the order of the ids. -/
structure MemoryListStore where
  lists : Std.TreeMap ListId Text

namespace MemoryListStore

/-- The store with nothing in it. -/
def new : MemoryListStore := ⟨∅⟩

/-- Put a text under a key, as it is. -/
def seed (s : MemoryListStore) (key text : Text) : MemoryListStore :=
  ⟨s.lists.insert (ListId.raw key) text⟩

/-- What is stored under an id, as `load` hands it over. -/
def stored (id : ListId) (text : Text) : StoredList :=
  { id := id, origin := "memory:".toList ++ id.key, text := text }

instance : ListStore MemoryListStore where
  load s := s.lists.toList.map fun entry => stored entry.1 entry.2
  persist s id text := (.ok (), s.seed id.key text)
  remove s id := ⟨s.lists.erase id⟩
  engineCache _ := none

open ListStore

@[simp]
theorem mem_load {s : MemoryListStore} {x : StoredList} :
  x ∈ load s ↔ ∃ text, s.lists[x.id]? = some text ∧ x = stored x.id text
  := by
  simp only [load, List.mem_map, Prod.exists, Std.TreeMap.mem_toList_iff_getElem?_eq_some]
  constructor
  · rintro ⟨id, text, h, rfl⟩
    use text, h
    rfl
  · rintro ⟨text, h, hx⟩
    use x.id, text, h
    rw [← hx]

/-- The ids come out in increasing order. -/
theorem pairwise_load (s : MemoryListStore) :
  (load s).Pairwise fun x y => compare x.id y.id = .lt
  := by
  simp only [load, List.pairwise_map]
  apply Std.TreeMap.ordered_keys_toList

theorem nodup_load_id (s : MemoryListStore) :
  ((load s).map StoredList.id).Nodup
  := by
  rw [List.Nodup, List.pairwise_map]
  apply (pairwise_load s).imp
  intro x y h heq
  rw [heq, Std.ReflOrd.compare_self] at h
  exact absurd h (by decide)

/-- The text stored under an id is the one in the map. -/
@[simp]
theorem get_eq (s : MemoryListStore) (id : ListId) :
  get s id = s.lists[id]?
  := by
  rw [ListStore.get]
  cases h : (load s).find? (·.id = id) with
  | none =>
    rw [List.find?_eq_none] at h
    cases hid : s.lists[id]? with
    | none => rfl
    | some text =>
      have hmem : stored id text ∈ load s := mem_load.mpr ⟨text, hid, rfl⟩
      exact absurd (decide_eq_true rfl) (h _ hmem)
  | some x =>
    obtain rfl : x.id = id := by simpa using List.find?_some h
    obtain ⟨text, htext, hx⟩ := mem_load.mp (List.mem_of_find?_eq_some h)
    rw [htext, hx]
    rfl

/-- Persisting replaces what is stored under the id. -/
theorem lists_persist (s : MemoryListStore) (id : ListId) (text : Text) (id' : ListId) :
  (persist s id text).2.lists[id']? = if id' = id then some text else s.lists[id']?
  := by
  simp only [persist, seed, ListId.raw, Std.TreeMap.getElem?_insert,
    Std.LawfulEqCmp.compare_eq_iff_eq]
  congr 1
  apply propext
  apply eq_comm

/-- Removing drops what is stored under the id. -/
theorem lists_remove (s : MemoryListStore) (id id' : ListId) :
  (remove s id).lists[id']? = if id' = id then none else s.lists[id']?
  := by
  simp only [remove, Std.TreeMap.getElem?_erase, Std.LawfulEqCmp.compare_eq_iff_eq]
  congr 1
  apply propext
  apply eq_comm

instance : LawfulListStore MemoryListStore where
  nodup_load := nodup_load_id
  get_persist := by
    rintro s _ id text ⟨⟩ id'
    rw [get_eq, get_eq]
    apply lists_persist
  get_remove s id id' := by
    rw [get_eq, get_eq]
    apply lists_remove

/-- Two stores that hold the same texts where `keep` holds hand over the same lists there, in
the same order. -/
theorem filter_load_eq {s s' : MemoryListStore} {keep : StoredList → Bool}
    (h : ∀ x, keep x → (x ∈ load s ↔ x ∈ load s')) :
  (load s).filter keep = (load s').filter keep
  := by
  have hsorted (t : MemoryListStore) :
      ((load t).filter keep).Pairwise fun x y => compare x.id y.id = .lt :=
    (pairwise_load t).sublist List.filter_sublist
  apply List.Perm.eq_of_pairwise _ (hsorted s) (hsorted s')
  · rw [List.perm_ext_iff_of_nodup]
    · intro x
      simp only [List.mem_filter]
      constructor
      · rintro ⟨hx, hk⟩
        exact ⟨(h x hk).mp hx, hk⟩
      · rintro ⟨hx, hk⟩
        exact ⟨(h x hk).mpr hx, hk⟩
    all_goals
      apply List.Nodup.filter
      apply List.Nodup.of_map StoredList.id
      apply nodup_load_id
  · intro x y _ _ hxy hyx
    rw [Std.OrientedOrd.eq_swap, hyx] at hxy
    exact absurd hxy (by decide)

end MemoryListStore

section Memory

variable {s : MemoryListStore} {id : ListId} {x : StoredList}

open ListStore

theorem mem_load_persist {text : Text} :
  x ∈ load (persist s id text).2
    ↔ x = MemoryListStore.stored id text ∨ (x ∈ load s ∧ x.id ≠ id)
  := by
  rw [MemoryListStore.mem_load, MemoryListStore.mem_load, MemoryListStore.lists_persist]
  by_cases h : x.id = id
  · subst h
    simp only [if_pos, Option.some.injEq, ne_eq, not_true_eq_false, and_false, or_false]
    constructor
    · rintro ⟨_, rfl, hx⟩
      apply hx
    · intro hx
      use text, rfl
  · have hne : x ≠ MemoryListStore.stored id text := by
      rintro rfl
      exact h rfl
    simp [h, hne]

theorem mem_load_remove :
  x ∈ load (remove s id) ↔ x ∈ load s ∧ x.id ≠ id
  := by
  rw [MemoryListStore.mem_load, MemoryListStore.mem_load, MemoryListStore.lists_remove]
  by_cases h : x.id = id
  · simp [h]
  · simp [h]

instance : KeepingListStore MemoryListStore where
  load_persist {s} h id text := by
    use "memory:".toList ++ id.key
    rw [List.perm_ext_iff_of_nodup]
    · intro x
      rw [mem_load_persist, List.mem_cons, List.mem_filter, decide_eq_true_eq]
      rfl
    · apply (MemoryListStore.nodup_load_id _).of_map
    · rw [List.nodup_cons]
      use by simp
      apply h.of_map.filter
  load_remove s id := by
    have hkept : (load (remove s id)).filter (·.id ≠ id) = load (remove s id) := by
      rw [List.filter_eq_self]
      intro x hx
      rw [decide_eq_true_eq]
      apply (mem_load_remove.mp hx).2
    rw [← hkept]
    apply MemoryListStore.filter_load_eq
    intro x hx
    rw [mem_load_remove, and_iff_left (of_decide_eq_true hx)]

end Memory

/-! ### The store on disk -/

/-- The store in a directory whose files can be read and written: the texts by file stem, in the
order of the directory. -/
structure DiskStore where
  dir : Text
  files : List (ListId × Text)

namespace DiskStore

/-- The path of the file of a list. -/
def path (s : DiskStore) (id : ListId) : Text :=
  s.dir ++ '/' :: id.key ++ ".txt".toList

/-- Write the file of a list, in its place if it is there. -/
def write (id : ListId) (text : Text) : List (ListId × Text) → List (ListId × Text)
  | [] => [(id, text)]
  | f :: files => if f.1 = id then (id, text) :: files else f :: write id text files

instance : ListStore DiskStore where
  load s := s.files.map fun f => { id := f.1, origin := s.path f.1, text := f.2 }
  persist s id text := (.ok (), { s with files := write id text s.files })
  remove s id := { s with files := s.files.filter fun f => f.1 ≠ id }
  engineCache s := some (s.dir ++ "/engine.dat".toList)

/-- Writing puts a text in the place of the one under its id. -/
theorem write_perm {files : List (ListId × Text)} (h : (files.map Prod.fst).Nodup) (id : ListId)
    (text : Text) :
  (write id text files).Perm ((id, text) :: files.filter (·.1 ≠ id))
  := by
  induction files with
  | nil => exact .refl _
  | cons f files ih =>
    rw [List.map_cons, List.nodup_cons] at h
    rw [write]
    split
    · next hid =>
      have hothers : files.filter (·.1 ≠ id) = files := by
        rw [List.filter_eq_self]
        intro g hg
        rw [decide_eq_true_eq, ← hid]
        rintro heq
        apply h.1
        rw [← heq]
        apply List.mem_map_of_mem hg
      rw [List.filter_cons_of_neg (by simp [hid]), hothers]
    · next hid =>
      rw [List.filter_cons_of_pos (by simp [hid])]
      apply ((ih h.2).cons f).trans (List.Perm.swap _ _ _)

open ListStore

/-- A file as `load` hands it over. -/
theorem load_eq (s : DiskStore) :
  load s = s.files.map fun f => { id := f.1, origin := s.path f.1, text := f.2 }
  := rfl

theorem map_id_load (s : DiskStore) :
  (load s).map StoredList.id = s.files.map Prod.fst
  := by
  rw [load_eq, List.map_map]
  rfl

instance : KeepingListStore DiskStore where
  load_persist {s} h id text := by
    rw [map_id_load] at h
    use s.path id
    have hload := (write_perm h id text).map
      fun f => ({ id := f.1, origin := s.path f.1, text := f.2 } : StoredList)
    rw [load_eq s, List.filter_map]
    exact hload
  load_remove s id := by
    rw [load_eq s, List.filter_map]
    rfl

end DiskStore
