import AdBlock.Curation.Names

/-!
# The stored list behind a name

What the stored list that backs a name is after the store in memory has changed: after a file
has been written or dropped, and after startup has removed the files that are folded away.
Startup gives every name other than `custom` the list that its stored list reads back as
(`findList_withStore`), and keeps every stored list that backs a name (`backing_startup`).
-/

open ListStore

section Lists

variable {lists : List ListEntry} {name : Text}

theorem findList_mem {l : ListEntry} (h : findList lists name = some l) :
  l ∈ lists ∧ l.name = name
  := by
  constructor
  · apply List.mem_of_find?_eq_some h
  · simpa using List.find?_some h

/-- Among lists of different names, every list is the one found under its name. -/
theorem findList_eq_some_iff (hunique : UniqueNames lists) {l : ListEntry} :
  findList lists name = some l ↔ l ∈ lists ∧ l.name = name
  := by
  use findList_mem
  rintro ⟨hl, rfl⟩
  obtain ⟨l', hl'⟩ : ∃ l', findList lists l.name = some l' := by
    apply Option.ne_none_iff_exists'.mp
    rw [ne_eq, findList_isNone_iff, not_not]
    apply List.mem_map_of_mem hl
  obtain ⟨hmem, hname⟩ := findList_mem hl'
  rw [hl', List.inj_on_of_nodup_map hunique hmem hl hname]

/-- A name is found among the others, unless it is the one left out. -/
theorem findList_retainOthers (other : Text) :
  findList (retainOthers lists other) name
    = if name = other then none else findList lists name
  := by
  rw [findList, retainOthers, List.find?_filter, findList]
  by_cases h : name = other
  · subst h
    rw [if_pos rfl, List.find?_eq_none]
    simp
  · rw [if_neg h]
    congr
    funext l
    by_cases hl : l.name = name
    · simp [hl, h]
    · simp [hl]

/-- A list put in the place of the lists of its name is the one found under that name. -/
theorem findList_put (entry : ListEntry) :
  findList (retainOthers lists entry.name ++ [entry]) name
    = if name = entry.name then some entry else findList lists name
  := by
  rw [findList_concat, findList_retainOthers]
  by_cases h : name = entry.name
  · simp [h]
  · simp [h, Ne.symm h]

/-- Adding a list changes what is found under its name only. -/
theorem ListCuration.findList_withEntry {A : Library} {σ : Type} (s : ListCuration A σ)
    (store : σ) (entry : ListEntry) :
  findList (s.withEntry store entry).core.lists name
    = if name = entry.name then some entry else findList s.core.lists name
  := findList_put entry

theorem findList_switchList (other : Text) (enabled : Bool) :
  findList (switchList other enabled lists) name
    = (findList lists name).map fun l =>
        if name = other then { l with enabled := enabled } else l
  := by
  induction lists with
  | nil => rfl
  | cons l lists ih =>
    rw [findList] at ih
    rw [switchList, findList, findList, List.find?_cons]
    by_cases hname : l.name = name
    · by_cases h : name = other
      · simp [hname, h]
      · simp [hname, h]
    · by_cases h : l.name = other
      · have hne : name ≠ other := by
          rintro rfl
          exact hname h
        simp [h, hne, Ne.symm hne]
      · simp only [h, if_false, List.find?_cons, hname, decide_false]
        apply ih

end Lists

/-! ### Startup -/

section WithStore

variable {A : Library} {σ : Type} [ListStore σ] {cfg : AdblockConfig}
  {file : Option (Except Error (List A.Resource))} {store : σ} {cacheFile : Option Bytes}
  {saves : List (UInt64 × A.Engine)} {s : ListCuration A σ}

/-- Startup finds, under a name other than `custom`, what the stored list that backs the name
reads back as. -/
theorem findList_withStore (hnodup : ((load store).map StoredList.id).Nodup)
    (h : withStore cfg file store cacheFile saves = .ok s) {name : Text}
    (hname : name ≠ customList) :
  findList s.core.lists name = (backing (load store) name).map StoredList.entry
  := by
  have hcustom : (customEntry (startupText cfg store)).name ≠ name := Ne.symm hname
  rw [lists_withStore h, findList_concat, if_neg hcustom, Option.or_none]
  apply (reconcile_inv hnodup).find

/-- The lists at startup, other than `custom`, are what the stored lists that back their names
read back as. -/
theorem mem_withStore_iff (hnodup : ((load store).map StoredList.id).Nodup)
    (h : withStore cfg file store cacheFile saves = .ok s) {l : ListEntry}
    (hname : l.name ≠ customList) :
  l ∈ s.core.lists ↔ (backing (load store) l.name).map StoredList.entry = some l
  := by
  have hcustom : l ≠ customEntry (startupText cfg store) := by
    rintro rfl
    exact hname rfl
  have hinv := reconcile_inv hnodup
  rw [lists_withStore h, List.mem_append, List.mem_singleton, or_iff_left hcustom,
    ← hinv.find, findList_eq_some_iff hinv.nodup]
  simp

end WithStore

/-! ### The store in memory -/

section Memory

variable {s s' : MemoryListStore} {id : ListId} {x : StoredList}

/-- What backs a name depends only on the stored lists that read back under it. -/
theorem backing_congr {name : Text}
    (h : ∀ x : StoredList, ¬ x.isCustom → x.entry.name = name → (x ∈ load s ↔ x ∈ load s')) :
  backing (load s) name = backing (load s') name
  := by
  have hreading : readingAs (load s) name = readingAs (load s') name := by
    apply MemoryListStore.filter_load_eq
    intro x hx
    obtain ⟨hplain, hname⟩ := of_decide_eq_true hx
    apply h x hplain hname
  rw [backing, hreading, backing]

/-- The only stored list that reads back under a name backs it. -/
theorem backing_of_only {name : Text} (hx : x ∈ readingAs (load s) name)
    (honly : ∀ y ∈ readingAs (load s) name, y.id = x.id) :
  backing (load s) name = some x
  := by
  cases h : backing (load s) name with
  | none =>
    rw [backing_eq_none_iff.mp h] at hx
    exact absurd hx List.not_mem_nil
  | some y =>
    have hy := mem_readingAs_of_backing h
    rw [eq_of_id_eq (MemoryListStore.nodup_load_id s) (mem_readingAs.mp hy).1
      (mem_readingAs.mp hx).1 (honly y hy)]

/-- The stored list that wins for a name, in whatever order the lists come: the one whose id
belongs to the name, or else the one with the least id of those that read back under it. -/
def Wins (stored : List StoredList) (name : Text) (x : StoredList) : Prop :=
  x ∈ readingAs stored name ∧ (x.id = ListId.of name ∨
    ∀ y ∈ readingAs stored name, y.id ≠ ListId.of name ∧ compare x.id y.id ≠ .gt)

instance (stored : List StoredList) (name : Text) : DecidablePred (Wins stored name) :=
  fun _ => inferInstanceAs (Decidable (_ ∧ _))

theorem Wins.congr {stored stored' : List StoredList} {name : Text}
    (h : ∀ y, y ∈ stored ↔ y ∈ stored') :
  Wins stored name x ↔ Wins stored' name x
  := by
  simp only [Wins, mem_readingAs, h]

theorem Wins.id_unique {stored : List StoredList} {name : Text} {y : StoredList}
    (hx : Wins stored name x) (hy : Wins stored name y) :
  x.id = y.id
  := by
  obtain ⟨hxmem, hxid | hxleast⟩ := hx
  · obtain ⟨hymem, hyid | hyleast⟩ := hy
    · rw [hxid, hyid]
    · exact absurd hxid (hyleast x hxmem).1
  · obtain ⟨hymem, hyid | hyleast⟩ := hy
    · exact absurd hyid (hxleast y hymem).1
    · have hle := (hxleast y hymem).2
      have hge := (hyleast x hxmem).2
      rw [Std.OrientedOrd.eq_swap (a := y.id), ne_eq, Ordering.swap_eq_gt] at hge
      apply Std.LawfulEqOrd.eq_of_compare
      cases hcmp : compare x.id y.id with
      | lt => exact absurd hcmp hge
      | eq => rfl
      | gt => exact absurd hcmp hle

theorem wins_of_backing {name : Text} (h : backing (load s) name = some x) :
  Wins (load s) name x
  := by
  use mem_readingAs_of_backing h
  rw [backing, Option.orElse_eq_some] at h
  rcases h with h | ⟨hnone, hhead⟩
  · left
    simpa using List.find?_some h
  · right
    obtain ⟨rest, hrest⟩ := List.head?_eq_some_iff.mp hhead
    have hsorted : (readingAs (load s) name).Pairwise fun x y => compare x.id y.id = .lt :=
      (MemoryListStore.pairwise_load s).sublist List.filter_sublist
    intro y hy
    constructor
    · simpa using List.find?_eq_none.mp hnone y hy
    · rw [hrest] at hsorted hy
      rcases List.mem_cons.mp hy with rfl | hlater
      · rw [Std.ReflOrd.compare_self]
        decide
      · rw [(List.pairwise_cons.mp hsorted).1 y hlater]
        decide

/-- The stored list that backs a name is the one that wins for it. -/
theorem backing_eq_some_iff {name : Text} :
  backing (load s) name = some x ↔ Wins (load s) name x
  := by
  use wins_of_backing
  intro hx
  cases h : backing (load s) name with
  | none =>
    have hmem := hx.1
    rw [backing_eq_none_iff.mp h] at hmem
    exact absurd hmem List.not_mem_nil
  | some y =>
    have hy := wins_of_backing h
    rw [eq_of_id_eq (MemoryListStore.nodup_load_id s) (mem_readingAs.mp hy.1).1
      (mem_readingAs.mp hx.1).1 (hy.id_unique hx)]

end Memory

/-! ### What startup keeps -/

/-- The files of stored lists that startup removes are those of the lists that back no
name. -/
theorem Reconciled.Inv.removed_iff {acc : Reconciled} {stored : List StoredList}
    {x : StoredList} (hinv : acc.Inv stored) (hnodup : (stored.map StoredList.id).Nodup) (hx : x ∈ stored)
    (hplain : ¬ x.isCustom) :
  x.id ∈ acc.remove ↔ backing stored x.entry.name ≠ some x
  := by
  rw [hinv.removed]
  constructor
  · rintro ⟨y, hy, hid, hlost⟩
    obtain rfl := eq_of_id_eq hnodup hy hx hid
    rcases hlost with hweb | ⟨-, hback⟩
    · exact absurd (Or.inr hweb) hplain
    · apply hback
  · intro hback
    use x, hx, rfl
    right
    use hplain

/-- If the lists that win are kept, and no others apart from custom rules, the same lists win. -/
theorem backing_of_kept {stored stored' : List StoredList}
    (h : ∀ x : StoredList, ¬ x.isCustom →
      (x ∈ stored' ↔ x ∈ stored ∧ backing stored x.entry.name = some x)) (name : Text) :
  backing stored' name = backing stored name
  := by
  have hreading {x : StoredList} (hx : x ∈ readingAs stored' name) :
      backing stored name = some x := by
    obtain ⟨hmem, hplain, rfl⟩ := mem_readingAs.mp hx
    apply ((h x hplain).mp hmem).2
  cases hkept : backing stored' name with
  | some x => rw [hreading (mem_readingAs_of_backing hkept)]
  | none =>
    cases hback : backing stored name with
    | none => rfl
    | some x =>
      obtain ⟨hmem, hplain, rfl⟩ := mem_readingAs.mp (mem_readingAs_of_backing hback)
      have hx : x ∈ readingAs stored' x.entry.name :=
        mem_readingAs.mpr ⟨(h x hplain).mpr ⟨hmem, hback⟩, hplain, rfl⟩
      rw [backing_eq_none_iff.mp hkept] at hx
      cases hx

section Kept

variable {σ : Type} [ListStore σ] [KeepingListStore σ] {s : σ}
  (hnodup : ((load s).map StoredList.id).Nodup)

include hnodup

/-- After startup there are the file of the custom list and those that are not removed. -/
theorem load_startupStore (ids : List ListId) (text : Text) :
  ∃ origin, (load (startupStore s ids text)).Perm
    (⟨ListId.of customList, origin, sourceMark ++ customSource ++ '\n' :: text⟩
      :: (load s).filter fun x => x.id ∉ ids ∧ x.id ≠ ListId.of customList)
  := by
  have hkept : ((load (ids.foldl remove s)).map StoredList.id).Nodup := by
    rw [load_removeAll]
    apply hnodup.sublist (List.filter_sublist.map _)
  obtain ⟨origin, hperm⟩ := KeepingListStore.load_persist hkept (ListId.of customList)
    (sourceMark ++ customSource ++ '\n' :: text)
  use origin
  rw [startupStore]
  rw [load_removeAll, List.filter_filter] at hperm
  convert hperm using 4
  simp [and_comm]

/-- Startup keeps exactly the stored lists that back a name, apart from custom rules. -/
theorem mem_load_startup (text : Text) {x : StoredList} (hplain : ¬ x.isCustom) :
  x ∈ load (startupStore s (reconcile [] (load s)).remove text)
    ↔ x ∈ load s ∧ backing (load s) x.entry.name = some x
  := by
  obtain ⟨origin, hperm⟩ := load_startupStore hnodup (reconcile [] (load s)).remove text
  have hid : x.id ≠ ListId.of customList := fun hid => hplain (.inl hid)
  have hcustom : x ≠ ⟨ListId.of customList, origin,
      sourceMark ++ customSource ++ '\n' :: text⟩ := by
    rintro rfl
    apply hid rfl
  rw [hperm.mem_iff, List.mem_cons, List.mem_filter, decide_eq_true_eq, or_iff_right hcustom,
    and_iff_left hid]
  apply and_congr_right
  intro hx
  rw [(reconcile_inv hnodup).removed_iff hnodup hx hplain, not_not]

/-- Startup keeps what backs a name. -/
theorem backing_startup (text name : Text) :
  backing (load (startupStore s (reconcile [] (load s)).remove text)) name
    = backing (load s) name
  := by
  apply backing_of_kept
  intro x hplain
  apply mem_load_startup hnodup text hplain

end Kept
