import AdBlock.Curation.Startup

/-!
# List names

Every edit keeps the names of the lists in memory apart.  At startup they are apart exactly when
no stored list, other than the files of custom rules, carries a title that makes it another
`custom` list: the custom list is put next to what `reconcile` gives, under a name that
`reconcile` does not keep free.
-/

/-- No two lists have the same name. -/
def UniqueNames (lists : List ListEntry) : Prop :=
  (lists.map ListEntry.name).Nodup

instance : DecidablePred UniqueNames :=
  fun _ => inferInstanceAs (Decidable (List.Nodup _))

/-! ### Edits -/

theorem name_ne_of_mem_retainOthers {lists : List ListEntry} {name : Text} {l : ListEntry}
    (h : l ∈ retainOthers lists name) :
  l.name ≠ name
  := by
  simpa using (List.mem_filter.mp h).2

theorem retainOthers_comm (lists : List ListEntry) (name other : Text) :
  retainOthers (retainOthers lists name) other = retainOthers (retainOthers lists other) name
  := List.filter_comm _ _ _

theorem retainOthers_append (lists lists' : List ListEntry) (name : Text) :
  retainOthers (lists ++ lists') name = retainOthers lists name ++ retainOthers lists' name
  := List.filter_append _ _

theorem map_name_retainOthers (lists : List ListEntry) (name : Text) :
  (retainOthers lists name).map ListEntry.name = (lists.map ListEntry.name).filter (· ≠ name)
  := by
  rw [retainOthers, List.filter_map]
  rfl

/-- Switching a list keeps the names. -/
@[simp]
theorem map_name_switchList (name : Text) (enabled : Bool) (lists : List ListEntry) :
  (switchList name enabled lists).map ListEntry.name = lists.map ListEntry.name
  := by
  induction lists with
  | nil => rfl
  | cons l lists ih =>
    rw [switchList]
    split
    · rfl
    · rw [List.map_cons, ih, List.map_cons]

namespace UniqueNames

variable {lists lists' : List ListEntry}

theorem drop (h : UniqueNames lists) (name : Text) :
  UniqueNames (retainOthers lists name)
  := h.sublist (List.filter_sublist.map _)

/-- A list put in the place of the lists of its name has a name of its own. -/
theorem put (h : UniqueNames lists) (entry : ListEntry) :
  UniqueNames (retainOthers lists entry.name ++ [entry])
  := by
  rw [UniqueNames, List.map_append, List.map_singleton, ← List.concat_eq_append]
  apply (h.drop entry.name).concat
  rw [List.mem_map]
  rintro ⟨l, hl, hname⟩
  apply name_ne_of_mem_retainOthers hl hname

/-- No change of the list table makes two names equal. -/
theorem of_tableChange (h : UniqueNames lists) (hchange : TableChange lists lists') :
  UniqueNames lists'
  := by
  cases hchange with
  | put entry => apply h.put
  | switch name enabled =>
    rw [UniqueNames, map_name_switchList]
    apply h
  | drop name => apply h.drop

/-- No change of the list table makes two names other than a given one equal. -/
theorem others_of_tableChange {name : Text} (h : UniqueNames (retainOthers lists name))
    (hchange : TableChange lists lists') :
  UniqueNames (retainOthers lists' name)
  := by
  cases hchange with
  | put entry =>
    rw [retainOthers_append, retainOthers_comm]
    by_cases hname : entry.name = name
    · simpa [retainOthers, hname] using h.drop name
    · simpa [retainOthers, hname] using h.put entry
  | switch other enabled =>
    rw [UniqueNames, map_name_retainOthers, map_name_switchList, ← map_name_retainOthers]
    apply h
  | drop other =>
    rw [retainOthers_comm]
    apply h.drop

end UniqueNames

section Runs

variable {A : Library} {σ : Type} [ListStore σ]

/-- No run of edits makes two names equal. -/
theorem ListCuration.uniqueNames_edits {s : ListCuration A σ} (h : UniqueNames s.core.lists)
    (es : List Edit) :
  UniqueNames (s.edits es).core.lists
  := by
  apply lists_edits_of_tableChange _ h
  intro lists lists' hchange hunique
  apply hunique.of_tableChange hchange

/-! ### Startup -/

/-- A text gives a name other than the fallback only by its title. -/
theorem titleName_eq_iff {fallback name : Text} (h : fallback ≠ name) (hname : name ≠ [])
    (text : Text) :
  titleName fallback text = name ↔ (listTitle text).map sanitizeName = some name
  := by
  rw [titleName]
  cases (listTitle text).map sanitizeName with
  | none => simp [h]
  | some title =>
    by_cases htitle : title = []
    · simp [Option.filter_some, htitle, h, Ne.symm hname]
    · simp [Option.filter_some, htitle]

/-- A stored list, other than the files of custom rules, reads back as a list named `custom`
only by its title. -/
theorem StoredList.entry_name_eq_customList_iff {x : StoredList} (hx : ¬ x.isCustom) :
  x.entry.name = customList ↔ (listTitle x.entry.text).map sanitizeName = some customList
  := by
  apply titleName_eq_iff
  · intro hkey
    apply hx
    left
    calc
      x.id = ⟨customList⟩ := by rw [← hkey]
      _ = ListId.of customList := by decide
  · decide

/-- The names are apart at startup exactly when no stored list takes the name of the custom
list. -/
theorem uniqueNames_withStore_iff {cfg : AdblockConfig}
    {file : Option (Except Error (List A.Resource))} {store : σ} {cacheFile : Option Bytes}
    {saves : List (UInt64 × A.Engine)} {s : ListCuration A σ}
    (hnodup : ((ListStore.load store).map StoredList.id).Nodup)
    (h : withStore cfg file store cacheFile saves = .ok s) :
  UniqueNames s.core.lists ↔ backing (ListStore.load store) customList = none
  := by
  have hinv := reconcile_inv hnodup
  have hfind : findList (reconcile [] (ListStore.load store)).lists customList = none ↔
      backing (ListStore.load store) customList = none := by
    rw [hinv.find, Option.map_eq_none_iff]
  rw [UniqueNames, lists_withStore h, List.map_append, List.map_singleton,
    ← List.concat_eq_append, ← hfind, findList_isNone_iff]
  constructor
  · intro hconcat hmem
    rw [List.concat_eq_append, List.nodup_append] at hconcat
    apply hconcat.2.2 _ hmem _ List.mem_cons_self rfl
  · intro hfresh
    apply hinv.nodup.concat hfresh

/-- In every run from startup no two lists have the same name, exactly when no stored list,
other than the files of custom rules, has a title that makes it a list named `custom`. -/
theorem uniqueNames_edits_withStore_iff {cfg : AdblockConfig}
    {file : Option (Except Error (List A.Resource))} {store : σ} {cacheFile : Option Bytes}
    {saves : List (UInt64 × A.Engine)} {s : ListCuration A σ}
    (hnodup : ((ListStore.load store).map StoredList.id).Nodup)
    (h : withStore cfg file store cacheFile saves = .ok s) :
  (∀ es, UniqueNames (s.edits es).core.lists) ↔
    ∀ x ∈ ListStore.load store, ¬ x.isCustom →
      (listTitle x.entry.text).map sanitizeName ≠ some customList
  := by
  have hfree : backing (ListStore.load store) customList = none ↔
      ∀ x ∈ ListStore.load store, ¬ x.isCustom →
        (listTitle x.entry.text).map sanitizeName ≠ some customList := by
    rw [backing_eq_none_iff, List.eq_nil_iff_forall_not_mem]
    simp only [mem_readingAs, not_and]
    apply forall₃_congr
    intro x _ hx
    rw [x.entry_name_eq_customList_iff hx]
  rw [← hfree, ← uniqueNames_withStore_iff hnodup h]
  constructor
  · intro hall
    apply hall []
  · intro hstart es
    apply ListCuration.uniqueNames_edits hstart

end Runs

/-- A store with one file in it, and no title in the file. -/
def untitledStore : MemoryListStore :=
  MemoryListStore.new.seed "ads".toList "||ads.example^".toList

/-- The files of the store have ids of their own, and no run from it makes two names equal. -/
theorem uniqueNames_edits_withStore_untitled :
  ((ListStore.load untitledStore).map StoredList.id).Nodup
    ∧ ∀ es, UniqueNames (untitledStore.start.edits es).core.lists
  := by
  use MemoryListStore.nodup_load_id untitledStore
  apply (uniqueNames_edits_withStore_iff (MemoryListStore.nodup_load_id untitledStore)
    (MemoryListStore.withStore_eq_start untitledStore)).mpr
  decide

/-- A file titled `custom` gives a second list of that name. -/
theorem not_uniqueNames_withStore_titled :
  ¬ UniqueNames (MemoryListStore.new.seed "ads".toList
    "! Title: custom\n||ads.example^".toList).start.core.lists
  := by
  decide
