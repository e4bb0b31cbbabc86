import AdBlock.Curation.Backing

/-!
# Restarting

What a restart on the store in memory finds of the lists that were edited.  The lists in memory
go by their names, the store goes by the lower-cased sanitized names, and a restart names a list
by the title in its text; a list that is written is found again when the three agree
(`ReadsBack`).  A list that is switched off stays off exactly when the file that then wins for
its name has the mark (`setListEnabled_off_restart_iff`), and a list that is removed stays away
exactly when the files that read back under its name are those that the removal drops
(`removeList_restart_iff`).
-/

open ListStore

/-- A file written to the store reads back as a list of the given name, and backs that name. -/
@[mk_iff]
structure ReadsBack (store : MemoryListStore) (id : ListId) (name source : Text)
    (enabled : Bool) (text : Text) : Prop where
  /-- The file is not one of custom rules. -/
  plain : ¬ id.isCustom
  /-- The source is on one line. -/
  source : '\n' ∉ source
  /-- The text is not taken for that of a list that is switched off. -/
  mark : enabled = true → ¬ disabledMark <+: text
  /-- The title, or else the file, gives the name. -/
  title : titleName id.key text = name
  /-- The file wins over the others that read back under the name. -/
  wins : id = ListId.of name ∨ ∀ x ∈ readingAs (load store) name, x.id = id

/-- A write that reads back, and that takes no other list's file away. -/
@[mk_iff]
structure SafeWrite (store : MemoryListStore) (id : ListId) (name source : Text)
    (enabled : Bool) (text : Text) : Prop
    extends ReadsBack store id name source enabled text where
  replaces : ∀ x ∈ load store, x.id = id → x.entry.name = name

section Write

variable {store : MemoryListStore} {id : ListId} {name source text : Text} {enabled : Bool}

instance : Decidable (ReadsBack store id name source enabled text) :=
  decidable_of_iff' _ (readsBack_iff store id name source enabled text)

instance : Decidable (SafeWrite store id name source enabled text) :=
  decidable_of_iff' _ (safeWrite_iff store id name source enabled text)

theorem ReadsBack.entry (h : ReadsBack store id name source enabled text) :
  (MemoryListStore.stored id (header source enabled ++ text)).entry
    = { name := name
        source := source
        rules := countRules text
        enabled := enabled
        text := text }
  := by
  rw [StoredList.entry, MemoryListStore.stored, entryFromText_header h.source h.mark, h.title]

/-- A file that reads back under a name backs it, once it is written. -/
theorem ReadsBack.backing_persist (h : ReadsBack store id name source enabled text) :
  backing (load (persist store id (header source enabled ++ text)).2) name
    = some (MemoryListStore.stored id (header source enabled ++ text))
  := by
  have hmem : MemoryListStore.stored id (header source enabled ++ text) ∈
      readingAs (load (persist store id (header source enabled ++ text)).2) name := by
    rw [mem_readingAs, mem_load_persist, h.entry]
    use Or.inl rfl, h.plain
  rcases h.wins with hid | honly
  · apply backing_of_canonical (MemoryListStore.nodup_load_id _) hmem hid
  · apply backing_of_only hmem
    intro x hx
    obtain ⟨hload, hplain, hname⟩ := mem_readingAs.mp hx
    rcases mem_load_persist.mp hload with rfl | ⟨hold, -⟩
    · rfl
    · apply honly x (mem_readingAs.mpr ⟨hold, hplain, hname⟩)

/-- A safe write leaves what backs the other names. -/
theorem SafeWrite.backing_persist (h : SafeWrite store id name source enabled text)
    {other : Text} (hne : other ≠ name) :
  backing (load (persist store id (header source enabled ++ text)).2) other
    = backing (load store) other
  := by
  apply backing_congr
  intro x _ hname
  rw [mem_load_persist]
  constructor
  · rintro (rfl | ⟨hx, -⟩)
    · rw [h.entry] at hname
      exact absurd hname.symm hne
    · apply hx
  · intro hx
    right
    use hx
    intro hid
    rw [h.replaces x hx hid] at hname
    exact hne hname.symm

/-- Writing custom rules leaves what backs the names. -/
theorem backing_persist_custom (hid : id.isCustom) (name text : Text) :
  backing (load (persist store id text).2) name = backing (load store) name
  := by
  apply backing_congr
  intro x hplain _
  rw [mem_load_persist]
  constructor
  · rintro (rfl | ⟨hx, -⟩)
    · exact absurd hid hplain
    · apply hx
  · intro hx
    right
    use hx
    rintro rfl
    exact hplain hid

end Write

/-! ### Removing a list -/

namespace ListCuration

theorem mem_load_dropFile {store : MemoryListStore} {name : Text} {x : StoredList} :
  x ∈ load (dropFile store name)
    ↔ x ∈ load store ∧ ¬ (x.id = ListId.of (sanitizeName name) ∧ x.id.key ≠ [])
  := by
  rw [dropFile]
  split
  next hempty =>
    have hkey : (ListId.of (sanitizeName name)).key = [] := List.isEmpty_iff.mp hempty
    constructor
    · intro hx
      use hx
      rintro ⟨hid, hne⟩
      rw [hid] at hne
      exact hne hkey
    · rintro ⟨hx, -⟩
      apply hx
  next hempty =>
    have hkey : (ListId.of (sanitizeName name)).key ≠ [] :=
      fun h => hempty (List.isEmpty_iff.mpr h)
    rw [mem_load_remove]
    apply and_congr_right
    intro _
    apply not_congr
    constructor
    · intro hid
      use hid
      rw [hid]
      apply hkey
    · rintro ⟨hid, -⟩
      apply hid

variable {A : Library} {s s' t : ListCuration A MemoryListStore} {cfg : AdblockConfig}
  {file : Option (Except Error (List A.Resource))} {cacheFile : Option Bytes}
  {saves : List (UInt64 × A.Engine)} {name : Text}

/-- After a list has been removed, a restart finds no list of its name exactly when the files
that read back under the name are those that the removal drops. -/
theorem removeList_restart_iff (hname : name ≠ customList)
    (hrun : (removeList name).run s = (.ok true, s'))
    (hagain : withStore cfg file s'.store cacheFile saves = .ok t) :
  (∀ l ∈ t.core.lists, l.name ≠ name) ↔
    ∀ x ∈ load s.store, ¬ x.isCustom → x.entry.name = name →
      x.id = ListId.of (sanitizeName name) ∧ x.id.key ≠ []
  := by
  have hstore : s'.store = dropFile s.store name := by
    rw [run_removeList] at hrun
    rw [← without_store, (Prod.mk.inj hrun).2]
  have hgone : (∀ l ∈ t.core.lists, l.name ≠ name) ↔ findList t.core.lists name = none := by
    rw [findList_isNone_iff, List.mem_map, not_exists]
    simp only [not_and, ne_eq]
  rw [hgone, findList_withStore (MemoryListStore.nodup_load_id _) hagain hname,
    Option.map_eq_none_iff, backing_eq_none_iff, List.eq_nil_iff_forall_not_mem, hstore]
  simp only [mem_readingAs, mem_load_dropFile]
  constructor
  · intro h x hx hplain hread
    by_contra hkept
    apply h x ⟨⟨hx, hkept⟩, hplain, hread⟩
  · rintro h x ⟨⟨hx, hkept⟩, hplain, hread⟩
    apply hkept (h x hx hplain hread)

/-- A store with one titled list in it. -/
def titledStore (key : Text) : MemoryListStore :=
  MemoryListStore.new.seed key "! Title: EasyList\n||ads.example^".toList

/-- A file stored under the lower-cased title: the list in it can be removed for good. -/
theorem removeList_restart_titled :
  ((removeList "EasyList".toList).run (titledStore "easylist".toList).start).1 = .ok true
    ∧ ∀ l ∈ ((removeList "EasyList".toList).run
        (titledStore "easylist".toList).start).2.store.start.core.lists,
      l.name ≠ "EasyList".toList
  := by
  have hok : ((removeList "EasyList".toList).run (titledStore "easylist".toList).start).1
      = .ok true := by decide
  use hok
  apply (removeList_restart_iff (by decide) (Prod.ext hok rfl)
    (MemoryListStore.withStore_eq_start _)).mpr
  decide

/-- A file stored under another id than its title gives: the list in it comes back. -/
theorem removeList_restart_misplaced :
  ((removeList "EasyList".toList).run (titledStore "l".toList).start).1 = .ok true
    ∧ ∃ l ∈ ((removeList "EasyList".toList).run
        (titledStore "l".toList).start).2.store.start.core.lists,
      l.name = "EasyList".toList
  := by
  decide

/-! ### Removing a list that is not there -/

section NotFound

variable {σ : Type} [ListStore σ] {store store' : σ}

/-- The lists at startup depend on what the store hands over only. -/
theorem lists_withStore_of_load_eq (h : load store' = load store)
    {r r' : ListCuration A σ} (hstart : withStore cfg file store cacheFile saves = .ok r)
    (hstart' : withStore cfg file store' cacheFile saves = .ok r') :
  r'.core.lists = r.core.lists
  := by
  rw [lists_withStore hstart, lists_withStore hstart', startupText, startupText, h]

variable [KeepingListStore σ]

/-- Dropping a file leaves the store as it is exactly when there is no file to drop. -/
theorem load_dropFile_eq_iff :
  load (dropFile store name) = load store
    ↔ (ListId.of (sanitizeName name)).isEmpty = true
      ∨ ListStore.get store (ListId.of (sanitizeName name)) = none
  := by
  rw [dropFile]
  split
  · next hempty => exact iff_of_true rfl (.inl hempty)
  · next hempty =>
    rw [KeepingListStore.load_remove, List.filter_eq_self, or_iff_right hempty, get_eq_none_iff]
    simp only [decide_eq_true_eq]

/-- A removal that finds no list changes no stored file, no list, and nothing that a restart finds,
exactly when nothing is stored under the id of the name. -/
theorem removeList_notFound_iff {s s' : ListCuration A σ}
    (hrun : (removeList name).run s = (.ok false, s')) :
  (load s'.store = load s.store ∧ s'.core = s.core
      ∧ ∀ cfg file cacheFile saves (t t' : ListCuration A σ),
        withStore cfg file s.store cacheFile saves = .ok t →
        withStore cfg file s'.store cacheFile saves = .ok t' → t'.core.lists = t.core.lists)
    ↔ (ListId.of (sanitizeName name)).isEmpty = true
      ∨ ListStore.get s.store (ListId.of (sanitizeName name)) = none
  := by
  rw [run_removeList] at hrun
  obtain ⟨hfound, rfl⟩ := Prod.mk.inj hrun
  have hcore : (s.without name).core = s.core := by
    rw [without, Except.ok.inj hfound]
    rfl
  rw [without_store, ← load_dropFile_eq_iff]
  constructor
  · rintro ⟨hload, -⟩
    apply hload
  · intro hload
    use hload, hcore
    intro cfg file cacheFile saves t t' ht ht'
    apply lists_withStore_of_load_eq hload ht ht'

end NotFound

/-- Removing a list that is neither in memory nor stored changes nothing. -/
theorem removeList_notFound_other :
  ((removeList "other".toList).run (titledStore "easylist".toList).start).1 = .ok false
    ∧ load ((removeList "other".toList).run (titledStore "easylist".toList).start).2.store
      = load (titledStore "easylist".toList).start.store
  := by
  have hok : ((removeList "other".toList).run (titledStore "easylist".toList).start).1
      = .ok false := by decide
  use hok
  apply ((removeList_notFound_iff (Prod.ext hok rfl)).mpr (.inr _)).1
  decide

/-- A name in other letters finds no list, and its file is dropped all the same: the list is gone
after a restart. -/
theorem removeList_notFound_upper :
  ((removeList "EASYLIST".toList).run (titledStore "easylist".toList).start).1 = .ok false
    ∧ (∃ l ∈ (titledStore "easylist".toList).start.store.start.core.lists,
      l.name = "EasyList".toList)
    ∧ ¬ ∃ l ∈ ((removeList "EASYLIST".toList).run
        (titledStore "easylist".toList).start).2.store.start.core.lists,
      l.name = "EasyList".toList
  := by
  decide

/-! ### Switching a list off -/

/-- The stored lists with a file put in the place of the one under its id. -/
def putFile (stored : List StoredList) (x : StoredList) : List StoredList :=
  x :: stored.filter fun y => y.id ≠ x.id

/-- What backs a name once a file is written: the list that wins with the file in its place. -/
theorem backing_persist_iff {store : MemoryListStore} {id : ListId} {text : Text}
    {x : StoredList} :
  backing (load (ListStore.persist store id text).2) name = some x
    ↔ Wins (putFile (load store) (MemoryListStore.stored id text)) name x
  := by
  rw [backing_eq_some_iff]
  apply Wins.congr
  intro y
  rw [mem_load_persist, putFile, List.mem_cons, List.mem_filter, decide_eq_true_eq]
  rfl

/-- At startup the custom list is enabled. -/
theorem exists_enabled_custom (h : withStore cfg file s.store cacheFile saves = .ok t) :
  ∃ l ∈ enabledInOrder t.core.lists, l.name = customList
  := by
  use customEntry (startupText cfg s.store)
  constructor
  · rw [(enabledInOrder_perm _).mem_iff, List.mem_filter, lists_withStore h]
    use List.mem_concat_self
    rfl
  · rfl

/-- A restart finds a list, and finds it switched off, exactly when the file that backs its name
has the mark. -/
theorem off_withStore_iff (h : withStore cfg file s.store cacheFile saves = .ok t)
    (hname : name ≠ customList) :
  ((∃ l ∈ t.core.lists, l.name = name ∧ l.enabled = false)
      ∧ ∀ l ∈ enabledInOrder t.core.lists, l.name ≠ name)
    ↔ ∃ x, backing (load s.store) name = some x ∧ x.entry.enabled = false
  := by
  have hnodup := MemoryListStore.nodup_load_id s.store
  constructor
  · rintro ⟨⟨l, hl, rfl, henabled⟩, -⟩
    obtain ⟨x, hx, rfl⟩ := Option.map_eq_some_iff.mp ((mem_withStore_iff hnodup h hname).mp hl)
    use x, hx
  · rintro ⟨x, hx, henabled⟩
    have hfound := findList_withStore hnodup h hname
    rw [hx, Option.map_some] at hfound
    obtain ⟨hmem, hread⟩ := findList_mem hfound
    constructor
    · use x.entry
    · rintro l hl rfl
      obtain ⟨hl, hon⟩ := List.mem_filter.mp ((enabledInOrder_perm _).mem_iff.mp hl)
      rw [mem_withStore_iff hnodup h hname, hx, Option.map_some] at hl
      rw [← Option.some_injective _ hl, henabled] at hon
      cases hon

/-- After a list has been switched off, a restart finds it switched off, and builds the engine
from lists of other names, exactly when it is not the custom list and the file that wins for its
name, with the file of the switch in its place, has the mark. -/
theorem setListEnabled_off_restart_iff {l : ListEntry}
    (hfind : findList s.core.lists name = some l)
    (hrun : (setListEnabled name false).run s = (.ok true, s'))
    (hagain : withStore cfg file s'.store cacheFile saves = .ok t) :
  ((∃ l ∈ t.core.lists, l.name = name ∧ l.enabled = false)
      ∧ (∀ l ∈ enabledInOrder t.core.lists, l.name ≠ name)
      ∧ t.core.engine = withResources
          (A.fromFilterSet ((enabledInOrder t.core.lists).map ListEntry.text))
          t.core.scriptlets.resources)
    ↔ name ≠ customList ∧
      ∃ x, Wins (putFile (load s.store) (MemoryListStore.stored
          (ListId.of (sanitizeName name)) (header l.source false ++ l.text))) name x
        ∧ x.entry.enabled = false
  := by
  have hstore : s'.store = (ListStore.persist s.store (ListId.of (sanitizeName name))
      (header l.source false ++ l.text)).2 := by
    rw [run_setListEnabled_ok hfind rfl] at hrun
    rw [← (Prod.mk.inj hrun).2]
    rfl
  have hengine : t.core.engine = withResources
      (A.fromFilterSet ((enabledInOrder t.core.lists).map ListEntry.text))
      t.core.scriptlets.resources := engine_withStore hagain
  rw [and_iff_left hengine]
  simp only [← backing_persist_iff, ← hstore]
  constructor
  · rintro ⟨hoff, hothers⟩
    have hname : name ≠ customList := by
      rintro rfl
      obtain ⟨e, he, hcustom⟩ := exists_enabled_custom hagain
      apply hothers e he hcustom
    exact ⟨hname, (off_withStore_iff hagain hname).mp ⟨hoff, hothers⟩⟩
  · rintro ⟨hname, hbacking⟩
    apply (off_withStore_iff hagain hname).mpr hbacking

/-- The list of a file stored under the lower-cased title stays off. -/
theorem setListEnabled_off_restart_titled :
  ((setListEnabled "EasyList".toList false).run
      (titledStore "easylist".toList).start).1 = .ok true
    ∧ ∃ l ∈ ((setListEnabled "EasyList".toList false).run
        (titledStore "easylist".toList).start).2.store.start.core.lists,
      l.name = "EasyList".toList ∧ l.enabled = false
  := by
  have hok : ((setListEnabled "EasyList".toList false).run
      (titledStore "easylist".toList).start).1 = .ok true := by decide
  have hfind : findList (titledStore "easylist".toList).start.core.lists "EasyList".toList
      = some (MemoryListStore.stored ⟨"easylist".toList⟩
          "! Title: EasyList\n||ads.example^".toList).entry := by decide
  use hok
  apply ((setListEnabled_off_restart_iff hfind (Prod.ext hok rfl)
    (MemoryListStore.withStore_eq_start _)).mpr _).1
  use by decide
  use MemoryListStore.stored (ListId.of "EasyList".toList)
    (header "memory:easylist".toList false ++ "! Title: EasyList\n||ads.example^".toList)
  decide

/-- The custom list is switched on again by a restart. -/
theorem setListEnabled_off_restart_custom :
  ((setListEnabled customList false).run
      (MemoryListStore.new.seed customList "||ads.example^".toList).start).1 = .ok true
    ∧ ¬ ∃ l ∈ ((setListEnabled customList false).run
        (MemoryListStore.new.seed customList
          "||ads.example^".toList).start).2.store.start.core.lists,
      l.name = customList ∧ l.enabled = false
  := by
  decide

end ListCuration
