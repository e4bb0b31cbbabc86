import AdBlock.Curation.Restart

/-!
# Runs that survive a restart

The lists in memory and the files in the store are in step (`Synced`) when every name other
than `custom` has in memory the source and the text that its stored list reads back with.
Startup brings them in step, and an edit keeps them so when each file it writes reads back as
the list it is written for and takes no other list's file away, and each file it drops is the
one that reads back under the name it is dropped for (`SafeEdit`).  After a run of such edits a
restart gives back the lists in memory, apart from the custom list (`restart_edits`).
-/

open ListStore

/-- What a list must keep over a restart, besides its name. -/
def ListEntry.content (l : ListEntry) : Text × Text := (l.source, l.text)

namespace ListCuration

variable {A : Library}

/-! ### Safe edits -/

section Safe

variable (s : ListCuration A MemoryListStore)

/-- The file of a list that is added stands for that list.  The custom list is apart. -/
def SafeAdd (name source text : Text) : Prop :=
  sanitizeName name ≠ [] → sanitizeName name ≠ customList →
    SafeWrite s.store (ListId.of (sanitizeName name)) (sanitizeName name) source
      (listEnabled s.core.lists (sanitizeName name)) text

/-- The file of a list that is switched on or off stands for that list. -/
def SafeSwitch (name : Text) (enabled : Bool) : Prop :=
  name ≠ customList → ∀ l ∈ findList s.core.lists name,
    SafeWrite s.store (ListId.of (sanitizeName name)) name l.source enabled l.text

/-- The file that is dropped for a list is the one that reads back under its name. -/
def SafeRemove (name : Text) : Prop :=
  name ≠ customList → ∀ x ∈ load s.store, ¬ x.isCustom →
    (x.entry.name = name ↔ x.id = ListId.of (sanitizeName name) ∧ x.id.key ≠ [])

instance (name source text : Text) : Decidable (s.SafeAdd name source text) :=
  inferInstanceAs (Decidable (_ → _ → _))

instance (name : Text) (enabled : Bool) : Decidable (s.SafeSwitch name enabled) :=
  inferInstanceAs (Decidable (_ → ∀ l ∈ findList s.core.lists name, _))

instance (name : Text) : Decidable (s.SafeRemove name) :=
  inferInstanceAs (Decidable (_ → ∀ x ∈ load s.store, _))

end Safe

/-- Each of the files that are dropped, one after the other, is the one that reads back under
the name it is dropped for. -/
def SafeRemoves : ListCuration A MemoryListStore → List Text → Prop
  | _, [] => True
  | s, name :: names => s.SafeRemove name ∧ SafeRemoves (s.without name) names

/-- Every file that an edit writes or drops is the file of the list it is written or dropped
for. -/
def SafeEdit (s : ListCuration A MemoryListStore) : Edit → Prop
  | .addList name source text => s.SafeAdd name source text
  | .applyRules name rules .replace =>
      s.SafeAdd (rulesName name) (rulesSource (rulesName name)) rules
  | .applyRules name rules .append =>
      s.SafeAdd (rulesName name) (rulesSource (rulesName name))
        (appendedText s.core.lists (sanitizeName (rulesName name)) rules)
  | .appendRules name source rules =>
      s.SafeAdd name source (appendedText s.core.lists (sanitizeName name) rules)
  | .setListEnabled name enabled => s.SafeSwitch name enabled
  | .removeList name => s.SafeRemove name
  | .installDownloaded given url text =>
      ¬ Rejected text → s.SafeRemoves (s.staleFor given url text) ∧
        (s.withoutAll (s.staleFor given url text)).SafeAdd (downloadName url text) url text

/-- Every edit of a run is safe in the state it is made in. -/
def SafeRun : ListCuration A MemoryListStore → List Edit → Prop
  | _, [] => True
  | s, e :: es => s.SafeEdit e ∧ SafeRun (s.edit e) es

instance decidableSafeRemoves : (s : ListCuration A MemoryListStore) → (names : List Text) →
    Decidable (s.SafeRemoves names)
  | _, [] => inferInstanceAs (Decidable True)
  | s, name :: names =>
      have := decidableSafeRemoves (s.without name) names
      inferInstanceAs (Decidable (_ ∧ _))

instance decidableSafeEdit (s : ListCuration A MemoryListStore) :
    (e : Edit) → Decidable (s.SafeEdit e)
  | .addList _ _ _ => inferInstanceAs (Decidable (s.SafeAdd _ _ _))
  | .applyRules _ _ .replace => inferInstanceAs (Decidable (s.SafeAdd _ _ _))
  | .applyRules _ _ .append => inferInstanceAs (Decidable (s.SafeAdd _ _ _))
  | .appendRules _ _ _ => inferInstanceAs (Decidable (s.SafeAdd _ _ _))
  | .setListEnabled _ _ => inferInstanceAs (Decidable (s.SafeSwitch _ _))
  | .removeList _ => inferInstanceAs (Decidable (s.SafeRemove _))
  | .installDownloaded _ _ _ => inferInstanceAs (Decidable (_ → _ ∧ _))

instance decidableSafeRun : (s : ListCuration A MemoryListStore) → (es : List Edit) →
    Decidable (s.SafeRun es)
  | _, [] => inferInstanceAs (Decidable True)
  | s, e :: es =>
      have := decidableSafeRun (s.edit e) es
      inferInstanceAs (Decidable (_ ∧ _))

/-! ### Memory and store in step -/

/-- Every name other than `custom` has in memory the source and the text that the stored list
behind it reads back with. -/
def Synced (s : ListCuration A MemoryListStore) : Prop :=
  ∀ name, name ≠ customList → (findList s.core.lists name).map ListEntry.content
    = (backing (load s.store) name).map fun x => x.entry.content

variable {s s' : ListCuration A MemoryListStore}

theorem synced_withStore {cfg : AdblockConfig} {file : Option (Except Error (List A.Resource))}
    {store : MemoryListStore} {cacheFile : Option Bytes} {saves : List (UInt64 × A.Engine)}
    (h : withStore cfg file store cacheFile saves = .ok s) :
  s.Synced
  := by
  intro name hname
  rw [findList_withStore (MemoryListStore.nodup_load_id _) h hname, store_withStore h,
    backing_startup (MemoryListStore.nodup_load_id _), Option.map_map]
  rfl

theorem SafeRemove.backing_dropFile {name : Text} (hsafe : s.SafeRemove name)
    (hname : name ≠ customList) :
  backing (load (dropFile s.store name)) name = none
  := by
  rw [backing_eq_none_iff, List.eq_nil_iff_forall_not_mem]
  intro x hx
  obtain ⟨hmem, hplain, hread⟩ := mem_readingAs.mp hx
  obtain ⟨hx, hkept⟩ := mem_load_dropFile.mp hmem
  apply hkept ((hsafe hname x hx hplain).mp hread)

theorem SafeRemove.backing_dropFile_of_ne {name other : Text} (hsafe : s.SafeRemove name)
    (hne : other ≠ name) :
  backing (load (dropFile s.store name)) other = backing (load s.store) other
  := by
  apply backing_congr
  intro x hplain hread
  rw [mem_load_dropFile]
  constructor
  · rintro ⟨hx, -⟩
    apply hx
  · intro hx
    use hx
    intro hdropped
    by_cases hname : name = customList
    · apply hplain
      left
      rw [hdropped.1, hname]
      decide
    · apply hne
      rw [← hread, (hsafe hname x hx hplain).mpr hdropped]

namespace Synced

/-- A safe write with the same change in memory. -/
theorem write (h : s.Synced) {id : ListId} {name source text : Text} {enabled : Bool}
    (hsafe : SafeWrite s.store id name source enabled text)
    (hstore : s'.store = (ListStore.persist s.store id (header source enabled ++ text)).2)
    (hname : (findList s'.core.lists name).map ListEntry.content = some (source, text))
    (hother : ∀ other, other ≠ name →
      findList s'.core.lists other = findList s.core.lists other) :
  s'.Synced
  := by
  intro other hcustom
  rw [hstore]
  by_cases hne : other = name
  · subst hne
    rw [hname, hsafe.toReadsBack.backing_persist, Option.map_some, hsafe.entry]
    rfl
  · rw [hother other hne, h other hcustom, hsafe.backing_persist hne]

/-- A write of custom rules, with a change of the custom list in memory. -/
theorem writeCustom (h : s.Synced) {id : ListId} {text : Text} (hid : id.isCustom)
    (hstore : s'.store = (ListStore.persist s.store id text).2)
    (hother : ∀ other, other ≠ customList →
      findList s'.core.lists other = findList s.core.lists other) :
  s'.Synced
  := by
  intro other hcustom
  rw [hstore, hother other hcustom, h other hcustom, backing_persist_custom hid]

theorem addList (h : s.Synced) {name source text : Text}
    (hsafe : s.SafeAdd name source text) :
  ((ListCuration.addList name source text).run s).2.Synced
  := by
  by_cases hempty : sanitizeName name = []
  · rw [run_addList_of_empty s hempty]
    apply h
  rw [run_addList_ok hempty rfl]
  by_cases hcustom : sanitizeName name = customList
  · apply h.writeCustom _ rfl
    · intro other hne
      rw [findList_withEntry]
      apply if_neg
      rw [newEntry, hcustom]
      apply hne
    · rw [hcustom]
      left
      rfl
  · apply h.write (hsafe hempty hcustom) rfl
    · rw [findList_withEntry]
      simp [newEntry, ListEntry.content]
    · intro other hne
      rw [findList_withEntry]
      apply if_neg hne

theorem setListEnabled (h : s.Synced) {name : Text} {enabled : Bool}
    (hsafe : s.SafeSwitch name enabled) :
  ((ListCuration.setListEnabled name enabled).run s).2.Synced
  := by
  cases hfind : findList s.core.lists name with
  | none =>
    rw [run_setListEnabled_none s hfind]
    apply h
  | some l =>
    rw [run_setListEnabled_ok hfind rfl]
    have hother (other : Text) (hne : other ≠ name) :
        findList (switchList name enabled s.core.lists) other
          = findList s.core.lists other := by
      simp [findList_switchList, hne]
    by_cases hcustom : name = customList
    · subst hcustom
      apply h.writeCustom _ rfl hother
      decide
    · apply h.write (hsafe hcustom l hfind) rfl _ hother
      rw [setLists_lists, findList_switchList, hfind]
      simp [ListEntry.content]

/-- A safe removal drops what backs the name, and nothing else. -/
theorem without (h : s.Synced) {name : Text} (hsafe : s.SafeRemove name) :
  (s.without name).Synced
  := by
  intro other hcustom
  rw [without_lists, without_store, findList_retainOthers]
  by_cases hne : other = name
  · subst hne
    rw [if_pos rfl, hsafe.backing_dropFile hcustom]
    rfl
  · rw [if_neg hne, h other hcustom, hsafe.backing_dropFile_of_ne hne]

theorem withoutAll {names : List Text} (h : s.Synced) (hsafe : s.SafeRemoves names) :
  (s.withoutAll names).Synced
  := by
  induction names generalizing s with
  | nil => apply h
  | cons name names ih => apply ih (h.without hsafe.1) hsafe.2

theorem installDownloaded (h : s.Synced) {given url text : Text}
    (hsafe : s.SafeEdit (.installDownloaded given url text)) :
  ((ListCuration.installDownloaded given url text).run s).2.Synced
  := by
  by_cases hrejected : Rejected text
  · obtain ⟨e, he⟩ := run_installDownloaded_of_rejected s hrejected given url
    rw [he]
    apply h
  · obtain ⟨hremoves, hadd⟩ := hsafe hrejected
    rw [run_installDownloaded s hrejected]
    apply (h.withoutAll hremoves).addList hadd

/-- A safe edit keeps memory and store in step. -/
theorem edit (h : s.Synced) {e : Edit} (hsafe : s.SafeEdit e) :
  (s.edit e).Synced
  := by
  cases e with
  | addList name source text =>
    simpa [ListCuration.edit, editProcess] using h.addList hsafe
  | applyRules name rules update =>
    cases update with
    | replace => simpa [ListCuration.edit, editProcess, applyRules] using h.addList hsafe
    | append =>
      simpa [ListCuration.edit, editProcess, applyRules, run_appendRules] using h.addList hsafe
  | appendRules name source rules =>
    simpa [ListCuration.edit, editProcess, run_appendRules] using h.addList hsafe
  | setListEnabled name enabled =>
    simpa [ListCuration.edit, editProcess] using h.setListEnabled hsafe
  | removeList name =>
    simpa [ListCuration.edit, editProcess, run_removeList] using h.without hsafe
  | installDownloaded given url text =>
    simpa [ListCuration.edit, editProcess] using h.installDownloaded hsafe

/-- A run of safe edits keeps memory and store in step. -/
theorem edits (h : s.Synced) {es : List Edit} (hsafe : s.SafeRun es) :
  (s.edits es).Synced
  := by
  induction es generalizing s with
  | nil => apply h
  | cons e es ih => apply ih (h.edit hsafe.1) hsafe.2

end Synced

/-! ### Restarting after a run -/

/-- The lists other than `custom` have different names in every run from startup. -/
theorem uniqueNames_others_edits {cfg : AdblockConfig}
    {file : Option (Except Error (List A.Resource))} {store : MemoryListStore}
    {cacheFile : Option Bytes} {saves : List (UInt64 × A.Engine)}
    (h : withStore cfg file store cacheFile saves = .ok s) (es : List Edit) :
  UniqueNames (retainOthers (s.edits es).core.lists customList)
  := by
  apply lists_edits_of_tableChange (P := fun l => UniqueNames (retainOthers l customList))
  · intro lists lists' hchange hunique
    apply hunique.others_of_tableChange hchange
  · have hcustom : retainOthers [customEntry (startupText cfg store)] customList = [] := rfl
    rw [lists_withStore h, retainOthers_append, hcustom, List.append_nil]
    apply UniqueNames.drop
    apply (reconcile_inv (MemoryListStore.nodup_load_id store)).nodup

/-- A restart finds the sources and the texts that a state in step has in memory. -/
theorem Synced.restart {cfg : AdblockConfig} {file : Option (Except Error (List A.Resource))}
    {cacheFile : Option Bytes} {saves : List (UInt64 × A.Engine)}
    {t : ListCuration A MemoryListStore} (h : s.Synced)
    (hagain : withStore cfg file s.store cacheFile saves = .ok t) {name : Text}
    (hname : name ≠ customList) :
  (findList s.core.lists name).map ListEntry.content
    = (findList t.core.lists name).map ListEntry.content
  := by
  rw [h name hname, findList_withStore (MemoryListStore.nodup_load_id _) hagain hname,
    Option.map_map]
  rfl

/-- A list of a table is in another one that has the same sources and texts by name. -/
theorem exists_of_content_eq {lists lists' : List ListEntry}
    (hunique : UniqueNames (retainOthers lists customList))
    (h : ∀ name, name ≠ customList → (findList lists name).map ListEntry.content
      = (findList lists' name).map ListEntry.content)
    {l : ListEntry} (hl : l ∈ lists) (hname : l.name ≠ customList) :
  ∃ l' ∈ lists', l'.name = l.name ∧ l'.source = l.source ∧ l'.text = l.text
  := by
  have hfind : findList lists l.name = some l := by
    have hfound := (findList_eq_some_iff hunique).mpr
      ⟨List.mem_filter.mpr ⟨hl, decide_eq_true hname⟩, rfl⟩
    rwa [findList_retainOthers, if_neg hname] at hfound
  have hcontent := h l.name hname
  rw [hfind] at hcontent
  obtain ⟨l', hfind', heq⟩ := Option.map_eq_some_iff.mp hcontent.symm
  obtain ⟨hmem, hname'⟩ := findList_mem hfind'
  obtain ⟨hsource, htext⟩ := Prod.mk.inj heq
  use l', hmem

/-- After a run of safe edits from startup, a restart gives back the lists in memory other than
`custom`, and no others. -/
theorem restart_edits {cfg cfg' : AdblockConfig}
    {file file' : Option (Except Error (List A.Resource))} {store : MemoryListStore}
    {cacheFile cacheFile' : Option Bytes} {saves saves' : List (UInt64 × A.Engine)}
    {t : ListCuration A MemoryListStore} {es : List Edit}
    (h : withStore cfg file store cacheFile saves = .ok s) (hsafe : s.SafeRun es)
    (hagain : withStore cfg' file' (s.edits es).store cacheFile' saves' = .ok t) :
  (∀ l ∈ (s.edits es).core.lists, l.name ≠ customList →
      ∃ l' ∈ t.core.lists, l'.name = l.name ∧ l'.source = l.source ∧ l'.text = l.text)
    ∧ ∀ l' ∈ t.core.lists, l'.name ≠ customList →
      ∃ l ∈ (s.edits es).core.lists, l.name = l'.name ∧ l.source = l'.source ∧ l.text = l'.text
  := by
  have hsynced := (synced_withStore h).edits hsafe
  constructor
  · intro l
    apply exists_of_content_eq (uniqueNames_others_edits h es)
    intro name hname
    apply hsynced.restart hagain hname
  · intro l'
    apply exists_of_content_eq (uniqueNames_others_edits hagain [])
    intro name hname
    apply (hsynced.restart hagain hname).symm

/-- A list is added, another one is switched off, and the first is replaced by a download. -/
def safeEdits : List Edit :=
  [.addList "ads".toList "https://lists.example/ads.txt".toList "||a.example^".toList,
    .setListEnabled "EasyList".toList false,
    .installDownloaded "https://lists.example/ads.txt".toList
      "https://lists.example/ads.txt".toList "! Title: ads-2\n||b.example^".toList]

/-- The run is safe, and a restart gives back what was in memory. -/
theorem restart_edits_example :
  (titledStore "easylist".toList).start.SafeRun safeEdits
    ∧ ∀ l ∈ ((titledStore "easylist".toList).start.edits safeEdits).core.lists,
      l.name ≠ customList →
        ∃ l' ∈ ((titledStore "easylist".toList).start.edits safeEdits).store.start.core.lists,
          l'.name = l.name ∧ l'.source = l.source ∧ l'.text = l.text
  := by
  have hsafe : (titledStore "easylist".toList).start.SafeRun safeEdits := by decide
  use hsafe
  apply (restart_edits (MemoryListStore.withStore_eq_start _) hsafe
    (MemoryListStore.withStore_eq_start _)).1

/-- A list added under a name with a capital letter, and without a title, comes back under
another name. -/
theorem restart_edits_capital :
  ¬ ∀ l ∈ (MemoryListStore.new.start.edits
      [.addList "EasyList".toList "web ui".toList "||ads.example^".toList]).core.lists,
    l.name ≠ customList →
      ∃ l' ∈ (MemoryListStore.new.start.edits
          [.addList "EasyList".toList "web ui".toList
            "||ads.example^".toList]).store.start.core.lists,
        l'.name = l.name ∧ l'.source = l.source ∧ l'.text = l.text
  := by
  decide

end ListCuration
