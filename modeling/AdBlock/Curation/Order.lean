import AdBlock.Curation.Backing

/-!
# The order of the stored lists

A directory may hand the stored lists over in any order.  The order decides which list wins for a
name only if several read back under it and none has the id that belongs to it; for the other names
(`Settled`), the lists that startup keeps, the custom rules and the files that it deletes are the
same in any order (`startup_order_iff`).
-/

open ListStore

/-! ### Custom rules -/

/-- The lines of custom rules are those of the files of custom rules, in order. -/
theorem customLines_reconcile (stored : List StoredList) :
  (reconcile [] stored).customLines
    = (stored.filter (·.isCustom)).flatMap StoredList.customLines
  := by
  induction stored using List.reverseRecOn with
  | nil => rfl
  | append_singleton stored s ih =>
    rw [reconcile] at ih
    rw [reconcile, List.foldl_concat, List.filter_append, List.flatMap_append, ← ih]
    by_cases hs : s.isCustom
    · simp [reconcileStep, hs]
    · rw [reconcileStep, if_neg hs]
      dsimp only
      split
      · split
        · simp [hs]
        · simp [hs]
      · simp [hs]

/-- A line of custom rules is trimmed, and not empty. -/
def IsRuleLine (line : Text) : Prop :=
  line ≠ [] ∧ Text.trim line = line

theorem isRuleLine_of_mem {lines : List Text} {line : Text}
    (h : line ∈ (lines.map Text.trim).filter (· ≠ [])) :
  IsRuleLine line
  := by
  obtain ⟨hmem, hne⟩ := List.mem_filter.mp h
  obtain ⟨l, -, rfl⟩ := List.mem_map.mp hmem
  exact ⟨of_decide_eq_true hne, Text.trim_trim l⟩

theorem isRuleLine_of_mem_reconcile {stored : List StoredList} {line : Text}
    (h : line ∈ (reconcile [] stored).customLines) :
  IsRuleLine line
  := by
  rw [customLines_reconcile] at h
  obtain ⟨s, -, hline⟩ := List.mem_flatMap.mp h
  apply isRuleLine_of_mem hline

namespace AdblockConfig

/-- The custom rules of the configuration. -/
def configured (cfg : AdblockConfig) : List Text :=
  (cfg.customRules.map Text.trim).filter (· ≠ [])

theorem isRuleLine_of_mem_configured {cfg : AdblockConfig} {line : Text}
    (h : line ∈ cfg.configured) :
  IsRuleLine line
  := isRuleLine_of_mem h

end AdblockConfig

/-- Rules that are joined by line feeds keep their lines. -/
theorem lines_join_of_isRuleLine {pieces : List Text} (h : ∀ p ∈ pieces, IsRuleLine p) :
  Text.lines (Text.join pieces ['\n']) = pieces.flatMap Text.lines
  := by
  apply Text.lines_join
  intro p hp
  obtain ⟨hne, htrim⟩ := h p hp
  -- whitespace at the end would have been trimmed
  have hlast {c : Char} (hc : Unicode.isWhitespace c = true) : p.getLast? ≠ some c := by
    intro h
    rw [← htrim] at h
    rw [Text.getLast?_trim h] at hc
    cases hc
  exact ⟨hne, hlast rfl, hlast rfl⟩

theorem mem_lines_customText_iff {cfg : AdblockConfig} {rules : List Text}
    (h : ∀ line ∈ rules, IsRuleLine line) {line : Text} :
  line ∈ Text.lines (customText cfg rules)
    ↔ ∃ p ∈ cfg.configured ++ rules, line ∈ Text.lines p
  := by
  have hpieces : ∀ p ∈ (cfg.configured ++ rules).eraseDups, IsRuleLine p := by
    intro p hp
    rcases List.mem_append.mp (List.mem_eraseDups.mp hp) with hp | hp
    · apply AdblockConfig.isRuleLine_of_mem_configured hp
    · apply h p hp
  have htext : customText cfg rules
      = Text.join (cfg.configured ++ rules).eraseDups ['\n'] := rfl
  rw [htext, lines_join_of_isRuleLine hpieces, List.mem_flatMap]
  simp only [List.mem_eraseDups]

/-! ### The lists that win -/

/-- The order does not decide which stored list wins for a name: one has the id that belongs to the
name, or there is at most one. -/
def Settled (stored : List StoredList) (name : Text) : Prop :=
  (∃ x ∈ readingAs stored name, x.id = ListId.of name) ∨ (readingAs stored name).length ≤ 1

instance (stored : List StoredList) (name : Text) : Decidable (Settled stored name) :=
  inferInstanceAs (Decidable (_ ∨ _))

section Perm

variable {stored stored' : List StoredList} (hnodup : (stored.map StoredList.id).Nodup)
  (h : stored.Perm stored')

include h

theorem readingAs_perm (name : Text) :
  (readingAs stored name).Perm (readingAs stored' name)
  := h.filter _

omit h in
/-- Stored lists of which the same win give the same lists. -/
theorem lists_perm_of_backing_eq (hnodup : (stored.map StoredList.id).Nodup)
    (hnodup' : (stored'.map StoredList.id).Nodup)
    (hbacking : ∀ name, backing stored name = backing stored' name) :
  (reconcile [] stored).lists.Perm (reconcile [] stored').lists
  := by
  have hinv := reconcile_inv hnodup
  have hinv' := reconcile_inv hnodup'
  rw [List.perm_ext_iff_of_nodup hinv.nodup.of_map hinv'.nodup.of_map]
  intro l
  have hmem : l ∈ (reconcile [] stored).lists
      ↔ findList (reconcile [] stored).lists l.name = some l := by
    rw [findList_eq_some_iff hinv.nodup, and_iff_left rfl]
  have hmem' : l ∈ (reconcile [] stored').lists
      ↔ findList (reconcile [] stored').lists l.name = some l := by
    rw [findList_eq_some_iff hinv'.nodup, and_iff_left rfl]
  rw [hmem, hmem', hinv.find, hinv'.find, hbacking]

include hnodup

theorem backing_of_perm {name : Text} (hsettled : Settled stored name) :
  backing stored name = backing stored' name
  := by
  have hnodup' : (stored'.map StoredList.id).Nodup := (h.map _).nodup_iff.mp hnodup
  rcases hsettled with ⟨x, hx, hid⟩ | hlength
  · have hx' := (readingAs_perm h name).mem_iff.mp hx
    rw [backing_of_canonical hnodup hx hid, backing_of_canonical hnodup' hx' hid]
  · have hreading : readingAs stored name = readingAs stored' name := by
      have hperm := readingAs_perm h name
      match hlist : readingAs stored name with
      | [] =>
        rw [hlist] at hperm
        rw [List.nil_perm.mp hperm]
      | [x] =>
        rw [hlist] at hperm
        rw [List.singleton_perm.mp hperm]
      | x :: y :: rest => simp [hlist] at hlength
    rw [backing, backing, hreading]

/-- The same stored lists, of which the same win, give the same files to remove. -/
theorem mem_remove_of_backing_eq (hbacking : ∀ name, backing stored name = backing stored' name)
    (id : ListId) :
  id ∈ (reconcile [] stored).remove ↔ id ∈ (reconcile [] stored').remove
  := by
  have hnodup' : (stored'.map StoredList.id).Nodup := (h.map _).nodup_iff.mp hnodup
  simp only [(reconcile_inv hnodup).removed, (reconcile_inv hnodup').removed, Lost, hbacking,
    h.mem_iff]

omit hnodup in
theorem mem_customLines_of_perm {line : Text} :
  line ∈ (reconcile [] stored).customLines ↔ line ∈ (reconcile [] stored').customLines
  := by
  simp only [customLines_reconcile, List.mem_flatMap, List.mem_filter, h.mem_iff]

end Perm

/-! ### Startup -/

section WithStore

variable {A : Library} {σ : Type} [ListStore σ] {cfg : AdblockConfig}
  {file : Option (Except Error (List A.Resource))} {store store' : σ} {cacheFile : Option Bytes}
  {saves : List (UInt64 × A.Engine)} {s s' : ListCuration A σ}

/-- A stored file is not there any more. -/
def Deleted (store store' : σ) (id : ListId) : Prop :=
  get store id ≠ none ∧ get store' id = none

/-- Two starts give the same lists, where the custom lists have the same lines, and delete the same
files. -/
structure SameStart (store store' : σ) (s s' : ListCuration A σ) : Prop where
  lists : ∃ lists text text', s.core.lists.Perm (customEntry text :: lists)
    ∧ s'.core.lists.Perm (customEntry text' :: lists)
    ∧ ∀ line, line ∈ Text.lines text ↔ line ∈ Text.lines text'
  deleted (id : ListId) : Deleted store s.store id ↔ Deleted store' s'.store id

/-- No file of the custom list is removed. -/
theorem custom_not_mem_remove {stored : List StoredList}
    (hnodup : (stored.map StoredList.id).Nodup) :
  ListId.of customList ∉ (reconcile [] stored).remove
  := by
  rw [(reconcile_inv hnodup).removed]
  rintro ⟨x, -, hid, hweb | ⟨hplain, -⟩⟩
  · rw [hid] at hweb
    exact absurd hweb (by decide)
  · exact hplain (.inl hid)

variable [KeepingListStore σ]

/-- After startup there are the file of the custom list and those that are not removed. -/
theorem load_withStore (hnodup : ((load store).map StoredList.id).Nodup)
    (h : withStore cfg file store cacheFile saves = .ok s) :
  ∃ origin, (load s.store).Perm
    (⟨ListId.of customList, origin, sourceMark ++ customSource ++ '\n' :: startupText cfg store⟩
      :: (load store).filter fun x =>
        x.id ∉ (reconcile [] (load store)).remove ∧ x.id ≠ ListId.of customList)
  := by
  rw [store_withStore h]
  apply load_startupStore hnodup

theorem nodup_load_withStore (hnodup : ((load store).map StoredList.id).Nodup)
    (h : withStore cfg file store cacheFile saves = .ok s) :
  ((load s.store).map StoredList.id).Nodup
  := by
  rw [store_withStore h, startupStore]
  apply nodup_load_persist
  rw [load_removeAll]
  apply hnodup.sublist (List.filter_sublist.map _)

/-- Startup deletes the files that it removes. -/
theorem deleted_withStore_iff (hnodup : ((load store).map StoredList.id).Nodup)
    (h : withStore cfg file store cacheFile saves = .ok s) (id : ListId) :
  Deleted store s.store id ↔ id ∈ (reconcile [] (load store)).remove
  := by
  obtain ⟨origin, hperm⟩ := load_withStore hnodup h
  have hgone : get s.store id = none ↔ id ≠ ListId.of customList
      ∧ ∀ x ∈ load store, x.id ∉ (reconcile [] (load store)).remove →
        x.id ≠ ListId.of customList → x.id ≠ id := by
    rw [get_eq_none_iff]
    simp only [hperm.mem_iff, List.forall_mem_cons, List.mem_filter, decide_eq_true_eq, and_imp,
      ne_comm (a := ListId.of customList)]
  rw [Deleted, hgone, ne_eq, get_eq_none_iff]
  constructor
  · rintro ⟨hstored, hne, hall⟩
    by_contra hkept
    apply hstored
    rintro x hx rfl
    apply hall x hx hkept hne rfl
  · intro hid
    have hne : id ≠ ListId.of customList := by
      rintro rfl
      exact custom_not_mem_remove hnodup hid
    refine ⟨?_, hne, ?_⟩
    · intro hall
      obtain ⟨x, hx, hxid, -⟩ := ((reconcile_inv hnodup).removed id).mp hid
      apply hall x hx hxid
    · rintro x - hkept - rfl
      exact hkept hid

/-- Two starts on the same stored lists, of which the same win. -/
theorem sameStart_of_backing_eq (hnodup : ((load store).map StoredList.id).Nodup)
    (hperm : (load store).Perm (load store'))
    (hbacking : ∀ name, backing (load store) name = backing (load store') name)
    (h : withStore cfg file store cacheFile saves = .ok s)
    (h' : withStore cfg file store' cacheFile saves = .ok s') :
  SameStart store store' s s'
  := by
  have hnodup' : ((load store').map StoredList.id).Nodup := (hperm.map _).nodup_iff.mp hnodup
  have hlists := lists_perm_of_backing_eq hnodup hnodup' hbacking
  constructor
  · refine ⟨(reconcile [] (load store)).lists, startupText cfg store, startupText cfg store',
      ?_, ?_, ?_⟩
    · rw [lists_withStore h]
      apply List.perm_append_singleton
    · rw [lists_withStore h']
      apply (List.perm_append_singleton _ _).trans (hlists.symm.cons _)
    · intro line
      rw [startupText, startupText, mem_lines_customText_iff fun _ => isRuleLine_of_mem_reconcile,
        mem_lines_customText_iff fun _ => isRuleLine_of_mem_reconcile]
      simp only [List.mem_append, mem_customLines_of_perm hperm]
  · intro id
    rw [deleted_withStore_iff hnodup h, deleted_withStore_iff hnodup' h',
      mem_remove_of_backing_eq hnodup hperm hbacking]

end WithStore

/-! ### Directories -/

section Directory

variable {A : Library} {cfg : AdblockConfig} {file : Option (Except Error (List A.Resource))}
  {store : DiskStore} {cacheFile : Option Bytes} {saves : List (UInt64 × A.Engine)}
  {s : ListCuration A DiskStore}

/-- Every name is settled if those of the stored lists are. -/
theorem settled_of_forall {stored : List StoredList}
    (h : ∀ x ∈ stored, ¬ x.isCustom → Settled stored x.entry.name) (name : Text) :
  Settled stored name
  := by
  cases hlist : readingAs stored name with
  | nil =>
    right
    rw [hlist]
    exact Nat.zero_le 1
  | cons x rest =>
    have hx : x ∈ readingAs stored name := hlist ▸ List.mem_cons_self
    obtain ⟨hmem, hplain, rfl⟩ := mem_readingAs.mp hx
    apply h x hmem hplain

/-- If a name is not settled, the order of the files can make another list win. -/
theorem exists_order_of_not_settled (hnodup : (store.files.map Prod.fst).Nodup) {name : Text}
    (h : ¬ Settled (load store) name) :
  ∃ files, files.Perm store.files
    ∧ backing (load { store with files }) name ≠ backing (load store) name
  := by
  rw [Settled, not_or, not_le, not_exists] at h
  obtain ⟨hcanonical, hlength⟩ := h
  have hnone : (readingAs (load store) name).find? (fun s => s.id = ListId.of name) = none := by
    rw [List.find?_eq_none]
    intro x hx hid
    apply hcanonical x ⟨hx, of_decide_eq_true hid⟩
  match hlist : readingAs (load store) name with
  | [] => simp [hlist] at hlength
  | [x] => simp [hlist] at hlength
  | x :: y :: rest =>
    have hnodupLists : (readingAs (load store) name).Nodup := by
      apply List.Nodup.filter
      rw [← DiskStore.map_id_load] at hnodup
      apply hnodup.of_map
    have hne : x ≠ y := by
      rw [hlist, List.nodup_cons] at hnodupLists
      rintro rfl
      apply hnodupLists.1 List.mem_cons_self
    have hy : y ∈ readingAs (load store) name := by
      rw [hlist]
      simp
    obtain ⟨hymem, hplain, hname⟩ := mem_readingAs.mp hy
    rw [DiskStore.load_eq, List.mem_map] at hymem
    obtain ⟨f, hf, hfy⟩ := hymem
    -- the second file comes first
    have hperm : (f :: store.files.erase f).Perm store.files := (List.perm_cons_erase hf).symm
    have hload : load { store with files := f :: store.files.erase f }
        = y :: load { store with files := store.files.erase f } := by
      rw [DiskStore.load_eq, List.map_cons, ← hfy]
      rfl
    have hreading : readingAs (load { store with files := f :: store.files.erase f }) name
        = y :: readingAs (load { store with files := store.files.erase f }) name := by
      rw [hload, readingAs, List.filter_cons_of_pos (by simp [hplain, hname])]
      rfl
    have hnone' : (readingAs (load { store with files := f :: store.files.erase f }) name).find?
        (fun s => s.id = ListId.of name) = none := by
      have hloads : (load { store with files := f :: store.files.erase f }).Perm (load store) :=
        hperm.map _
      rw [List.find?_eq_none] at hnone ⊢
      intro z hz
      apply hnone z ((readingAs_perm hloads name).mem_iff.mp hz)
    use f :: store.files.erase f, hperm
    rw [backing, hnone', hreading, backing, hnone, hlist]
    intro heq
    exact hne (Option.some_injective _ heq).symm

/-- Startup gives the same lists and deletes the same files in any order of the directory, exactly
when for every name that stored lists read back under, one of them has the id that belongs to the
name or there is only one. -/
theorem startup_order_iff (hnodup : (store.files.map Prod.fst).Nodup)
    (h : withStore cfg file store cacheFile saves = .ok s) :
  (∀ files, files.Perm store.files → ∀ s',
      withStore cfg file { store with files } cacheFile saves = .ok s' →
        SameStart store { store with files } s s')
    ↔ ∀ x ∈ load store, ¬ x.isCustom → Settled (load store) x.entry.name
  := by
  have hids : ((load store).map StoredList.id).Nodup := by
    rw [DiskStore.map_id_load]
    exact hnodup
  constructor
  · intro hsame x hx hplain
    by_contra hsettled
    obtain ⟨files, hperm, hbacking⟩ := exists_order_of_not_settled hnodup hsettled
    have hloads : (load { store with files }).Perm (load store) := hperm.map _
    have hids' : ((load { store with files }).map StoredList.id).Nodup :=
      (hloads.map _).nodup_iff.mpr hids
    obtain ⟨scriptlets, hscriptlets, -⟩ := withStore_inv h
    have h' : withStore cfg file { store with files } cacheFile saves
        = .ok (startupState cfg scriptlets { store with files } cacheFile saves) := by
      rw [withStore, hscriptlets]
      rfl
    have hdeleted := (hsame files hperm _ h').deleted
    simp only [deleted_withStore_iff hids h, deleted_withStore_iff hids' h'] at hdeleted
    -- the list that wins in the one order is deleted in the other
    have hreading : readingAs (load store) x.entry.name ≠ [] :=
      List.ne_nil_of_mem (mem_readingAs.mpr ⟨hx, hplain, rfl⟩)
    obtain ⟨t, ht⟩ := Option.ne_none_iff_exists'.mp (mt backing_eq_none_iff.mp hreading)
    obtain ⟨htmem, htplain, htname⟩ := mem_readingAs.mp (mem_readingAs_of_backing ht)
    have hkept := (reconcile_inv hids).removed_iff hids htmem htplain
    have hlost := (reconcile_inv hids').removed_iff hids' (hloads.mem_iff.mpr htmem) htplain
    rw [← hdeleted, hkept, htname, ht] at hlost
    rw [ht] at hbacking
    exact absurd rfl (hlost.mpr hbacking)
  · intro hsettled files hperm s' h'
    have hloads : (load store).Perm (load { store with files }) := hperm.symm.map _
    apply sameStart_of_backing_eq hids hloads _ h h'
    intro name
    apply backing_of_perm hids hloads (settled_of_forall hsettled name)

/-- A directory with two files of one title. -/
def twoFiles (first second : String) : DiskStore where
  dir := "lists".toList
  files := [(⟨first.toList⟩, "! Title: EasyList\n||ads.example^".toList),
    (⟨second.toList⟩, "! Title: EasyList\n||ads.test^".toList)]

/-- The state after startup on a directory, with the plain configuration and the library that
counts. -/
def DiskStore.start (store : DiskStore) : ListCuration Library.counting DiskStore :=
  startupState AdblockConfig.plain ⟨false, [], []⟩ store none []

theorem DiskStore.withStore_eq_start (store : DiskStore) :
  withStore AdblockConfig.plain none store none [] = .ok store.start
  := rfl

/-- A directory in the other order. -/
def DiskStore.reversed (store : DiskStore) : DiskStore :=
  { store with files := store.files.reverse }

theorem DiskStore.load_reversed_perm (store : DiskStore) :
  (load store.reversed).Perm (load store)
  := by
  rw [DiskStore.load_eq, DiskStore.load_eq]
  apply (List.reverse_perm store.files).map

/-- If one of the two has the id that belongs to the title, the order does not matter. -/
theorem startup_order_canonical :
  SameStart (twoFiles "ads" "easylist") (twoFiles "ads" "easylist").reversed
    (twoFiles "ads" "easylist").start (twoFiles "ads" "easylist").reversed.start
  := by
  apply (startup_order_iff (by decide) (DiskStore.withStore_eq_start _)).mpr
  · decide
  · apply List.reverse_perm
  · rfl

/-- If neither has, the first one is kept and the other is deleted. -/
theorem startup_order_reversed :
  ¬ SameStart (twoFiles "ads" "more") (twoFiles "ads" "more").reversed
    (twoFiles "ads" "more").start (twoFiles "ads" "more").reversed.start
    ∧ Deleted (twoFiles "ads" "more") (twoFiles "ads" "more").start.store ⟨"more".toList⟩
    ∧ Deleted (twoFiles "ads" "more").reversed (twoFiles "ads" "more").reversed.start.store
      ⟨"ads".toList⟩
  := by
  have hfirst : Deleted (twoFiles "ads" "more") (twoFiles "ads" "more").start.store
      ⟨"more".toList⟩ := by
    rw [deleted_withStore_iff (by decide) (DiskStore.withStore_eq_start _)]
    decide +kernel
  have hsecond : Deleted (twoFiles "ads" "more").reversed
      (twoFiles "ads" "more").reversed.start.store ⟨"ads".toList⟩ := by
    rw [deleted_withStore_iff (by decide) (DiskStore.withStore_eq_start _)]
    decide +kernel
  refine ⟨?_, hfirst, hsecond⟩
  intro hsame
  have hads := (hsame.deleted ⟨"ads".toList⟩).mpr hsecond
  rw [deleted_withStore_iff (by decide) (DiskStore.withStore_eq_start _)] at hads
  revert hads
  decide +kernel

end Directory
