import AdBlock.Curation.Order
import AdBlock.Engine.Cache

/-!
# Starting twice

The first start folds the stored lists together: one file is left for each name, and the custom rules
are in one file, each line once.  A second start finds nothing more to fold, in whatever order it is
handed the files, so that it leaves every file as it is, has the same lists, and finds the engine that
the first one has saved (`withStore_twice`).
-/

open ListStore

/-! ### Lines that are there once -/

section EraseDups

variable {α : Type} [BEq α] [LawfulBEq α]

theorem nodup_eraseDups (l : List α) :
  l.eraseDups.Nodup
  := by
  induction hlength : l.length using Nat.strong_induction_on generalizing l with
  | _ n ih =>
  cases l with
  | nil => exact List.nodup_nil
  | cons a l =>
    rw [List.eraseDups_cons, List.nodup_cons, List.mem_eraseDups]
    constructor
    · simp
    · apply ih _ _ _ rfl
      rw [← hlength, List.length_cons]
      exact Nat.lt_succ_of_le (List.length_filter_le _ _)

theorem eraseDups_of_nodup {l : List α} (h : l.Nodup) :
  l.eraseDups = l
  := by
  induction l with
  | nil => rfl
  | cons a l ih =>
    obtain ⟨ha, hl⟩ := List.nodup_cons.mp h
    have hfilter : l.filter (fun b => !b == a) = l := by
      rw [List.filter_eq_self]
      rintro b hb
      rw [Bool.not_eq_true', beq_eq_false_iff_ne]
      rintro rfl
      exact ha hb
    rw [List.eraseDups_cons, hfilter, ih hl]

/-- Putting the same elements in front once more changes nothing. -/
theorem eraseDups_append_eraseDups (as bs : List α) :
  (as ++ (as ++ bs).eraseDups).eraseDups = (as ++ bs).eraseDups
  := by
  have hold : as.eraseDups.removeAll as = [] := by
    rw [List.removeAll, List.filter_eq_nil_iff]
    intro a ha
    simpa using List.mem_eraseDups.mp ha
  have hnew : (bs.removeAll as).eraseDups.removeAll as = (bs.removeAll as).eraseDups := by
    rw [List.removeAll, List.filter_eq_self]
    intro b hb
    exact (List.mem_filter.mp (List.mem_eraseDups.mp hb)).2
  have hsplit : (as ++ bs).eraseDups.removeAll as = (bs.removeAll as).eraseDups := by
    rw [List.eraseDups_append, List.removeAll, List.filter_append]
    rw [List.removeAll] at hold hnew
    rw [hold, List.nil_append, hnew]
  rw [List.eraseDups_append, hsplit, eraseDups_of_nodup (nodup_eraseDups _), List.eraseDups_append]

end EraseDups

/-! ### The file of the custom list -/

/-- The lines of the custom list at startup. -/
def startupLines {σ : Type} [ListStore σ] (cfg : AdblockConfig) (store : σ) : List Text :=
  (cfg.configured ++ (reconcile [] (load store)).customLines).eraseDups

theorem stripSourceHeader_custom (text : Text) :
  stripSourceHeader (sourceMark ++ customSource ++ '\n' :: text) = text
  := by
  rw [stripSourceHeader, List.append_assoc, Text.stripPrefix_append]
  dsimp only
  rw [Text.splitOnce_append (by decide)]
  rfl

/-- Rules on single lines that are stored as the custom list read back as they are. -/
theorem customLines_custom {rules : List Text} (hline : ∀ rule ∈ rules, IsRuleLine rule)
    (hfeed : ∀ rule ∈ rules, '\n' ∉ rule) (id : ListId) (origin : Text) :
  StoredList.customLines
      ⟨id, origin, sourceMark ++ customSource ++ '\n' :: Text.join rules ['\n']⟩
    = rules
  := by
  have hlines : rules.flatMap Text.lines = rules := by
    calc rules.flatMap Text.lines
        = rules.flatMap fun rule => [rule] :=
          List.flatMap_congr fun rule h => Text.lines_of_not_mem (hline rule h).1 (hfeed rule h)
      _ = rules := List.flatMap_singleton' rules
  have htrim : rules.map Text.trim = rules := by
    rw [List.map_congr_left fun rule h => (hline rule h).2, List.map_id']
  rw [StoredList.customLines, stripSourceHeader_custom, lines_join_of_isRuleLine hline, hlines,
    htrim, List.filter_eq_self]
  intro rule h
  exact decide_eq_true (hline rule h).1

section Lines

variable {σ : Type} [ListStore σ] {cfg : AdblockConfig} {store : σ}

theorem isRuleLine_of_mem_startupLines :
  ∀ rule ∈ startupLines cfg store, IsRuleLine rule
  := by
  intro rule h
  rcases List.mem_append.mp (List.mem_eraseDups.mp h) with h | h
  · apply AdblockConfig.isRuleLine_of_mem_configured h
  · apply isRuleLine_of_mem_reconcile h

theorem not_mem_of_mem_startupLines (hcfg : ∀ rule ∈ cfg.customRules, '\n' ∉ rule) :
  ∀ rule ∈ startupLines cfg store, '\n' ∉ rule
  := by
  intro rule h hfeed
  rcases List.mem_append.mp (List.mem_eraseDups.mp h) with h | h
  · obtain ⟨l, hl, rfl⟩ := List.mem_map.mp (List.mem_filter.mp h).1
    apply hcfg l hl (Text.mem_of_mem_trim hfeed)
  · rw [customLines_reconcile] at h
    obtain ⟨s, -, h⟩ := List.mem_flatMap.mp h
    obtain ⟨l, hl, rfl⟩ := List.mem_map.mp (List.mem_filter.mp h).1
    apply Text.not_mem_of_mem_lines hl (Text.mem_of_mem_trim hfeed)

end Lines

/-! ### The second start -/

section Twice

variable {A : Library} {σ : Type} [ListStore σ] [KeepingListStore σ] {cfg : AdblockConfig}
  {file : Option (Except Error (List A.Resource))} {store store₂ : σ} {cacheFile : Option Bytes}
  {saves : List (UInt64 × A.Engine)} {s : ListCuration A σ}

section Get

variable (hnodup : ((load store).map StoredList.id).Nodup)
  (h : withStore cfg file store cacheFile saves = .ok s)

include hnodup h

theorem get_withStore_custom :
  get s.store (ListId.of customList)
    = some (sourceMark ++ customSource ++ '\n' :: startupText cfg store)
  := by
  obtain ⟨origin, hperm⟩ := load_withStore hnodup h
  rw [get_eq_some_iff (nodup_load_withStore hnodup h)]
  exact ⟨_, hperm.mem_iff.mpr List.mem_cons_self, rfl, rfl⟩

theorem get_withStore_of_kept {id : ListId} (hne : id ≠ ListId.of customList)
    (hkept : id ∉ (reconcile [] (load store)).remove) :
  get s.store id = get store id
  := by
  obtain ⟨origin, hperm⟩ := load_withStore hnodup h
  apply Option.ext
  intro text
  rw [get_eq_some_iff (nodup_load_withStore hnodup h), get_eq_some_iff hnodup]
  constructor
  · rintro ⟨x, hx, rfl, rfl⟩
    rcases List.mem_cons.mp (hperm.mem_iff.mp hx) with rfl | hx
    · exact absurd rfl hne
    · exact ⟨x, (List.mem_filter.mp hx).1, rfl, rfl⟩
  · rintro ⟨x, hx, rfl, rfl⟩
    refine ⟨x, hperm.mem_iff.mpr (List.mem_cons_of_mem _ ?_), rfl, rfl⟩
    exact List.mem_filter.mpr ⟨hx, decide_eq_true ⟨hkept, hne⟩⟩

end Get

section Second

variable (hnodup : ((load store).map StoredList.id).Nodup)
  (h : withStore cfg file store cacheFile saves = .ok s)
  (hload : (load store₂).Perm (load s.store))

include hnodup h hload

theorem nodup_load_second :
  ((load store₂).map StoredList.id).Nodup
  := (hload.map _).nodup_iff.mpr (nodup_load_withStore hnodup h)

/-- A stored list that is not of custom rules is there for the second start if it wins at the
first. -/
theorem mem_load_second_iff {x : StoredList} (hplain : ¬ x.isCustom) :
  x ∈ load store₂ ↔ x ∈ load store ∧ backing (load store) x.entry.name = some x
  := by
  rw [hload.mem_iff, store_withStore h]
  apply mem_load_startup hnodup _ hplain

/-- The same lists win at the second start. -/
theorem backing_second (name : Text) :
  backing (load store₂) name = backing (load store) name
  := by
  apply backing_of_kept
  intro x hplain
  apply mem_load_second_iff hnodup h hload hplain

/-- Of the files of custom rules, only that of the custom list is there for the second start. -/
theorem custom_load_second :
  ∃ origin, (load store₂).filter (·.isCustom)
    = [⟨ListId.of customList, origin,
        sourceMark ++ customSource ++ '\n' :: startupText cfg store⟩]
  := by
  obtain ⟨origin, hperm⟩ := load_withStore hnodup h
  use origin
  apply List.perm_singleton.mp
  apply ((hload.trans hperm).filter _).trans
  have hrest : ((load store).filter fun x => x.id ∉ (reconcile [] (load store)).remove
      ∧ x.id ≠ ListId.of customList).filter (·.isCustom) = [] := by
    rw [List.filter_eq_nil_iff]
    intro x hx hcustom
    obtain ⟨hx, hkept⟩ := List.mem_filter.mp hx
    obtain ⟨hkept, hne⟩ := of_decide_eq_true hkept
    -- the older file is always removed
    apply hkept
    rw [(reconcile_inv hnodup).removed]
    use x, hx, rfl
    left
    apply (of_decide_eq_true hcustom).resolve_left hne
  have hcustom : StoredList.isCustom ⟨ListId.of customList, origin,
      sourceMark ++ customSource ++ '\n' :: startupText cfg store⟩ := .inl rfl
  rw [List.filter_cons, if_pos (decide_eq_true hcustom), hrest]

theorem not_mem_remove_second (id : ListId) :
  id ∉ (reconcile [] (load store₂)).remove
  := by
  rw [(reconcile_inv (nodup_load_second hnodup h hload)).removed]
  rintro ⟨x, hx, -, hweb | ⟨hplain, hlost⟩⟩
  · obtain ⟨origin, hcustom⟩ := custom_load_second hnodup h hload
    have hmem : x ∈ (load store₂).filter (·.isCustom) :=
      List.mem_filter.mpr ⟨hx, decide_eq_true (.inr hweb)⟩
    rw [hcustom, List.mem_singleton] at hmem
    rw [hmem] at hweb
    have hne : ListId.of customList ≠ customWebId := by decide
    apply hne hweb
  · rw [backing_second hnodup h hload] at hlost
    exact hlost ((mem_load_second_iff hnodup h hload hplain).mp hx).2

theorem startupText_second (hcfg : ∀ rule ∈ cfg.customRules, '\n' ∉ rule) :
  startupText cfg store₂ = startupText cfg store
  := by
  obtain ⟨origin, hcustom⟩ := custom_load_second hnodup h hload
  have htext : startupText cfg store = Text.join (startupLines cfg store) ['\n'] := rfl
  have hlines : (reconcile [] (load store₂)).customLines = startupLines cfg store := by
    rw [customLines_reconcile, hcustom, List.flatMap_singleton, htext]
    apply customLines_custom isRuleLine_of_mem_startupLines (not_mem_of_mem_startupLines hcfg)
  have htext₂ : startupText cfg store₂ = Text.join (startupLines cfg store₂) ['\n'] := rfl
  rw [htext₂, htext, startupLines, hlines, startupLines, eraseDups_append_eraseDups]

end Second

/-- A second start, in whatever order it is handed the files, leaves every stored file as it is, has
the same lists and the same engine key, and finds an engine that was saved under the key of the
first. -/
theorem withStore_twice (hnodup : ((load store).map StoredList.id).Nodup)
    (hcfg : ∀ rule ∈ cfg.customRules, '\n' ∉ rule)
    (h : withStore cfg file store cacheFile saves = .ok s)
    (hload : (load store₂).Perm (load s.store)) (cacheFile₂ : Option Bytes)
    (saves₂ : List (UInt64 × A.Engine)) :
  ∃ s₂, withStore cfg file store₂ cacheFile₂ saves₂ = .ok s₂
    ∧ (∀ id, get s₂.store id = get s.store id)
    ∧ s₂.core.lists.Perm s.core.lists
    ∧ engineKey A s₂.core.lists = engineKey A s.core.lists
    ∧ ∀ cached engine body, A.serializeRaw engine = some body →
      loadCachedEngine (saveCachedEngine cached (engineKey A s.core.lists) engine true)
        (engineKey A s₂.core.lists) = A.deserialize body
  := by
  obtain ⟨scriptlets, hscriptlets, -⟩ := withStore_inv h
  obtain ⟨s₂, h₂⟩ : ∃ s₂, withStore cfg file store₂ cacheFile₂ saves₂ = .ok s₂ := by
    rw [withStore, hscriptlets]
    exact ⟨_, rfl⟩
  have hnodup₂ := nodup_load_second hnodup h hload
  have htext := startupText_second hnodup h hload hcfg
  have hlists : s₂.core.lists.Perm s.core.lists := by
    rw [lists_withStore h₂, lists_withStore h, htext]
    apply (lists_perm_of_backing_eq hnodup₂ hnodup (backing_second hnodup h hload)).append_right
  have hkey : engineKey A s₂.core.lists = engineKey A s.core.lists := by
    rw [engineKey_eq, engineKey_eq, engineSequence_of_perm hlists]
  refine ⟨s₂, h₂, ?_, hlists, hkey, ?_⟩
  · intro id
    by_cases hid : id = ListId.of customList
    · rw [hid, get_withStore_custom hnodup₂ h₂, get_withStore_custom hnodup h, htext]
    · rw [get_withStore_of_kept hnodup₂ h₂ hid (not_mem_remove_second hnodup h hload id)]
      apply get_of_perm hnodup₂ hload
  · intro cached engine body hbody
    rw [hkey]
    apply loadCachedEngine_saveCachedEngine hbody

end Twice

/-- A directory with two files of one title and an older file of custom rules. -/
def foldedFiles : DiskStore where
  dir := "lists".toList
  files := [(⟨"custom-web".toList⟩, "||ads.example^\n||ads.test^".toList),
    (⟨"ads".toList⟩, "! Title: EasyList\n||ads.example^".toList),
    (⟨"easylist".toList⟩, "! Title: EasyList\n||ads.test^".toList)]

/-- The first start deletes two of the three files and writes one; the second changes none. -/
theorem withStore_twice_foldedFiles :
  (∀ id, get foldedFiles.start.store.reversed.start.store id = get foldedFiles.start.store id)
    ∧ foldedFiles.start.store.reversed.start.core.lists.Perm foldedFiles.start.core.lists
  := by
  have hnodup : ((load foldedFiles).map StoredList.id).Nodup := by decide
  obtain ⟨s₂, h₂, hfiles, hlists, -⟩ := withStore_twice hnodup (by rintro _ ⟨⟩)
    (DiskStore.withStore_eq_start foldedFiles) (DiskStore.load_reversed_perm _) none []
  obtain rfl := Except.ok.inj ((DiskStore.withStore_eq_start _).symm.trans h₂)
  exact ⟨hfiles, hlists⟩
