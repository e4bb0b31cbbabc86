import AdBlock.Curation.Restart

/-!
# Installing a download

What `installDownloaded` does to the lists in memory and to the store, in four cases
(`installDownloaded_cases`): the text is turned down, its name is empty, the store does not take
its file, or it is installed.  From the cases follow when a failed install leaves everything as
it was, when a refresh leaves a list switched off, and when an install touches no other list.
-/

open ListStore

namespace ListCuration

variable {A : Library} {σ : Type} [ListStore σ]

/-! ### Taking out several lists -/

theorem mem_withoutAll (s : ListCuration A σ) {names : List Text} {l : ListEntry} :
  l ∈ (s.withoutAll names).core.lists ↔ l ∈ s.core.lists ∧ l.name ∉ names
  := by
  induction names generalizing s with
  | nil => simp [withoutAll]
  | cons name names ih =>
    rw [withoutAll, List.foldl_cons, ← withoutAll, ih, without_lists, retainOthers,
      List.mem_filter, List.mem_cons, not_or, decide_eq_true_eq, and_assoc]

theorem findList_withoutAll (s : ListCuration A σ) {names : List Text} {name : Text}
    (hname : name ∉ names) :
  findList (s.withoutAll names).core.lists name = findList s.core.lists name
  := by
  induction names generalizing s with
  | nil => rfl
  | cons other names ih =>
    obtain ⟨hne, hmem⟩ := not_or.mp (List.mem_cons.not.mp hname)
    rw [withoutAll, List.foldl_cons, ← withoutAll, ih (s.without other) hmem, without_lists,
      findList_retainOthers, if_neg hne]

/-- The file of a name is among those that are dropped for a list of names. -/
def DroppedFor (names : List Text) (id : ListId) : Prop :=
  ∃ name ∈ names, id = ListId.of (sanitizeName name) ∧ id.key ≠ []

instance (names : List Text) (id : ListId) : Decidable (DroppedFor names id) :=
  inferInstanceAs (Decidable (∃ name ∈ names, _))

theorem mem_load_withoutAll (s : ListCuration A MemoryListStore) {names : List Text}
    {x : StoredList} :
  x ∈ load (s.withoutAll names).store ↔ x ∈ load s.store ∧ ¬ DroppedFor names x.id
  := by
  induction names generalizing s with
  | nil => simp [withoutAll, DroppedFor]
  | cons name names ih =>
    rw [withoutAll, List.foldl_cons, ← withoutAll, ih, without_store, mem_load_dropFile,
      DroppedFor, DroppedFor, List.exists_mem_cons_iff, not_or, and_assoc]

/-! ### The cases of an install -/

/-- The name that a download is installed under. -/
def installName (url text : Text) : Text := sanitizeName (downloadName url text)

variable (s : ListCuration A σ)

omit [ListStore σ] in
/-- The name of the download is not among those that are taken out for it. -/
theorem installName_not_mem_staleFor (given url text : Text) :
  installName url text ∉ s.staleFor given url text
  := by
  rw [staleFor, staleNames, List.mem_map]
  rintro ⟨l, hl, hname⟩
  have hne := of_decide_eq_true (List.mem_filter.mp hl).2
  exact hne.2 hname

/-- The list that a download becomes. -/
def installed (url text : Text) : ListEntry :=
  { name := installName url text
    source := url
    rules := countRules text
    enabled := listEnabled s.core.lists (installName url text)
    text := text }

omit [ListStore σ] in
@[simp]
theorem installed_name (url text : Text) :
  (s.installed url text).name = installName url text
  := by
  rw [installed]

/-- The file that is written for a download. -/
def installFile (url text : Text) : Text :=
  header url (listEnabled s.core.lists (installName url text)) ++ text

/-- What the store makes of the file of a download, once the lists of its URLs have been taken
out. -/
def installPersist (given url text : Text) : Except Error Unit × σ :=
  ListStore.persist (s.withoutAll (s.staleFor given url text)).store
    (ListId.of (installName url text)) (s.installFile url text)

/-- What an install does. -/
inductive InstallOutcome (given url text : Text) (result : Except Error ListEntry)
    (s' : ListCuration A σ) : Prop where
  /-- The text is turned down. -/
  | rejected (h : Rejected text) (e : Error) (hresult : result = .error e) (hstate : s' = s)
  /-- The title leaves no name. -/
  | unnamed (h : ¬ Rejected text) (hname : installName url text = [])
      (hresult : result = .error emptyNameError)
      (hstate : s' = s.withoutAll (s.staleFor given url text))
  /-- The store does not take the file. -/
  | refused (h : ¬ Rejected text) (hname : installName url text ≠ []) (e : Error) (store : σ)
      (hpersist : s.installPersist given url text = (.error e, store))
      (hresult : result = .error e)
      (hstate : s' = { s.withoutAll (s.staleFor given url text) with store := store })
  /-- The list is installed. -/
  | installed (h : ¬ Rejected text) (hname : installName url text ≠ []) (store : σ)
      (hpersist : s.installPersist given url text = (.ok (), store))
      (hresult : result = .ok (s.installed url text))
      (hstate : s' = (s.withoutAll (s.staleFor given url text)).withEntry store
        (s.installed url text))

variable {s s' : ListCuration A σ} {given url text : Text}

theorem installDownloaded_cases {result : Except Error ListEntry}
    (hrun : (installDownloaded given url text).run s = (result, s')) :
  s.InstallOutcome given url text result s'
  := by
  by_cases hrejected : Rejected text
  · obtain ⟨e, he⟩ := run_installDownloaded_of_rejected s hrejected given url
    rw [he] at hrun
    obtain ⟨hresult, hstate⟩ := Prod.mk.inj hrun
    apply InstallOutcome.rejected hrejected e hresult.symm hstate.symm
  have henabled : listEnabled (s.withoutAll (s.staleFor given url text)).core.lists
      (installName url text) = listEnabled s.core.lists (installName url text) := by
    rw [listEnabled, findList_withoutAll s (s.installName_not_mem_staleFor given url text),
      listEnabled]
  rw [run_installDownloaded s hrejected] at hrun
  by_cases hname : installName url text = []
  · rw [run_addList_of_empty _ hname] at hrun
    obtain ⟨hresult, hstate⟩ := Prod.mk.inj hrun
    apply InstallOutcome.unnamed hrejected hname hresult.symm hstate.symm
  obtain ⟨_ | ⟨⟩, store, hpersist⟩ : ∃ taken store,
      s.installPersist given url text = (taken, store) := ⟨_, _, rfl⟩
  · have hp := hpersist
    rw [installPersist, installFile, ← henabled] at hp
    rw [run_addList_error hname hp] at hrun
    obtain ⟨hresult, hstate⟩ := Prod.mk.inj hrun
    apply InstallOutcome.refused hrejected hname _ _ hpersist hresult.symm hstate.symm
  · have hp := hpersist
    rw [installPersist, installFile, ← henabled] at hp
    have hentry : newEntry (s.withoutAll (s.staleFor given url text)) (downloadName url text)
        url text = s.installed url text := by
      rw [newEntry, installed, ← installName, henabled]
    rw [run_addList_ok hname hp, hentry] at hrun
    obtain ⟨hresult, hstate⟩ := Prod.mk.inj hrun
    apply InstallOutcome.installed hrejected hname _ hpersist hresult.symm hstate.symm

theorem outcome_installDownloaded (s : ListCuration A σ) (given url text : Text) :
  s.InstallOutcome given url text ((installDownloaded given url text).run s).1
    ((installDownloaded given url text).run s).2
  := installDownloaded_cases rfl

/-! ### A failed install -/

/-- Taking out the lists of the URLs changes the lists, if there are any to take out. -/
theorem withoutAll_staleFor_lists_eq_iff :
  (s.withoutAll (s.staleFor given url text)).core.lists = s.core.lists
    ↔ s.staleFor given url text = []
  := by
  constructor
  · intro hlists
    rw [List.eq_nil_iff_forall_not_mem]
    intro name hname
    obtain ⟨l, hl, rfl⟩ := List.mem_map.mp hname
    have hmem : l ∈ (s.withoutAll (s.staleFor given url text)).core.lists := by
      rw [hlists]
      apply (List.mem_filter.mp hl).1
    apply ((mem_withoutAll s).mp hmem).2 hname
  · intro hnil
    rw [hnil]
    rfl

/-- A failed install leaves the lists, the engine and the stored files as they were exactly when
the text is turned down, or there was nothing to take out and, unless the name is empty, the
store has left its files alone. -/
theorem installDownloaded_error_iff {e : Error}
    (hrun : (installDownloaded given url text).run s = (.error e, s')) :
  (s'.core.lists = s.core.lists ∧ s'.core.engine = s.core.engine
      ∧ load s'.store = load s.store)
    ↔ Rejected text ∨ (s.staleFor given url text = [] ∧ (installName url text = [] ∨
        load (ListStore.persist s.store (ListId.of (installName url text))
          (s.installFile url text)).2 = load s.store))
  := by
  cases installDownloaded_cases hrun with
  | rejected h _ _ hstate => simp [h, hstate]
  | unnamed h hname _ hstate =>
    subst hstate
    simp only [h, hname, false_or, true_or, and_true]
    constructor
    · rintro ⟨hlists, -, -⟩
      apply withoutAll_staleFor_lists_eq_iff.mp hlists
    · intro hnil
      rw [hnil]
      and_intros
      all_goals rfl
  | refused h hname _ store hpersist _ hstate =>
    subst hstate
    simp only [h, hname, false_or]
    constructor
    · rintro ⟨hlists, -, hload⟩
      have hnil := withoutAll_staleFor_lists_eq_iff.mp hlists
      rw [installPersist, hnil] at hpersist
      use hnil
      apply Eq.trans _ hload
      exact congrArg (fun p => load p.2) hpersist
    · rintro ⟨hnil, hload⟩
      rw [installPersist, hnil] at hpersist
      rw [hnil]
      use rfl, rfl
      apply Eq.trans _ hload
      exact congrArg (fun p => load p.2) hpersist.symm
  | installed _ _ _ _ hresult _ => cases hresult

/-- The URL of a list. -/
def listUrl : Text := "https://lists.example/ads.txt".toList

/-- A store with one file in it that was downloaded from `listUrl`. -/
def downloadedStore (text : Text) : MemoryListStore :=
  MemoryListStore.new.seed "ads".toList (sourceMark ++ listUrl ++ '\n' :: text)

/-- A store with a list from another URL and custom rules. -/
def otherStore : MemoryListStore :=
  (MemoryListStore.new.seed "other".toList
    (sourceMark ++ "https://lists.example/other.txt\n||c.example^".toList)).seed customList
    "||a.example^".toList

/-- A download whose title leaves no name, where there is nothing to take out. -/
theorem installDownloaded_error_unnamed :
  otherStore.start.core.lists.map ListEntry.name = ["other".toList, customList]
    ∧ ((installDownloaded listUrl listUrl "! Title: ---\n||b.example^".toList).run
      otherStore.start).1 = .error emptyNameError
    ∧ ((installDownloaded listUrl listUrl "! Title: ---\n||b.example^".toList).run
      otherStore.start).2.core.lists = otherStore.start.core.lists
    ∧ load ((installDownloaded listUrl listUrl "! Title: ---\n||b.example^".toList).run
      otherStore.start).2.store = load otherStore.start.store
  := by
  have herror : ((installDownloaded listUrl listUrl "! Title: ---\n||b.example^".toList).run
      otherStore.start).1 = .error emptyNameError := by decide +kernel
  have hnothing : otherStore.start.staleFor listUrl listUrl "! Title: ---\n||b.example^".toList = []
      ∧ installName listUrl "! Title: ---\n||b.example^".toList = [] := by decide +kernel
  obtain ⟨hlists, -, hstore⟩ := (installDownloaded_error_iff (Prod.ext herror rfl)).mpr
    (.inr ⟨hnothing.1, .inl hnothing.2⟩)
  exact ⟨by decide +kernel, herror, hlists, hstore⟩

/-- The same download, where an earlier one from the same URL is taken out first: the install
fails, and the list is gone. -/
theorem installDownloaded_error_lost :
  ((installDownloaded listUrl listUrl "! Title: ---\n||b.example^".toList).run
      (downloadedStore "||a.example^".toList).start).1 = .error emptyNameError
    ∧ ((installDownloaded listUrl listUrl "! Title: ---\n||b.example^".toList).run
      (downloadedStore "||a.example^".toList).start).2.core.lists
        ≠ (downloadedStore "||a.example^".toList).start.core.lists
  := by
  decide

/-! ### Refreshing a list that is switched off -/

omit [ListStore σ] in
/-- A name counts as switched off exactly when the list of that name is. -/
theorem listEnabled_eq_false_iff (hunique : UniqueNames s.core.lists) {name : Text} :
  listEnabled s.core.lists name = false
    ↔ ∃ l ∈ s.core.lists, l.name = name ∧ l.enabled = false
  := by
  rw [listEnabled]
  constructor
  · intro henabled
    cases hfind : findList s.core.lists name with
    | none =>
      rw [hfind] at henabled
      cases henabled
    | some l =>
      rw [hfind] at henabled
      obtain ⟨hl, hname⟩ := findList_mem hfind
      use l, hl, hname
      apply henabled
  · rintro ⟨l, hl, hname, henabled⟩
    rw [(findList_eq_some_iff hunique).mpr ⟨hl, hname⟩]
    apply henabled

/-- An installed list is switched off, in memory and in its file, exactly when a list of its
name was there and switched off. -/
theorem installDownloaded_off_iff [LawfulListStore σ] {e : ListEntry}
    (hunique : UniqueNames s.core.lists)
    (hrun : (installDownloaded given url text).run s = (.ok e, s')) :
  (e.enabled = false ∧ (∀ l ∈ s'.core.lists, l.name = e.name → l.enabled = false)
      ∧ get s'.store (ListId.of e.name) = some (header url false ++ text))
    ↔ ∃ l ∈ s.core.lists, l.name = installName url text ∧ l.enabled = false
  := by
  rw [← listEnabled_eq_false_iff hunique]
  cases installDownloaded_cases hrun with
  | rejected _ _ hresult _ => cases hresult
  | unnamed _ _ hresult _ => cases hresult
  | refused _ _ _ _ _ hresult _ => cases hresult
  | installed _ _ store hpersist hresult hstate =>
    obtain rfl := Except.ok.inj hresult
    subst hstate
    constructor
    · rintro ⟨henabled, -⟩
      apply henabled
    · intro henabled
      and_intros
      · apply henabled
      · intro l hl hname
        rw [withEntry_lists] at hl
        rcases List.mem_append.mp hl with hother | hnew
        · exact absurd hname (name_ne_of_mem_retainOthers hother)
        · rw [List.mem_singleton.mp hnew]
          apply henabled
      · rw [installPersist, installFile, henabled] at hpersist
        have hget := LawfulListStore.get_persist hpersist (ListId.of (installName url text))
        rw [withEntry_store, installed_name, hget, if_pos rfl]

/-- A store with a downloaded list that is switched off. -/
def offStore : MemoryListStore :=
  downloadedStore (disabledMark ++ "! Title: ads\n||a.example^".toList)

/-- A refresh under the same title leaves the list switched off. -/
theorem installDownloaded_off_same_title :
  ∃ e, ((installDownloaded listUrl listUrl "! Title: ads\n||b.example^".toList).run
      offStore.start).1 = .ok e ∧ e.enabled = false
  := by
  have hok : ((installDownloaded listUrl listUrl "! Title: ads\n||b.example^".toList).run
      offStore.start).1
        = .ok (offStore.start.installed listUrl "! Title: ads\n||b.example^".toList) := by
    decide
  use offStore.start.installed listUrl "! Title: ads\n||b.example^".toList, hok
  apply ((installDownloaded_off_iff _ (Prod.ext hok rfl)).mpr _).1
  · decide
  · decide

/-- A refresh under another title switches the list on, although all lists of the URL were
switched off. -/
theorem installDownloaded_off_other_title :
  UniqueNames offStore.start.core.lists
    ∧ (∃ l ∈ offStore.start.core.lists, l.source = listUrl)
    ∧ (∀ l ∈ offStore.start.core.lists, l.source = listUrl → l.enabled = false)
    ∧ (((installDownloaded listUrl listUrl "! Title: ads-2\n||b.example^".toList).run
        offStore.start).1.map ListEntry.enabled) = .ok true
  := by
  decide

/-! ### The other lists -/

/-- The file belongs to a list: the list is written to it, or a restart takes the list from it. -/
def Backs (store : MemoryListStore) (name : Text) (x : StoredList) : Prop :=
  x.id = ListId.of name ∨ name ≠ customList ∧ backing (load store) name = some x

instance (store : MemoryListStore) (name : Text) : DecidablePred (Backs store name) :=
  fun x => inferInstanceAs (Decidable (x.id = ListId.of name ∨ _))

section Frame

variable (s : ListCuration A MemoryListStore)

/-- What is in memory after an install that is not turned down. -/
theorem mem_installDownloaded_iff (h : ¬ Rejected text) {l : ListEntry}
    (hl : l ∈ s.core.lists) (hsource : l.source ≠ url) :
  l ∈ ((installDownloaded given url text).run s).2.core.lists
    ↔ l.name ∉ s.staleFor given url text
      ∧ (installName url text = [] ∨ l.name ≠ installName url text)
  := by
  have hne : l ≠ s.installed url text := by
    rintro rfl
    exact hsource rfl
  cases s.outcome_installDownloaded given url text with
  | rejected hrejected _ _ _ => exact absurd hrejected h
  | unnamed _ hname _ hstate =>
    rw [hstate, mem_withoutAll]
    simp [hl, hname]
  | refused _ _ e store hpersist _ _ => cases hpersist
  | installed _ hname store hpersist _ hstate =>
    rw [hstate, withEntry_lists, List.mem_append, List.mem_singleton, or_iff_left hne,
      retainOthers, List.mem_filter, mem_withoutAll]
    simp [hl, hname]

/-- What is in the store after an install that is not turned down. -/
theorem mem_load_installDownloaded_iff (h : ¬ Rejected text) {x : StoredList}
    (hx : x ∈ load s.store) :
  x ∈ load ((installDownloaded given url text).run s).2.store
    ↔ if installName url text ≠ [] ∧ x.id = ListId.of (installName url text) then
        x.text = s.installFile url text
      else
        ¬ DroppedFor (s.staleFor given url text) x.id
  := by
  cases s.outcome_installDownloaded given url text with
  | rejected hrejected _ _ _ => exact absurd hrejected h
  | unnamed _ hname _ hstate =>
    rw [hstate, mem_load_withoutAll]
    simp [hx, hname]
  | refused _ _ e store hpersist _ _ => cases hpersist
  | installed _ hname store hpersist _ hstate =>
    obtain rfl : (s.installPersist given url text).2 = store := by rw [hpersist]
    rw [hstate]
    rw [withEntry_store, installPersist, mem_load_persist, mem_load_withoutAll]
    by_cases hid : x.id = ListId.of (installName url text)
    · have hstored : x = MemoryListStore.stored (ListId.of (installName url text))
          (s.installFile url text) ↔ x.text = s.installFile url text := by
        obtain ⟨text', -, hx'⟩ := MemoryListStore.mem_load.mp hx
        rw [hx', hid]
        simp [MemoryListStore.stored]
      simp [hid, hname, hstored]
    · have hstored : x ≠ MemoryListStore.stored (ListId.of (installName url text))
          (s.installFile url text) := by
        rintro rfl
        exact hid rfl
      simp [hid, hx, hstored]

end Frame

/-- A store with custom rules in it. -/
def customStore : MemoryListStore :=
  MemoryListStore.new.seed customList "||a.example^".toList

end ListCuration
