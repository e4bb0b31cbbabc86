import AdBlock.Engine.Build
import AdBlock.Process.Basic

/-!
# List curation

The collection of blocklists in memory, with the engine built from them and the store behind
them, and the operations that change it.  Every operation is a process whose atomic steps are
its reads of the list table, its calls of the store and its changes of the list table, which
rebuild the engine before the table is unlocked.  For each operation, a lemma says what it does
when it is not interrupted (`run_addList`, `run_setListEnabled`, `run_removeList` and so on).
-/

/-- The scriptlet library: the resources the engine is given. -/
structure Scriptlets (A : Library) where
  inject : Bool
  path : Text
  resources : List A.Resource

/-- The engine with the lists it is built from. -/
structure EngineCore (A : Library) where
  enabled : Bool
  engine : A.Engine
  lists : List ListEntry
  scriptlets : Scriptlets A
  /-- Where the compiled engine is cached, as the list store reports it. -/
  engineCache : Option Text

/-- The managed collection of blocklists: the engine core and the store.  What is outside the
process is part of the state as well: the content of the cache file, and the engines handed to
background threads to be saved in it. -/
structure ListCuration (A : Library) (σ : Type) where
  core : EngineCore A
  store : σ
  cacheFile : Option Bytes
  saves : List (UInt64 × A.Engine)

/-- How `applyRules` changes the rules of a list. -/
inductive RulesUpdate where
  | append
  | replace
  deriving DecidableEq, Repr

/-- The first list with a name. -/
def findList (lists : List ListEntry) (name : Text) : Option ListEntry :=
  lists.find? fun l => l.name = name

/-- The lists with other names. -/
def retainOthers (lists : List ListEntry) (name : Text) : List ListEntry :=
  lists.filter fun l => l.name ≠ name

/-- Whether the list with a name is switched on; a list that is not there counts as switched
on. -/
def listEnabled (lists : List ListEntry) (name : Text) : Bool :=
  ((findList lists name).map ListEntry.enabled).getD true

/-- Switch the first list with a name on or off. -/
def switchList (name : Text) (enabled : Bool) : List ListEntry → List ListEntry
  | [] => []
  | l :: lists =>
      if l.name = name then { l with enabled := enabled } :: lists
      else l :: switchList name enabled lists

namespace ListCuration

variable {A : Library} {σ : Type}

/-- `EngineCore::rebuild` after the list table has been changed: the engine is built from the
lists, and handed to a background thread if it is to be cached. -/
def setLists (s : ListCuration A σ) (lists : List ListEntry) : ListCuration A σ :=
  let built := buildEngine lists s.core.scriptlets.resources
    (s.core.engineCache.map fun _ => s.cacheFile)
  { s with
    core := { s.core with lists := lists, engine := built.1 }
    saves := s.saves ++ (built.2.map fun key => (key, built.1)).toList }

@[simp]
theorem setLists_lists (s : ListCuration A σ) (lists : List ListEntry) :
  (s.setLists lists).core.lists = lists
  := rfl

@[simp]
theorem setLists_store (s : ListCuration A σ) (lists : List ListEntry) :
  (s.setLists lists).store = s.store
  := rfl

/-- `EngineCore::read`. -/
def read {α : Type} (f : List ListEntry → α) : Process (ListCuration A σ) α :=
  .atomic fun s => (f s.core.lists, s)

/-- `EngineCore::mutate`. -/
def mutate {α : Type} (f : List ListEntry → α × List ListEntry) :
    Process (ListCuration A σ) α :=
  .atomic fun s => ((f s.core.lists).1, s.setLists (f s.core.lists).2)

variable [ListStore σ]

/-- `ListStore::persist` of the store behind the lists. -/
def persist (id : ListId) (text : Text) :
    Process (ListCuration A σ) (Except Error Unit) :=
  .atomic fun s =>
    ((ListStore.persist s.store id text).1,
      { s with store := (ListStore.persist s.store id text).2 })

/-- `ListStore::remove` of the store behind the lists. -/
def remove (id : ListId) : Process (ListCuration A σ) Unit :=
  .atomic fun s => ((), { s with store := ListStore.remove s.store id })

/-- `ListStore::remove`, unless the id is empty. -/
def removeFile (id : ListId) : Process (ListCuration A σ) Unit :=
  if id.isEmpty then pure () else remove id

/-! ### The operations -/

def emptyNameError : Error :=
  .config "blocklist name is empty".toList

def htmlPageError (url : Text) : Error :=
  .config (url ++ " returned an HTML page, not a filter list — use the raw file URL".toList)

def noRulesError (url : Text) : Error :=
  .config ("no rules found in list fetched from ".toList ++ url)

def addList (name source text : Text) :
    Process (ListCuration A σ) (Except Error ListEntry) := do
  let name := sanitizeName name
  if name.isEmpty then
    return .error emptyNameError
  else
    let rules := countRules text
    let enabled ← read fun lists => listEnabled lists name
    match ← persist (ListId.of name) (header source enabled ++ text) with
    | .error e => return .error e
    | .ok () =>
      let entry : ListEntry := { name, source, rules, enabled, text }
      mutate fun lists => ((), retainOthers lists name ++ [entry])
      return .ok entry

def appendRules (name source rules : Text) :
    Process (ListCuration A σ) (Except Error ListEntry) := do
  let key := sanitizeName name
  let existing ← read fun lists => (findList lists key).map ListEntry.text
  let text := match existing with
    | some t => t ++ '\n' :: rules
    | none => rules
  addList name source text

/-- The list that rules are applied to: the one named, or else the custom list. -/
def rulesName (name : Option Text) : Text :=
  (name.filter fun n => !(Text.trim n).isEmpty).getD customList

/-- The source of a list that rules are applied to. -/
def rulesSource (name : Text) : Text :=
  if name = customList then customSource else "web ui".toList

def applyRules (name : Option Text) (rules : Text) (update : RulesUpdate) :
    Process (ListCuration A σ) (Except Error ListEntry) :=
  let name := rulesName name
  let source := rulesSource name
  match update with
  | .replace => addList name source rules
  | .append => appendRules name source rules

def setListEnabled (name : Text) (enabled : Bool) :
    Process (ListCuration A σ) (Except Error Bool) := do
  match ← read fun lists => (findList lists name).map fun l => (l.source, l.text) with
  | none => return .ok false
  | some (source, text) =>
    match ← persist (ListId.of (sanitizeName name)) (header source enabled ++ text) with
    | .error e => return .error e
    | .ok () =>
      mutate fun lists => ((), switchList name enabled lists)
      return .ok true

/-- Take the lists with a name out of the list table, if there are any. -/
def takeOut (name : Text) (present : Bool) : Process (ListCuration A σ) Bool :=
  if present then
    mutate fun lists =>
      ((retainOthers lists name).length != lists.length, retainOthers lists name)
  else
    pure false

def removeList (name : Text) : Process (ListCuration A σ) (Except Error Bool) := do
  let present ← read fun lists => lists.any fun l => l.name = name
  let removed ← takeOut name present
  removeFile (ListId.of (sanitizeName name))
  return .ok removed

/-- The names of the lists downloaded from one of two URLs, other than a given name. -/
def staleNames (given url sanitized : Text) (lists : List ListEntry) : List Text :=
  (lists.filter fun l => (l.source = url ∨ l.source = given) ∧ l.name ≠ sanitized).map
    ListEntry.name

/-- The name a downloaded text gives its list. -/
def downloadName (url text : Text) : Text :=
  (listTitle text).getD (nameFromUrl url)

def installDownloaded (given url text : Text) :
    Process (ListCuration A σ) (Except Error ListEntry) := do
  if Text.startsWith (Text.trimStart text) ['<'] then
    return .error (htmlPageError url)
  else if countRules text = 0 then
    return .error (noRulesError url)
  else
    let name := downloadName url text
    let stale ← read (staleNames given url (sanitizeName name))
    forM stale fun oldName => do
      let _ ← removeList oldName
      pure ()
    addList name url text

def emptyResourcesError : Error :=
  .config "scriptlet resource file is empty".toList

/-- The resources of the scriptlet library are replaced. -/
def setResources (resources : List A.Resource) : Process (ListCuration A σ) Unit :=
  .atomic fun s =>
    ((), { s with core.scriptlets.resources := resources })

/-- `loaded` is what reading the resource file gives. -/
def reloadScriptletResources (loaded : Except Error (List A.Resource)) :
    Process (ListCuration A σ) (Except Error Nat) :=
  match loaded with
  | .error e => return .error e
  | .ok resources =>
      if resources.isEmpty then
        return .error emptyResourcesError
      else do
        setResources resources
        mutate fun lists => ((), lists)
        return .ok resources.length

/-! ### What the operations do, uninterrupted -/

section Run

variable (s : ListCuration A σ)

omit [ListStore σ] in
@[simp]
theorem run_read {α : Type} (f : List ListEntry → α) :
  (read f).run s = (f s.core.lists, s)
  := rfl

omit [ListStore σ] in
@[simp]
theorem run_mutate {α : Type} (f : List ListEntry → α × List ListEntry) :
  (mutate f).run s = ((f s.core.lists).1, s.setLists (f s.core.lists).2)
  := rfl

@[simp]
theorem run_persist (id : ListId) (text : Text) :
  (persist id text).run s
    = ((ListStore.persist s.store id text).1,
        { s with store := (ListStore.persist s.store id text).2 })
  := rfl

@[simp]
theorem run_remove (id : ListId) :
  (remove id).run s = ((), { s with store := ListStore.remove s.store id })
  := rfl

/-- The list that `addList` puts in. -/
def newEntry (name source text : Text) : ListEntry :=
  { name := sanitizeName name
    source := source
    rules := countRules text
    enabled := listEnabled s.core.lists (sanitizeName name)
    text := text }

/-- The state after a list has been put in the place of the lists of its name, with `store`
behind it. -/
def withEntry (store : σ) (entry : ListEntry) : ListCuration A σ :=
  setLists { s with store := store } (retainOthers s.core.lists entry.name ++ [entry])

omit [ListStore σ] in
@[simp]
theorem withEntry_store (store : σ) (entry : ListEntry) :
  (s.withEntry store entry).store = store
  := rfl

omit [ListStore σ] in
@[simp]
theorem withEntry_lists (store : σ) (entry : ListEntry) :
  (s.withEntry store entry).core.lists = retainOthers s.core.lists entry.name ++ [entry]
  := rfl

theorem run_addList_of_empty {name : Text} (h : sanitizeName name = []) (source text : Text) :
  (addList name source text).run s
    = (.error emptyNameError, s)
  := by
  simp [addList, h]

variable {s}

/-- Adding a list that the store takes puts it in the place of the lists of its name. -/
theorem run_addList_ok {name source text : Text} {store : σ} (h : sanitizeName name ≠ [])
    (hp : ListStore.persist s.store (ListId.of (sanitizeName name))
      (header source (listEnabled s.core.lists (sanitizeName name)) ++ text)
        = (.ok (), store)) :
  (addList name source text).run s
    = (.ok (s.newEntry name source text), s.withEntry store (s.newEntry name source text))
  := by
  simp [addList, h, hp, newEntry, withEntry]

/-- Adding a list that the store does not take changes no list. -/
theorem run_addList_error {name source text : Text} {store : σ} {e : Error}
    (h : sanitizeName name ≠ [])
    (hp : ListStore.persist s.store (ListId.of (sanitizeName name))
      (header source (listEnabled s.core.lists (sanitizeName name)) ++ text)
        = (.error e, store)) :
  (addList name source text).run s = (.error e, { s with store := store })
  := by
  simp [addList, h, hp]

/-- A list that has been added was taken by the store. -/
theorem run_addList_inv {name source text : Text} {e : ListEntry} {s' : ListCuration A σ}
    (h : (addList name source text).run s = (.ok e, s')) :
  ∃ store, ListStore.persist s.store (ListId.of (sanitizeName name))
      (header source (listEnabled s.core.lists (sanitizeName name)) ++ text) = (.ok (), store)
    ∧ s' = s.withEntry store (s.newEntry name source text)
  := by
  by_cases hname : sanitizeName name = []
  · rw [run_addList_of_empty s hname] at h
    cases h
  obtain ⟨_ | ⟨⟩, store, hpersist⟩ : ∃ taken store,
      ListStore.persist s.store (ListId.of (sanitizeName name))
        (header source (listEnabled s.core.lists (sanitizeName name)) ++ text)
          = (taken, store) := ⟨_, _, rfl⟩
  · rw [run_addList_error hname hpersist] at h
    cases h
  · rw [run_addList_ok hname hpersist] at h
    use store, hpersist, (Prod.mk.inj h).2.symm

variable (s)

/-- The text of a list after rules have been appended to it. -/
def appendedText (lists : List ListEntry) (key rules : Text) : Text :=
  match (findList lists key).map ListEntry.text with
  | some t => t ++ '\n' :: rules
  | none => rules

/-- Appending rules is adding the list with the appended text. -/
theorem run_appendRules (name source rules : Text) :
  (appendRules name source rules).run s
    = (addList name source (appendedText s.core.lists (sanitizeName name) rules)).run s
  := by
  simp [appendRules, appendedText]

theorem run_setListEnabled_none {name : Text} (h : findList s.core.lists name = none)
    (enabled : Bool) :
  (setListEnabled name enabled).run s = (.ok false, s)
  := by
  simp [setListEnabled, h]

variable {s}

/-- Switching a list that is there stores it with its new mark and then switches it. -/
theorem run_setListEnabled_ok {name : Text} {enabled : Bool} {l : ListEntry} {store : σ}
    (h : findList s.core.lists name = some l)
    (hp : ListStore.persist s.store (ListId.of (sanitizeName name))
      (header l.source enabled ++ l.text) = (.ok (), store)) :
  (setListEnabled name enabled).run s
    = (.ok true,
        setLists { s with store := store } (switchList name enabled s.core.lists))
  := by
  simp [setListEnabled, h, hp]

variable (s)

/-- The file of a list is dropped from the store, if the id is not empty. -/
def dropFile (store : σ) (name : Text) : σ :=
  if (ListId.of (sanitizeName name)).isEmpty then store
  else ListStore.remove store (ListId.of (sanitizeName name))

/-- The state after the lists with a name, if there are any, have been taken out and the file
of the name has been dropped. -/
def without (name : Text) : ListCuration A σ :=
  let s' := if s.core.lists.any (fun l => l.name = name) then
      s.setLists (retainOthers s.core.lists name)
    else s
  { s' with store := dropFile s'.store name }

@[simp]
theorem without_store (name : Text) :
  (s.without name).store = dropFile s.store name
  := by
  rw [without]
  split
  · rfl
  · rfl

@[simp]
theorem without_lists (name : Text) :
  (s.without name).core.lists = retainOthers s.core.lists name
  := by
  rw [without]
  split
  next => rfl
  next h =>
    rw [retainOthers, List.filter_eq_self.mpr]
    simpa using h

omit [ListStore σ] in
/-- Taking out a list that is there leaves fewer lists. -/
theorem length_retainOthers_ne {lists : List ListEntry} {name : Text}
    (h : lists.any (fun l => l.name = name)) :
  (retainOthers lists name).length ≠ lists.length
  := by
  obtain ⟨l, hl, hname⟩ := List.any_eq_true.mp h
  intro hlen
  have hall := List.length_filter_eq_length_iff.mp hlen l hl
  simp_all

/-- Removing a list tells whether it was there. -/
theorem run_removeList (name : Text) :
  (removeList name).run s
    = (.ok (s.core.lists.any fun l => l.name = name), s.without name)
  := by
  by_cases h : s.core.lists.any (fun l => l.name = name)
  · have hlen := length_retainOthers_ne h
    by_cases hid : (ListId.of (sanitizeName name)).isEmpty
    · simp [removeList, takeOut, removeFile, without, dropFile, h, hid, hlen]
      rfl
    · simp [removeList, takeOut, removeFile, without, dropFile, h, hid, hlen]
  · by_cases hid : (ListId.of (sanitizeName name)).isEmpty
    · simp [removeList, takeOut, removeFile, without, dropFile, h, hid]
    · simp [removeList, takeOut, removeFile, without, dropFile, h, hid]

/-- The state after the lists of several names have been taken out. -/
def withoutAll (names : List Text) : ListCuration A σ :=
  names.foldl without s

/-- Whether a downloaded text is turned down before anything is touched: it is a page, or it
has no rules. -/
def Rejected (text : Text) : Prop :=
  Text.startsWith (Text.trimStart text) ['<'] ∨ countRules text = 0

instance (text : Text) : Decidable (Rejected text) :=
  inferInstanceAs (Decidable (_ ∨ _))

/-- The lists that installing a download takes out first. -/
def staleFor (given url text : Text) : List Text :=
  staleNames given url (sanitizeName (downloadName url text)) s.core.lists

/-- A download that is turned down touches nothing. -/
theorem run_installDownloaded_of_rejected {text : Text} (h : Rejected text)
    (given url : Text) :
  ∃ e, (installDownloaded given url text).run s = (.error e, s)
  := by
  rcases h with h | h
  · simp [installDownloaded, h]
  · by_cases hpage : Text.startsWith (Text.trimStart text) ['<']
    · simp [installDownloaded, hpage]
    · simp [installDownloaded, hpage, h]

/-- Installing a download takes the lists of its URLs out, except those that already have its
name, and adds it. -/
theorem run_installDownloaded {text : Text} (h : ¬ Rejected text) (given url : Text) :
  (installDownloaded given url text).run s
    = (addList (downloadName url text) url text).run
        (s.withoutAll (s.staleFor given url text))
  := by
  rw [Rejected, not_or] at h
  simp [installDownloaded, h.1, h.2, Process.run_forM, run_removeList, withoutAll, staleFor]

end Run

end ListCuration
