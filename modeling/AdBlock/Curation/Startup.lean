import AdBlock.Curation.Reconcile
import AdBlock.Process.Fallible

/-!
# Starting up

`withStore` reads the stored lists, removes the files that are folded away, gathers the custom
rules into one list, and builds the engine.  `Edit` is a change to the lists in the running
program, and `ListCuration.edits` carries a run of them out.
-/

/-- The part of the configuration that startup reads. -/
structure AdblockConfig where
  enabled : Bool
  customRules : List Text
  injectScriptlets : Bool
  scriptletResources : Text

/-- A configuration with no rules and no scriptlets. -/
def AdblockConfig.plain : AdblockConfig where
  enabled := true
  customRules := []
  injectScriptlets := false
  scriptletResources := []

/-- The resources of the scriptlet library at startup.  `file` is what reading the resource
file gives, when it exists. -/
def Scriptlets.fromConfig {A : Library} (cfg : AdblockConfig)
    (file : Option (Except Error (List A.Resource))) : Except Error (Scriptlets A) := do
  let resources ←
    if cfg.scriptletResources.isEmpty then pure []
    else
      match file with
      | some read => read
      | none => pure []
  return { inject := cfg.injectScriptlets, path := cfg.scriptletResources, resources }

/-- The text of the custom list: the rules of the configuration and the stored ones, each line
once. -/
def customText (cfg : AdblockConfig) (stored : List Text) : Text :=
  let configured := (cfg.customRules.map Text.trim).filter (· ≠ [])
  Text.join (configured ++ stored).eraseDups ['\n']

/-- The custom list. -/
def customEntry (text : Text) : ListEntry :=
  { name := customList
    source := customSource
    rules := countRules text
    enabled := true
    text := text }

section WithStore

variable {A : Library} {σ : Type} [ListStore σ]

/-- The store after startup: the files that are folded away are removed, and the custom list is
stored.  A custom list that cannot be stored is passed over. -/
def startupStore (store : σ) (remove : List ListId) (text : Text) : σ :=
  (ListStore.persist (remove.foldl ListStore.remove store) (ListId.of customList)
    (sourceMark ++ customSource ++ '\n' :: text)).2

/-- The text of the custom list at startup. -/
def startupText (cfg : AdblockConfig) (store : σ) : Text :=
  customText cfg (reconcile [] (ListStore.load store)).customLines

/-- The state that startup builds once the scriptlet library is there. -/
def startupState (cfg : AdblockConfig) (scriptlets : Scriptlets A) (store : σ)
    (cacheFile : Option Bytes) (saves : List (UInt64 × A.Engine)) : ListCuration A σ :=
  let outcome := reconcile [] (ListStore.load store)
  let text := customText cfg outcome.customLines
  let lists := outcome.lists ++ [customEntry text]
  let store' := startupStore store outcome.remove text
  let engineCache := ListStore.engineCache store'
  let built := buildEngine lists scriptlets.resources (engineCache.map fun _ => cacheFile)
  { core := { enabled := cfg.enabled, engine := built.1, lists, scriptlets, engineCache }
    store := store'
    cacheFile := cacheFile
    saves := saves ++ (built.2.map fun key => (key, built.1)).toList }

/-- `with_store`.  The content of the cache file and the engines still to be saved in it are
what earlier runs have left. -/
def withStore (cfg : AdblockConfig) (file : Option (Except Error (List A.Resource)))
    (store : σ) (cacheFile : Option Bytes) (saves : List (UInt64 × A.Engine)) :
    Except Error (ListCuration A σ) := do
  let scriptlets ← Scriptlets.fromConfig cfg file
  return startupState cfg scriptlets store cacheFile saves

variable {cfg : AdblockConfig} {file : Option (Except Error (List A.Resource))} {store : σ}
  {cacheFile : Option Bytes} {saves : List (UInt64 × A.Engine)} {s : ListCuration A σ}

/-- Startup succeeds only with a scriptlet library. -/
theorem withStore_inv (h : withStore cfg file store cacheFile saves = .ok s) :
  ∃ scriptlets, Scriptlets.fromConfig cfg file = .ok scriptlets
    ∧ s = startupState cfg scriptlets store cacheFile saves
  := by
  obtain ⟨scriptlets, hscriptlets, h⟩ := Fallible.bind_eq_ok h
  cases h
  use scriptlets

/-- The lists at startup are the reconciled ones and the custom list. -/
theorem lists_withStore (h : withStore cfg file store cacheFile saves = .ok s) :
  s.core.lists
    = (reconcile [] (ListStore.load store)).lists ++ [customEntry (startupText cfg store)]
  := by
  obtain ⟨scriptlets, -, rfl⟩ := withStore_inv h
  rfl

/-- Startup leaves the store without the files that are folded away, and with the custom
list. -/
theorem store_withStore (h : withStore cfg file store cacheFile saves = .ok s) :
  s.store
    = startupStore store (reconcile [] (ListStore.load store)).remove (startupText cfg store)
  := by
  obtain ⟨scriptlets, -, rfl⟩ := withStore_inv h
  rfl

/-- The engine at startup is built from the lists, or read from the cache file, when the store
has a place for one. -/
theorem engine_withStore (h : withStore cfg file store cacheFile saves = .ok s) :
  s.core.engine = (buildEngine s.core.lists s.core.scriptlets.resources
    ((ListStore.engineCache s.store).map fun _ => cacheFile)).1
  := by
  obtain ⟨scriptlets, -, rfl⟩ := withStore_inv h
  rfl

end WithStore

/-- The state after startup on a store in memory, with the plain configuration and the library
that counts. -/
def MemoryListStore.start (store : MemoryListStore) :
    ListCuration Library.counting MemoryListStore :=
  (withStore AdblockConfig.plain none store none []).toOption.get rfl

theorem MemoryListStore.withStore_eq_start (store : MemoryListStore) :
  withStore AdblockConfig.plain none store none [] = .ok store.start
  := rfl

/-- A change to the lists. -/
inductive Edit where
  | addList (name source text : Text)
  | applyRules (name : Option Text) (rules : Text) (update : RulesUpdate)
  | appendRules (name source rules : Text)
  | setListEnabled (name : Text) (enabled : Bool)
  | removeList (name : Text)
  | installDownloaded (given url text : Text)

namespace ListCuration

variable {A : Library} {σ : Type} [ListStore σ]

/-- The process of an edit, with its result passed over. -/
def editProcess : Edit → Process (ListCuration A σ) PUnit
  | .addList name source text => do
      let _ ← addList name source text
  | .applyRules name rules update => do
      let _ ← applyRules name rules update
  | .appendRules name source rules => do
      let _ ← appendRules name source rules
  | .setListEnabled name enabled => do
      let _ ← setListEnabled name enabled
  | .removeList name => do
      let _ ← removeList name
  | .installDownloaded given url text => do
      let _ ← installDownloaded given url text

/-- The state after an edit. -/
def edit (s : ListCuration A σ) (e : Edit) : ListCuration A σ :=
  ((editProcess e).run s).2

/-- The state after a run of edits. -/
def edits (s : ListCuration A σ) (es : List Edit) : ListCuration A σ :=
  es.foldl edit s

end ListCuration

/-! ### What an edit can do -/

/-- The changes that the edits make to the list table. -/
inductive TableChange (lists : List ListEntry) : List ListEntry → Prop where
  | put (entry : ListEntry) :
      TableChange lists (retainOthers lists entry.name ++ [entry])
  | switch (name : Text) (enabled : Bool) :
      TableChange lists (switchList name enabled lists)
  | drop (name : Text) : TableChange lists (retainOthers lists name)

/-- The atomic steps of the edits: they change the store, or the list table. -/
inductive EditStep {A : Library} {σ : Type} (s : ListCuration A σ) :
    ListCuration A σ → Prop where
  | store (store : σ) : EditStep s { s with store := store }
  | table {lists : List ListEntry} (h : TableChange s.core.lists lists) :
      EditStep s (s.setLists lists)

namespace ListCuration

section Steps

variable {A : Library} {σ : Type}

theorem steps_read {α : Type} (f : List ListEntry → α) :
  (read f : Process (ListCuration A σ) α).Steps EditStep
  := Process.steps_atomic fun s => EditStep.store s.store

theorem steps_mutate {α : Type} {f : List ListEntry → α × List ListEntry}
    (h : ∀ lists, TableChange lists (f lists).2) :
  (mutate f : Process (ListCuration A σ) α).Steps EditStep
  := Process.steps_atomic fun s => EditStep.table (h s.core.lists)

variable [ListStore σ]

theorem steps_persist (id : ListId) (text : Text) :
  (persist id text : Process (ListCuration A σ) _).Steps EditStep
  := Process.steps_atomic fun _ => EditStep.store _

/-- The relation has the atomic steps by which lists of a source are put in and any lists are
taken out. -/
structure HasSteps (R : ListCuration A σ → ListCuration A σ → Prop) (source : Text) : Prop where
  refl (s : ListCuration A σ) : R s s
  persist (s : ListCuration A σ) (id : ListId) (enabled : Bool) (text : Text) :
    R s { s with store := (ListStore.persist s.store id (header source enabled ++ text)).2 }
  remove (s : ListCuration A σ) (id : ListId) :
    R s { s with store := ListStore.remove s.store id }
  put (s : ListCuration A σ) (entry : ListEntry) (h : entry.source = source) :
    R s (s.setLists (retainOthers s.core.lists entry.name ++ [entry]))
  drop (s : ListCuration A σ) (name : Text) : R s (s.setLists (retainOthers s.core.lists name))

namespace HasSteps

variable {R : ListCuration A σ → ListCuration A σ → Prop} {source : Text}

theorem read (h : HasSteps R source) {α : Type} (f : List ListEntry → α) :
  (ListCuration.read f : Process (ListCuration A σ) α).Steps R
  := Process.steps_atomic h.refl

theorem addList (h : HasSteps R source) (name text : Text) :
  (addList name source text : Process (ListCuration A σ) _).Steps R
  := by
  rw [ListCuration.addList]
  split
  · apply Process.steps_pure
  apply Process.steps_bind (h.read _)
  intro enabled
  apply Process.steps_bind (Process.steps_atomic fun s => h.persist s _ enabled text)
  rintro (e | ⟨⟩)
  · apply Process.steps_pure
  · apply Process.steps_bind
    · apply Process.steps_atomic
      intro s
      exact h.put s ⟨sanitizeName name, source, countRules text, enabled, text⟩ rfl
    · intro _
      apply Process.steps_pure

theorem removeList (h : HasSteps R source) (name : Text) :
  (removeList name : Process (ListCuration A σ) _).Steps R
  := by
  apply Process.steps_bind (h.read _)
  intro present
  apply Process.steps_bind
  · rw [takeOut]
    split
    · apply Process.steps_atomic fun s => h.drop s name
    · apply Process.steps_pure
  · intro removed
    apply Process.steps_bind
    · rw [removeFile]
      split
      · apply Process.steps_pure
      · apply Process.steps_atomic fun s => h.remove s _
    · intro _
      apply Process.steps_pure

theorem installDownloaded (h : HasSteps R source) (given text : Text) :
  (installDownloaded given source text : Process (ListCuration A σ) _).Steps R
  := by
  rw [ListCuration.installDownloaded]
  split
  · apply Process.steps_pure
  split
  · apply Process.steps_pure
  apply Process.steps_bind (h.read _)
  intro stale
  apply Process.steps_bind
  · apply Process.steps_forM
    intro oldName _
    apply Process.steps_bind (h.removeList oldName)
    intro _
    apply Process.steps_pure
  · intro _
    apply h.addList

end HasSteps

theorem hasSteps_editStep (source : Text) :
  HasSteps (EditStep : ListCuration A σ → ListCuration A σ → Prop) source
  where
  refl s := EditStep.store s.store
  persist _ _ _ _ := EditStep.store _
  remove _ _ := EditStep.store _
  put _ entry _ := EditStep.table (TableChange.put entry)
  drop _ name := EditStep.table (TableChange.drop name)

theorem steps_addList (name source text : Text) :
  (addList name source text : Process (ListCuration A σ) _).Steps EditStep
  := (hasSteps_editStep source).addList name text

theorem steps_appendRules (name source rules : Text) :
  (appendRules name source rules : Process (ListCuration A σ) _).Steps EditStep
  := by
  apply Process.steps_bind (steps_read _)
  intro existing
  apply steps_addList

theorem steps_applyRules (name : Option Text) (rules : Text) (update : RulesUpdate) :
  (applyRules name rules update : Process (ListCuration A σ) _).Steps EditStep
  := by
  cases update with
  | append => apply steps_appendRules
  | replace => apply steps_addList

theorem steps_setListEnabled (name : Text) (enabled : Bool) :
  (setListEnabled name enabled : Process (ListCuration A σ) _).Steps EditStep
  := by
  apply Process.steps_bind (steps_read _)
  rintro (_ | ⟨source, text⟩)
  · apply Process.steps_pure
  apply Process.steps_bind (steps_persist _ _)
  rintro (e | ⟨⟩)
  · apply Process.steps_pure
  · apply Process.steps_bind
    · apply steps_mutate
      intro lists
      apply TableChange.switch
    · intro _
      apply Process.steps_pure

theorem steps_removeList (name : Text) :
  (removeList name : Process (ListCuration A σ) _).Steps EditStep
  := (hasSteps_editStep []).removeList name

theorem steps_installDownloaded (given url text : Text) :
  (installDownloaded given url text : Process (ListCuration A σ) _).Steps EditStep
  := (hasSteps_editStep url).installDownloaded given text

/-- Every atomic step of every edit changes the store, or the list table. -/
theorem steps_editProcess (e : Edit) :
  (editProcess e : Process (ListCuration A σ) _).Steps EditStep
  := by
  cases e with
  | addList name source text =>
    apply Process.steps_bind (steps_addList _ _ _)
    intro _
    apply Process.steps_pure
  | applyRules name rules update =>
    apply Process.steps_bind (steps_applyRules _ _ _)
    intro _
    apply Process.steps_pure
  | appendRules name source rules =>
    apply Process.steps_bind (steps_appendRules _ _ _)
    intro _
    apply Process.steps_pure
  | setListEnabled name enabled =>
    apply Process.steps_bind (steps_setListEnabled _ _)
    intro _
    apply Process.steps_pure
  | removeList name =>
    apply Process.steps_bind (steps_removeList _)
    intro _
    apply Process.steps_pure
  | installDownloaded given url text =>
    apply Process.steps_bind (steps_installDownloaded _ _ _)
    intro _
    apply Process.steps_pure

/-- A property of the list table that survives every change of it holds after every run of
edits. -/
theorem lists_edits_of_tableChange {P : List ListEntry → Prop}
    (hkeep : ∀ lists lists', TableChange lists lists' → P lists → P lists')
    {s : ListCuration A σ} (hs : P s.core.lists) (es : List Edit) :
  P (s.edits es).core.lists
  := by
  induction es generalizing s with
  | nil => apply hs
  | cons e es ih =>
    apply ih
    apply Process.run_of_steps (steps_editProcess e) (P := fun s => P s.core.lists) _ hs
    rintro s _ (store | hchange) hs
    · apply hs
    · apply hkeep _ _ hchange hs

end Steps

end ListCuration
