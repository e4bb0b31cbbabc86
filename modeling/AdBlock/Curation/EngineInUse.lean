import AdBlock.Curation.Startup
import AdBlock.Engine.Cache
import AdBlock.Process.Environment

/-!
# The engine in use

In every run of startups, edits, reloads of the scriptlet resources and saves in the background,
the engine in use is compiled from the texts of the enabled lists, by name and text, with the
current resources (`engine_of_reached`).  The sequences of names and texts that occur in the run
are collected in `S`; the key is supposed to tell them apart.
-/

/-- A background thread saves one of the engines that were handed to it, or fails to. -/
inductive SaveStep {A : Library} {σ : Type} (s : ListCuration A σ) :
    ListCuration A σ → Prop where
  | save (i : Nat) (key : UInt64) (engine : A.Engine) (written : Bool)
      (h : s.saves[i]? = some (key, engine)) :
      SaveStep s
        { s with
          cacheFile := saveCachedEngine s.cacheFile key engine written
          saves := s.saves.eraseIdx i }

namespace ListCuration

variable {A : Library} {σ : Type} {S : Set (List (Text × Text))}

/-- The sequence that the engine is to be compiled from is one of those in `S`. -/
def Occurs (S : Set (List (Text × Text))) (s : ListCuration A σ) : Prop :=
  engineSequence s.core.lists ∈ S

/-- The cache file, and the engines still to be saved in it, belong to sequences in `S`. -/
structure CacheInv (S : Set (List (Text × Text))) (s : ListCuration A σ) : Prop where
  file : ∀ bytes ∈ s.cacheFile, SavedFor A S bytes
  saves : ∀ save ∈ s.saves, ∃ q ∈ S, ∃ resources, save = (sequenceKey A q, compiled q resources)

/-- The engine in use is the one compiled from the lists. -/
structure EngineInv (S : Set (List (Text × Text))) (s : ListCuration A σ) : Prop
    extends CacheInv S s where
  engine : s.core.engine
    = compiled (engineSequence s.core.lists) s.core.scriptlets.resources

section Invariant

variable {s s' : ListCuration A σ}

theorem CacheInv.of_saveStep (h : CacheInv S s) (hstep : SaveStep s s') :
  CacheInv S s'
  := by
  obtain ⟨i, key, engine, written, hi⟩ := hstep
  obtain ⟨q, hq, resources, heq⟩ := h.saves _ (List.mem_of_getElem? hi)
  obtain ⟨rfl, rfl⟩ := Prod.mk.inj heq
  constructor
  · apply savedFor_saveCachedEngine h.file hq
  · intro save hsave
    apply h.saves save (List.mem_of_mem_eraseIdx hsave)

theorem core_of_saveStep (hstep : SaveStep s s') :
  s'.core = s.core
  := by
  obtain ⟨i, key, engine, written, hi⟩ := hstep
  rfl

theorem EngineInv.of_saveStep (h : EngineInv S s) (hstep : SaveStep s s') :
  EngineInv S s'
  := by
  use h.toCacheInv.of_saveStep hstep
  rw [core_of_saveStep hstep]
  apply h.engine

variable (hround : RoundTrips A) (hkey : Set.InjOn (sequenceKey A) S)

include hround hkey

/-- Rebuilding the engine brings it in step with the lists. -/
theorem CacheInv.setLists (h : CacheInv S s) {lists : List ListEntry}
    (hlists : engineSequence lists ∈ S) :
  EngineInv S (s.setLists lists)
  := by
  have hcache : ∀ file ∈ s.core.engineCache.map fun _ => s.cacheFile,
      ∀ bytes ∈ file, SavedFor A S bytes := by
    intro file hfile
    obtain ⟨_, -, rfl⟩ := Option.map_eq_some_iff.mp hfile
    apply h.file
  have hbuilt := buildEngine_eq hround hkey hcache hlists s.core.scriptlets.resources
  refine ⟨⟨h.file, ?_⟩, hbuilt⟩
  intro save hsave
  rcases List.mem_append.mp hsave with hold | hnew
  · apply h.saves save hold
  · obtain ⟨key, hsaved, rfl⟩ := Option.map_eq_some_iff.mp (Option.mem_toList.mp hnew)
    use engineSequence lists, hlists, s.core.scriptlets.resources
    rw [buildEngine_key hsaved, hbuilt]

theorem EngineInv.of_editStep (h : EngineInv S s) (hstep : EditStep s s')
    (hoccurs : Occurs S s') :
  EngineInv S s'
  := by
  cases hstep with
  | store store =>
    use ⟨h.file, h.saves⟩
    apply h.engine
  | table hchange => apply h.toCacheInv.setLists hround hkey hoccurs

theorem engineInv_withStore [ListStore σ] {cfg : AdblockConfig}
    {file : Option (Except Error (List A.Resource))} {store : σ} {cacheFile : Option Bytes}
    {saves : List (UInt64 × A.Engine)}
    (h : withStore cfg file store cacheFile saves = .ok s)
    (hfile : ∀ bytes ∈ cacheFile, SavedFor A S bytes)
    (hsaves : ∀ save ∈ saves, ∃ q ∈ S, ∃ resources,
      save = (sequenceKey A q, compiled q resources))
    (hoccurs : Occurs S s) :
  EngineInv S s
  := by
  obtain ⟨scriptlets, -, hs⟩ := withStore_inv h
  have hbuilt : s = ListCuration.setLists { s with saves := saves } s.core.lists := by
    rw [hs]
    rfl
  rw [hbuilt]
  apply CacheInv.setLists hround hkey _ hoccurs
  constructor
  · rw [hs]
    apply hfile
  · apply hsaves

omit hround hkey in
theorem EngineInv.of_saveSteps (h : EngineInv S s)
    (hsteps : Relation.ReflTransGen SaveStep s s') :
  EngineInv S s'
  := by
  induction hsteps with
  | refl => apply h
  | tail _ hstep ih => apply ih.of_saveStep hstep

omit hround hkey in
theorem CacheInv.of_saveSteps (h : CacheInv S s)
    (hsteps : Relation.ReflTransGen SaveStep s s') :
  CacheInv S s'
  := by
  induction hsteps with
  | refl => apply h
  | tail _ hstep ih => apply ih.of_saveStep hstep

/-- Reloading the resources brings the engine in step with them. -/
theorem EngineInv.of_reload (h : EngineInv S s) {loaded : Except Error (List A.Resource)}
    {result : Except Error Nat}
    (hrun : (reloadScriptletResources loaded).Runs SaveStep (Occurs S) s result s') :
  EngineInv S s'
  := by
  cases loaded with
  | error e => apply h.of_saveSteps hrun.pure_inv.2
  | ok resources =>
    rw [reloadScriptletResources] at hrun
    split at hrun
    · apply h.of_saveSteps hrun.pure_inv.2
    · obtain ⟨s₁, hsteps₁, -, hrun⟩ := hrun.atomic_bind_inv
      have hcache₁ := h.toCacheInv.of_saveSteps hsteps₁
      obtain ⟨s₂, hsteps₂, hoccurs, hrun⟩ := hrun.atomic_bind_inv
      have hcache₂ : CacheInv S s₂ := by
        apply CacheInv.of_saveSteps _ hsteps₂
        exact ⟨hcache₁.file, hcache₁.saves⟩
      have hengine := hcache₂.setLists hround hkey hoccurs
      apply hengine.of_saveSteps hrun.pure_inv.2

end Invariant

/-! ### Runs -/

variable [ListStore σ]

/-- The states that runs lead to, in which the sequences that occur are in `S`. -/
inductive Reached (S : Set (List (Text × Text))) : ListCuration A σ → Prop where
  /-- Startup, with a cache file that was saved for an earlier list set, or none. -/
  | start {cfg : AdblockConfig} {file : Option (Except Error (List A.Resource))} {store : σ}
      {cacheFile : Option Bytes} {s : ListCuration A σ}
      (hfile : ∀ bytes ∈ cacheFile, SavedFor A S bytes)
      (h : withStore cfg file store cacheFile [] = .ok s) (hoccurs : Occurs S s) : Reached S s
  /-- Startup on the store and the cache file that a run has left.  Some of the engines that were
  to be saved may still be. -/
  | restart {cfg : AdblockConfig} {file : Option (Except Error (List A.Resource))}
      {saves : List (UInt64 × A.Engine)} {s s' : ListCuration A σ} (hs : Reached S s)
      (hsaves : saves ⊆ s.saves) (h : withStore cfg file s.store s.cacheFile saves = .ok s')
      (hoccurs : Occurs S s') : Reached S s'
  /-- An edit. -/
  | edit {s s' : ListCuration A σ} (hs : Reached S s) (e : Edit)
      (h : (editProcess e).Runs SaveStep (Occurs S) s ⟨⟩ s') : Reached S s'
  /-- A reload of the resources. -/
  | reload {s s' : ListCuration A σ} (hs : Reached S s)
      (loaded : Except Error (List A.Resource)) (result : Except Error Nat)
      (h : (reloadScriptletResources loaded).Runs SaveStep (Occurs S) s result s') :
      Reached S s'
  /-- A save in the background. -/
  | save {s s' : ListCuration A σ} (hs : Reached S s) (h : SaveStep s s') : Reached S s'

variable {s : ListCuration A σ}

theorem engineInv_of_reached (hround : RoundTrips A) (hkey : Set.InjOn (sequenceKey A) S)
    (h : Reached S s) :
  EngineInv S s
  := by
  induction h with
  | start hfile h hoccurs =>
    apply engineInv_withStore hround hkey h hfile _ hoccurs
    simp
  | restart hs hsaves h hoccurs ih =>
    apply engineInv_withStore hround hkey h ih.file _ hoccurs
    intro save hsave
    apply ih.saves save (hsaves hsave)
  | edit hs e h ih =>
    apply h.of_steps (steps_editProcess e) _ _ ih
    · intro s s' hstep hoccurs hs
      apply hs.of_editStep hround hkey hstep hoccurs
    · intro s s' hstep hs
      apply hs.of_saveStep hstep
  | reload hs loaded result h ih => apply ih.of_reload hround hkey h
  | save hs h ih => apply ih.of_saveStep h

theorem roundTrips_counting :
  RoundTrips Library.counting
  := by
  intro texts resources body hbody
  rw [withResources] at hbody
  split at hbody
  all_goals
    obtain rfl := Option.some_injective _ hbody
    simp [Library.counting]

/-- The first start on an empty directory. -/
def firstStart : ListCuration Library.counting DiskStore :=
  (withStore AdblockConfig.plain none ⟨"lists".toList, []⟩ none []).toOption.get rfl

/-- The first start, after the engine has been saved. -/
def firstSaved : ListCuration Library.counting DiskStore :=
  { firstStart with
    cacheFile := saveCachedEngine none (engineKey Library.counting firstStart.core.lists)
      firstStart.core.engine true
    saves := [] }

/-- The second start. -/
def secondStart : ListCuration Library.counting DiskStore :=
  (withStore AdblockConfig.plain none firstSaved.store firstSaved.cacheFile []).toOption.get rfl

end ListCuration
