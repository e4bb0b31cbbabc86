import AdBlock.Engine.Build
import Mathlib.Data.Set.Function

/-!
# The cached engine

The engine depends on the lists only through the sequence of the names and texts of the enabled
ones, in order.  When an engine reads back without its resources as it was compiled, and the key
tells the sequences in question apart, it makes no difference whether the engine is read from a
file that was saved for one of these sequences or compiled (`buildEngine_eq`).
-/

/-- What the engine is compiled from: the names and the texts of the enabled lists, in order. -/
def engineSequence (lists : List ListEntry) : List (Text × Text) :=
  (enabledInOrder lists).map fun l => (l.name, l.text)

/-- The key of a sequence of names and texts. -/
def sequenceKey (A : Library) (q : List (Text × Text)) : UInt64 :=
  A.finish (.u32 engineCacheFormat :: q.flatMap fun e => [.str e.1, .str e.2])

variable {A : Library}

theorem engineKey_eq (lists : List ListEntry) :
  engineKey A lists = sequenceKey A (engineSequence lists)
  := by
  rw [engineKey, sequenceKey, engineSequence, List.flatMap_map]

/-- The order in which the lists come does not matter to the engine: lists that the order does not
tell apart have the same name and the same text. -/
theorem engineSequence_of_perm {lists lists' : List ListEntry} (h : lists.Perm lists') :
  engineSequence lists = engineSequence lists'
  := by
  have hsorted (lists : List ListEntry) :
      (engineSequence lists).Pairwise fun p q => toLex p ≤ toLex q := by
    rw [engineSequence, List.pairwise_map]
    exact pairwise_enabledInOrder lists
  have hperm : (enabledInOrder lists).Perm (enabledInOrder lists') :=
    (enabledInOrder_perm lists).trans ((h.filter _).trans (enabledInOrder_perm lists').symm)
  apply List.Perm.eq_of_pairwise _ (hsorted lists) (hsorted lists') (hperm.map _)
  intro p q _ _ hpq hqp
  exact toLex.injective (le_antisymm hpq hqp)

/-- The engine compiled from a sequence of names and texts, with resources. -/
def compiled (q : List (Text × Text)) (resources : List A.Resource) : A.Engine :=
  withResources (A.fromFilterSet (q.map Prod.snd)) resources

theorem map_snd_engineSequence (lists : List ListEntry) :
  (engineSequence lists).map Prod.snd = (enabledInOrder lists).map ListEntry.text
  := by
  rw [engineSequence, List.map_map]
  rfl

/-- A compiled engine reads back as it was compiled, without its resources. -/
def RoundTrips (A : Library) : Prop :=
  ∀ (texts : List Text) (resources : List A.Resource) (body : Bytes),
    A.serializeRaw (withResources (A.fromFilterSet texts) resources) = some body →
      A.deserialize body = some (A.fromFilterSet texts)

/-- The file was saved for one of the sequences in `S`. -/
def SavedFor (A : Library) (S : Set (List (Text × Text))) (file : Bytes) : Prop :=
  ∃ q ∈ S, ∃ (resources : List A.Resource) (body : Bytes),
    A.serializeRaw (compiled q resources) = some body
      ∧ file = Bytes.ofUInt64 (sequenceKey A q) ++ body

variable {S : Set (List (Text × Text))} {q : List (Text × Text)} {resources : List A.Resource}
  {file : Option Bytes}

/-- Saving leaves a file that was saved for one of the sequences. -/
theorem savedFor_saveCachedEngine (hfile : ∀ bytes ∈ file, SavedFor A S bytes) (hq : q ∈ S)
    (written : Bool) :
  ∀ bytes ∈ saveCachedEngine file (sequenceKey A q) (compiled q resources) written,
    SavedFor A S bytes
  := by
  intro bytes hbytes
  rw [saveCachedEngine] at hbytes
  split at hbytes
  next => apply hfile bytes hbytes
  next body hbody =>
    split at hbytes
    · obtain rfl := Option.some_injective _ hbytes
      use q, hq, resources, body, hbody
    · apply hfile bytes hbytes

/-- A file that was saved under a key is found under it. -/
theorem loadCachedEngine_saveCachedEngine {engine : A.Engine} {body : Bytes}
    (h : A.serializeRaw engine = some body) (key : UInt64) :
  loadCachedEngine (saveCachedEngine file key engine true) key = A.deserialize body
  := by
  rw [saveCachedEngine, h]
  dsimp only
  rw [if_pos rfl, loadCachedEngine, Option.bind_eq_bind, Option.bind_some, if_neg,
    Bytes.drop_ofUInt64_append]
  rw [not_or, not_not, Bytes.toUInt64_ofUInt64_append]
  refine ⟨?_, rfl⟩
  rw [List.length_append, Bytes.ofUInt64, Bytes.length_littleEndian]
  omega

/-- What is loaded under the key of a sequence is what is compiled from it. -/
theorem loadCachedEngine_eq (hround : RoundTrips A) (hkey : Set.InjOn (sequenceKey A) S)
    (hfile : ∀ bytes ∈ file, SavedFor A S bytes) (hq : q ∈ S) {engine : A.Engine}
    (h : loadCachedEngine file (sequenceKey A q) = some engine) :
  engine = A.fromFilterSet (q.map Prod.snd)
  := by
  obtain ⟨bytes, hbytes, hload⟩ := Option.bind_eq_some_iff.mp h
  obtain ⟨q', hq', resources, body, hbody, rfl⟩ := hfile bytes hbytes
  split at hload
  next => cases hload
  next hmatch =>
    rw [not_or, not_not, Bytes.toUInt64_ofUInt64_append] at hmatch
    obtain rfl := hkey hq' hq hmatch.2
    rw [Bytes.drop_ofUInt64_append, hround _ _ _ hbody] at hload
    rw [Option.some_injective _ hload]

/-- It makes no difference whether the engine is read from the cache or compiled. -/
theorem buildEngine_eq (hround : RoundTrips A) (hkey : Set.InjOn (sequenceKey A) S)
    {lists : List ListEntry} {cache : Option (Option Bytes)}
    (hcache : ∀ file ∈ cache, ∀ bytes ∈ file, SavedFor A S bytes)
    (hlists : engineSequence lists ∈ S) (resources : List A.Resource) :
  (buildEngine lists resources cache).1 = compiled (engineSequence lists) resources
  := by
  rw [buildEngine]
  split
  next engine hload =>
    obtain ⟨file, hfile, hload⟩ := Option.bind_eq_some_iff.mp hload
    rw [engineKey_eq] at hload
    rw [loadCachedEngine_eq hround hkey (hcache file hfile) hlists hload, compiled]
  next => rw [compiled, map_snd_engineSequence]

/-- An engine that is to be saved is saved under the key of its lists. -/
theorem buildEngine_key {lists : List ListEntry} {cache : Option (Option Bytes)}
    {key : UInt64} (h : (buildEngine lists resources cache).2 = some key) :
  key = sequenceKey A (engineSequence lists)
  := by
  rw [buildEngine] at h
  split at h
  next => cases h
  next =>
    obtain ⟨_, -, rfl⟩ := Option.map_eq_some_iff.mp h
    apply engineKey_eq
