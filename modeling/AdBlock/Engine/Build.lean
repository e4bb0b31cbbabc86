import AdBlock.Curation.ListFile
import AdBlock.Rust.Bytes
import Mathlib.Data.Finset.Sort
import Mathlib.Data.List.Lex
import Mathlib.Data.Prod.Lex

/-!
# Building the engine

The filter engine is compiled from the texts of the enabled lists, in a fixed order, or read
back from a file in which an earlier build was saved under a key of those lists.  The engine
itself, and the hash behind the key, come from outside the repository; `Library` collects what
the program uses of them.
-/

/-- What goes into the hasher of the standard library: an integer or a text. -/
inductive HashInput where
  | u32 (n : UInt32)
  | str (s : Text)
  deriving DecidableEq, Repr

/-- What matching a request against the engine gives. -/
structure BlockerResult where
  matched : Bool
  filter : Option Text
  redirect : Option Text
  rewrittenUrl : Option Text

/-- The cosmetic rules of the engine for a page. -/
structure UrlSpecificResources where
  hideSelectors : Finset Text
  proceduralActions : Finset Text
  exceptions : Finset Text
  injectedScript : Text
  generichide : Bool

/-- What the program uses of the `adblock` and `base64` crates, and of the hasher of the
standard library. -/
structure Library where
  Engine : Type
  Resource : Type
  Request : Type
  /-- `FilterSet::new(true)`, `add_filter_list` for each text with the default options, and
  `Engine::from_filter_set` without optimizing. -/
  fromFilterSet : List Text → Engine
  useResources : Engine → List Resource → Engine
  serializeRaw : Engine → Option Bytes
  /-- `Engine::deserialize` into a new engine. -/
  deserialize : Bytes → Option Engine
  newRequest : (url sourceUrl requestType : Text) → Option Request
  checkNetworkRequest : Engine → Request → BlockerResult
  getCspDirectives : Engine → Request → Option Text
  urlCosmeticResources : Engine → Text → UrlSpecificResources
  hiddenClassIdSelectors : Engine → (classes ids : List Text) → Finset Text → List Text
  /-- The selector and the style of a procedural rule given in JSON, if it parses and reduces
  to plain CSS. -/
  actionAsCss : Text → Option (Text × Text)
  /-- `STANDARD.decode` of the `base64` crate. -/
  decodeBase64 : Text → Option Bytes
  /-- `DefaultHasher` after the given inputs. -/
  finish : List HashInput → UInt64

/-- The number under which the form of the cached engine is known. -/
def engineCacheFormat : UInt32 := 1

/-- What the lists are ordered by in the engine: the name, then the text. -/
def ListEntry.sortKey (l : ListEntry) : Text ×ₗ Text := toLex (l.name, l.text)

/-- The enabled lists in a fixed order. -/
def enabledInOrder (lists : List ListEntry) : List ListEntry :=
  (lists.filter ListEntry.enabled).insertionSort fun a b => a.sortKey ≤ b.sortKey

variable (A : Library)

/-- The key of the engine compiled from the lists: it covers every rule that went in. -/
def engineKey (lists : List ListEntry) : UInt64 :=
  A.finish (.u32 engineCacheFormat
    :: (enabledInOrder lists).flatMap fun l => [.str l.name, .str l.text])

variable {A}

/-- The engine with the resources, when there are any. -/
def withResources (engine : A.Engine) (resources : List A.Resource) : A.Engine :=
  if resources.isEmpty then engine else A.useResources engine resources

/-- The engine in the cache file, if it was saved under the key. -/
def loadCachedEngine (file : Option Bytes) (key : UInt64) : Option A.Engine := do
  let bytes ← file
  if bytes.length < 8 ∨ Bytes.toUInt64 bytes ≠ key then none
  else A.deserialize (bytes.drop 8)

/-- The engine for the lists, and the key to save it under when it had to be compiled and there
is a cache.  `cache` is the content of the cache file, when the store has a place for one. -/
def buildEngine (lists : List ListEntry) (resources : List A.Resource)
    (cache : Option (Option Bytes)) : A.Engine × Option UInt64 :=
  let key := engineKey A lists
  match cache.bind fun file => loadCachedEngine file key with
  | some engine => (withResources engine resources, none)
  | none =>
      let engine := A.fromFilterSet ((enabledInOrder lists).map ListEntry.text)
      (withResources engine resources, cache.map fun _ => key)

/-- What saving an engine leaves in the cache file: the key and the engine, unless the engine
does not serialize or the file cannot be written. -/
def saveCachedEngine (file : Option Bytes) (key : UInt64) (engine : A.Engine)
    (written : Bool) : Option Bytes :=
  match A.serializeRaw engine with
  | none => file
  | some body => if written then some (Bytes.ofUInt64 key ++ body) else file

/-! ### The order of the lists -/

theorem enabledInOrder_perm (lists : List ListEntry) :
  (enabledInOrder lists).Perm (lists.filter ListEntry.enabled)
  := List.perm_insertionSort _ _

instance : Std.Total fun a b : ListEntry => a.sortKey ≤ b.sortKey :=
  ⟨fun a b => le_total a.sortKey b.sortKey⟩

instance : IsTrans ListEntry fun a b => a.sortKey ≤ b.sortKey :=
  ⟨fun _ _ _ => le_trans⟩

/-- The lists of the engine come by name, then by text. -/
theorem pairwise_enabledInOrder (lists : List ListEntry) :
  (enabledInOrder lists).Pairwise fun a b => a.sortKey ≤ b.sortKey
  := List.pairwise_insertionSort _ _

/-- A library whose engine knows how many texts it was compiled from and which resources it was
given, and which answers every question as an engine without rules does. -/
def Library.counting : Library where
  Engine := Nat × List Text
  Resource := Text
  Request := Unit
  fromFilterSet texts := (texts.length, [])
  useResources engine resources := (engine.1, resources)
  serializeRaw engine := some (List.replicate engine.1 0)
  deserialize bytes := some (bytes.length, [])
  newRequest _ _ _ := some ()
  checkNetworkRequest _ _ :=
    { matched := false, filter := none, redirect := none, rewrittenUrl := none }
  getCspDirectives _ _ := none
  urlCosmeticResources _ _ :=
    { hideSelectors := ∅
      proceduralActions := ∅
      exceptions := ∅
      injectedScript := []
      generichide := false }
  hiddenClassIdSelectors _ _ _ _ := []
  actionAsCss _ := none
  decodeBase64 _ := none
  finish inputs := UInt64.ofNat inputs.length
