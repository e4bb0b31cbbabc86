import AdBlock.Curation.Startup
import AdBlock.Json.Serde
import AdBlock.Rust.Net

/-!
# The file of scriptlet resources

The resources of the engine come from a file that is read at the start and replaced by an update.
An update writes what it has fetched over the file and reads the file after that, so what cannot be
read is on the disk when the update fails, and the next start fails as well
(`refresh_harmless_iff`).
-/

/-- How the file of resources is read. -/
structure ResourceFormat (A : Library) where
  /-- `str::from_utf8`, with the text of its error. -/
  fromUtf8 : Bytes → Except Text Text
  /-- `serde_json::from_str`, as a list of resources. -/
  fromStr : Text → Except Text (List A.Resource)

/-- What becomes of a file that is written. -/
inductive Written where
  | done
  /-- The file may be left in any state. -/
  | failed (left : Option Bytes) (e : Text)

/-- An error as it is displayed. -/
def Error.display : Error → Text
  | .config message => "adblock error: ".toList ++ message

variable {A : Library} {σ : Type}

def loadResources (F : ResourceFormat A) (path : Text) (bytes : Bytes) :
    Except Error (List A.Resource) :=
  match F.fromUtf8 bytes with
  | .error e =>
      .error (.config ("reading scriptlet resources ".toList ++ path ++ ": ".toList ++ e))
  | .ok text =>
      match F.fromStr text with
      | .error e => .error (.config ("parsing scriptlet resources: ".toList ++ e))
      | .ok resources => .ok resources

namespace ListCuration

def minBytes : ℕ := 10000

/-- Replace the file by what is fetched, and read it.  Gives the answer, the state and the
file. -/
def refresh (F : ResourceFormat A) (fetched : Except Text Bytes) (written : Written)
    (s : ListCuration A σ) (file : Option Bytes) :
    Except Text ℕ × ListCuration A σ × Option Bytes :=
  let path := s.core.scriptlets.path
  if path.isEmpty then
    (.error "adblock.scriptlet_resources is not configured".toList, s, file)
  else
    match fetched with
    | .error e => (.error e, s, file)
    | .ok bytes =>
        if bytes.length < minBytes then
          (.error ("converter output suspiciously small (".toList ++ Net.decimal bytes.length
            ++ " bytes)".toList), s, file)
        else
          match written with
          | .failed left e =>
              (.error ("writing ".toList ++ path ++ ": ".toList ++ e), s, left)
          | .done =>
              match (reloadScriptletResources (loadResources F path bytes)).run s with
              | (.error e, s) => (.error e.display, s, some bytes)
              | (.ok count, s) => (.ok count, s, some bytes)

/-- The resources that the library has at the next start. -/
def resourcesAtStart (F : ResourceFormat A) (cfg : AdblockConfig) (file : Option Bytes) :
    Except Error (List A.Resource) :=
  (Scriptlets.fromConfig cfg (file.map (loadResources F cfg.scriptletResources))).map
    Scriptlets.resources

/-! ### Updates that fail -/

variable {F : ResourceFormat A} {cfg : AdblockConfig}

theorem resourcesAtStart_some (hpath : cfg.scriptletResources.isEmpty = false) (bytes : Bytes) :
  resourcesAtStart F cfg (some bytes) = loadResources F cfg.scriptletResources bytes
  := by
  unfold resourcesAtStart Scriptlets.fromConfig
  rw [hpath, Option.map_some]
  cases loadResources F cfg.scriptletResources bytes with
  | error e => rfl
  | ok resources => rfl

/-- Resources that are not loaded are an error or none, and nothing changes. -/
theorem run_reloadScriptletResources_error {s s' : ListCuration A σ} {e : Error}
    {loaded : Except Error (List A.Resource)}
    (h : (reloadScriptletResources loaded).run s = (.error e, s')) :
  s' = s ∧ ((∃ e, loaded = .error e) ∨ loaded = .ok [])
  := by
  cases loaded with
  | error e =>
    cases h
    exact ⟨rfl, .inl ⟨_, rfl⟩⟩
  | ok resources =>
    cases resources with
    | nil =>
      cases h
      exact ⟨rfl, .inr rfl⟩
    | cons r resources => cases h

/-- An update that fails, on a file that loads, leaves the lists, the resources, the engine and the
resources at the next start as they were exactly if no file is configured, nothing was fetched, too
little to be written was, or what is left on the disk loads as before.  What was written and
rejected does so only if there were no resources before, and there are none in it. -/
theorem refresh_harmless_iff (F : ResourceFormat A) {cfg : AdblockConfig}
    {fetched : Except Text Bytes} {written : Written} {s s' : ListCuration A σ}
    {file file' : Option Bytes} {before : List A.Resource} {e : Text}
    (hpath : s.core.scriptlets.path = cfg.scriptletResources)
    (hfile : resourcesAtStart F cfg file = .ok before)
    (h : refresh F fetched written s file = (.error e, s', file')) :
  (s' = s ∧ resourcesAtStart F cfg file' = .ok before)
    ↔ cfg.scriptletResources.isEmpty
      ∨ match fetched with
        | .error _ => True
        | .ok bytes =>
            bytes.length < minBytes
              ∨ match written with
                | .failed left _ => resourcesAtStart F cfg left = .ok before
                | .done => before = [] ∧ resourcesAtStart F cfg (some bytes) = .ok []
  := by
  unfold refresh at h
  rw [hpath] at h
  simp only at h
  split at h
  · next hempty =>
    cases h
    exact iff_of_true ⟨rfl, hfile⟩ (.inl hempty)
  · next hempty =>
    rw [or_iff_right hempty]
    cases fetched with
    | error e =>
      cases h
      exact iff_of_true ⟨rfl, hfile⟩ trivial
    | ok bytes =>
      simp only at h ⊢
      split at h
      · next hsmall =>
        cases h
        exact iff_of_true ⟨rfl, hfile⟩ (.inl hsmall)
      · next hsmall =>
        rw [or_iff_right hsmall]
        cases written with
        | failed left e =>
          cases h
          exact and_iff_right rfl
        | done =>
          simp only at h ⊢
          split at h
          · next hreload =>
            cases h
            obtain ⟨rfl, hload⟩ := run_reloadScriptletResources_error hreload
            rw [and_iff_right rfl, resourcesAtStart_some (Bool.eq_false_iff.mpr hempty)]
            rcases hload with ⟨e, hload⟩ | hload
            · rw [hload]
              exact iff_of_false (fun h => by cases h) fun h => by cases h.2
            · rw [hload]
              constructor
              · intro heq
                cases heq
                exact ⟨rfl, rfl⟩
              · rintro ⟨rfl, -⟩
                rfl
          · cases h

end ListCuration

/-! ### A file of names -/

/-- Resources that are only names, in a file of ASCII characters. -/
def ResourceFormat.names : ResourceFormat .counting where
  fromUtf8 bytes :=
    if bytes.all (· < 128) then .ok (bytes.map fun b => Char.ofNat b.toNat)
    else .error "stream did not contain valid UTF-8".toList
  fromStr text :=
    match SerdeJson.reference.fromStr text with
    | some (.arr values) =>
        match values.mapM fun v => (v.get "name".toList).bind Json.asStr with
        | some names => .ok names
        | none => .error "missing field".toList
    | _ => .error "expected value".toList

namespace ListCuration

def resourcesConfig : AdblockConfig :=
  { AdblockConfig.plain with scriptletResources := "resources.json".toList }

def oneResourceFile : Bytes :=
  "[\x7b\"name\": \"a.js\"\x7d]".toList.map fun c => UInt8.ofNat c.toNat

/-- The state after startup with a file of one resource. -/
def oneResource : ListCuration .counting MemoryListStore :=
  startupState resourcesConfig
    { inject := false, path := "resources.json".toList, resources := ["a.js".toList] } .new none []

theorem resourcesAtStart_oneResourceFile :
  resourcesAtStart .names resourcesConfig (some oneResourceFile) = .ok ["a.js".toList]
  := rfl

/-- Nothing is downloaded. -/
theorem refresh_harmless_fetch :
  ∃ st file, refresh .names (.error "no network".toList) .done oneResource (some oneResourceFile)
      = (.error "no network".toList, st, file)
    ∧ st = oneResource
    ∧ resourcesAtStart .names resourcesConfig file = .ok ["a.js".toList]
  := by
  have hrefresh : refresh .names (.error "no network".toList) .done oneResource
      (some oneResourceFile) = (.error "no network".toList, oneResource, some oneResourceFile) :=
    rfl
  exact ⟨_, _, hrefresh, (refresh_harmless_iff .names rfl resourcesAtStart_oneResourceFile
    hrefresh).mpr (.inr trivial)⟩

/-- A page of markup. -/
def page (n : ℕ) : Bytes :=
  List.replicate n '<'.toNat.toUInt8

def notJson : Error :=
  .config ("parsing scriptlet resources: ".toList ++ "expected value".toList)

/-- No page of markup is a file of resources. -/
theorem loadResources_page (n : ℕ) (path : Text) :
  loadResources .names path (page (n + 1)) = .error notJson
  := by
  have hpage : ResourceFormat.names.fromUtf8 (page (n + 1)) = .ok (List.replicate (n + 1) '<') := by
    rw [ResourceFormat.names, page]
    simp only [List.all_replicate, List.map_replicate]
    rfl
  rw [loadResources, hpage]
  rfl

/-- A page of markup is written over the file of resources, and the next start fails. -/
theorem refresh_harmless_page :
  resourcesAtStart .names resourcesConfig (some oneResourceFile) = .ok ["a.js".toList]
    ∧ refresh .names (.ok (page minBytes)) .done oneResource (some oneResourceFile)
      = (.error notJson.display, oneResource, some (page minBytes))
    ∧ resourcesAtStart .names resourcesConfig (some (page minBytes)) = .error notJson
  := by
  have hload (path : Text) : loadResources .names path (page minBytes) = .error notJson :=
    loadResources_page 9999 path
  have hsize : ¬ (page minBytes).length < minBytes := by
    rw [page, List.length_replicate]
    exact lt_irrefl _
  refine ⟨resourcesAtStart_oneResourceFile, ?_, (resourcesAtStart_some rfl _).trans (hload _)⟩
  unfold refresh
  simp only [hload, if_neg hsize]
  rfl

end ListCuration
