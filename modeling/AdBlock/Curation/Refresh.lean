import AdBlock.Curation.Install
import AdBlock.Process.Rely

/-!
# Refreshing the lists in the background

A pass of the updater notes which lists have grown old, downloads them one after the other and
installs what it gets.  A list that is removed during the pass is installed again when its download
arrives, because installing does not ask whether the list is still there.  The list stays removed
whatever the order of the steps exactly if the pass does not download its source
(`removed_gone_iff`).
-/

open ListStore

/-- The address of the raw file, for a page of a file in a repository. -/
def normalizeListUrl (url : Text) : Text :=
  match Text.stripPrefix url "https://github.com/".toList with
  | some rest =>
      match Text.splitn 4 '/' rest with
      | [owner, repo, kind, path] =>
          if kind = "blob".toList then
            "https://raw.githubusercontent.com/".toList ++ owner ++ '/' :: repo ++ '/' :: path
          else url
      | _ => url
  | none => url

/-- The names and sources of the lists from the web whose files are old or missing. -/
def staleUrlLists (age : ListId → Option ℕ) (maxAge : ℕ) (lists : List ListEntry) :
    List (Text × Text) :=
  let fromWeb := lists.filter fun l =>
    Text.startsWith l.source "http://".toList || Text.startsWith l.source "https://".toList
  let stale := fromWeb.filter fun l =>
    match age (ListId.of l.name) with
    | none => true
    | some age => maxAge < age
  stale.map fun l => (l.name, l.source)

inductive RefreshError where
  | fetch (url error : Text)
  | install (e : Error)

namespace ListCuration

variable {A : Library} {σ : Type} [ListStore σ]

/-- `fetch` is what downloading an address gives. -/
def installFromUrl (fetch : Text → Except Text Text) (given : Text) :
    Process (ListCuration A σ) (Except RefreshError ListEntry) :=
  let url := normalizeListUrl given
  match fetch url with
  | .error error => return .error (.fetch url error)
  | .ok text => do
      match ← installDownloaded given url text with
      | .error e => return .error (.install e)
      | .ok entry => return .ok entry

/-- Install the lists one after the other.  The downloads are numbered. -/
def refreshLists (fetch : ℕ → Text → Except Text Text) :
    ℕ → List (Text × Text) →
      Process (ListCuration A σ) (List (Text × Except RefreshError ListEntry))
  | _, [] => pure []
  | k, (name, url) :: stale => do
      let result ← installFromUrl (fetch k) url
      let results ← refreshLists fetch (k + 1) stale
      return (name, result) :: results

/-- One pass of the updater over the lists. -/
def refreshStale (fetch : ℕ → Text → Except Text Text) (age : ListId → Option ℕ) (maxAge : ℕ) :
    Process (ListCuration A σ) (List (Text × Except RefreshError ListEntry)) := do
  let stale ← read (staleUrlLists age maxAge)
  refreshLists fetch 0 stale

end ListCuration

/-! ### A pass and a removal -/

inductive Party where
  | updater
  | remover
  deriving DecidableEq, Repr

inductive PartyResult where
  | refreshed (results : List (Text × Except RefreshError ListEntry))
  | removed (result : Except Error Bool)

/-- The source that a file names. -/
def fileSource (text : Text) : Text :=
  (splitSource [] text).1

/-- The source that is read from the file of a list with a source. -/
def headerSource (source : Text) : Text :=
  source.takeWhile (· != '\n')

theorem fileSource_header (source : Text) (enabled : Bool) (text : Text) :
  fileSource (header source enabled ++ text) = headerSource source
  := by
  have hsplit : header source enabled ++ text
      = sourceMark ++ (source ++ '\n' :: ((if enabled then [] else disabledMark) ++ text)) := by
    simp [header]
  obtain ⟨rest, hrest⟩ := Text.exists_splitOnce_append source '\n'
    ((if enabled then [] else disabledMark) ++ text)
  rw [fileSource, splitSource, hsplit, Text.stripPrefix_append]
  simp only [hrest, Option.getD_some]
  rfl

namespace ListCuration

variable {A : Library} {σ : Type} [ListStore σ]

/-- The updater and a call that removes a list, before they have taken a step. -/
def passAndRemove (s : ListCuration A σ) (fetch : ℕ → Text → Except Text Text)
    (age : ListId → Option ℕ) (maxAge : ℕ) (name : Text) :
    Process.System Party (ListCuration A σ) PartyResult where
  proc
    | .updater => do
        let results ← refreshStale fetch age maxAge
        return .refreshed results
    | .remover => do
        let result ← removeList name
        return .removed result
  state := s

/-- No list in memory has the source. -/
def TableGone (source : Text) (s : ListCuration A σ) : Prop :=
  ∀ l ∈ s.core.lists, l.source ≠ source

/-- No list in memory or in the store has the source. -/
def Gone (source : Text) (s : ListCuration A σ) : Prop :=
  TableGone source s ∧ ∀ id text, get s.store id = some text → fileSource text ≠ source

/-- Every list with the source has the name, and its file is where it is removed. -/
def Only (source name : Text) (s : ListCuration A σ) : Prop :=
  (∀ l ∈ s.core.lists, l.source = source → l.name = name)
    ∧ ∀ id text, get s.store id = some text → fileSource text = source →
      id = ListId.of (sanitizeName name) ∧ id.isEmpty = false

/-- A step brings no list with the source. -/
def NoNew (source : Text) (s s' : ListCuration A σ) : Prop :=
  (∀ l ∈ s'.core.lists, l.source = source → l ∈ s.core.lists)
    ∧ ∀ id text, get s'.store id = some text → fileSource text = source →
      get s.store id = some text

section NoNew

variable {source name : Text} {s s' : ListCuration A σ}

theorem NoNew.tableGone (h : NoNew source s s') (hs : TableGone source s) :
  TableGone source s'
  := by
  intro l hl hsource
  exact hs l (h.1 l hl hsource) hsource

theorem NoNew.gone (h : NoNew source s s') (hs : Gone source s) :
  Gone source s'
  := by
  use h.tableGone hs.1
  intro id text htext hsource
  exact hs.2 id text (h.2 id text htext hsource) hsource

theorem NoNew.only (h : NoNew source s s') (hs : Only source name s) :
  Only source name s'
  := by
  use fun l hl hsource => hs.1 l (h.1 l hl hsource) hsource
  intro id text htext hsource
  exact hs.2 id text (h.2 id text htext hsource) hsource

theorem noNew_refl (source : Text) (s : ListCuration A σ) :
  NoNew source s s
  := ⟨fun _ hl _ => hl, fun _ _ h _ => h⟩

theorem noNew_drop (source : Text) (s : ListCuration A σ) (name : Text) :
  NoNew source s (s.setLists (retainOthers s.core.lists name))
  := ⟨fun _ hl _ => List.mem_of_mem_filter hl, fun _ _ h _ => h⟩

variable [LawfulListStore σ]

theorem noNew_remove (source : Text) (s : ListCuration A σ) (id : ListId) :
  NoNew source s { s with store := ListStore.remove s.store id }
  := by
  use fun _ hl _ => hl
  intro id' text h _
  rw [LawfulListStore.get_remove] at h
  split_ifs at h
  exact h

/-- Lists with another source may be put in. -/
theorem hasSteps_noNew {url : Text}
    (hpersist : ∀ (t : σ) id text, (ListStore.persist t id text).1 = .ok ())
    (hurl : url ≠ source) (hheader : headerSource url ≠ source) :
  HasSteps (NoNew source : ListCuration A σ → ListCuration A σ → Prop) url
  where
  refl := noNew_refl source
  remove := noNew_remove source
  drop := noNew_drop source
  put s entry h := by
    refine ⟨fun l hl hsource => ?_, fun _ _ h _ => h⟩
    rcases List.mem_append.mp hl with hl | hl
    · exact List.mem_of_mem_filter hl
    · obtain rfl := List.mem_singleton.mp hl
      exact absurd (h.symm.trans hsource) hurl
  persist s id enabled text := by
    use fun _ hl _ => hl
    intro id' text' h hsource
    have hok : ListStore.persist s.store id (header url enabled ++ text)
        = (.ok (), (ListStore.persist s.store id (header url enabled ++ text)).2) :=
      Prod.ext (hpersist _ _ _) rfl
    rw [LawfulListStore.get_persist hok] at h
    split_ifs at h
    · cases h
      rw [fileSource_header] at hsource
      exact absurd hsource hheader
    · exact h

/-- A pass that downloads other sources brings no list with the source. -/
theorem steps_refreshLists
    (hpersist : ∀ (t : σ) id text, (ListStore.persist t id text).1 = .ok ())
    (fetch : ℕ → Text → Except Text Text) (k : ℕ) {stale : List (Text × Text)}
    (hstale : ∀ p ∈ stale, normalizeListUrl p.2 ≠ source
      ∧ headerSource (normalizeListUrl p.2) ≠ source) :
  (refreshLists fetch k stale : Process (ListCuration A σ) _).Steps (NoNew source)
  := by
  induction stale generalizing k with
  | nil => apply Process.steps_pure
  | cons p stale ih =>
    obtain ⟨hurl, hheader⟩ := hstale p List.mem_cons_self
    apply Process.steps_bind
    · rw [installFromUrl]
      split
      · apply Process.steps_pure
      · apply Process.steps_bind ((hasSteps_noNew hpersist hurl hheader).installDownloaded _ _)
        rintro (e | entry)
        · apply Process.steps_pure
        · apply Process.steps_pure
    · intro _
      apply Process.steps_bind (ih (k + 1) fun q hq => hstale q (List.mem_cons_of_mem p hq))
      intro _
      apply Process.steps_pure

/-- The call that removes the list leaves none with its source, as long as the others bring
none. -/
theorem keeps_removeList :
  Process.Keeps (Only source name) (NoNew source) (fun _ _ => True) (fun _ => True)
    (removeList name : Process (ListCuration A σ) _) fun _ => Gone source
  := by
  apply Process.keeps_bind (Q := fun present s => present = false → TableGone source s)
  · apply Process.keeps_atomic fun _ _ _ h _ => h
    intro s honly _
    refine ⟨honly, trivial, fun habsent l hl hsource => ?_⟩
    have hpresent : s.core.lists.any (fun l => l.name = name) = true :=
      List.any_eq_true.mpr ⟨l, hl, decide_eq_true (honly.1 l hl hsource)⟩
    cases hpresent.symm.trans habsent
  intro present
  apply Process.keeps_bind (Q := fun _ => TableGone source)
  · rw [takeOut]
    split
    · apply Process.keeps_atomic
      · intro s s' _ h hstep habsent
        exact hstep.tableGone (h habsent)
      · intro s honly _
        have hstep := noNew_drop source s name
        refine ⟨hstep.only honly, trivial, fun l hl hsource => ?_⟩
        have hname := honly.1 l (hstep.1 l hl hsource) hsource
        exact name_ne_of_mem_retainOthers hl hname
    · next habsent =>
      apply Process.keeps_pure
      intro s _ h
      exact h (Bool.eq_false_iff.mpr habsent)
  intro removed
  apply Process.keeps_bind (Q := fun _ => Gone source)
  · rw [removeFile]
    split
    · next hempty =>
      apply Process.keeps_pure
      intro s honly htable
      use htable
      intro id text htext hsource
      obtain ⟨rfl, hid⟩ := honly.2 id text htext hsource
      rw [hempty] at hid
      cases hid
    · apply Process.keeps_atomic fun _ _ _ h hstep => hstep.tableGone h
      intro s honly htable
      have hstep := noNew_remove source s (ListId.of (sanitizeName name))
      refine ⟨hstep.only honly, trivial, htable, fun id text htext hsource => ?_⟩
      obtain ⟨rfl, -⟩ := honly.2 id text (hstep.2 id text htext hsource) hsource
      rw [LawfulListStore.get_remove, if_pos rfl] at htext
      cases htext
  intro _
  exact Process.keeps_pure fun _ _ h => h

end NoNew

/-! ### Any order of the steps -/

section Orders

variable [LawfulListStore σ] {source name : Text} {s : ListCuration A σ}
  {fetch : ℕ → Text → Except Text Text} {age : ListId → Option ℕ} {maxAge : ℕ}

/-- What the parties rely on: the updater on nothing. -/
def partyRely (source : Text) : Party → ListCuration A σ → ListCuration A σ → Prop
  | .updater => fun _ _ => True
  | .remover => NoNew source

def partyGuar (source : Text) : Party → ListCuration A σ → ListCuration A σ → Prop
  | .updater => NoNew source
  | .remover => fun _ _ => True

def partyPost (source : Text) : Party → PartyResult → ListCuration A σ → Prop
  | .updater => fun _ _ => True
  | .remover => fun _ => Gone source

omit [LawfulListStore σ] in
theorem compatible_parties (P : ListCuration A σ → Prop) (source : Text) :
  Process.System.Compatible P (partyRely source) (partyGuar source) (partyPost source)
  where
  rely i j hij s s' h := by
    cases i with
    | updater =>
      cases j with
      | updater => exact absurd rfl hij
      | remover => exact h
    | remover =>
      cases j with
      | updater => trivial
      | remover => exact absurd rfl hij
  stable i a s s' _ hpost hrely := by
    cases i with
    | updater => trivial
    | remover => exact hrely.gone hpost

omit [LawfulListStore σ] in
/-- The first step of the updater notes the old lists. -/
theorem exec_passAndRemove (s : ListCuration A σ) (fetch : ℕ → Text → Except Text Text)
    (age : ListId → Option ℕ) (maxAge : ℕ) (name : Text) :
  ∃ c : Process.System Party (ListCuration A σ) PartyResult,
    (∀ schedule, (s.passAndRemove fetch age maxAge name).exec (.updater :: schedule)
      = c.exec schedule)
    ∧ c.state = s
    ∧ c.proc .updater = (do
        let results ← refreshLists fetch 0 (staleUrlLists age maxAge s.core.lists)
        return .refreshed results)
    ∧ c.proc .remover = (do
        let result ← removeList name
        return .removed result)
  := by
  obtain ⟨c, hexec, hstate, hupdater, hothers⟩ :=
    @Process.System.exec_cons _ _ _ _ (s.passAndRemove fetch age maxAge name) .updater _ _ _ rfl rfl
  exact ⟨c, hexec, hstate, hupdater, hothers .remover (by decide)⟩

/-- A list whose source is not downloaded in the pass stays removed. -/
theorem gone_of_only
    (hpersist : ∀ (t : σ) id text, (ListStore.persist t id text).1 = .ok ())
    (honly : Only source name s)
    (hstale : ∀ p ∈ staleUrlLists age maxAge s.core.lists, normalizeListUrl p.2 ≠ source
      ∧ headerSource (normalizeListUrl p.2) ≠ source)
    {schedule : List Party} {c : Process.System Party (ListCuration A σ) PartyResult}
    (hexec : (s.passAndRemove fetch age maxAge name).exec (.updater :: schedule) = some c)
    {r : PartyResult} (hdone : c.proc .remover = .done r) :
  Gone source c.state
  := by
  obtain ⟨c₁, hfirst, hstate, hupdater, hremover⟩ :=
    exec_passAndRemove s fetch age maxAge name
  rw [hfirst] at hexec
  have hkept : c₁.Kept (Only source name) (partyRely source) (partyGuar source)
      (partyPost source) := by
    use hstate ▸ honly
    rintro (_ | _)
    · refine ⟨fun _ => True, trivial, ?_⟩
      rw [hupdater]
      apply Process.keeps_bind
        ((steps_refreshLists hpersist fetch 0 hstale).keeps fun _ _ h hs => h.only hs)
      intro _
      exact Process.keeps_pure fun _ _ _ => trivial
    · refine ⟨fun _ => True, trivial, ?_⟩
      rw [hremover]
      apply Process.keeps_bind keeps_removeList
      intro _
      exact Process.keeps_pure fun _ _ h => h
  exact (hkept.exec (compatible_parties _ source) hexec).result hdone

end Orders

/-! ### The list is removed before the downloads arrive -/

section Removed

variable {name : Text} {s : ListCuration A σ} {fetch : ℕ → Text → Except Text Text}
  {age : ListId → Option ℕ} {maxAge : ℕ}

/-- Downloads that fail change nothing. -/
theorem run_refreshLists_of_error {k : ℕ} (h : ∀ j, k ≤ j → ∀ url, ∃ e, fetch j url = .error e)
    (stale : List (Text × Text)) (s : ListCuration A σ) :
  ((refreshLists fetch k stale).run s).2 = s
  := by
  induction stale generalizing k with
  | nil => rfl
  | cons p stale ih =>
    obtain ⟨e, he⟩ := h k le_rfl (normalizeListUrl p.2)
    have hrest := ih fun j hj => h j (Nat.le_of_succ_le hj)
    rw [refreshLists, installFromUrl, he]
    simpa using hrest

/-- When all downloads but one fail, the pass installs that one. -/
theorem run_refreshLists_only {k : ℕ} (before : List (Text × Text)) (p : Text × Text)
    (after : List (Text × Text))
    (h : ∀ j, j ≠ k + before.length → ∀ url, ∃ e, fetch j url = .error e)
    (s : ListCuration A σ) :
  ((refreshLists fetch k (before ++ p :: after)).run s).2
    = ((installFromUrl (fetch (k + before.length)) p.2).run s).2
  := by
  induction before generalizing k with
  | nil =>
    have hrest : ∀ j, k + 1 ≤ j → ∀ url, ∃ e, fetch j url = .error e := by
      intro j hj
      apply h
      rw [List.length_nil]
      omega
    rw [List.nil_append, refreshLists]
    simp [run_refreshLists_of_error hrest]
  | cons q before ih =>
    obtain ⟨e, he⟩ := h k (by rw [List.length_cons]; omega) (normalizeListUrl q.2)
    have hlength : k + 1 + before.length = k + (q :: before).length := by
      rw [List.length_cons]
      omega
    have hrest := ih (k := k + 1) fun j hj => h j (hlength ▸ hj)
    rw [hlength] at hrest
    rw [List.cons_append, refreshLists, installFromUrl, he]
    simpa using hrest

/-- The list is removed right after the old lists were noted, and then the pass goes on. -/
theorem exists_exec_removed {l : ListEntry} (hl : l ∈ s.core.lists)
    (fetch : ℕ → Text → Except Text Text) (age : ListId → Option ℕ) (maxAge : ℕ) :
  ∃ schedule c, (s.passAndRemove fetch age maxAge l.name).exec (.updater :: schedule) = some c
    ∧ (∃ r, c.proc .updater = .done r) ∧ c.proc .remover = .done (.removed (.ok true))
    ∧ c.state = ((refreshLists fetch 0 (staleUrlLists age maxAge s.core.lists)).run
        (s.without l.name)).2
  := by
  obtain ⟨c₁, hfirst, hstate, hupdater, hremover⟩ :=
    exec_passAndRemove s fetch age maxAge l.name
  obtain ⟨schedule, c₂, hexec, hdone, hstate₂, hothers⟩ :=
    Process.System.exists_exec_run c₁ .remover
  obtain ⟨schedule', c₃, hexec', hdone', hstate₃, hothers'⟩ :=
    Process.System.exists_exec_run c₂ .updater
  have hpresent : (s.core.lists.any fun m => m.name = l.name) = true :=
    List.any_eq_true.mpr ⟨l, hl, decide_eq_true rfl⟩
  have hrun : (c₁.proc .remover).run c₁.state
      = (.removed (.ok true), s.without l.name) := by
    rw [hremover, hstate, Process.run_bind, run_removeList, hpresent]
    rfl
  rw [hrun] at hdone hstate₂
  refine ⟨schedule ++ schedule', c₃, ?_, ⟨_, hdone'⟩, ?_, ?_⟩
  · rw [hfirst, hexec, ← List.append_nil schedule', hexec']
    rfl
  · rw [hothers' .remover (by decide), hdone]
  · rw [hstate₃, hothers .updater (by decide), hupdater, hstate₂, Process.run_bind]
    rfl

/-- A download that is installed. -/
def refreshedText : Text :=
  "! Title: refreshed\n||ads.example^".toList

theorem not_rejected_refreshedText :
  ¬ Rejected refreshedText
  := by
  decide +kernel

theorem installName_refreshedText (url : Text) :
  installName url refreshedText = "refreshed".toList
  := by
  have htitle : listTitle refreshedText = some "refreshed".toList := by
    decide +kernel
  rw [installName, downloadName, htitle, Option.getD_some]
  decide +kernel

/-- A download that is installed is in memory and in the store with its source. -/
theorem run_installFromUrl_refreshedText [LawfulListStore σ]
    (hpersist : ∀ (t : σ) id text, (ListStore.persist t id text).1 = .ok ())
    (fetch : Text → Except Text Text) (hfetch : ∀ url, fetch url = .ok refreshedText)
    (given : Text) (s : ListCuration A σ) :
  ¬ Gone (normalizeListUrl given) ((installFromUrl fetch given).run s).2
    ∧ ¬ Gone (headerSource (normalizeListUrl given)) ((installFromUrl fetch given).run s).2
  := by
  have hstate : ((installFromUrl fetch given).run s).2
      = ((installDownloaded given (normalizeListUrl given) refreshedText).run s).2 := by
    rw [installFromUrl, hfetch]
    simp only [Process.run_bind]
    generalize (installDownloaded given (normalizeListUrl given) refreshedText).run s = out
    obtain ⟨_ | _, t⟩ := out
    · rfl
    · rfl
  rw [hstate]
  cases outcome_installDownloaded s given (normalizeListUrl given) refreshedText with
  | rejected h => exact absurd h not_rejected_refreshedText
  | unnamed _ hname =>
    rw [installName_refreshedText] at hname
    exact absurd hname (by decide)
  | refused _ _ e store hrefused =>
    have hok := hpersist _ _ _ ▸ congrArg Prod.fst hrefused
    cases hok
  | installed _ _ store htaken _ hstate =>
    rw [hstate]
    constructor
    · intro hgone
      exact hgone.1 _ (List.mem_append_right _ (List.mem_singleton_self _)) rfl
    · intro hgone
      have hget := LawfulListStore.get_persist htaken
        (ListId.of (installName (normalizeListUrl given) refreshedText))
      rw [if_pos rfl] at hget
      apply hgone.2 _ _ hget
      rw [installFile, fileSource_header]

/-- A list that is removed during a pass of the updater is gone, from memory and from the store,
whatever the order of the steps and whatever is downloaded, exactly if it was the only one with its
source, its file is where files are removed from, and the pass does not download its source. -/
theorem removed_gone_iff [LawfulListStore σ]
    (hpersist : ∀ (t : σ) id text, (ListStore.persist t id text).1 = .ok ())
    {s : ListCuration A σ} {l : ListEntry} (hl : l ∈ s.core.lists) (age : ListId → Option ℕ)
    (maxAge : ℕ) :
  (∀ (fetch : ℕ → Text → Except Text Text) (schedule : List Party)
      (c : Process.System Party (ListCuration A σ) PartyResult),
    (s.passAndRemove fetch age maxAge l.name).exec (.updater :: schedule) = some c →
    (∃ r, c.proc .updater = .done r) → c.proc .remover = .done (.removed (.ok true)) →
      Gone l.source c.state)
    ↔ Only l.source l.name s
      ∧ ∀ p ∈ staleUrlLists age maxAge s.core.lists,
        normalizeListUrl p.2 ≠ l.source ∧ headerSource (normalizeListUrl p.2) ≠ l.source
  := by
  constructor
  · intro hgone
    have hpass (fetch : ℕ → Text → Except Text Text) : Gone l.source
        ((refreshLists fetch 0 (staleUrlLists age maxAge s.core.lists)).run
          (s.without l.name)).2 := by
      obtain ⟨schedule, c, hexec, hupdater, hremover, hstate⟩ :=
        exists_exec_removed hl fetch age maxAge
      exact hstate ▸ hgone fetch schedule c hexec hupdater hremover
    constructor
    · -- No download arrives.
      have hfailed := hpass fun _ _ => .error []
      rw [run_refreshLists_of_error fun _ _ _ => ⟨_, rfl⟩] at hfailed
      constructor
      · intro m hm hsource
        by_contra hname
        apply hfailed.1 m _ hsource
        rw [without_lists]
        exact List.mem_filter.mpr ⟨hm, decide_eq_true hname⟩
      · intro id text htext hsource
        by_contra hother
        apply hfailed.2 id text _ hsource
        rw [without_store, dropFile]
        split
        · exact htext
        · next hempty =>
          rw [LawfulListStore.get_remove, if_neg, htext]
          rintro rfl
          exact hother ⟨rfl, Bool.eq_false_iff.mpr hempty⟩
    · -- Only the download in question arrives.
      intro p hp
      obtain ⟨before, after, hsplit⟩ := List.append_of_mem hp
      have hinstalled := hpass fun j _ =>
        if j = before.length then .ok refreshedText else .error []
      rw [hsplit, run_refreshLists_only] at hinstalled
      · have hnot := run_installFromUrl_refreshedText hpersist
          (fun _ => if 0 + before.length = before.length then .ok refreshedText else .error [])
          (fun _ => if_pos (Nat.zero_add _)) p.2 (s.without l.name)
        constructor
        · intro heq
          exact hnot.1 (heq ▸ hinstalled)
        · intro heq
          exact hnot.2 (heq ▸ hinstalled)
      · intro j hj url
        rw [Nat.zero_add] at hj
        exact ⟨_, if_neg hj⟩
  · rintro ⟨honly, hstale⟩ fetch schedule c hexec - hremover
    exact gone_of_only hpersist honly hstale hexec hremover

end Removed

/-! ### Two starts -/

/-- A store with one list from the web. -/
def webStore : MemoryListStore :=
  MemoryListStore.new.seed "ads".toList
    (header "https://lists.example/ads.txt".toList true ++ "||ads.example^".toList)

def webEntry : ListEntry where
  name := "ads".toList
  source := "https://lists.example/ads.txt".toList
  rules := 1
  enabled := true
  text := "||ads.example^".toList

theorem persist_memory (t : MemoryListStore) (id : ListId) (text : Text) :
  (ListStore.persist t id text).1 = .ok ()
  := rfl

/-- The store with a second list from the web. -/
def twoWebStore : MemoryListStore :=
  webStore.seed "spy".toList
    (header "https://lists.example/spy.txt".toList true ++ "||spy.example^".toList)

/-- The file of the second list is missing, the other one is new. -/
def otherOld (id : ListId) : Option ℕ :=
  if id = ListId.of "spy".toList then none else some 0

/-- Another list is refreshed while this one is removed. -/
theorem removed_gone_other :
  webEntry ∈ twoWebStore.start.core.lists
    ∧ staleUrlLists otherOld 1 twoWebStore.start.core.lists
      = [("spy".toList, "https://lists.example/spy.txt".toList)]
    ∧ (∀ (fetch : ℕ → Text → Except Text Text) (schedule : List Party)
        (c : Process.System Party (ListCuration .counting MemoryListStore) PartyResult),
      (twoWebStore.start.passAndRemove fetch otherOld 1 webEntry.name).exec
          (.updater :: schedule) = some c →
      (∃ r, c.proc .updater = .done r) → c.proc .remover = .done (.removed (.ok true)) →
        Gone webEntry.source c.state)
  := by
  have hmem : webEntry ∈ twoWebStore.start.core.lists := by
    decide +kernel
  have hstale : staleUrlLists otherOld 1 twoWebStore.start.core.lists
      = [("spy".toList, "https://lists.example/spy.txt".toList)] := by
    decide +kernel
  have honly : Only webEntry.source webEntry.name twoWebStore.start := by
    use by decide +kernel
    intro id text htext hsource
    obtain ⟨x, hfind, rfl⟩ := Option.map_eq_some_iff.mp htext
    obtain rfl : x.id = id := by simpa using List.find?_some hfind
    have hfiles : ∀ x ∈ load twoWebStore.start.store, fileSource x.text = webEntry.source →
        x.id = ListId.of (sanitizeName webEntry.name) ∧ x.id.isEmpty = false := by
      decide +kernel
    exact hfiles x (List.mem_of_find?_eq_some hfind) hsource
  use hmem, hstale
  apply (removed_gone_iff persist_memory hmem otherOld 1).mpr
  use honly
  rw [hstale]
  decide +kernel

/-- The list is old.  It is removed while it is downloaded, and installed again. -/
theorem removed_gone_refreshed :
  ∃ c, (webStore.start.passAndRemove (fun _ _ => .ok webEntry.text) (fun _ => none) 1
        webEntry.name).exec
      [.updater, .remover, .remover, .remover, .updater, .updater, .updater, .updater] = some c
    ∧ (∃ r, c.proc .updater = .done r) ∧ c.proc .remover = .done (.removed (.ok true))
    ∧ webEntry ∈ c.state.core.lists
    ∧ get c.state.store (ListId.of webEntry.name)
      = some (header webEntry.source true ++ webEntry.text)
  := by
  refine ⟨_, rfl, ⟨_, rfl⟩, rfl, ?_, ?_⟩
  · decide +kernel
  · decide +kernel

end ListCuration
