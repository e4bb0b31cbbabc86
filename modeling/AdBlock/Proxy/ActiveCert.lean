import AdBlock.Json.Cut
import AdBlock.Process.Calls
import AdBlock.Proxy.Certs

/-!
# The active certificate authority

The list of authorities marks one row as active, and its files are the ones in use, if the selected
authority is stored with both its files.  A call that fails has to leave the stored authorities and
the selection as they were.  Both hold after every call of a run exactly if no call is harmful
(`one_active_iff`): the folders and the selection are changed one after the other, and some failures
in between are not undone.
-/

namespace Proxy

namespace CertStore

variable (S : SerdeJson) (authority : Text → Text → Except CertError Unit) (store : CertStore)
  (readCertInfo : Text → Option CertInfo) (configCert : Option Text)

/-! ### What has to hold -/

/-- The files of the authority of a row. -/
def rowPaths (row : CertSummary) : Text × Text :=
  if row.source = "config".toList then (store.configCert, store.configKey)
  else (store.path row.name .cert, store.path row.name .key)

/-- One row is marked as active, and its files are in use. -/
def OneActive (disk : CertDisk) : Prop :=
  ∃ row, (list S readCertInfo configCert disk).filter (·.active) = [row]
    ∧ activePaths S store disk = store.rowPaths row

/-- A folder with a certificate, which is listed. -/
def listed (folder : Option (Folder CertFile)) : Option (Folder CertFile) :=
  folder.filter fun folder => (folder .cert).isSome

/-- The stored authorities with their files. -/
def stored (disk : CertDisk) (name : Text) : Option (Folder CertFile) :=
  listed (disk.folders.lookup name)

/-- One authority is active after a call, and nothing has changed if the call failed. -/
def Sound (op : Op) (disk : CertDisk) : Prop :=
  OneActive S store readCertInfo configCert (step S authority store op disk)
    ∧ ∀ e, (call S authority store op disk).1 = .error e →
      stored (step S authority store op disk) = stored disk
        ∧ selected S (step S authority store op disk) = selected S disk

/-! ### Calls that do harm -/

/-- The pair is not written whole, or cannot be loaded. -/
def spoils (io : PairIo) (cert key : Text) : Bool :=
  decide (io.cert ≠ .done) || decide (io.key ≠ .done) || !io.read.isOk || !(authority cert key).isOk

/-- A pair is not kept.  Its certificate is left in a folder that was not listed, or a folder that
was listed is changed. -/
def harmsPair (io : PairIo) (name cert key : Text) (disk : CertDisk) : Bool :=
  !(io.found && (disk.folders.lookup name).isSome) && io.created.isOk && spoils authority io cert key
    && match stored disk name with
      | none => io.cert.opens && !io.removed.takes .cert
      | some folder =>
          io.removed.takes .cert || io.cert.changes cert (folder .cert)
            || io.removed.takes .key && (folder .key).isSome
            || !io.removed.takes .key && decide (io.cert = .done)
              && io.key.changes key (folder .key)

/-- The directory of the selection can be written to. -/
def reaches (io : SaveIo) : Bool :=
  store.activeDir.isNone || io.created.isOk

/-- The write of the selection fails after the file was opened.  Then nothing is selected if the
text was cut short, and the new selection otherwise. -/
def harmsSelection (io : SaveIo) (selection : ActiveSelection) (disk : CertDisk) : Bool :=
  match io.written with
  | .failed (some n) _ =>
      store.reaches io
        && if n < (selectionText S io selection disk).length then (selected S disk).isSome
          else decide (selected S disk ≠ selection.active)
  | _ => false

/-- A file of a stored authority is taken by a removal that fails, or the selected authority is
removed and its selection is not read or not saved. -/
def harmsFolder (io : DeleteIo) (name : Text) (folder : Folder CertFile) (disk : CertDisk) : Bool :=
  match io.removed with
  | .failed taken _ =>
      (folder .cert).isSome
        && (taken .cert || taken .key && (folder .key).isSome)
  | .done =>
      decide (selected S disk = some name)
        && !(io.read && store.reaches io.save && decide (io.save.written = .done))

def harmful (op : Op) (disk : CertDisk) : Bool :=
  match op with
  | .addPem name cert key io =>
      match cleanName name with
      | .error _ => false
      | .ok name =>
          if Text.trim cert = [] ∨ Text.trim key = [] then false
          else harmsPair authority io name cert key disk
  | .generate name given generateRootCa io =>
      match cleanName name with
      | .error _ => false
      | .ok name =>
          match generateRootCa (commonName name given) with
          | .error _ => false
          | .ok (cert, key) => harmsPair authority io name cert key disk
  | .activate name io =>
      if name = configName then harmsSelection S store io.save { active := none } disk
      else
        match cleanName name with
        | .error _ => false
        | .ok name =>
            if !(io.found .cert && disk.folders.has name .cert)
                || !(io.found .key && disk.folders.has name .key) then false
            else harmsSelection S store io.save { active := some name } disk
  | .delete name io =>
      match cleanName name with
      | .error _ => false
      | .ok name =>
          match io.found, disk.folders.lookup name with
          | true, some folder => harmsFolder S store io name folder disk
          | _, _ => false

/-! ### The selected authority -/

/-- The selected authority is stored, with both its files. -/
def InUse (disk : CertDisk) : Prop :=
  ∀ name, selected S disk = some name →
    ∃ folder, stored disk name = some folder ∧ (folder .key).isSome = true

variable {S authority store readCertInfo configCert} {disk disk' : CertDisk} {name : Text}

theorem stored_eq_some {folder : Folder CertFile} :
  stored disk name = some folder
    ↔ disk.folders.lookup name = some folder ∧ (folder .cert).isSome = true
  := Option.filter_eq_some_iff

theorem has_of_stored {folder : Folder CertFile} {file : CertFile}
    (h : stored disk name = some folder) (hfile : (folder file).isSome = true) :
  disk.folders.has name file = true
  := by
  rw [Folders.has, (stored_eq_some.mp h).1]
  exact hfile

theorem mem_storedNames :
  name ∈ storedNames disk ↔ (stored disk name).isSome = true
  := by
  rw [storedNames, Folders.mem_named, Folders.has, stored, listed]
  cases disk.folders.lookup name with
  | none => simp
  | some folder => simp [Option.filter_some]

theorem exists_stored_of_has (hcert : disk.folders.has name .cert = true)
    (hkey : disk.folders.has name .key = true) :
  ∃ folder, stored disk name = some folder ∧ (folder .key).isSome = true
  := by
  rw [Folders.has] at hcert hkey
  cases hlookup : disk.folders.lookup name with
  | none =>
    rw [hlookup] at hcert
    cases hcert
  | some folder =>
    rw [hlookup] at hcert hkey
    exact ⟨folder, stored_eq_some.mpr ⟨hlookup, hcert⟩, hkey⟩

theorem InUse.congr (h : InUse S disk) (hstored : stored disk' = stored disk)
    (hselected : selected S disk' = selected S disk) :
  InUse S disk'
  := by
  intro name hname
  rw [hstored]
  exact h name (hselected ▸ hname)

/-! ### The rows -/

@[simp]
theorem active_summarize (name source : Text) (active : Bool) (cert : Option Text) :
  (summarize readCertInfo name source active cert).active = active
  := by
  rw [summarize]
  split <;> rfl

theorem rowPaths_summarize (name source : Text) (active : Bool) (cert : Option Text) :
  store.rowPaths (summarize readCertInfo name source active cert)
    = if source = "config".toList then (store.configCert, store.configKey)
      else (store.path name .cert, store.path name .key)
  := by
  rw [summarize]
  split <;> rfl

theorem filter_list_none (h : selected S disk = none) :
  (list S readCertInfo configCert disk).filter (·.active)
    = [summarize readCertInfo configName "config".toList true configCert]
  := by
  simp [list, h, List.filter_map, Function.comp_def]

/-- The selected authority has a row if it is stored. -/
theorem filter_list_some (h : selected S disk = some name) :
  (list S readCertInfo configCert disk).filter (·.active)
    = (List.replicate ((storedNames disk).count name) name).map fun name =>
      summarize readCertInfo name "stored".toList (selected S disk == some name)
        ((disk.folders.lookup name).bind (· .cert))
  := by
  have hactive : (fun name' => selected S disk == some name') = (· == name) := by
    funext name'
    rw [h]
    exact Bool.beq_comm
  have hcount : ((storedNames disk).insertionSort (· ≤ ·)).count name
      = (storedNames disk).count name :=
    (List.perm_insertionSort _ _).count_eq name
  rw [list, List.filter_cons_of_neg (by simp [h]), List.filter_map]
  congr 1
  rw [← hcount, ← List.filter_beq]
  congr 1
  rw [← hactive]
  funext name'
  exact active_summarize _ _ _ _

theorem oneActive_of_inUse (h : InUse S disk) :
  OneActive S store readCertInfo configCert disk
  := by
  cases hselected : selected S disk with
  | none =>
    refine ⟨_, filter_list_none hselected, ?_⟩
    rw [rowPaths_summarize, activePaths, hselected]
    rfl
  | some name =>
    obtain ⟨folder, hstored, hkey⟩ := h name hselected
    have hcert := (stored_eq_some.mp hstored).2
    have hmem : name ∈ storedNames disk := by
      rw [mem_storedNames, hstored]
      rfl
    have hcount : (storedNames disk).count name = 1 :=
      List.count_eq_one_of_mem (Folders.nodup_named _ _) hmem
    have hrow : (list S readCertInfo configCert disk).filter (·.active) = _ :=
      filter_list_some hselected
    rw [hcount, List.replicate_one, List.map_singleton] at hrow
    refine ⟨_, hrow, ?_⟩
    · rw [rowPaths_summarize, if_neg (by decide), activePaths, hselected]
      simp only [has_of_stored hstored hcert, has_of_stored hstored hkey, Bool.and_self, if_true]

/-- A selected authority that is not stored has no row. -/
theorem not_oneActive (hselected : selected S disk = some name) (hstored : stored disk name = none) :
  ¬ OneActive S store readCertInfo configCert disk
  := by
  rintro ⟨row, hrow, -⟩
  have hcount : (storedNames disk).count name = 0 := by
    rw [List.count_eq_zero, mem_storedNames, hstored]
    exact Bool.false_ne_true
  rw [filter_list_some hselected, hcount] at hrow
  cases hrow

/-! ### What a call does -/

/-- What becomes of the disk, with whether that is harmful. -/
inductive Outcome (S : SerdeJson) (disk : CertDisk) {α : Type} :
    Bool → Except CertError α × CertDisk → Prop where
  | done {answer : α} {disk' : CertDisk} (h : InUse S disk') : Outcome S disk false (.ok answer, disk')
  | undone {e : CertError} {disk' : CertDisk} (hstored : stored disk' = stored disk)
      (hselected : selected S disk' = selected S disk) : Outcome S disk false (.error e, disk')
  | left {e : CertError} {disk' : CertDisk}
      (h : ¬ (stored disk' = stored disk ∧ selected S disk' = selected S disk)) :
      Outcome S disk true (.error e, disk')
  | dangling {answer : α} {disk' : CertDisk} {name : Text}
      (hselected : selected S disk' = some name) (hstored : stored disk' name = none) :
      Outcome S disk true (.ok answer, disk')

theorem Outcome.map {α β : Type} {harm : Bool} {answer : Except CertError α}
    (h : Outcome S disk harm (answer, disk')) (f : α → β) :
  Outcome S disk harm (answer.map f, disk')
  := by
  cases h with
  | done h => exact .done h
  | undone hstored hselected => exact .undone hstored hselected
  | left h => exact .left h
  | dangling hselected hstored => exact .dangling hselected hstored

theorem Outcome.refused {α : Type} (e : CertError) :
  Outcome S disk false ((.error e, disk) : Except CertError α × CertDisk)
  := .undone rfl rfl

/-! ### Saving the selection -/

section Save

variable {isFloat : Text → Prop} {R : Text → Text → Prop} (hS : S.Rereads isFloat R)

include hS in
/-- What is saved is selected. -/
theorem load_selectionText (io : SaveIo) (selection : ActiveSelection) (disk : CertDisk) :
  MergedStore.load S ActiveSelection.settings (some (selectionText S io selection disk)) = selection
  := MergedStore.load_save hS ActiveSelection.group selection
    (if io.read then disk.selection else none)

include hS in
/-- A selection is written as an object. -/
theorem exists_selectionText (io : SaveIo) (selection : ActiveSelection) (disk : CertDisk) :
  ∃ fields, selectionText S io selection disk = S.toStringPretty (.obj fields)
    ∧ MergedStore.Storable isFloat (.obj fields)
  := by
  have hstorable := MergedStore.storable_merge
    (MergedStore.storable_raw hS.toRewrites (if io.read then disk.selection else none))
    ((ActiveSelection.group : SharedGroup isFloat R _).storable selection)
  have hobj : ∃ fields, MergedStore.merge
      (MergedStore.raw S (if io.read then disk.selection else none)) selection.toJson
        = .obj fields := by
    rw [ActiveSelection.toJson]
    cases MergedStore.raw S (if io.read then disk.selection else none) <;> exact ⟨_, rfl⟩
  obtain ⟨fields, hfields⟩ := hobj
  rw [selectionText, hfields]
  refine ⟨fields, rfl, ?_⟩
  rw [← hfields]
  exact hstorable

variable (hcut : S.RejectsCut isFloat)

include hS hcut in
/-- A selection that was cut short selects nothing. -/
theorem load_take_selectionText (io : SaveIo) (selection : ActiveSelection) (disk : CertDisk)
    (n : ℕ) :
  (MergedStore.load S ActiveSelection.settings
      (some ((selectionText S io selection disk).take n))).active
    = if n < (selectionText S io selection disk).length then none else selection.active
  := by
  split_ifs with hn
  · obtain ⟨fields, htext, hstorable⟩ := exists_selectionText hS io selection disk
    rw [htext] at hn ⊢
    rw [MergedStore.load, Option.bind_some, hcut hstorable.made hstorable.depth hn]
    rfl
  · rw [List.take_of_length_le (Nat.le_of_not_lt hn), load_selectionText hS]

variable {io : SaveIo} {selection : ActiveSelection}

/-- A selection that is not reached stays as it is. -/
theorem save_eq (store : CertStore) (io : SaveIo) (selection : ActiveSelection) (disk : CertDisk) :
  ∃ e, save S store io selection disk
    = if store.reaches io then writeSelection S store io selection disk else (.error e, disk)
  := by
  rw [save, reaches]
  cases store.activeDir with
  | none => exact ⟨.tls [], rfl⟩
  | some dir =>
    cases io.created with
    | error e => exact ⟨_, rfl⟩
    | ok _ => exact ⟨.tls [], rfl⟩

/-- The folders stay as they are, and what is saved is selected. -/
theorem save_cases (store : CertStore) (io : SaveIo) (selection : ActiveSelection)
    (disk : CertDisk) :
  if store.reaches io && decide (io.written = .done) then
    save S store io selection disk
      = (.ok (), { disk with selection := some (selectionText S io selection disk) })
  else ∃ e disk', save S store io selection disk = (.error e, disk') ∧ stored disk' = stored disk
  := by
  obtain ⟨e, hsave⟩ := @save_eq S store io selection disk
  rw [hsave]
  cases store.reaches io with
  | false => exact ⟨e, disk, rfl, rfl⟩
  | true =>
    rw [writeSelection]
    cases io.written with
    | done => rfl
    | failed written e => exact ⟨_, _, rfl, rfl⟩

/-- A call that fails and leaves another selection does harm. -/
theorem outcome_select_error {α : Type} (e : CertError) (hstored : stored disk' = stored disk) :
  Outcome S disk (decide (selected S disk' ≠ selected S disk))
    ((.error e, disk') : Except CertError α × CertDisk)
  := by
  by_cases hsame : selected S disk' = selected S disk
  · rw [decide_eq_false (not_not_intro hsame)]
    exact .undone hstored hsame
  · rw [decide_eq_true hsame]
    exact .left fun h => hsame h.2

include hS hcut

theorem outcome_writeSelection (hreaches : store.reaches io = true)
    (hready : ∀ name, selection.active = some name →
      ∃ folder, stored disk name = some folder ∧ (folder .key).isSome = true) :
  Outcome S disk (harmsSelection S store io selection disk)
    (writeSelection S store io selection disk)
  := by
  rw [harmsSelection, writeSelection]
  cases hwritten : io.written with
  | done =>
    apply Outcome.done
    intro name hname
    apply hready
    rw [← hname]
    exact congrArg ActiveSelection.active (load_selectionText hS io selection disk).symm
  | failed written e =>
    cases written with
    | none => exact .undone rfl rfl
    | some n =>
      have hselected := load_take_selectionText hS hcut io selection disk n
      have houtcome := @outcome_select_error S disk
        { disk with selection := some ((selectionText S io selection disk).take n) } Unit
        (.tls ("writing ".toList ++ store.activeStore ++ ": ".toList ++ e)) rfl
      rw [selected, hselected] at houtcome
      have hharm : (if n < (selectionText S io selection disk).length then (selected S disk).isSome
            else decide (selected S disk ≠ selection.active))
          = decide ((if n < (selectionText S io selection disk).length then none
            else selection.active) ≠ selected S disk) := by
        split_ifs
        · cases selected S disk with
          | none => rfl
          | some name => rfl
        · exact decide_eq_decide.mpr ne_comm
      dsimp only
      rw [hreaches, Bool.true_and, hharm]
      exact houtcome

theorem outcome_save
    (hready : ∀ name, selection.active = some name →
      ∃ folder, stored disk name = some folder ∧ (folder .key).isSome = true) :
  Outcome S disk (harmsSelection S store io selection disk) (save S store io selection disk)
  := by
  obtain ⟨e, hsave⟩ := @save_eq S store io selection disk
  rw [hsave]
  cases hreaches : store.reaches io with
  | false =>
    have hharm : harmsSelection S store io selection disk = false := by
      rw [harmsSelection]
      split
      · rw [hreaches, Bool.false_and]
      · rfl
    rw [hharm]
    exact .refused e
  | true => exact outcome_writeSelection hS hcut hreaches hready

end Save

/-! ### Folders -/

theorem stored_set_self (disk : CertDisk) (name : Text) (folder : Option (Folder CertFile)) :
  stored { disk with folders := disk.folders.set name folder } name = listed folder
  := by
  rw [stored, Folders.lookup_set_self]

theorem stored_set_ne (disk : CertDisk) {name other : Text} (h : other ≠ name)
    (folder : Option (Folder CertFile)) :
  stored { disk with folders := disk.folders.set name folder } other = stored disk other
  := by
  rw [stored, Folders.lookup_set_ne _ h, stored]

/-- The stored authorities stay the same if the folder that was changed is listed as before. -/
theorem stored_set_iff (disk : CertDisk) (name : Text) (folder : Option (Folder CertFile)) :
  stored { disk with folders := disk.folders.set name folder } = stored disk
    ↔ listed folder = stored disk name
  := by
  constructor
  · intro h
    rw [← h, stored_set_self]
  · intro h
    funext other
    by_cases hne : other = name
    · rw [hne, stored_set_self, h]
    · exact stored_set_ne disk hne folder

theorem write_eq_ok {io : PairIo} (h : io.write = .ok ()) :
  io.cert = .done ∧ io.key = .done
  := by
  rw [PairIo.write] at h
  cases hcert : io.cert with
  | failed written e =>
    rw [hcert] at h
    cases h
  | done =>
    rw [hcert] at h
    exact ⟨rfl, FileWrite.eq_done_of_answer h⟩

/-- A call that fails and leaves another folder does harm if that is not listed as before. -/
theorem outcome_set_error {α : Type} (e : CertError) (name : Text)
    (folder : Option (Folder CertFile)) :
  Outcome S disk (decide (listed folder ≠ listed (disk.folders.lookup name)))
    ((.error e, { disk with folders := disk.folders.set name folder }) :
      Except CertError α × CertDisk)
  := by
  by_cases hsame : listed folder = listed (disk.folders.lookup name)
  · rw [decide_eq_false (not_not_intro hsame)]
    exact .undone ((stored_set_iff disk name folder).mpr hsame) rfl
  · rw [decide_eq_true hsame]
    exact .left fun h => hsame ((stored_set_iff disk name folder).mp h.1)

theorem folder_ext_iff {f g : Folder CertFile} :
  f = g ↔ f .cert = g .cert ∧ f .key = g .key
  := by
  constructor
  · rintro rfl
    exact ⟨rfl, rfl⟩
  · rintro ⟨hcert, hkey⟩
    funext file
    cases file with
    | cert => exact hcert
    | key => exact hkey

theorem isOk_kept (io : PairIo) (cert key : Text) :
  (io.kept authority cert key).isOk = !spoils authority io cert key
  := by
  rw [PairIo.kept, PairIo.write, spoils]
  cases io.cert <;> cases io.key <;> cases io.read <;> cases authority cert key <;> rfl

theorem listed_of_cert {f : Folder CertFile} (h : (f .cert).isSome = true) :
  listed (some f) = some f
  := Option.filter_eq_some_iff.mpr ⟨rfl, h⟩

theorem listed_of_no_cert {f : Folder CertFile} (h : f .cert = none) :
  listed (some f) = none
  := by
  rw [listed, Option.filter_some, h]
  rfl

/-- The files that are left of a pair when it is not removed. -/
theorem exists_left (io : PairIo) (taken : CertFile → Bool) (e cert key : Text)
    (old : Folder CertFile) :
  ∃ f, FolderRemoval.left (.failed taken e) (io.folder cert key old) = some f
    ∧ f .cert = (if taken .cert then none else io.cert.file cert (old .cert))
    ∧ f .key = if taken .key then none
      else if io.cert = .done then io.key.file key (old .key) else old .key
  := ⟨_, rfl, rfl, rfl⟩

/-- A certificate is left in a folder without one. -/
theorem decide_listed_folder_none (io : PairIo) (cert key : Text) {old : Folder CertFile}
    (hold : old .cert = none) :
  decide (listed (io.removed.left (io.folder cert key old)) ≠ none)
    = (io.cert.opens && !io.removed.takes .cert)
  := by
  cases io.removed with
  | done => simp [FolderRemoval.left, FolderRemoval.takes, listed]
  | failed taken e =>
    obtain ⟨f, hf, hcert, -⟩ := exists_left io taken e cert key old
    rw [hold] at hcert
    rw [hf, FolderRemoval.takes]
    cases htaken : taken .cert with
    | true =>
      rw [htaken] at hcert
      rw [listed_of_no_cert hcert, Bool.not_true, Bool.and_false]
      rfl
    | false =>
      rw [htaken, if_neg Bool.false_ne_true] at hcert
      rw [Bool.not_false, Bool.and_true, ← io.cert.isSome_file_none cert, ← hcert]
      cases hsome : f .cert with
      | none =>
        rw [listed_of_no_cert hsome]
        rfl
      | some text =>
        rw [listed_of_cert (by rw [hsome]; rfl)]
        rfl

/-- A file of a folder with a certificate is taken or changed. -/
theorem decide_listed_folder_some (io : PairIo) (cert key : Text) {folder : Folder CertFile}
    (hfolder : (folder .cert).isSome = true) :
  decide (listed (io.removed.left (io.folder cert key folder)) ≠ some folder)
    = (io.removed.takes .cert || io.cert.changes cert (folder .cert)
      || io.removed.takes .key && (folder .key).isSome
      || !io.removed.takes .key && decide (io.cert = .done) && io.key.changes key (folder .key))
  := by
  cases io.removed with
  | done => simp [FolderRemoval.left, FolderRemoval.takes, listed]
  | failed taken e =>
    obtain ⟨f, hf, hcert, hkey⟩ := exists_left io taken e cert key folder
    rw [hf, FolderRemoval.takes, FolderRemoval.takes]
    cases htaken : taken .cert with
    | true =>
      rw [htaken] at hcert
      rw [listed_of_no_cert hcert, Bool.true_or, Bool.true_or, Bool.true_or]
      rfl
    | false =>
      rw [htaken, if_neg Bool.false_ne_true] at hcert
      have hfile : (f .cert).isSome = true := hcert ▸ io.cert.isSome_file cert hfolder
      rw [listed_of_cert hfile, Bool.false_or, Bool.or_assoc, Bool.eq_iff_iff, decide_eq_true_eq,
        ne_eq, Option.some.injEq, folder_ext_iff, not_and_or, hcert, FileWrite.file_eq_iff,
        Bool.not_eq_false, Bool.or_eq_true, hkey]
      apply or_congr_right
      cases taken .key with
      | true => cases folder .key <;> simp
      | false =>
        by_cases hdone : io.cert = .done
        · simp [hdone, FileWrite.file_eq_iff]
        · simp [hdone]

/-- What is left of a pair that is not kept is listed otherwise than before. -/
theorem decide_listed_folder (io : PairIo) (cert key : Text) (old : Option (Folder CertFile)) :
  decide (listed (io.removed.left (io.folder cert key (old.getD fun _ => none))) ≠ listed old)
    = match listed old with
      | none => io.cert.opens && !io.removed.takes .cert
      | some folder =>
          io.removed.takes .cert || io.cert.changes cert (folder .cert)
            || io.removed.takes .key && (folder .key).isSome
            || !io.removed.takes .key && decide (io.cert = .done)
              && io.key.changes key (folder .key)
  := by
  cases hold : listed old with
  | none =>
    apply decide_listed_folder_none
    cases old with
    | none => rfl
    | some folder => simpa [listed, Option.filter_some] using hold
  | some folder =>
    obtain ⟨rfl, hsome⟩ := Option.filter_eq_some_iff.mp hold
    exact decide_listed_folder_some io cert key hsome

/-- A pair that is kept has both files. -/
theorem folder_of_kept {io : PairIo} {cert key : Text} (h : io.kept authority cert key = .ok ())
    (old : Folder CertFile) :
  io.folder cert key old .cert = some cert ∧ io.folder cert key old .key = some key
  := by
  rw [PairIo.kept] at h
  split at h
  · cases h
  · next hwrite =>
    obtain ⟨hcert, hkey⟩ := write_eq_ok hwrite
    rw [PairIo.folder, PairIo.folder, hcert, hkey]
    exact ⟨rfl, rfl⟩

/-- A folder with both files may be put under any name. -/
theorem InUse.set (h : InUse S disk) {folder : Folder CertFile}
    (hcert : (folder .cert).isSome = true) (hkey : (folder .key).isSome = true) (name : Text) :
  InUse S { disk with folders := disk.folders.set name (some folder) }
  := by
  intro other hother
  by_cases hne : other = name
  · rw [hne, stored_set_self]
    exact ⟨folder, Option.filter_eq_some_iff.mpr ⟨rfl, hcert⟩, hkey⟩
  · rw [stored_set_ne disk hne]
    exact h other hother

theorem outcome_writePair {io : PairIo} {name cert key : Text} (h : InUse S disk) :
  Outcome S disk (harmsPair authority io name cert key disk)
    (writePair authority store io name cert key disk)
  := by
  rw [harmsPair, writePair, stored, ← decide_listed_folder]
  split
  · next hfound =>
    rw [hfound]
    exact .refused _
  · next hfound =>
    rw [Bool.eq_false_iff.mpr hfound, ← Bool.not_not (spoils authority io cert key), ← isOk_kept]
    cases io.created with
    | error e => exact .refused _
    | ok _ =>
      cases hkept : io.kept authority cert key with
      | ok _ =>
        obtain ⟨hcert, hkey⟩ := folder_of_kept hkept
          ((disk.folders.lookup name).getD fun _ => none)
        apply Outcome.done
        apply h.set
        · rw [hcert]
          rfl
        · rw [hkey]
          rfl
      | error e => exact outcome_set_error e name _

theorem outcome_addPem {io : PairIo} {name cert key : Text} (h : InUse S disk) :
  Outcome S disk (harmful S authority store (.addPem name cert key io) disk)
    (addPem authority store io name cert key disk)
  := by
  simp only [harmful, addPem]
  cases cleanName name with
  | error e => exact .refused e
  | ok name =>
    dsimp only
    split
    · exact .refused _
    · exact outcome_writePair h

theorem outcome_generate {generateRootCa : Text → Except CertError (Text × Text)} {io : PairIo}
    {name given : Text} (h : InUse S disk) :
  Outcome S disk (harmful S authority store (.generate name given generateRootCa io) disk)
    (generate authority store generateRootCa io name given disk)
  := by
  simp only [harmful, generate]
  cases cleanName name with
  | error e => exact .refused e
  | ok name =>
    dsimp only
    cases generateRootCa (commonName name given) with
    | error e => exact .refused e
    | ok pair =>
      obtain ⟨cert, key⟩ := pair
      have houtcome : Outcome S disk (harmsPair authority io name cert key disk)
          (writePair authority store io name cert key disk) := outcome_writePair h
      dsimp only
      generalize writePair authority store io name cert key disk = result at houtcome ⊢
      obtain ⟨_ | _, disk'⟩ := result
      · exact houtcome.map fun _ => cert
      · exact houtcome.map fun _ => cert

section Selection

variable {isFloat : Text → Prop} {R : Text → Text → Prop} (hS : S.Rereads isFloat R)
  (hcut : S.RejectsCut isFloat)
include hS hcut

theorem outcome_activate {io : ActivateIo} {name : Text} :
  Outcome S disk (harmful S authority store (.activate name io) disk)
    (activate S store io name disk)
  := by
  simp only [harmful, activate]
  split
  · apply outcome_save hS hcut
    rintro name ⟨⟩
  · cases cleanName name with
    | error e => exact .refused e
    | ok name =>
      dsimp only
      split
      · exact .refused _
      · next hfound =>
        simp only [Bool.or_eq_true, Bool.not_eq_true', not_or, Bool.not_eq_false,
          Bool.and_eq_true] at hfound
        apply outcome_save hS hcut
        rintro _ ⟨⟩
        exact exists_stored_of_has hfound.1.2 hfound.2.2

omit hS hcut in
/-- What a removal that fails leaves of a folder is listed as before unless it has taken a file of
a stored authority. -/
theorem decide_listed_left (folder : Folder CertFile) (taken : CertFile → Bool) (e : Text) :
  decide (listed (FolderRemoval.left (.failed taken e) folder) ≠ listed (some folder))
    = ((folder .cert).isSome && (taken .cert || taken .key && (folder .key).isSome))
  := by
  rw [Bool.eq_iff_iff, decide_eq_true_eq, FolderRemoval.left, listed, listed, Option.filter_some,
    Option.filter_some]
  cases hcert : folder .cert with
  | none => simp [hcert]
  | some cert =>
    cases htaken : taken .cert with
    | true => simp [htaken]
    | false => cases hkey : folder .key <;> simp [hcert, htaken, hkey, folder_ext_iff]

omit hcut in
/-- The selection after the folder was removed. -/
theorem outcome_removed {io : DeleteIo} {name : Text} (h : InUse S disk)
    (hdisk' : disk' = { disk with folders := disk.folders.set name none }) :
  Outcome S disk
    (decide (selected S disk = some name)
      && !(io.read && store.reaches io.save && decide (io.save.written = .done)))
    (if (if io.read then selected S disk' else none) = some name then
      save S store io.save { active := none } disk'
    else (.ok (), disk'))
  := by
  have hgone : stored disk' name = none := hdisk' ▸ stored_set_self disk name none
  have hselected : selected S disk' = selected S disk := hdisk' ▸ rfl
  rw [hselected]
  by_cases hname : selected S disk = some name
  · rw [decide_eq_true hname, hname]
    cases io.read with
    | false => exact .dangling (hselected.trans hname) hgone
    | true =>
      have hcases := @save_cases S store io.save { active := none } disk'
      rw [if_pos rfl, if_pos rfl, Bool.true_and, Bool.true_and]
      split at hcases
      · next hsaved =>
        rw [hsaved, hcases]
        apply Outcome.done
        intro other hother
        rw [selected, load_selectionText hS] at hother
        cases hother
      · next hsaved =>
        obtain ⟨e, disk'', hsave, hstored⟩ := hcases
        obtain ⟨folder, hfolder, -⟩ := h name hname
        rw [Bool.eq_false_iff.mpr hsaved, hsave]
        apply Outcome.left
        rintro ⟨hsame, -⟩
        rw [← hsame, hstored, hgone] at hfolder
        cases hfolder
  · have hother : ¬ (if io.read then selected S disk else none) = some name := by
      cases io.read with
      | false => exact Option.some_ne_none name ∘ Eq.symm
      | true => exact hname
    rw [decide_eq_false hname, if_neg hother]
    apply Outcome.done
    intro other hin
    rw [hselected] at hin
    have hne : other ≠ name := by
      rintro rfl
      exact hname hin
    rw [hdisk', stored_set_ne disk hne]
    exact h other hin

omit hcut in
theorem outcome_delete {io : DeleteIo} {name : Text} (h : InUse S disk) :
  Outcome S disk (harmful S authority store (.delete name io) disk)
    (delete S store io name disk)
  := by
  simp only [harmful, delete]
  cases cleanName name with
  | error e => exact .refused e
  | ok name =>
    dsimp only
    cases io.found with
    | false => exact .refused _
    | true =>
      cases hlookup : disk.folders.lookup name with
      | none => exact .refused _
      | some folder =>
        dsimp only [harmsFolder]
        cases io.removed with
        | done => exact outcome_removed hS h rfl
        | failed taken e =>
          have houtcome : Outcome S disk _ _ := outcome_set_error (α := Unit)
            (.tls ("removing ".toList ++ store.dir name ++ ": ".toList ++ e)) name
            (FolderRemoval.left (.failed taken e) folder)
          rw [hlookup, decide_listed_left] at houtcome
          exact houtcome

theorem outcome_call (authority : Text → Text → Except CertError Unit) (store : CertStore)
    (h : InUse S disk) (op : Op) :
  Outcome S disk (harmful S authority store op disk) (call S authority store op disk)
  := by
  cases op with
  | addPem name cert key io => exact (outcome_addPem h).map _
  | generate name given generateRootCa io => exact (outcome_generate h).map _
  | activate name io => exact (outcome_activate hS hcut).map _
  | delete name io => exact (outcome_delete hS h).map _

theorem inUse_step (h : InUse S disk) {op : Op} (hop : harmful S authority store op disk = false) :
  InUse S (step S authority store op disk)
  := by
  have houtcome := outcome_call hS hcut authority store h op
  rw [hop] at houtcome
  rw [step]
  generalize call S authority store op disk = result at houtcome
  cases houtcome with
  | done hdone => exact hdone
  | undone hstored hselected => exact h.congr hstored hselected

/-- In a state with its selected authority, the calls that do no harm are those that are sound. -/
theorem sound_iff (h : InUse S disk) (op : Op) :
  Sound S authority store readCertInfo configCert op disk
    ↔ harmful S authority store op disk = false
  := by
  have houtcome := outcome_call hS hcut authority store h op
  have hkept (hop : harmful S authority store op disk = false) :
      InUse S (step S authority store op disk) := inUse_step hS hcut h hop
  rw [Sound]
  rw [step] at hkept ⊢
  generalize call S authority store op disk = result at houtcome hkept ⊢
  generalize harmful S authority store op disk = harm at houtcome hkept ⊢
  cases houtcome with
  | done hdone =>
    refine ⟨fun _ => rfl, fun _ => ⟨oneActive_of_inUse hdone, ?_⟩⟩
    rintro e ⟨⟩
  | undone hstored hselected =>
    exact ⟨fun _ => rfl, fun _ => ⟨oneActive_of_inUse (hkept rfl), fun e he => ⟨hstored, hselected⟩⟩⟩
  | left hleft => exact ⟨fun hsound => absurd (hsound.2 _ rfl) hleft, fun hfalse => nomatch hfalse⟩
  | dangling hselected hstored =>
    exact ⟨fun hsound => absurd hsound.1 (not_oneActive hselected hstored),
      fun hfalse => nomatch hfalse⟩

end Selection

theorem inUse_empty :
  InUse S empty
  := by
  rintro name ⟨⟩

/-- From an empty store, one authority is active after each call, and calls that fail change
nothing, exactly if no call is harmful. -/
theorem one_active_iff {isFloat : Text → Prop} {R : Text → Text → Prop} (hS : S.Rereads isFloat R)
    (hcut : S.RejectsCut isFloat) (authority : Text → Text → Except CertError Unit)
    (store : CertStore) (readCertInfo : Text → Option CertInfo) (configCert : Option Text)
    (ops : List Op) :
  Calls.Each (step S authority store) (Sound S authority store readCertInfo configCert) ops empty
    ↔ Calls.Each (step S authority store) (fun op disk => harmful S authority store op disk = false)
      ops empty
  := by
  have hcall (op : Op) (disk : CertDisk) (h : InUse S disk) :
      Sound S authority store readCertInfo configCert op disk
        ↔ harmful S authority store op disk = false := sound_iff hS hcut h op
  exact Calls.each_iff hcall (fun op disk h hop => inUse_step hS hcut h hop) inUse_empty ops

/-! ### A folder that is removed in part -/

def exampleStore : CertStore where
  certsDir := "c".toList
  activeStore := "s/a".toList
  configCert := "p".toList
  configKey := "k".toList

def saveWorks : SaveIo where
  read := true
  created := .ok ()
  written := .done

def pairWorks : PairIo where
  found := true
  created := .ok ()
  cert := .done
  key := .done
  read := .ok ()
  removed := .done

/-- Generate an authority and activate it. -/
def activated : List Op :=
  [.generate "lab".toList [] (fun _ => .ok ("C".toList, "K".toList)) pairWorks,
    .activate "lab".toList { found := fun _ => true, save := saveWorks }]

/-- Delete it, with a removal that fails after the certificate was taken. -/
def halfDeleted : Op :=
  .delete "lab".toList
    { found := true, removed := .failed (fun file => file = .cert) "busy".toList, read := true,
      save := saveWorks }

/-- The disk after calls, with pairs that all load. -/
def exampleRun (ops : List Op) : CertDisk :=
  Calls.run (step .reference (fun _ _ => .ok ()) exampleStore) ops empty

theorem one_active_activated :
  Calls.Each (step .reference (fun _ _ => .ok ()) exampleStore)
    (Sound .reference (fun _ _ => .ok ()) exampleStore (fun _ => none) none) activated empty
  := by
  apply (one_active_iff SerdeJson.rereads_reference SerdeJson.rejectsCut_reference _ _ _ _ _).mpr
  rw [activated, Calls.each_cons, Calls.each_cons]
  exact ⟨by decide +kernel, by decide +kernel, Calls.each_nil _⟩

/-- The call fails, and no row is marked as active after it. -/
theorem one_active_halfDeleted :
  (call .reference (fun _ _ => .ok ()) exampleStore halfDeleted (exampleRun activated)).1
      = .error (.tls "removing c/lab: busy".toList)
    ∧ (list .reference (fun _ => none) none (exampleRun (activated ++ [halfDeleted]))).filter
      (·.active) = []
    ∧ selected .reference (exampleRun (activated ++ [halfDeleted])) = some "lab".toList
  := by decide +kernel

end CertStore

end Proxy
