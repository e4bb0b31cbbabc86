import AdBlock.Files.Folders
import AdBlock.Proxy.Settings
import Mathlib.Data.Fintype.Basic
import Mathlib.Data.List.Lex
import Mathlib.Data.List.Sort

/-!
# The store of certificate authorities

The proxy signs with the authority of its configuration or with one of those that are stored, each
in a folder of its own.  Which one is active is in a file of settings.  Every file operation of a
call may fail: what the disk does is part of the call.
-/

namespace Proxy

inductive CertFile where
  | cert
  | key
  deriving DecidableEq, Repr

instance : Fintype CertFile where
  elems := {.cert, .key}
  complete := by
    rintro ⟨⟩ <;> decide

def CertFile.name : CertFile → Text
  | .cert => "cert.pem".toList
  | .key => "key.pem".toList

/-- The name that stands for the authority of the configuration. -/
def configName : Text :=
  "config".toList

/-- `Path::join`, for a relative path. -/
def joinPath (dir name : Text) : Text :=
  dir ++ '/' :: name

inductive CertError where
  | tls (message : Text)
  | io (e : Text)
  deriving DecidableEq, Repr

/-- A certificate as it is displayed. -/
structure CertInfo where
  subject : Text
  notAfter : Text
  expired : Bool

/-- A row of the list of authorities. -/
structure CertSummary where
  name : Text
  source : Text
  active : Bool
  subject : Text
  notAfter : Text
  expired : Bool
  readable : Bool
  deriving DecidableEq, Repr

/-- Where the files are. -/
structure CertStore where
  certsDir : Text
  activeStore : Text
  configCert : Text
  configKey : Text

/-- The folders of the authorities and the file of the selection. -/
structure CertDisk where
  folders : Folders CertFile
  selection : Option Text

/-- What the disk does when the selection is saved. -/
structure SaveIo where
  /-- Whether the file can be read. -/
  read : Bool
  created : Except Text Unit
  written : FileWrite

/-- What the disk does when a pair is written. -/
structure PairIo where
  /-- Whether the folder can be looked up. -/
  found : Bool
  created : Except Text Unit
  cert : FileWrite
  key : FileWrite
  /-- Whether the files can be read again. -/
  read : Except CertError Unit
  removed : FolderRemoval CertFile

/-- What the disk does when an authority is activated. -/
structure ActivateIo where
  /-- Whether a file can be looked up. -/
  found : CertFile → Bool
  save : SaveIo

/-- What the disk does when an authority is deleted. -/
structure DeleteIo where
  found : Bool
  removed : FolderRemoval CertFile
  /-- Whether the selection can be read. -/
  read : Bool
  save : SaveIo

def ActiveSelection.settings : SettingsGroup ActiveSelection where
  keys := ActiveSelection.keys
  toJson := ActiveSelection.toJson
  fromJson := ActiveSelection.fromJson

/-- The name as that of a folder. -/
def cleanName (name : Text) : Except CertError Text :=
  let name := Text.trim name
  if name = [] then .error (.tls "a name is required".toList)
  else if name = configName then
    .error (.tls ("'".toList ++ configName ++ "' is reserved".toList))
  else if Text.len name > 64 || !name.all (fun c => c.isAlphanum || ['-', '_', '.'].contains c)
      || Text.startsWith name ['.'] then
    .error (.tls "name may use letters, digits, dash, underscore, and dot only".toList)
  else .ok name

namespace PairIo

variable (io : PairIo) (authority : Text → Text → Except CertError Unit) (cert key : Text)

/-- Write both files, and whether that succeeds. -/
def write : Except Text Unit := do
  io.cert.answer
  io.key.answer

/-- The folder with the files that were written. -/
def folder (old : Folder CertFile) : Folder CertFile
  | .cert => io.cert.file cert (old .cert)
  | .key => if io.cert = .done then io.key.file key (old .key) else old .key

/-- The pair was written and can be loaded. -/
def kept : Except CertError Unit :=
  match io.write with
  | .error e => .error (.tls ("writing CA files: ".toList ++ e))
  | .ok () => do
    io.read
    authority cert key

end PairIo

namespace CertStore

variable (S : SerdeJson) (authority : Text → Text → Except CertError Unit) (store : CertStore)

def dir (name : Text) : Text :=
  joinPath store.certsDir name

def path (name : Text) (file : CertFile) : Text :=
  joinPath (store.dir name) file.name

/-- The name of the active authority, or none for that of the configuration. -/
def selected (disk : CertDisk) : Option Text :=
  (MergedStore.load S ActiveSelection.settings disk.selection).active

def activePaths (disk : CertDisk) : Text × Text :=
  match selected S disk with
  | some name =>
      if disk.folders.has name .cert && disk.folders.has name .key then
        (store.path name .cert, store.path name .key)
      else (store.configCert, store.configKey)
  | none => (store.configCert, store.configKey)

section List

variable (readCertInfo : Text → Option CertInfo)

def summarize (name source : Text) (active : Bool) (cert : Option Text) : CertSummary :=
  match cert.bind readCertInfo with
  | some info =>
      { name, source, active, subject := info.subject, notAfter := info.notAfter,
        expired := info.expired, readable := true }
  | none =>
      { name, source, active, subject := "<not found or unreadable>".toList, notAfter := [],
        expired := false, readable := false }

def storedNames (disk : CertDisk) : List Text :=
  disk.folders.named .cert

/-- The authority of the configuration, whose certificate is given, and the stored ones. -/
def list (configCert : Option Text) (disk : CertDisk) : List CertSummary :=
  let active := selected S disk
  summarize readCertInfo configName "config".toList active.isNone configCert
    :: ((storedNames disk).insertionSort (· ≤ ·)).map fun name =>
      summarize readCertInfo name "stored".toList (active == some name)
        ((disk.folders.lookup name).bind (· .cert))

end List

/-- The directory of the file of the selection. -/
def activeDir : Option Text :=
  ((Text.rsplitOnce store.activeStore '/').map Prod.fst).filter (· ≠ [])

/-- The file of the selection as it is to be written. -/
def selectionText (io : SaveIo) (selection : ActiveSelection) (disk : CertDisk) : Text :=
  let file := if io.read then disk.selection else none
  S.toStringPretty (MergedStore.merge (MergedStore.raw S file) selection.toJson)

/-- Write the file of the selection. -/
def writeSelection (io : SaveIo) (selection : ActiveSelection) (disk : CertDisk) :
    Except CertError Unit × CertDisk :=
  let answer := match io.written.answer with
    | .ok () => .ok ()
    | .error e => .error (.tls ("writing ".toList ++ store.activeStore ++ ": ".toList ++ e))
  (answer, { disk with
    selection := io.written.file (selectionText S io selection disk) disk.selection })

/-- Save the selection. -/
def save (io : SaveIo) (selection : ActiveSelection) (disk : CertDisk) :
    Except CertError Unit × CertDisk :=
  match store.activeDir, io.created with
  | some dir, .error e =>
      (.error (.tls ("creating ".toList ++ dir ++ ": ".toList ++ e)), disk)
  | _, _ => writeSelection S store io selection disk

def writePair (io : PairIo) (name cert key : Text) (disk : CertDisk) :
    Except CertError Unit × CertDisk :=
  if io.found && (disk.folders.lookup name).isSome then
    (.error (.tls ("a CA named '".toList ++ name ++ "' already exists".toList)), disk)
  else
    match io.created with
    | .error e => (.error (.tls ("creating ".toList ++ store.dir name ++ ": ".toList ++ e)), disk)
    | .ok () =>
        let folder := io.folder cert key ((disk.folders.lookup name).getD fun _ => none)
        match io.kept authority cert key with
        | .ok () => (.ok (), { disk with folders := disk.folders.set name (some folder) })
        | .error e => (.error e, { disk with folders := disk.folders.set name (io.removed.left folder) })

def addPem (io : PairIo) (name cert key : Text) (disk : CertDisk) :
    Except CertError Unit × CertDisk :=
  match cleanName name with
  | .error e => (.error e, disk)
  | .ok name =>
      if Text.trim cert = [] ∨ Text.trim key = [] then
        (.error (.tls "both a certificate and a private key are required".toList), disk)
      else writePair authority store io name cert key disk

/-- The common name of an authority that is generated. -/
def commonName (name given : Text) : Text :=
  if Text.trim given = [] then name ++ " Root CA".toList else Text.trim given

/-- Generate an authority and store it.  Gives its certificate. -/
def generate (generateRootCa : Text → Except CertError (Text × Text)) (io : PairIo)
    (name given : Text) (disk : CertDisk) : Except CertError Text × CertDisk :=
  match cleanName name with
  | .error e => (.error e, disk)
  | .ok name =>
      match generateRootCa (commonName name given) with
      | .error e => (.error e, disk)
      | .ok (cert, key) =>
          match writePair authority store io name cert key disk with
          | (.ok (), disk) => (.ok cert, disk)
          | (.error e, disk) => (.error e, disk)

/-- The error for a name that has no authority. -/
def noStored (name : Text) : CertError :=
  .tls ("no stored CA named '".toList ++ name ++ "'".toList)

def activate (io : ActivateIo) (name : Text) (disk : CertDisk) : Except CertError Unit × CertDisk :=
  if name = configName then save S store io.save { active := none } disk
  else
    match cleanName name with
    | .error e => (.error e, disk)
    | .ok name =>
        if !(io.found .cert && disk.folders.has name .cert)
            || !(io.found .key && disk.folders.has name .key) then
          (.error (noStored name), disk)
        else save S store io.save { active := some name } disk

def delete (io : DeleteIo) (name : Text) (disk : CertDisk) : Except CertError Unit × CertDisk :=
  match cleanName name with
  | .error e => (.error e, disk)
  | .ok name =>
      match io.found, disk.folders.lookup name with
      | true, some folder =>
          let disk := { disk with folders := disk.folders.set name (io.removed.left folder) }
          match io.removed with
          | .failed _ e =>
              (.error (.tls ("removing ".toList ++ store.dir name ++ ": ".toList ++ e)), disk)
          | .done =>
              if (if io.read then selected S disk else none) = some name then
                save S store io.save { active := none } disk
              else (.ok (), disk)
      | _, _ => (.error (noStored name), disk)

/-! ### Calls -/

/-- A call with what the disk does. -/
inductive Op where
  | addPem (name cert key : Text) (io : PairIo)
  | generate (name given : Text) (generateRootCa : Text → Except CertError (Text × Text))
      (io : PairIo)
  | activate (name : Text) (io : ActivateIo)
  | delete (name : Text) (io : DeleteIo)

/-- Carry a call out.  One that generates an authority answers with its certificate. -/
def call (op : Op) (disk : CertDisk) : Except CertError (Option Text) × CertDisk :=
  match op with
  | .addPem name cert key io =>
      let (answer, disk) := addPem authority store io name cert key disk
      (answer.map fun _ => none, disk)
  | .generate name given generateRootCa io =>
      let (answer, disk) := generate authority store generateRootCa io name given disk
      (answer.map some, disk)
  | .activate name io =>
      let (answer, disk) := activate S store io name disk
      (answer.map fun _ => none, disk)
  | .delete name io =>
      let (answer, disk) := delete S store io name disk
      (answer.map fun _ => none, disk)

def step (op : Op) (disk : CertDisk) : CertDisk :=
  (call S authority store op disk).2

/-- No authority is stored, and none was selected. -/
def empty : CertDisk where
  folders := ∅
  selection := none

end CertStore

end Proxy
