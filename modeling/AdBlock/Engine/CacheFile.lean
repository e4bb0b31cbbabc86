import AdBlock.Engine.Build
import AdBlock.Files.Basic
import AdBlock.Process.Rely
import AdBlock.Rust.NetText

/-!
# Writing the cached engine

Every build of the engine writes it to the cache on a thread of its own: into a temporary file,
which is then renamed.  The name of that file carries the key of the engine, so builds of different
keys do not meet.  Builds of the same key write one file, and a build that is done renames it while
another has just emptied it.  The cache is whole whatever the threads do exactly if their keys
differ (`whole_iff`).
-/

/-- `Path::with_extension`, on the name of a file. -/
def withExtension (name extension : Text) : Text :=
  let stem := match Text.rsplitOnce name '.' with
    | some ([], _) => name
    | some (stem, _) => stem
    | none => name
  stem ++ '.' :: extension

namespace EngineFile

def engineFile : Text := "engine.dat".toList

def tmp (key : UInt64) : Text :=
  withExtension engineFile (Net.hex key.toNat ++ ".tmp".toList)

/-- What the operating system makes of the calls of one thread. -/
structure Os where
  created : Bool
  /-- How much each write takes, besides one byte; there is an error after the last. -/
  chunks : List ℕ
  renamed : Bool
  removed : Bool

/-- `write_all`, from an offset on. -/
def writeAll (i : ℕ) (buf : Bytes) : ℕ → List ℕ → Process (Disk Text) Bool
  | offset, [] => pure (buf.length ≤ offset)
  | offset, n :: chunks =>
      if buf.length ≤ offset then pure true
      else do
        Process.atomic fun d => ((), d.write i offset ((buf.drop offset).take (n + 1)))
        writeAll i buf (offset + (n + 1)) chunks

/-- `fs::write`. -/
def write (name : Text) (buf : Bytes) (os : Os) : Process (Disk Text) Bool := do
  let opened ← Process.atomic fun d =>
    if os.created then ((some (d.create name).1, (d.create name).2) : Option ℕ × Disk Text)
    else (none, d)
  match opened with
  | some i => writeAll i buf 0 os.chunks
  | none => pure false

/-- What was written is renamed. -/
def renameTmp (key : UInt64) (os : Os) (written : Bool) : Process (Disk Text) Bool :=
  if written then
    Process.atomic fun d => if os.renamed then d.rename (tmp key) engineFile else (false, d)
  else pure false

def removeTmp (key : UInt64) (os : Os) : Process (Disk Text) Unit :=
  Process.atomic fun d => ((), if os.removed then d.remove (tmp key) else d)

/-- What follows the writing. -/
def finish (key : UInt64) (os : Os) (written : Bool) : Process (Disk Text) Unit := do
  let renamed ← renameTmp key os written
  if renamed then pure () else removeTmp key os

/-- The steps of saving an engine, after it was serialized. -/
def save (key : UInt64) (body : Bytes) (os : Os) : Process (Disk Text) Unit := do
  let written ← write (tmp key) (Bytes.ofUInt64 key ++ body) os
  finish key os written

variable {A : Library}

def saveCachedEngine (key : UInt64) (engine : A.Engine) (os : Os) : Process (Disk Text) Unit :=
  match A.serializeRaw engine with
  | none => pure ()
  | some body => save key body os

theorem saveCachedEngine_of_serializeRaw {engine : A.Engine} {body : Bytes}
    (h : A.serializeRaw engine = some body) (key : UInt64) (os : Os) :
  saveCachedEngine key engine os = save key body os
  := by
  unfold saveCachedEngine
  rw [h]

theorem length_buf (key : UInt64) (body : Bytes) :
  8 ≤ (Bytes.ofUInt64 key ++ body).length
  := by
  rw [List.length_append, Bytes.ofUInt64, Bytes.length_littleEndian]
  exact Nat.le_add_right 8 _

/-! ### Names -/

theorem tmp_eq (key : UInt64) :
  tmp key = "engine.".toList ++ (Net.hex key.toNat ++ ".tmp".toList)
  := rfl

theorem tmp_ne_engineFile (key : UInt64) :
  tmp key ≠ engineFile
  := by
  intro h
  have hlast := congrArg List.getLast? h
  rw [tmp_eq, ← List.append_assoc, List.getLast?_append] at hlast
  change some 'p' = some 't' at hlast
  exact absurd hlast (by decide)

theorem tmp_injective :
  Function.Injective tmp
  := by
  intro key key' h
  rw [tmp_eq, tmp_eq] at h
  have hhex := List.append_cancel_right (List.append_cancel_left h)
  have hnat := congrArg (Net.ofDigits 16) hhex
  rw [Net.hex, Net.hex, Net.radix_sixteen.ofDigits_toDigits,
    Net.radix_sixteen.ofDigits_toDigits] at hnat
  exact UInt64.toNat_inj.mp hnat

/-! ### One thread -/

open Process Disk

variable {allowed : Set (Option Bytes)} {key : UInt64} {body : Bytes}

/-- The cache is in one of the allowed states. -/
def Allowed (allowed : Set (Option Bytes)) (d : Disk Text) : Prop :=
  d.read engineFile ∈ allowed

/-- A step touches no name besides the given one and that of the cache. -/
def Touches (name : Text) (d d' : Disk Text) : Prop :=
  ∀ other, other ≠ name → other ≠ engineFile → Same other d d'

/-- Some bytes have been written to the temporary file. -/
def Holds (name : Text) (i : ℕ) (bytes : Bytes) (d : Disk Text) : Prop :=
  d.entry name = some i ∧ d.content i = bytes

theorem Holds.same {name : Text} {i : ℕ} {bytes : Bytes} {d d' : Disk Text}
    (h : Holds name i bytes d) (hsame : Same name d d') :
  Holds name i bytes d'
  := ⟨hsame.entry.trans h.1, (hsame.content i h.1).trans h.2⟩

/-- What a thread relies on and guarantees, with what it starts from and ends in. -/
abbrev Thread (allowed : Set (Option Bytes)) (name : Text) {α : Type}
    (pre : Disk Text → Prop) (p : Process (Disk Text) α) (Q : α → Disk Text → Prop) : Prop :=
  Keeps (Allowed allowed) (Same name) (Touches name) pre p Q

variable {name : Text}

theorem thread_writeAll (hname : name ≠ engineFile) (i : ℕ) (buf : Bytes) (offset : ℕ)
    (chunks : List ℕ) :
  Thread allowed name (Holds name i (buf.take offset)) (writeAll i buf offset chunks)
    fun written d => written = true → ∃ i, Holds name i buf d
  := by
  induction chunks generalizing offset with
  | nil =>
    apply keeps_pure
    intro d _ hd hwritten
    rw [List.take_of_length_le (of_decide_eq_true hwritten)] at hd
    exact ⟨i, hd⟩
  | cons n chunks ih =>
    rw [writeAll]
    split
    · next hle =>
      apply keeps_pure
      intro d _ hd _
      rw [List.take_of_length_le hle] at hd
      exact ⟨i, hd⟩
    · next hlt =>
      apply keeps_bind (Q := fun _ => Holds name i (buf.take (offset + (n + 1))))
      · apply keeps_atomic fun d d' _ hd hsame => hd.same hsame
        intro d hallowed hd
        have hother {other : Text} (hne : other ≠ name) :
            Same other d (d.write i offset ((buf.drop offset).take (n + 1))) :=
          same_put hd.1 hne _
        refine ⟨?_, fun other hne _ => hother hne, hd.1, ?_⟩
        · rw [Allowed, (hother hname.symm).read]
          exact hallowed
        · rw [content_write, hd.2, overwrite_take (Nat.le_of_not_le hlt)]
      · intro _
        apply ih

theorem thread_write (hname : name ≠ engineFile) (buf : Bytes) (os : Os) :
  Thread allowed name (fun _ => True) (write name buf os)
    fun written d => written = true → ∃ i, Holds name i buf d
  := by
  apply keeps_bind (Q := fun opened d => ∀ i ∈ opened, Holds name i (buf.take 0) d)
  · apply keeps_atomic fun _ _ _ hd _ => hd
    intro d hallowed _
    split
    · refine ⟨?_, fun other hne _ => same_create hne, ?_⟩
      · rw [Allowed, (same_create hname.symm).read]
        exact hallowed
      · intro i hi
        cases hi
        exact ⟨entry_create d name, content_create d name⟩
    · exact ⟨hallowed, fun other _ _ => Same.refl other d, nofun⟩
  · intro opened
    cases opened with
    | none =>
      apply keeps_pure
      intro d _ _ hwritten
      cases hwritten
    | some i =>
      apply (thread_writeAll hname i buf 0 os.chunks).weaken
      intro d _ hd
      exact hd i rfl

/-- A thread keeps the cache in the allowed states, of which its own engine is one, as long as the
others leave its temporary file alone. -/
theorem thread_save (hallowed : some (Bytes.ofUInt64 key ++ body) ∈ allowed) (os : Os) :
  Thread allowed (tmp key) (fun _ => True) (save key body os) fun _ _ => True
  := by
  have hname := tmp_ne_engineFile key
  apply keeps_bind (thread_write hname _ os)
  intro written
  apply keeps_bind (Q := fun _ _ => True)
  · cases written with
    | false => exact keeps_pure fun _ _ _ => trivial
    | true =>
      apply keeps_atomic
      · rintro d d' _ hd hsame hwritten
        obtain ⟨i, hi⟩ := hd hwritten
        exact ⟨i, hi.same hsame⟩
      · intro d hd hwritten
        obtain ⟨i, hentry, hcontent⟩ := hwritten rfl
        split
        · refine ⟨?_, fun other hne hne' => same_rename hne hne', trivial⟩
          rw [rename_of_entry hentry, Allowed, Disk.read, entry_move]
          change some (d.content i) ∈ allowed
          rw [hcontent]
          exact hallowed
        · exact ⟨hd, fun other _ _ => Same.refl other d, trivial⟩
  · intro renamed
    cases renamed with
    | true => exact keeps_pure fun _ _ _ => trivial
    | false =>
      apply keeps_atomic fun _ _ _ hd _ => hd
      intro d hd _
      simp only
      split
      · refine ⟨?_, fun other hne _ => same_remove hne, trivial⟩
        rw [Allowed, (same_remove hname.symm).read]
        exact hd
      · exact ⟨hd, fun other _ _ => Same.refl other d, trivial⟩

/-! ### Steps of one thread -/

/-- Everything works, and one write takes so much besides one byte. -/
def Os.fine (n : ℕ) : Os where
  created := true
  chunks := [n]
  renamed := true
  removed := true

theorem advance_create (key : UInt64) (body : Bytes) (n : ℕ) (d : Disk Text) :
  (save key body (.fine n)).advance d
    = some (writeAll (d.create (tmp key)).1 (Bytes.ofUInt64 key ++ body) 0 [n]
        >>= finish key (.fine n), (d.create (tmp key)).2)
  := rfl

theorem advance_write {i n : ℕ} {buf : Bytes} (h : 0 < buf.length)
    (f : Bool → Process (Disk Text) Unit) (d : Disk Text) :
  (writeAll i buf 0 [n] >>= f).advance d
    = some (f (buf.length ≤ 0 + (n + 1)), d.write i 0 (buf.take (n + 1)))
  := by
  rw [writeAll, if_neg (Nat.not_le_of_lt h)]
  rfl

theorem advance_rename {key : UInt64} {n i : ℕ} {d : Disk Text}
    (h : d.entry (tmp key) = some i) :
  (finish key (.fine n) true).advance d = some (pure (), d.move (tmp key) engineFile h)
  := by
  change some ((if (d.rename (tmp key) engineFile).1 = true then pure ()
    else removeTmp key (.fine n)), (d.rename (tmp key) engineFile).2) = _
  rw [rename_of_entry h]
  rfl

/-! ### Threads together -/

section Threads

variable {ι : Type} (calls : ι → UInt64 × A.Engine)

/-- The threads that save engines, and the disk. -/
def saving (os : ι → Os) (d : Disk Text) : System ι (Disk Text) Unit where
  proc i := saveCachedEngine (calls i).1 (calls i).2 (os i)
  state := d

/-- The cache is absent, as it was before, or all of what one of the threads saves. -/
def Whole (before now : Option Bytes) : Prop :=
  now = none ∨ now = before
    ∨ ∃ i body, A.serializeRaw (calls i).2 = some body
      ∧ now = some (Bytes.ofUInt64 (calls i).1 ++ body)

/-- The thread gets to write. -/
def Writes (i : ι) : Prop :=
  (A.serializeRaw (calls i).2).isSome

def relyOf (i : ι) (d d' : Disk Text) : Prop :=
  Writes calls i → Same (tmp (calls i).1) d d'

def guarOf (i : ι) (d d' : Disk Text) : Prop :=
  Writes calls i ∧ Touches (tmp (calls i).1) d d'

variable {calls}

/-- A thread leaves the files that the others rely on. -/
theorem compatible
    (hkeys : ∀ i j, i ≠ j → Writes calls i → Writes calls j → (calls i).1 ≠ (calls j).1)
    (P : Disk Text → Prop) :
  System.Compatible P (relyOf calls) (guarOf calls) fun _ (_ : Unit) _ => True
  where
  rely i j hij _ _ h hj := by
    apply h.2 _ _ (tmp_ne_engineFile _)
    intro htmp
    exact hkeys i j hij h.1 hj (tmp_injective htmp).symm
  stable _ _ _ _ _ _ _ := trivial

theorem thread_saveCachedEngine {before : Option Bytes} (i : ι) (os : Os) :
  Keeps (Allowed fun now => Whole calls before now) (relyOf calls i) (guarOf calls i)
    (fun _ => True) (saveCachedEngine (calls i).1 (calls i).2 os) fun _ _ => True
  := by
  unfold saveCachedEngine
  split
  · exact keeps_pure fun _ _ _ => trivial
  · next body hbody =>
    have hwrites : Writes calls i := Option.isSome_of_eq_some hbody
    apply (thread_save _ os).mono
    · intro d d' h
      exact h hwrites
    · intro d d' h
      exact ⟨hwrites, h⟩
    · exact .inr (.inr ⟨i, body, hbody, rfl⟩)

/-- A file too short for a key is the one from before. -/
theorem Whole.eq_before {before : Option Bytes} {bytes : Bytes}
    (h : Whole calls before (some bytes)) (hlength : bytes.length < 8) :
  before = some bytes
  := by
  rcases h with h | h | ⟨i, body, -, h⟩
  · cases h
  · exact h.symm
  · have hbuf := length_buf (calls i).1 body
    rw [← Option.some_injective _ h] at hbuf
    omega

variable [DecidableEq ι]

/-- Threads whose keys differ keep the cache whole, whatever the order of their steps and wherever
they are stopped. -/
theorem whole_of_keys
    (hkeys : ∀ i j, i ≠ j → Writes calls i → Writes calls j → (calls i).1 ≠ (calls j).1)
    (os : ι → Os) (d : Disk Text) {schedule : List ι} {c : System ι (Disk Text) Unit}
    (hexec : (saving calls os d).exec schedule = some c) :
  Whole calls (d.read engineFile) (c.state.read engineFile)
  := by
  have hkept : (saving calls os d).Kept (Allowed fun now => Whole calls (d.read engineFile) now)
      (relyOf calls) (guarOf calls) fun _ _ _ => True := by
    use .inr (.inl rfl)
    intro i
    exact ⟨_, trivial, thread_saveCachedEngine i (os i)⟩
  exact (hkept.exec (compatible hkeys _) hexec).1

/-! ### Two threads with one key -/

section SameKey

variable {c : System ι (Disk Text) Unit} {i j : ι} {key : UInt64} {body body' : Bytes}

/-- The first thread has written its file when the second empties it, and renames it. -/
theorem exec_emptied (hij : i ≠ j)
    (hi : c.proc i = save key body (.fine (Bytes.ofUInt64 key ++ body).length))
    (hj : c.proc j = save key body' (.fine 0)) :
  ∃ (c' : System ι (Disk Text) Unit) (n : ℕ),
    (∀ schedule, c.exec ([i, i, j, i] ++ schedule) = c'.exec schedule)
    ∧ c'.state.entry engineFile = some n ∧ c'.state.content n = []
    ∧ c'.proc j = (writeAll n (Bytes.ofUInt64 key ++ body') 0 [0] >>= finish key (.fine 0))
  := by
  have hlength := length_buf key body
  have hall : (Bytes.ofUInt64 key ++ body).length ≤ 0 + ((Bytes.ofUInt64 key ++ body).length + 1) :=
    by omega
  -- The first thread opens the file and writes all of it.
  obtain ⟨c₁, hexec₁, hstate₁, hi₁, hother₁⟩ := System.exec_cons hi (advance_create _ _ _ _)
  obtain ⟨c₂, hexec₂, hstate₂, hi₂, hother₂⟩ :=
    System.exec_cons hi₁ (advance_write (by omega) _ _)
  rw [decide_eq_true hall] at hi₂
  have hentry₂ : c₂.state.entry (tmp key) = some (c.state.create (tmp key)).1 := by
    rw [hstate₂, hstate₁]
    exact entry_create c.state (tmp key)
  -- The second opens the same file.
  have hj₂ : c₂.proc j = save key body' (.fine 0) := by
    rw [hother₂ j hij.symm, hother₁ j hij.symm, hj]
  obtain ⟨c₃, hexec₃, hstate₃, hj₃, hother₃⟩ := System.exec_cons hj₂ (advance_create _ _ _ _)
  rw [create_of_entry hentry₂] at hstate₃ hj₃
  have hentry₃ : c₃.state.entry (tmp key) = some (c.state.create (tmp key)).1 := by
    rw [hstate₃]
    exact hentry₂
  -- The first renames it.
  obtain ⟨c₄, hexec₄, hstate₄, -, hother₄⟩ :=
    System.exec_cons ((hother₃ i hij).trans hi₂) (advance_rename hentry₃)
  refine ⟨c₄, (c.state.create (tmp key)).1, ?_, ?_, ?_, ?_⟩
  · intro schedule
    rw [← hexec₄, ← hexec₃, ← hexec₂, ← hexec₁]
    rfl
  · rw [hstate₄]
    exact entry_move hentry₃ engineFile
  · rw [hstate₄]
    change c₃.state.content _ = []
    rw [hstate₃]
    exact Function.update_self _ _ _
  · rw [hother₄ j hij.symm, hj₃]

/-- The second thread goes on writing to the file, which is now the cache. -/
theorem exec_begun {n : ℕ} (hproc : c.proc j
      = (writeAll n (Bytes.ofUInt64 key ++ body') 0 [0] >>= finish key (.fine 0)))
    (hcontent : c.state.content n = []) (hentry : c.state.entry engineFile = some n) :
  ∃ c' bytes, c.exec [j] = some c' ∧ c'.state.read engineFile = some bytes ∧ bytes.length = 1
  := by
  have hlength := length_buf key body'
  obtain ⟨c', hexec, hstate, -, -⟩ := System.exec_cons hproc (advance_write (by omega) _ _)
  refine ⟨c', (Bytes.ofUInt64 key ++ body').take 1, hexec [], ?_, ?_⟩
  · have hnow := content_write c.state n 0 ((Bytes.ofUInt64 key ++ body').take (0 + 1))
    rw [hcontent] at hnow
    rw [hstate, Disk.read]
    change Option.map _ (c.state.entry engineFile) = _
    rw [hentry, Option.map_some, hnow]
    simp [overwrite]
  · rw [List.length_take]
    omega

end SameKey

/-- The threads leave the cache absent, as it was or all of what one of them saves, whatever the
order of their steps and wherever they are stopped, exactly if no two of those that get to write
have the same key. -/
theorem whole_iff (calls : ι → UInt64 × A.Engine) (d : Disk Text) :
  (∀ (os : ι → Os) (schedule : List ι) (c : System ι (Disk Text) Unit),
    (saving calls os d).exec schedule = some c →
      Whole calls (d.read engineFile) (c.state.read engineFile))
    ↔ ∀ i j, i ≠ j → Writes calls i → Writes calls j → (calls i).1 ≠ (calls j).1
  := by
  constructor
  · intro hwhole i j hij hi hj hkey
    obtain ⟨body, hbody⟩ := Option.isSome_iff_exists.mp hi
    obtain ⟨body', hbody'⟩ := Option.isSome_iff_exists.mp hj
    let os : ι → Os := fun k =>
      if k = i then .fine (Bytes.ofUInt64 (calls i).1 ++ body).length else .fine 0
    have hproci : (saving calls os d).proc i
        = save (calls i).1 body (.fine (Bytes.ofUInt64 (calls i).1 ++ body).length) := by
      refine (saveCachedEngine_of_serializeRaw hbody _ _).trans ?_
      simp only [os, if_pos]
    have hprocj : (saving calls os d).proc j = save (calls i).1 body' (.fine 0) := by
      refine (saveCachedEngine_of_serializeRaw hbody' _ _).trans ?_
      simp only [os, if_neg hij.symm, hkey]
    obtain ⟨c, n, hexec, hentry, hcontent, hproc⟩ := exec_emptied hij hproci hprocj
    obtain ⟨c', bytes, hexec', hread', hlength⟩ := exec_begun hproc hcontent hentry
    have hread : c.state.read engineFile = some [] := by
      rw [Disk.read, hentry, Option.map_some, hcontent]
    have hempty := hwhole os _ c (hexec [])
    have hbegun := hwhole os _ c' ((hexec [j]).trans hexec')
    rw [hread] at hempty
    rw [hread'] at hbegun
    have heq := (hempty.eq_before (Nat.zero_lt_succ 7)).symm.trans
      (hbegun.eq_before (by omega))
    rw [← Option.some_injective _ heq] at hlength
    cases hlength
  · intro hkeys os schedule c hexec
    exact whole_of_keys hkeys os d hexec

end Threads

/-- Two rebuilds from the same lists. -/
def twoRebuilds : Bool → UInt64 × Library.counting.Engine :=
  fun _ => (7, (1, []))

def noFiles : Disk Text where
  entry _ := none
  content _ := []
  fresh := 0
  entry_lt := nofun
  oneName := nofun

/-- The first has written its file, the second opens it, the first renames it: the cache is
empty. -/
theorem whole_twoRebuilds :
  ((saving twoRebuilds (fun i => .fine (if i then 0 else 8)) noFiles).exec
      [false, false, true, false]).map (fun c => c.state.read engineFile) = some (some [])
    ∧ noFiles.read engineFile = none
    ∧ ¬ Whole twoRebuilds (noFiles.read engineFile) (some [])
  := by
  refine ⟨rfl, rfl, fun h => ?_⟩
  cases h.eq_before (Nat.zero_lt_succ 7)

end EngineFile

/-- A thread that is not disturbed saves the engine, or leaves the cache as it was. -/
theorem read_run_saveCachedEngine {A : Library} (key : UInt64) (engine : A.Engine)
    (os : EngineFile.Os) (d : Disk Text) :
  ∃ written, ((EngineFile.saveCachedEngine key engine os).run d).2.read EngineFile.engineFile
    = saveCachedEngine (d.read EngineFile.engineFile) key engine written
  := by
  cases hbody : A.serializeRaw engine with
  | none =>
    use false
    rw [EngineFile.saveCachedEngine, saveCachedEngine, hbody]
    rfl
  | some body =>
    have hthread : EngineFile.Thread
        {d.read EngineFile.engineFile, some (Bytes.ofUInt64 key ++ body)} (EngineFile.tmp key)
        (fun _ => True) (EngineFile.save key body os) fun _ _ => True :=
      EngineFile.thread_save (.inr rfl) os
    rw [EngineFile.saveCachedEngine_of_serializeRaw hbody]
    rcases hthread.run (s := d) (.inl rfl) trivial with hold | hnew
    · use false
      rw [hold, saveCachedEngine, hbody]
      rfl
    · use true
      rw [hnew, saveCachedEngine, hbody]
      rfl
