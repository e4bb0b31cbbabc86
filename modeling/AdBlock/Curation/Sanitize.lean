import AdBlock.Curation.Backing
import AdBlock.Rust.Ascii

/-!
# Names of lists and their files

The name of a list is brought to a form that can name a file, and the file of a list is found by
bringing its name to that form again.  The form has no `-` at its ends, and what is taken off there
may leave a `.txt` at the end, which is taken off the second time.  So a list and its file stay
together exactly if the text that was given has no `.txt` in front of the characters that are taken
off its end (`sanitizeName_fixed_iff`).
-/

/-! ### Names -/

/-- A character that stays in a name. -/
def isNameChar (c : Char) : Bool :=
  c.isAlphanum || c == '-' || c == '_' || c == '.'

theorem isNameChar_iff {c : Char} :
  isNameChar c = true
    ↔ 65 ≤ c.toNat ∧ c.toNat ≤ 90 ∨ 97 ≤ c.toNat ∧ c.toNat ≤ 122
      ∨ 48 ≤ c.toNat ∧ c.toNat ≤ 57 ∨ c.toNat = 45 ∨ c.toNat = 95 ∨ c.toNat = 46
  := by
  have heq (d : Char) : (c == d) = true ↔ c.toNat = d.toNat := by
    rw [beq_iff_eq, Char.toNat_inj]
  simp only [isNameChar, Bool.or_eq_true, Ascii.isAlphanum_iff, heq, Char.reduceToNat, or_assoc]

theorem isWhitespace_of_isNameChar {c : Char} (h : isNameChar c = true) :
  Unicode.isWhitespace c = false
  := by
  rw [isNameChar_iff] at h
  simp only [Unicode.isWhitespace, Bool.or_eq_false_iff, Bool.and_eq_false_iff,
    decide_eq_false_iff_not, beq_eq_false_iff_ne]
  omega

/-- A name that can be given to a file. -/
structure IsName (name : Text) : Prop where
  chars : ∀ c ∈ name, isNameChar c = true
  head : name.head? ≠ some '-'
  last : name.getLast? ≠ some '-'

theorem sanitizeChar_of_isNameChar (out : Text) {c : Char} (h : isNameChar c = true) :
  sanitizeChar out c = out ++ [c]
  := if_pos h

/-- Characters that stay are put at the end, one after the other. -/
theorem foldl_sanitizeChar_of_chars {name : Text} (h : ∀ c ∈ name, isNameChar c = true)
    (out : Text) :
  name.foldl sanitizeChar out = out ++ name
  := by
  induction name generalizing out with
  | nil => exact (List.append_nil out).symm
  | cons c name ih =>
    obtain ⟨hc, hname⟩ := List.forall_mem_cons.mp h
    rw [List.foldl_cons, sanitizeChar_of_isNameChar out hc, ih hname, List.append_assoc]
    rfl

theorem isNameChar_sanitizeChar {out : Text} (hout : ∀ c ∈ out, isNameChar c = true) (c : Char) :
  ∀ d ∈ sanitizeChar out c, isNameChar d = true
  := by
  have happend {d : Char} (hd : isNameChar d = true) : ∀ e ∈ out ++ [d], isNameChar e = true := by
    intro e he
    rcases List.mem_append.mp he with he | he
    · exact hout e he
    · rw [List.mem_singleton.mp he]
      exact hd
  by_cases hc : isNameChar c = true
  · rw [sanitizeChar_of_isNameChar out hc]
    exact happend hc
  · have hfold : sanitizeChar out c = if out.getLast? = some '-' then out else out ++ ['-'] :=
      if_neg hc
    rw [hfold]
    split
    · exact hout
    · exact happend rfl

theorem isNameChar_foldl_sanitizeChar (name : Text) {out : Text}
    (hout : ∀ c ∈ out, isNameChar c = true) :
  ∀ c ∈ name.foldl sanitizeChar out, isNameChar c = true
  := by
  induction name generalizing out with
  | nil => exact hout
  | cons c name ih => apply ih (isNameChar_sanitizeChar hout c)

theorem isName_sanitizeName (name : Text) :
  IsName (sanitizeName name)
  := by
  simp only [sanitizeName]
  obtain ⟨hhead, hlast⟩ := Text.ends_trimMatches
    ((Text.trimEndMatches (Text.trim name) ".txt".toList).foldl sanitizeChar []) '-'
  refine ⟨?_, hhead, hlast⟩
  intro c hc
  apply isNameChar_foldl_sanitizeChar _ (List.forall_mem_nil _) c
  apply Text.mem_of_mem_trimMatches hc

/-- Of a name, only the copies of `.txt` at its end are taken off, and the `-` before them. -/
theorem sanitizeName_of_isName {name : Text} (h : IsName name) :
  sanitizeName name = Text.trimMatches (Text.trimEndMatches name ".txt".toList) '-'
  := by
  have htrim : Text.trim name = name :=
    Text.trim_of_forall fun c hc => isWhitespace_of_isNameChar (h.chars c hc)
  simp only [sanitizeName]
  rw [htrim, foldl_sanitizeChar_of_chars, List.nil_append]
  intro c hc
  apply h.chars c ((Text.trimEndMatches_sublist _ _).mem hc)

/-- A name that does not end in `.txt` stays. -/
theorem sanitizeName_of_not_suffix {name : Text} (h : IsName name)
    (hsuffix : ¬ ".txt".toList <:+ name) :
  sanitizeName name = name
  := by
  rw [sanitizeName_of_isName h, Text.trimEndMatches_of_not_suffix hsuffix,
    Text.trimMatches_of_ends h.head h.last]

/-- A name that ends in `.txt` gets shorter. -/
theorem length_sanitizeName_lt {name : Text} (h : IsName name) (hsuffix : ".txt".toList <:+ name) :
  (sanitizeName name).length < name.length
  := by
  rw [sanitizeName_of_isName h]
  apply lt_of_le_of_lt (Text.trimMatches_sublist _ _).length_le
  apply Text.length_trimEndMatches_lt _ hsuffix
  decide

theorem sanitizeName_eq_self_iff {name : Text} (h : IsName name) :
  sanitizeName name = name ↔ ¬ ".txt".toList <:+ name
  := by
  constructor
  · intro heq hsuffix
    have hlt := length_sanitizeName_lt h hsuffix
    rw [heq] at hlt
    exact Nat.lt_irrefl _ hlt
  · exact sanitizeName_of_not_suffix h

/-! ### The end of a name -/

/-- A character that a name can end with. -/
def isEndChar (c : Char) : Bool :=
  c.isAlphanum || c == '_' || c == '.'

/-- The text that is given for a name, trimmed and without its copies of `.txt`, up to the last
character that a name can end with. -/
def bareName (name : Text) : Text :=
  (Text.trimEndMatches (Text.trim name) ".txt".toList).rdropWhile (!isEndChar ·)

theorem isEndChar_iff {c : Char} :
  isEndChar c = true ↔ isNameChar c = true ∧ c ≠ '-'
  := by
  have hminus : isEndChar '-' = false := rfl
  constructor
  · intro h
    refine ⟨?_, ?_⟩
    · simp only [isEndChar, Bool.or_eq_true] at h
      simp only [isNameChar, Bool.or_eq_true]
      tauto
    · rintro rfl
      rw [hminus] at h
      cases h
  · rintro ⟨h, hne⟩
    simp only [isNameChar, Bool.or_eq_true, beq_iff_eq] at h
    simp only [isEndChar, Bool.or_eq_true, beq_iff_eq]
    tauto

/-- A character that no name ends with leaves a `-` at the end, or is a `-`. -/
theorem sanitizeChar_of_not_isEndChar (out : Text) {c : Char} (h : isEndChar c = false) :
  sanitizeChar out c = out ++ ['-'] ∨ sanitizeChar out c = out ∧ out.getLast? = some '-'
  := by
  by_cases hc : isNameChar c = true
  · have hminus : c = '-' := by
      by_contra hne
      rw [isEndChar_iff.mpr ⟨hc, hne⟩] at h
      cases h
    left
    rw [sanitizeChar_of_isNameChar out hc, hminus]
  · have hfold : sanitizeChar out c = if out.getLast? = some '-' then out else out ++ ['-'] :=
      if_neg hc
    rw [hfold]
    split
    · next hlast => exact .inr ⟨rfl, hlast⟩
    · exact .inl rfl

theorem getLast?_sanitizeChar (out : Text) {c : Char} (h : isEndChar c = false) :
  (sanitizeChar out c).getLast? = some '-'
  := by
  rcases sanitizeChar_of_not_isEndChar out h with heq | ⟨heq, hlast⟩
  · rw [heq, List.getLast?_concat]
  · rw [heq, hlast]

/-- The `-` at the end come from the characters that no name ends with. -/
theorem rdropWhile_foldl_sanitizeChar (name : Text) :
  (name.foldl sanitizeChar []).rdropWhile (· == '-')
    = (name.rdropWhile (!isEndChar ·)).foldl sanitizeChar []
  := by
  induction name using List.reverseRecOn with
  | nil => rfl
  | append_singleton name c ih =>
    rw [List.foldl_concat]
    by_cases hc : isEndChar c = true
    · have hkept := isEndChar_iff.mp hc
      rw [List.rdropWhile_concat_neg _ _ _ (by simp [hc]), List.foldl_concat,
        sanitizeChar_of_isNameChar _ hkept.1, List.rdropWhile_concat_neg _ _ _ (by simp [hkept.2])]
    · rw [Bool.not_eq_true] at hc
      rw [List.rdropWhile_concat_pos _ _ _ (by simp [hc]), ← ih]
      rcases sanitizeChar_of_not_isEndChar (name.foldl sanitizeChar []) hc with heq | ⟨heq, -⟩
      · rw [heq, List.rdropWhile_concat_pos _ _ _ rfl]
      · rw [heq]

/-- What a name can end with is at the end of the folded text exactly if it is at the end of the
text. -/
theorem suffix_foldl_sanitizeChar_iff {suffix : Text} (h : ∀ c ∈ suffix, isEndChar c = true)
    (name : Text) :
  suffix <:+ name.foldl sanitizeChar [] ↔ suffix <:+ name
  := by
  induction suffix using List.reverseRecOn generalizing name with
  | nil => exact iff_of_true List.nil_suffix List.nil_suffix
  | append_singleton suffix d ih =>
    have hd : isEndChar d = true := h d (List.mem_concat_self ..)
    induction name using List.reverseRecOn with
    | nil => rfl
    | append_singleton name c _ =>
      rw [List.foldl_concat]
      by_cases hc : isEndChar c = true
      · rw [sanitizeChar_of_isNameChar _ (isEndChar_iff.mp hc).1, Text.concat_suffix_concat_iff,
          Text.concat_suffix_concat_iff, ih fun e he => h e (List.mem_append_left _ he)]
      · -- neither text ends with a character that a name can end with
        rw [Bool.not_eq_true] at hc
        apply iff_of_false
        · intro hsuffix
          have hlast := Text.getLast?_of_concat_suffix hsuffix
          rw [getLast?_sanitizeChar _ hc, Option.some_inj] at hlast
          rw [← hlast] at hd
          cases hd
        · intro hsuffix
          rw [(Text.concat_suffix_concat_iff.mp hsuffix).1, hc] at hd
          cases hd

/-- A name ends in `.txt` exactly if the text that it is made from has one in front of the characters
that are taken off its end. -/
theorem txt_suffix_sanitizeName_iff (name : Text) :
  ".txt".toList <:+ sanitizeName name ↔ ".txt".toList <:+ bareName name
  := by
  have hchars : ∀ c ∈ ".txt".toList, isEndChar c = true := by decide
  have hminus : '-' ∉ ".txt".toList := by decide
  rw [sanitizeName, Text.suffix_trimMatches_iff hminus, rdropWhile_foldl_sanitizeChar,
    suffix_foldl_sanitizeChar_iff hchars, bareName]

/-! ### Files -/

theorem length_key_of_isName {name : Text} (h : IsName name) :
  (ListId.of name).key.length = name.length
  := by
  have hascii : ∀ c ∈ name, c.toNat < 0x80 := by
    intro c hc
    have hchar := isNameChar_iff.mp (h.chars c hc)
    omega
  rw [ListId.of, Unicode.toLowercase_of_ascii hascii]
  apply List.length_map

/-- The file of a name is found under the name exactly if the name stays. -/
theorem listId_sanitizeName_iff {name : Text} (h : IsName name) :
  ListId.of (sanitizeName name) = ListId.of name ↔ ¬ ".txt".toList <:+ name
  := by
  constructor
  · intro heq hsuffix
    have hlt := length_sanitizeName_lt h hsuffix
    rw [← length_key_of_isName (isName_sanitizeName name), heq, length_key_of_isName h] at hlt
    exact Nat.lt_irrefl _ hlt
  · intro hsuffix
    rw [sanitizeName_of_not_suffix h hsuffix]

namespace ListCuration

variable {A : Library} {σ : Type} [ListStore σ] {s s' s'' : ListCuration A σ}
  {name source text : Text} {e : ListEntry}

theorem addList_inv (h : (addList name source text).run s = (.ok e, s')) :
  sanitizeName name ≠ [] ∧ e = s.newEntry name source text
    ∧ ∃ store, ListStore.persist s.store (ListId.of e.name) (header source e.enabled ++ text)
        = (.ok (), store)
      ∧ s' = s.withEntry store e
  := by
  have hname : sanitizeName name ≠ [] := by
    intro hname
    rw [run_addList_of_empty s hname] at h
    cases h
  obtain ⟨store, hpersist, hstate⟩ := run_addList_inv h
  rw [run_addList_ok hname hpersist] at h
  obtain rfl := Except.ok.inj (Prod.mk.inj h).1
  exact ⟨hname, rfl, store, hpersist, hstate⟩

/-- A list that has been switched was stored under the id of its name. -/
theorem setListEnabled_inv {enabled : Bool} (hfind : findList s.core.lists e.name = some e)
    (h : (setListEnabled e.name enabled).run s = (.ok true, s')) :
  ListStore.persist s.store (ListId.of (sanitizeName e.name)) (header e.source enabled ++ e.text)
    = (.ok (), s'.store)
  := by
  obtain ⟨taken, store, hpersist⟩ : ∃ taken store,
      ListStore.persist s.store (ListId.of (sanitizeName e.name)) (header e.source enabled ++ e.text)
        = (taken, store) := ⟨_, _, rfl⟩
  cases taken with
  | error err => simp [setListEnabled, hfind, hpersist] at h
  | ok u =>
    rw [run_setListEnabled_ok hfind hpersist] at h
    rw [hpersist, ← (Prod.mk.inj h).2]
    rfl

/-- The marks of a list that is on and of one that is off differ. -/
theorem header_not_append_ne (enabled : Bool) (source text : Text) :
  header source enabled ++ text ≠ header source (!enabled) ++ text
  := by
  intro heq
  have hmark : disabledMark ≠ [] := by decide
  rw [List.append_left_inj, header, header, List.append_right_inj, List.cons_inj_right] at heq
  cases enabled with
  | false => exact hmark heq
  | true => exact hmark heq.symm

variable [LawfulListStore σ]

/-- What a removal leaves under the id of a list. -/
theorem get_removeList_iff (hname : IsName name) (hne : name ≠ [])
    (hstored : ListStore.get s.store (ListId.of name) = some text) :
  ListStore.get ((removeList name).run s).2.store (ListId.of name) = none ↔ ¬ ".txt".toList <:+ name
  := by
  rw [run_removeList, without_store, dropFile, ← listId_sanitizeName_iff hname]
  have hid : (ListId.of name).isEmpty ≠ true := by
    intro hempty
    apply hne
    rw [← List.length_eq_zero_iff, ← length_key_of_isName hname]
    exact List.length_eq_zero_iff.mpr (List.isEmpty_iff.mp hempty)
  split
  · next hempty =>
    apply iff_of_false
    · rw [hstored]
      exact Option.some_ne_none text
    · intro heq
      rw [heq] at hempty
      exact hid hempty
  · rw [LawfulListStore.get_remove]
    split
    · next heq => exact iff_of_true rfl heq.symm
    · next hne =>
      apply iff_of_false
      · rw [hstored]
        exact Option.some_ne_none text
      · exact Ne.symm hne

/-- A name stays when it is brought to its form again, and the file that a list is written to when it
is added is the one that is found when the list is switched or removed, exactly if the text that was
given, trimmed and without its copies of `.txt`, does not end in `.txt` when the characters that no
name ends with are taken off its end. -/
theorem sanitizeName_fixed_iff (name : Text) :
  (sanitizeName (sanitizeName name) = sanitizeName name ↔ ¬ ".txt".toList <:+ bareName name)
    ∧ ∀ (s s' : ListCuration A σ) (source text : Text) (e : ListEntry),
      (addList name source text).run s = (.ok e, s') →
      e.name = sanitizeName name
        ∧ ListStore.get s'.store (ListId.of e.name) = some (header source e.enabled ++ text)
        ∧ (ListStore.get ((removeList e.name).run s').2.store (ListId.of e.name) = none
          ↔ ¬ ".txt".toList <:+ bareName name)
        ∧ ∀ s'', (setListEnabled e.name (!e.enabled)).run s' = (.ok true, s'') →
          (ListStore.get s''.store (ListId.of e.name) = some (header source (!e.enabled) ++ text)
            ↔ ¬ ".txt".toList <:+ bareName name)
  := by
  rw [← txt_suffix_sanitizeName_iff]
  have hname := isName_sanitizeName name
  use sanitizeName_eq_self_iff hname
  intro s s' source text e hadd
  obtain ⟨hne, he, store, hpersist, rfl⟩ := addList_inv hadd
  obtain ⟨hename, hsource, htext⟩ :
      e.name = sanitizeName name ∧ e.source = source ∧ e.text = text := by
    rw [he]
    exact ⟨rfl, rfl, rfl⟩
  have hstored : ListStore.get store (ListId.of e.name) = some (header source e.enabled ++ text) := by
    rw [LawfulListStore.get_persist hpersist, if_pos rfl]
  rw [← hename] at hne hname ⊢
  refine ⟨rfl, hstored, get_removeList_iff hname hne hstored, ?_⟩
  intro s'' hswitch
  have hfind : findList (s.withEntry store e).core.lists e.name = some e := by
    rw [withEntry_lists, findList_put, if_pos rfl]
  have hwritten := setListEnabled_inv hfind hswitch
  rw [LawfulListStore.get_persist hwritten, ← listId_sanitizeName_iff hname, hsource, htext]
  split
  · next heq => exact iff_of_true rfl heq.symm
  · next hother =>
    apply iff_of_false _ (Ne.symm hother)
    rw [withEntry_store, hstored, Option.some_inj]
    apply header_not_append_ne

/-- The state after a list was added to an empty store. -/
def added (name : Text) : Except Error ListEntry × ListCuration Library.counting MemoryListStore :=
  (addList name "web ui".toList "||ads.example^".toList).run MemoryListStore.new.start

/-- A name of two words: its file is dropped when the list is removed. -/
theorem sanitizeName_fixed_words :
  sanitizeName (sanitizeName "My List.txt".toList) = "My-List".toList
    ∧ ListStore.get ((removeList "My-List".toList).run (added "My List.txt".toList).2).2.store
      (ListId.of "My-List".toList) = none
  := by
  have hname : sanitizeName "My List.txt".toList = "My-List".toList := by decide +kernel
  have hsuffix : ¬ ".txt".toList <:+ bareName "My List.txt".toList := by decide +kernel
  obtain ⟨hfixed, hfile⟩ := @sanitizeName_fixed_iff Library.counting MemoryListStore _ _
    "My List.txt".toList
  have hok : (added "My List.txt".toList).1
      = .ok (newEntry MemoryListStore.new.start "My List.txt".toList "web ui".toList
        "||ads.example^".toList) := rfl
  have hremoved := (hfile _ _ _ _ _ (Prod.ext hok rfl)).2.2.1.mpr hsuffix
  constructor
  · rw [hfixed.mpr hsuffix, hname]
  · rw [← hname]
    exact hremoved

/-- A character that is dropped behind `.txt`: the name is another when it is brought to its form
again, and the file is still there after the list was removed. -/
theorem sanitizeName_not_fixed :
  bareName "a.txt!".toList = "a.txt".toList
    ∧ sanitizeName "a.txt!".toList = "a.txt".toList
    ∧ sanitizeName "a.txt".toList = "a".toList
    ∧ (added "a.txt!".toList).1.map ListEntry.name = .ok "a.txt".toList
    ∧ ((removeList "a.txt".toList).run (added "a.txt!".toList).2).1 = .ok true
    ∧ ListStore.get ((removeList "a.txt".toList).run (added "a.txt!".toList).2).2.store
      (ListId.of "a.txt".toList) = some "! source: web ui\n||ads.example^".toList
  := by
  decide +kernel

end ListCuration
