import AdBlock.Rust.NetChars
import AdBlock.Uri.Resolution

/-!
# The characters of web addresses

Every character of a reference is a visible one of ASCII (`Reference.forall_text`), and none of its
parts in front of the path has a character that ends an authority (`Authority.isEnd_text`).
-/

namespace Rfc3986

/-- The characters that end an authority. -/
def isEnd (c : Char) : Bool :=
  c = '/' || c = '?' || c = '#'

/-! ### Kinds of characters -/

/-- The characters of an authority, as far as they do not end it. -/
def isAuthorityChar (c : Char) : Bool :=
  isSegmentChar c || c = '[' || c = ']'

def isReferenceChar (c : Char) : Bool :=
  isQueryChar c || c = '[' || c = ']'

theorem toNat_of_isPlain {c : Char} (h : isPlain c) :
  c.toNat < 128
  := by
  rw [isPlain, Bool.or_eq_true, List.contains_iff_mem] at h
  rcases h with h | h
  · have := (Ascii.isAlphanum_iff c).mp h
    omega
  · revert c
    decide

theorem toNat_of_isReferenceChar {c : Char} (h : isReferenceChar c) :
  c.toNat < 128
  := by
  simp only [isReferenceChar, isQueryChar, isSegmentChar, Bool.or_eq_true, decide_eq_true_eq] at h
  rcases h with ((((((h | rfl) | rfl) | rfl) | rfl) | rfl) | rfl) | rfl
  · exact toNat_of_isPlain h
  all_goals decide

/-- A property of the characters of ASCII can be checked one by one. -/
theorem ascii_rec {p : Char → Prop} (h : ∀ n < 128, p (Char.ofNat n)) {c : Char}
    (hc : c.toNat < 128) :
  p c
  := by
  rw [← Char.ofNat_toNat c]
  apply h _ hc

/-- The characters of a reference are visible, and none begins a fragment. -/
theorem visible_of_isReferenceChar {c : Char} (h : isReferenceChar c) :
  33 ≤ c.toNat ∧ c.toNat < 127 ∧ c ≠ '#'
  := by
  have hc := toNat_of_isReferenceChar h
  revert h
  apply ascii_rec (p := fun c => isReferenceChar c → 33 ≤ c.toNat ∧ c.toNat < 127 ∧ c ≠ '#')
    (by decide +kernel) hc

theorem isReferenceChar_of_isQueryChar {c : Char} (h : isQueryChar c) :
  isReferenceChar c
  := by
  rw [isReferenceChar, h]
  rfl

theorem isReferenceChar_of_isAuthorityChar {c : Char} (h : isAuthorityChar c) :
  isReferenceChar c
  := by
  simp only [isAuthorityChar, Bool.or_eq_true] at h
  simp only [isReferenceChar, isQueryChar, Bool.or_eq_true]
  tauto

theorem isEnd_of_isAuthorityChar {c : Char} (h : isAuthorityChar c) :
  isEnd c = false
  := by
  have hc := toNat_of_isReferenceChar (isReferenceChar_of_isAuthorityChar h)
  revert h
  apply ascii_rec (p := fun c => isAuthorityChar c → isEnd c = false) (by decide +kernel) hc

theorem isAuthorityChar_of_isSegmentChar {c : Char} (h : isSegmentChar c) :
  isAuthorityChar c
  := by
  rw [isAuthorityChar, h]
  rfl

theorem isAuthorityChar_of_isUserinfoChar {c : Char} (h : isUserinfoChar c) :
  isAuthorityChar c
  := by
  rw [isUserinfoChar] at h
  rw [isAuthorityChar, isSegmentChar, h]
  rfl

theorem isAuthorityChar_of_isNameChar {c : Char} (h : isNameChar c) :
  isAuthorityChar c
  := by
  rw [isNameChar] at h
  rw [isAuthorityChar, isSegmentChar, h]
  rfl

theorem isAuthorityChar_of_isLiteralChar {c : Char} (h : isLiteralChar c) :
  isAuthorityChar c
  := by
  simp only [isLiteralChar, Bool.or_eq_true] at h
  simp only [isAuthorityChar, isSegmentChar, Bool.or_eq_true]
  tauto

theorem isAuthorityChar_of_isDigit {c : Char} (h : Net.isDigit 10 c) :
  isAuthorityChar c ∧ c ≠ '+'
  := by
  have hc := Net.toNat_of_isDigit h
  revert h
  apply ascii_rec (p := fun c => Net.isDigit 10 c → isAuthorityChar c ∧ c ≠ '+')
    (by decide +kernel) (by omega)

theorem Word.forall {p : Char → Bool} (s : Word p) :
  ∀ c ∈ s.val, p c
  := List.all_eq_true.mp s.property

/-! ### Parts of an address -/

theorem Scheme.forall_text (scheme : Scheme) :
  ∀ c ∈ scheme.text, isAuthorityChar c
  := by
  intro c hc
  have hlower : c.toLower ∈ "https".toList := by
    have hmem : c.toLower ∈ scheme.lower := List.mem_map_of_mem hc
    rcases scheme.lower_cases with h | h
    · rw [h] at hmem
      exact List.mem_of_mem_dropLast (l := "https".toList) hmem
    · rwa [h] at hmem
  have hc : c.toNat < 128 := by
    have hletter : ∀ d ∈ "https".toList, d.toNat < 128 := by decide
    have hbound := hletter _ hlower
    rw [Ascii.toNat_toLower] at hbound
    split at hbound <;> omega
  revert hlower
  apply ascii_rec (p := fun c => c.toLower ∈ "https".toList → isAuthorityChar c)
    (by decide +kernel) hc

theorem Scheme.isEnd_text (scheme : Scheme) :
  ∀ c ∈ scheme.text, isEnd c = false
  := fun c hc => isEnd_of_isAuthorityChar (scheme.forall_text c hc)

theorem Host.forall_text (host : Host) :
  ∀ c ∈ host.text, isAuthorityChar c
  := by
  cases host with
  | name s _ => exact fun c hc => isAuthorityChar_of_isNameChar (Word.forall s c hc)
  | literal s =>
    rw [Host.text, List.forall_mem_append, List.forall_mem_cons]
    exact ⟨⟨rfl, fun c hc => isAuthorityChar_of_isLiteralChar (Word.forall s c hc)⟩, by decide⟩

theorem Host.isEnd_text (host : Host) :
  ∀ c ∈ host.text, isEnd c = false
  := fun c hc => isEnd_of_isAuthorityChar (host.forall_text c hc)

/-- A part has the characters of its word, and those around it. -/
theorem forall_writePart {p q : Char → Bool} {write : Text → Text} (hpq : ∀ c, p c → q c)
    (hwrite : ∀ s : Text, (∀ c ∈ s, q c) → ∀ c ∈ write s, q c) (part : Option (Word p)) :
  ∀ c ∈ writePart write part, q c
  := by
  cases part with
  | none => exact List.forall_mem_nil _
  | some s => exact hwrite s.val fun c hc => hpq c (Word.forall s c hc)

theorem Authority.forall_text (a : Authority) :
  ∀ c ∈ a.text, isAuthorityChar c
  := by
  rw [Authority.text, List.forall_mem_append, List.forall_mem_append]
  refine ⟨⟨?_, a.host.forall_text⟩, ?_⟩
  · apply forall_writePart (fun _ => isAuthorityChar_of_isUserinfoChar)
    intro s hs
    exact List.forall_mem_append.mpr ⟨hs, by decide⟩
  · apply forall_writePart (fun _ h => (isAuthorityChar_of_isDigit h).1)
    intro s hs
    exact List.forall_mem_cons.mpr ⟨rfl, hs⟩

theorem Authority.isEnd_text (a : Authority) :
  ∀ c ∈ a.text, isEnd c = false
  := fun c hc => isEnd_of_isAuthorityChar (a.forall_text c hc)

/-- A text that ends an authority. -/
def Ends (tail : Text) : Prop :=
  ∀ c ∈ tail.head?, isEnd c

theorem ends_text (path : List Segment) (query : Option Query) :
  Ends (pathText path ++ queryText query)
  := by
  intro c hc
  cases path with
  | nil =>
    cases query with
    | none => cases hc
    | some query =>
      obtain rfl := Option.some.inj hc
      rfl
  | cons s path =>
    obtain rfl := Option.some.inj hc
    rfl

/-- A part of a text is taken up to a character that does not belong to it. -/
theorem takeWhile_append_stop {p : Char → Bool} {part rest : Text} (hpart : ∀ c ∈ part, p c)
    (hrest : ∀ c ∈ rest.head?, p c = false) :
  (part ++ rest).takeWhile p = part
  := by
  rw [List.takeWhile_append_of_pos hpart]
  cases rest with
  | nil => rw [List.takeWhile_nil, List.append_nil]
  | cons c rest =>
    rw [List.takeWhile_cons_of_neg (by simp [hrest c rfl]), List.append_nil]

/-- The digits of a port are a 16 bit number if there are some and they are not too many. -/
theorem parseU16_digits (digits : Word (Net.isDigit 10)) :
  Net.parseU16 digits.val =
    if digits.val ≠ [] ∧ Net.ofDigits 10 digits.val < 65536 then
      some (UInt16.ofNat (Net.ofDigits 10 digits.val))
    else none
  := by
  have hplus : Text.stripPrefix digits.val ['+'] = none := by
    rw [Text.stripPrefix_eq_none_iff]
    rintro ⟨rest, hrest⟩
    apply (isAuthorityChar_of_isDigit (Word.forall digits '+' _)).2 rfl
    rw [← hrest]
    exact List.mem_cons_self
  rw [Net.parseU16, hplus, Option.getD_none]
  simp only [digits.property, true_and]

/-! ### The characters of a reference -/

theorem forall_pathText (path : List Segment) :
  ∀ c ∈ pathText path, isReferenceChar c
  := by
  intro c hc
  obtain ⟨s, -, hc⟩ := List.mem_flatMap.mp hc
  rcases List.mem_cons.mp hc with rfl | hc
  · rfl
  · exact isReferenceChar_of_isAuthorityChar
      (isAuthorityChar_of_isSegmentChar (Word.forall s c hc))

theorem forall_queryText (query : Option Query) :
  ∀ c ∈ queryText query, isReferenceChar c
  := by
  apply forall_writePart (fun _ => isReferenceChar_of_isQueryChar)
  intro s hs
  exact List.forall_mem_cons.mpr ⟨rfl, hs⟩

theorem Url.forall_text (u : Url) :
  ∀ c ∈ u.text, isReferenceChar c
  := by
  rw [Url.text]
  simp only [List.forall_mem_append]
  exact ⟨⟨fun c hc => isReferenceChar_of_isAuthorityChar (u.scheme.forall_text c hc), by decide⟩,
    fun c hc => isReferenceChar_of_isAuthorityChar (u.authority.forall_text c hc),
    forall_pathText u.path, forall_queryText u.query⟩

/-- The characters of a reference are visible ones of ASCII, and none begins a fragment. -/
theorem Reference.forall_text (ref : Reference) :
  ∀ c ∈ ref.text, 33 ≤ c.toNat ∧ c.toNat < 127 ∧ c ≠ '#'
  := by
  have hall : ∀ c ∈ ref.text, isReferenceChar c := by
    cases ref with
    | absolute url => exact url.forall_text
    | network authority path query =>
      rw [Reference.text]
      simp only [List.forall_mem_append]
      exact ⟨by decide, fun c hc => isReferenceChar_of_isAuthorityChar (authority.forall_text c hc),
        forall_pathText path, forall_queryText query⟩
    | absolutePath first rest query _ =>
      rw [Reference.text]
      simp only [List.forall_mem_append]
      exact ⟨forall_pathText (first :: rest), forall_queryText query⟩
    | relativePath first rest query _ _ =>
      rw [Reference.text]
      simp only [List.forall_mem_append]
      refine ⟨fun c hc => ?_, forall_pathText rest, forall_queryText query⟩
      exact isReferenceChar_of_isAuthorityChar
        (isAuthorityChar_of_isSegmentChar (Word.forall first c hc))
    | samePath query => exact forall_queryText query
  exact fun c hc => visible_of_isReferenceChar (hall c hc)

theorem Reference.fragment_not_mem (ref : Reference) :
  '#' ∉ ref.text
  := fun hmem => (ref.forall_text '#' hmem).2.2 rfl

end Rfc3986
