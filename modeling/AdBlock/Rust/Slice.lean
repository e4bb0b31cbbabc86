import AdBlock.Rust.Ascii
import AdBlock.Rust.Bytes

/-!
# Slices

Texts are sliced at byte offsets of their UTF-8 form, and a slice inside a character is an error.
An offset at which a text is split is the length of what is before it (`sliceFrom_append`,
`sliceTo_append`), and this is what a search gives (`findChar_eq_some`).  Byte strings are searched
without regard to the case of ASCII letters.
-/

namespace Text

/-- `str::as_bytes`. -/
def asBytes (s : Text) : Bytes :=
  s.flatMap String.utf8EncodeChar

/-- `&s[i..]`, unless this is inside a character or out of bounds. -/
def sliceFrom : Text → ℕ → Option Text
  | s, 0 => some s
  | [], _ + 1 => none
  | c :: s, n + 1 => if c.utf8Size ≤ n + 1 then sliceFrom s (n + 1 - c.utf8Size) else none

/-- `&s[..i]`, unless this is inside a character or out of bounds. -/
def sliceTo : Text → ℕ → Option Text
  | _, 0 => some []
  | [], _ + 1 => none
  | c :: s, n + 1 =>
      if c.utf8Size ≤ n + 1 then (sliceTo s (n + 1 - c.utf8Size)).map (c :: ·) else none

/-- `str::find`, for a text pattern. -/
def find (s pattern : Text) : Option ℕ :=
  (splitOnceText pattern s).map (len ·.1)

/-- `str::find`, for a character. -/
def findChar (s : Text) (c : Char) : Option ℕ :=
  (splitOnce s c).map (len ·.1)

/-- Split a text around copies of a pattern, at most `fuel` times. -/
def splitTimes (pattern : Text) : ℕ → Text → List Text
  | 0, s => [s]
  | fuel + 1, s =>
      match splitOnceText pattern s with
      | some (head, rest) => head :: splitTimes pattern fuel rest
      | none => [s]

/-- `str::split`, for a nonempty text pattern. -/
def splitText (s pattern : Text) : List Text :=
  splitTimes pattern s.length s

/-- `str::replace`, for a nonempty text pattern. -/
def replace (s pattern replacement : Text) : Text :=
  join (splitText s pattern) replacement

/-- `str::replace`, for a character. -/
def replaceChar (s : Text) (c : Char) (replacement : Text) : Text :=
  s.flatMap fun d => if d = c then replacement else [d]

/-- `char::is_ascii_whitespace`. -/
def isAsciiWhitespace (c : Char) : Bool :=
  c ∈ [' ', '\t', '\n', '\x0c', '\r']

/-- `str::split_ascii_whitespace`. -/
def splitAsciiWhitespace (s : Text) : List Text :=
  (s.splitOnP isAsciiWhitespace).filter (· ≠ [])

/-- `str::trim_matches`, for a set of characters. -/
def trimMatchesAny (s : Text) (chars : List Char) : Text :=
  (s.dropWhile (chars.contains ·)).rdropWhile (chars.contains ·)

theorem mem_of_mem_trimMatchesAny {s : Text} {chars : List Char} {c : Char}
    (h : c ∈ trimMatchesAny s chars) :
  c ∈ s
  := ((List.rdropWhile_prefix _ _).sublist.trans (List.dropWhile_sublist _)).mem h

/-! ### Offsets -/

theorem len_cons (c : Char) (s : Text) :
  len (c :: s) = c.utf8Size + len s
  := rfl

theorem exists_len_cons (c : Char) (s : Text) :
  ∃ n, len (c :: s) = n + 1
  := by
  have hpos := Char.utf8Size_pos c
  apply Nat.exists_eq_add_one_of_ne_zero
  rw [len_cons]
  omega

/-- The rest of a text starts at the length of what is before it. -/
theorem sliceFrom_append (before rest : Text) :
  sliceFrom (before ++ rest) (len before) = some rest
  := by
  induction before with
  | nil =>
    cases rest with
    | nil => rfl
    | cons c rest => rfl
  | cons c before ih =>
    obtain ⟨n, hn⟩ := exists_len_cons c before
    rw [hn, List.cons_append, sliceFrom, ← hn, len_cons, if_pos (Nat.le_add_right _ _),
      Nat.add_sub_cancel_left, ih]

/-- The front of a text ends at its length. -/
theorem sliceTo_append (before rest : Text) :
  sliceTo (before ++ rest) (len before) = some before
  := by
  induction before with
  | nil =>
    cases rest with
    | nil => rfl
    | cons c rest => rfl
  | cons c before ih =>
    obtain ⟨n, hn⟩ := exists_len_cons c before
    rw [hn, List.cons_append, sliceTo, ← hn, len_cons, if_pos (Nat.le_add_right _ _),
      Nat.add_sub_cancel_left, ih]
    rfl

/-- A text that splits has the pattern between its parts. -/
theorem splitOnceText_eq_some {pattern s head rest : Text}
    (h : splitOnceText pattern s = some (head, rest)) :
  s = head ++ (pattern ++ rest)
  := by
  induction s generalizing head with
  | nil =>
    rw [splitOnceText] at h
    split at h
    · rename_i hempty
      cases h
      rw [List.isEmpty_iff.mp hempty]
      rfl
    · cases h
  | cons c s ih =>
    rw [splitOnceText] at h
    split at h
    · rename_i rest' hdrop
      cases h
      rw [eq_append_of_stripPrefix hdrop]
      rfl
    · obtain ⟨⟨head', rest'⟩, hsplit, hsame⟩ := Option.map_eq_some_iff.mp h
      cases hsame
      rw [ih hsplit]
      rfl

/-- A text with a copy of the pattern splits, at that copy or before it. -/
theorem exists_splitOnceText (pattern before after : Text) :
  ∃ head rest, splitOnceText pattern (before ++ (pattern ++ after)) = some (head, rest)
    ∧ head.length ≤ before.length
  := by
  induction before with
  | nil =>
    rw [List.nil_append]
    cases htext : pattern ++ after with
    | nil =>
      obtain ⟨rfl, -⟩ := List.append_eq_nil_iff.mp htext
      exact ⟨[], [], rfl, le_rfl⟩
    | cons c s =>
      have hdrop : (c :: s).dropPrefix? pattern = some after := by
        rw [← htext]
        exact stripPrefix_append pattern after
      refine ⟨[], after, ?_, le_rfl⟩
      rw [splitOnceText, hdrop]
  | cons c before ih =>
    obtain ⟨head, rest, hsplit, hle⟩ := ih
    rw [List.cons_append, splitOnceText]
    split
    · exact ⟨[], _, rfl, Nat.zero_le _⟩
    · rw [hsplit]
      exact ⟨c :: head, rest, rfl, Nat.succ_le_succ hle⟩

/-- The first copy of a pattern stays the first one if more is written behind the text. -/
theorem splitOnceText_append_right {pattern s head rest : Text} (hne : pattern ≠ [])
    (h : splitOnceText pattern s = some (head, rest)) (tail : Text) :
  splitOnceText pattern (s ++ tail) = some (head, rest ++ tail)
  := by
  induction s generalizing head with
  | nil =>
    rw [splitOnceText, if_neg (by simpa using hne)] at h
    cases h
  | cons c s ih =>
    rw [splitOnceText] at h
    split at h
    · rename_i rest' hdrop
      cases h
      have hdrop' : (c :: (s ++ tail)).dropPrefix? pattern = some (rest ++ tail) := by
        rw [← List.cons_append, eq_append_of_stripPrefix hdrop, List.append_assoc]
        exact stripPrefix_append pattern (rest ++ tail)
      rw [List.cons_append, splitOnceText, hdrop']
    · rename_i hnone
      obtain ⟨⟨head', rest'⟩, hsplit, hsame⟩ := Option.map_eq_some_iff.mp h
      cases hsame
      -- the pattern fits into what is left, so that it does not run over the end here either
      have hlength : pattern.length ≤ (c :: s).length := by
        rw [splitOnceText_eq_some hsplit]
        simp only [List.length_cons, List.length_append]
        omega
      have hnone' : (c :: (s ++ tail)).dropPrefix? pattern = none := by
        apply stripPrefix_eq_none_iff.mpr
        rw [← List.cons_append]
        intro hprefix
        apply stripPrefix_eq_none_iff.mp hnone
        exact List.prefix_of_prefix_length_le hprefix (List.prefix_append _ _) hlength
      rw [List.cons_append, splitOnceText, hnone', ih hsplit]
      rfl

theorem splitOnceText_length_lt {pattern s head rest : Text} (hne : pattern ≠ [])
    (h : splitOnceText pattern s = some (head, rest)) :
  rest.length < s.length
  := by
  have hpos := List.length_pos_of_ne_nil hne
  rw [splitOnceText_eq_some h]
  simp only [List.length_append]
  omega

theorem splitTimes_nil {pattern : Text} (hne : pattern ≠ []) (fuel : ℕ) :
  splitTimes pattern fuel [] = [[]]
  := by
  cases fuel with
  | zero => rfl
  | succ fuel =>
    have hnone : splitOnceText pattern [] = none := by
      rw [splitOnceText, if_neg (by simpa using hne)]
    rw [splitTimes, hnone]

/-- There are no more copies of a pattern than characters. -/
theorem splitTimes_congr {pattern s : Text} (hne : pattern ≠ []) {m n : ℕ} (hm : s.length ≤ m)
    (hn : s.length ≤ n) :
  splitTimes pattern m s = splitTimes pattern n s
  := by
  induction m generalizing n s with
  | zero =>
    obtain rfl : s = [] := List.length_eq_zero_iff.mp (Nat.le_zero.mp hm)
    rw [splitTimes_nil hne, splitTimes_nil hne]
  | succ m ih =>
    cases n with
    | zero =>
      obtain rfl : s = [] := List.length_eq_zero_iff.mp (Nat.le_zero.mp hn)
      rw [splitTimes_nil hne, splitTimes_nil hne]
    | succ n =>
      rw [splitTimes, splitTimes]
      cases hsplit : splitOnceText pattern s with
      | none => rfl
      | some parts =>
        have hlt := splitOnceText_length_lt hne hsplit
        have htimes : splitTimes pattern m parts.2 = splitTimes pattern n parts.2 :=
          ih (by omega) (by omega)
        dsimp only
        rw [htimes]

/-- The text up to the first copy of a pattern stays, the copy is replaced, and the text behind it is
gone through in turn. -/
theorem replace_of_split {pattern s head rest replacement : Text} (hne : pattern ≠ [])
    (h : splitOnceText pattern s = some (head, rest)) :
  replace s pattern replacement = head ++ (replacement ++ replace rest pattern replacement)
  := by
  have hlt := splitOnceText_length_lt hne h
  have hsplit : splitText s pattern = head :: splitText rest pattern := by
    obtain ⟨n, hn⟩ : ∃ n, s.length = n + 1 := ⟨s.length - 1, by omega⟩
    rw [splitText, hn, splitTimes, h]
    dsimp only
    rw [splitText, splitTimes_congr hne (by omega) le_rfl]
  have hparts : splitText rest pattern ≠ [] := by
    rw [splitText]
    cases rest.length with
    | zero => simp [splitTimes]
    | succ n =>
      rw [splitTimes]
      split <;> simp
  obtain ⟨part, parts, hcons⟩ := List.exists_cons_of_ne_nil hparts
  rw [replace, replace, hsplit, hcons, join, join, List.intercalate_cons_cons, List.append_assoc]

theorem replace_of_none {pattern s replacement : Text} (h : splitOnceText pattern s = none) :
  replace s pattern replacement = s
  := by
  have hsplit : splitText s pattern = [s] := by
    rw [splitText]
    cases s.length with
    | zero => rfl
    | succ n => rw [splitTimes, h]
  rw [replace, hsplit, join, List.intercalate_singleton]

theorem findChar_eq_some {s : Text} {c : Char} {p : ℕ} (h : findChar s c = some p) :
  ∃ before rest, s = before ++ c :: rest ∧ p = len before
  := by
  obtain ⟨⟨before, rest⟩, hsplit, rfl⟩ := Option.map_eq_some_iff.mp h
  rcases splitOnce_cases s c with ⟨_, hnone⟩ | ⟨head, tail, _, rfl, hsome⟩
  · rw [hnone] at hsplit
    cases hsplit
  · rw [hsome] at hsplit
    cases hsplit
    exact ⟨before, rest, rfl, rfl⟩

/-- A letter of ASCII has one byte, in lower and in upper case. -/
theorem utf8Size_toLower (c : Char) :
  c.toLower.utf8Size = c.utf8Size
  := by
  by_cases hupper : 65 ≤ c.toNat ∧ c.toNat ≤ 90
  · have hone {d : Char} (hd : d.toNat ≤ 127) : d.utf8Size = 1 :=
      Char.utf8Size_eq_one_iff.mpr hd
    rw [hone (by omega : c.toNat ≤ 127), hone]
    rw [Ascii.toNat_toLower, if_pos hupper]
    omega
  · rw [Ascii.toLower_eq_self_iff.mpr hupper]

theorem len_toAsciiLowercase (s : Text) :
  len (toAsciiLowercase s) = len s
  := by
  rw [len, toAsciiLowercase, List.map_map]
  congr 2
  funext c
  apply utf8Size_toLower

theorem asBytes_append (s t : Text) :
  asBytes (s ++ t) = asBytes s ++ asBytes t
  := List.flatMap_append

/-- The bytes of a text of ASCII are the numbers of its characters. -/
theorem asBytes_of_ascii {s : Text} (h : ∀ c ∈ s, c.toNat < 128) :
  asBytes s = s.map fun c => UInt8.ofNat c.toNat
  := by
  induction s with
  | nil => rfl
  | cons c s ih =>
    obtain ⟨hc, hs⟩ := List.forall_mem_cons.mp h
    have hencode : String.utf8EncodeChar c = [UInt8.ofNat c.toNat] := by
      simp only [String.utf8EncodeChar, ← Char.toNat.eq_1]
      rw [if_pos (by omega)]
    rw [asBytes, List.flatMap_cons, hencode, ← asBytes, ih hs]
    rfl

end Text

namespace Bytes

/-- `u8::to_ascii_lowercase`. -/
def lower (b : UInt8) : UInt8 :=
  if 65 ≤ b ∧ b ≤ 90 then b + 32 else b

/-- `[u8]::eq_ignore_ascii_case`. -/
def eqIgnoreAsciiCase (a b : Bytes) : Bool :=
  a.map lower = b.map lower

/-- `[T]::windows`. -/
def windows (bytes : Bytes) (size : ℕ) : List Bytes :=
  (List.range (bytes.length + 1 - size)).map fun i => (bytes.drop i).take size

end Bytes
