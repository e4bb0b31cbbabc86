import AdBlock.Rust.Unicode
import Mathlib.Algebra.GroupWithZero.Nat
import Mathlib.Data.List.DropRight

/-!
# Text

Rust's `String` and `str` as lists of characters, with the standard library's functions
on them that the program calls, under their names.
-/

/-- A Rust string, as the list of its characters. -/
abbrev Text := List Char

namespace Text

/-- What holds of the characters of a text is checked on the text, not on all characters. -/
instance (priority := 2000) decidableForallMem (s : Text) (p : Char → Prop) [DecidablePred p] :
    Decidable (∀ c ∈ s, p c) :=
  List.decidableBAll p s

/-- `str::trim_start`. -/
def trimStart (s : Text) : Text :=
  s.dropWhile Unicode.isWhitespace

/-- `str::trim_end`. -/
def trimEnd (s : Text) : Text :=
  s.rdropWhile Unicode.isWhitespace

/-- `str::trim`. -/
def trim (s : Text) : Text :=
  trimEnd (trimStart s)

/-- `str::starts_with`. -/
def startsWith (s pattern : Text) : Bool :=
  pattern.isPrefixOf s

/-- `str::strip_prefix`. -/
def stripPrefix (s pattern : Text) : Option Text :=
  s.dropPrefix? pattern

/-- `str::split_once`, for a character pattern. -/
def splitOnce (s : Text) (c : Char) : Option (Text × Text) :=
  match s.dropWhile (· != c) with
  | [] => none
  | _ :: rest => some (s.takeWhile (· != c), rest)

/-- `str::rsplit_once`, for a character pattern. -/
def rsplitOnce (s : Text) (c : Char) : Option (Text × Text) :=
  (splitOnce s.reverse c).map fun (tail, head) => (head.reverse, tail.reverse)

/-- `str::splitn`. -/
def splitn : ℕ → Char → Text → List Text
  | 0, _, _ => []
  | 1, _, s => [s]
  | n + 2, c, s =>
      match splitOnce s c with
      | some (head, rest) => head :: splitn (n + 1) c rest
      | none => [s]

/-- `str::split_once`, for a class of characters. -/
def splitOnceP (s : Text) (p : Char → Bool) : Option (Text × Text) :=
  match s.dropWhile (!p ·) with
  | [] => none
  | _ :: rest => some (s.takeWhile (!p ·), rest)

/-- `str::split_once`, for a text pattern: the text is split around the first copy of the
pattern. -/
def splitOnceText (pattern : Text) : Text → Option (Text × Text)
  | [] => if pattern.isEmpty then some ([], []) else none
  | c :: s =>
      match (c :: s).dropPrefix? pattern with
      | some rest => some ([], rest)
      | none => (splitOnceText pattern s).map fun (head, rest) => (c :: head, rest)

/-- Strip `suffix` from the end of `s`, at most `fuel` times. -/
def stripSuffixes (suffix : Text) : Nat → Text → Text
  | 0, s => s
  | fuel + 1, s =>
      match s.dropSuffix? suffix with
      | some rest => stripSuffixes suffix fuel rest
      | none => s

/-- `str::trim_end_matches`, for a nonempty text pattern: every copy of the pattern at the
end is stripped. -/
def trimEndMatches (s suffix : Text) : Text :=
  stripSuffixes suffix s.length s

/-- Strip `pattern` from the front of `s`, at most `fuel` times. -/
def stripPrefixes (pattern : Text) : Nat → Text → Text
  | 0, s => s
  | fuel + 1, s =>
      match stripPrefix s pattern with
      | some rest => stripPrefixes pattern fuel rest
      | none => s

/-- `str::trim_start_matches`, for a nonempty text pattern. -/
def trimStartText (s pattern : Text) : Text :=
  stripPrefixes pattern s.length s

/-- `str::ends_with`. -/
def endsWith (s suffix : Text) : Bool :=
  suffix.isSuffixOf s

/-- `str::len`: the number of bytes in UTF-8. -/
def len (s : Text) : Nat :=
  (s.map Char.utf8Size).sum

/-- `str::trim_start_matches`, for a set of characters. -/
def trimStartMatches (s : Text) (chars : List Char) : Text :=
  s.dropWhile (chars.contains ·)

/-- `str::trim_matches`, for a character. -/
def trimMatches (s : Text) (c : Char) : Text :=
  (s.dropWhile (· == c)).rdropWhile (· == c)

/-- `str::trim_end_matches`, for a character. -/
def trimEndChar (s : Text) (c : Char) : Text :=
  s.rdropWhile (· == c)

/-- `str::to_ascii_lowercase`. -/
def toAsciiLowercase (s : Text) : Text :=
  s.map Char.toLower

/-- The text without one carriage return at its end. -/
def stripCarriageReturn (s : Text) : Text :=
  (s.dropSuffix? ['\r']).getD s

/-- `str::lines`: the pieces between line feeds, each without the carriage return before
its line feed; a piece after the last line feed counts when it is not empty. -/
def lines (s : Text) : List Text :=
  let pieces := s.splitOn '\n'
  pieces.dropLast.map stripCarriageReturn ++ (pieces.getLast?.filter (· ≠ [])).toList

/-- `str::rsplit`, for a character pattern. -/
def rsplit (s : Text) (c : Char) : List Text :=
  (s.splitOn c).reverse

/-- `[T]::join`, for texts. -/
def join (pieces : List Text) (separator : Text) : Text :=
  separator.intercalate pieces

/-- `BufRead::read_line`: the text up to its first line feed, with it. -/
def readLine (s : Text) : Text :=
  s.takeWhile (· ≠ '\n') ++ (s.dropWhile (· ≠ '\n')).take 1

/-! ### Trimming -/

theorem trim_trim (s : Text) :
  trim (trim s) = trim s
  := by
  have hstart : trimStart (trim s) = trim s := by
    rw [trimStart, List.dropWhile_eq_self_iff]
    intro hpos
    -- the first character is that of the text without the whitespace in front
    have hprefix : trim s <+: trimStart s := List.rdropWhile_prefix _ _
    have hlen : 0 < (trimStart s).length := lt_of_lt_of_le hpos hprefix.length_le
    have hhead : (trim s).get ⟨0, hpos⟩ = (trimStart s).get ⟨0, hlen⟩ :=
      hprefix.getElem hpos
    rw [List.get_eq_getElem] at hhead
    rw [hhead]
    exact List.dropWhile_get_zero_not _ s hlen
  calc trim (trim s)
    _ = trimEnd (trim s) := congrArg trimEnd hstart
    _ = trim s := List.rdropWhile_idempotent _ _

theorem getLast?_trim {s : Text} {c : Char} (h : (trim s).getLast? = some c) :
  Unicode.isWhitespace c = false
  := by
  have hne : trim s ≠ [] := by
    intro hnil
    rw [hnil] at h
    cases h
  rw [List.getLast?_eq_some_getLast hne, Option.some.injEq] at h
  rw [← h, ← Bool.not_eq_true]
  apply List.rdropWhile_last_not

theorem trim_sublist (s : Text) :
  (trim s).Sublist s
  := (List.rdropWhile_prefix _ _).sublist.trans (List.dropWhile_sublist _)

theorem mem_of_mem_trim {s : Text} {c : Char} (h : c ∈ trim s) :
  c ∈ s
  := (trim_sublist s).mem h

theorem trimStart_of_head {s : Text} (h : ∀ c ∈ s.head?, Unicode.isWhitespace c = false) :
  trimStart s = s
  := by
  rw [trimStart, List.dropWhile_eq_self_iff]
  intro hpos
  rw [h _ (List.head?_eq_getElem? ▸ List.getElem?_eq_getElem hpos)]
  exact Bool.false_ne_true

/-- A text with no whitespace at its ends stays as it is. -/
theorem trim_of_ends {s : Text} (hhead : ∀ c ∈ s.head?, Unicode.isWhitespace c = false)
    (hlast : ∀ c ∈ s.getLast?, Unicode.isWhitespace c = false) :
  trim s = s
  := by
  rw [trim, trimStart_of_head hhead, trimEnd, List.rdropWhile_eq_self_iff]
  intro hne
  rw [hlast _ (List.getLast?_eq_some_getLast hne)]
  exact Bool.false_ne_true

theorem trim_of_forall {s : Text} (h : ∀ c ∈ s, Unicode.isWhitespace c = false) :
  trim s = s
  := by
  apply trim_of_ends
  · exact fun c hc => h c (List.mem_of_mem_head? hc)
  · exact fun c hc => h c (List.mem_of_mem_getLast? hc)

theorem trimEnd_of_forall {s : Text} (h : ∀ c ∈ s, Unicode.isWhitespace c = false) :
  trimEnd s = s
  := by
  rw [trimEnd, List.rdropWhile_eq_self_iff]
  intro hne
  rw [h _ (List.getLast_mem hne)]
  exact Bool.false_ne_true

theorem getLast?_trimEndChar (s : Text) (c : Char) :
  (trimEndChar s c).getLast? ≠ some c
  := by
  intro hlast
  have hne : trimEndChar s c ≠ [] := by
    intro h
    rw [h] at hlast
    cases hlast
  rw [List.getLast?_eq_some_getLast hne, Option.some.injEq] at hlast
  exact List.rdropWhile_last_not (· == c) s hne (beq_iff_eq.mpr hlast)

theorem trimEndChar_of_last {s : Text} {c : Char} (hlast : s.getLast? ≠ some c) :
  trimEndChar s c = s
  := by
  rw [trimEndChar, List.rdropWhile_eq_self_iff]
  intro hne h
  rw [List.getLast?_eq_some_getLast hne] at hlast
  exact hlast (congrArg some (beq_iff_eq.mp h))

theorem trimMatches_sublist (s : Text) (c : Char) :
  (trimMatches s c).Sublist s
  := (List.rdropWhile_prefix _ _).sublist.trans (List.dropWhile_sublist _)

theorem mem_of_mem_trimMatches {s : Text} {c d : Char} (h : d ∈ trimMatches s c) :
  d ∈ s
  := (trimMatches_sublist s c).mem h

/-- The character is at neither end of the text that is left. -/
theorem ends_trimMatches (s : Text) (c : Char) :
  (trimMatches s c).head? ≠ some c ∧ (trimMatches s c).getLast? ≠ some c
  := by
  constructor
  · intro hhead
    -- the first character is that of the text without the copies in front
    obtain ⟨rest, hrest⟩ := List.rdropWhile_prefix (· == c) (s.dropWhile (· == c))
    have hfirst : (s.dropWhile (· == c)).head? = some c := by
      rw [← hrest, List.head?_append]
      exact congrArg (·.or rest.head?) hhead
    have hnot := List.head?_dropWhile_not (· == c) s
    rw [hfirst] at hnot
    simp at hnot
  · exact getLast?_trimEndChar (s.dropWhile (· == c)) c

/-- A text without the character at its ends stays as it is. -/
theorem trimMatches_of_ends {s : Text} {c : Char} (hhead : s.head? ≠ some c)
    (hlast : s.getLast? ≠ some c) :
  trimMatches s c = s
  := by
  have hstart : s.dropWhile (· == c) = s := by
    rw [List.dropWhile_eq_self_iff]
    intro hpos h
    rw [List.head?_eq_getElem?, List.getElem?_eq_getElem hpos] at hhead
    exact hhead (congrArg some (beq_iff_eq.mp h))
  rw [trimMatches, hstart]
  exact trimEndChar_of_last hlast

theorem concat_suffix_concat_iff {s t : Text} {c d : Char} :
  s ++ [c] <:+ t ++ [d] ↔ c = d ∧ s <:+ t
  := by
  rw [← List.reverse_prefix, List.reverse_concat, List.reverse_concat, List.cons_prefix_cons,
    List.reverse_prefix]

theorem getLast?_of_concat_suffix {s t : Text} {c : Char} (h : s ++ [c] <:+ t) :
  t.getLast? = some c
  := by
  obtain ⟨front, rfl⟩ := h
  rw [← List.append_assoc, List.getLast?_concat]

/-- Copies of a character in front do not matter to an end without the character. -/
theorem suffix_append_iff_of_forall {suffix front s : Text} {c : Char} (hfront : ∀ d ∈ front, d = c)
    (hsuffix : c ∉ suffix) :
  suffix <:+ front ++ s ↔ suffix <:+ s
  := by
  constructor
  · intro h
    rcases List.suffix_or_suffix_of_suffix h (List.suffix_append front s) with h' | ⟨more, rfl⟩
    · exact h'
    · cases more with
      | nil => exact List.suffix_rfl
      | cons d more =>
        -- the first character of the end would be one of the copies
        obtain ⟨before, hbefore⟩ := h
        rw [← List.append_assoc, List.append_left_inj] at hbefore
        have hd : d = c := by
          apply hfront
          rw [← hbefore]
          simp
        exact absurd (by simp [hd]) hsuffix
  · intro h
    exact h.trans (List.suffix_append front s)

/-- An end without the character is that of the text trimmed at its end only. -/
theorem suffix_trimMatches_iff {suffix s : Text} {c : Char} (hsuffix : c ∉ suffix) :
  suffix <:+ trimMatches s c ↔ suffix <:+ s.rdropWhile (· == c)
  := by
  have hfront : ∀ d ∈ s.takeWhile (· == c), d = c := by
    intro d hd
    have heq := List.mem_takeWhile_imp hd
    exact beq_iff_eq.mp heq
  have hsplit : (s.takeWhile (· == c) ++ s.dropWhile (· == c)).rdropWhile (· == c)
      = s.rdropWhile (· == c) := congrArg _ List.takeWhile_append_dropWhile
  rw [← hsplit, trimMatches, List.rdropWhile, List.rdropWhile, List.reverse_append,
    List.dropWhile_append]
  split
  · next hempty =>
    rw [List.isEmpty_iff] at hempty
    have hall : (s.takeWhile (· == c)).reverse.dropWhile (· == c) = [] := by
      rw [List.dropWhile_eq_nil_iff]
      intro d hd
      rw [hfront d (List.mem_reverse.mp hd), beq_self_eq_true]
    rw [hempty, hall]
  · rw [List.reverse_append, List.reverse_reverse, suffix_append_iff_of_forall hfront hsuffix]

/-! ### Prefixes and pieces -/

@[simp]
theorem stripPrefix_append (pattern rest : Text) :
  stripPrefix (pattern ++ rest) pattern = some rest
  := by
  simp [stripPrefix, List.dropPrefix?_eq_some_iff]

theorem eq_append_of_stripPrefix {s pattern rest : Text} (h : stripPrefix s pattern = some rest) :
  s = pattern ++ rest
  := by
  obtain ⟨front, rfl, hfront⟩ := List.dropPrefix?_eq_some_iff.mp h
  rw [beq_iff_eq.mp hfront]

theorem mem_of_stripPrefix {s pattern rest : Text} {c : Char} (h : stripPrefix s pattern = some rest)
    (hc : c ∈ rest) :
  c ∈ s
  := by
  rw [eq_append_of_stripPrefix h]
  exact List.mem_append_right pattern hc

/-- A prefix is stripped exactly from the texts that start with it. -/
theorem stripPrefix_eq_none_iff {s pattern : Text} :
  stripPrefix s pattern = none ↔ ¬ pattern <+: s
  := by
  constructor
  · rintro h ⟨rest, rfl⟩
    simp at h
  · intro h
    rw [Option.eq_none_iff_forall_ne_some]
    intro rest hrest
    rw [eq_append_of_stripPrefix hrest] at h
    exact h (List.prefix_append pattern rest)

/-- A text splits at the first copy of a character. -/
@[simp]
theorem splitOnce_append {head : Text} {c : Char} (h : c ∉ head) (rest : Text) :
  splitOnce (head ++ c :: rest) c = some (head, rest)
  := by
  have hne : ∀ d ∈ head, (d != c) = true := by
    intro d hd
    simp only [bne_iff_ne]
    rintro rfl
    exact h hd
  rw [splitOnce, List.dropWhile_append_of_pos hne, List.takeWhile_append_of_pos hne]
  simp

theorem splitOnce_none {s : Text} {c : Char} (h : c ∉ s) :
  splitOnce s c = none
  := by
  have hdrop : s.dropWhile (· != c) = [] := by
    rw [List.dropWhile_eq_nil_iff]
    intro d hd
    rw [bne_iff_ne]
    rintro rfl
    exact h hd
  rw [splitOnce, hdrop]

/-- A text splits at the first copy of a character, if there is one. -/
theorem splitOnce_cases (s : Text) (c : Char) :
  (c ∉ s ∧ splitOnce s c = none)
    ∨ ∃ head rest, c ∉ head ∧ s = head ++ c :: rest ∧ splitOnce s c = some (head, rest)
  := by
  by_cases hc : c ∈ s
  · obtain ⟨head, rest, hs, hhead⟩ := List.eq_append_cons_of_mem hc
    right
    use head, rest, hhead, hs
    rw [hs, splitOnce_append hhead]
  · left
    exact ⟨hc, splitOnce_none hc⟩

/-- A text that goes on after the character is split within its beginning or after it. -/
theorem exists_splitOnce_append (s : Text) (c : Char) (tail : Text) :
  ∃ rest, splitOnce (s ++ c :: tail) c = some (s.takeWhile (· != c), rest)
  := by
  have hmem : c ∉ s.takeWhile (· != c) := by
    intro hc
    have := List.mem_takeWhile_imp hc
    simp at this
  have hs := List.takeWhile_append_dropWhile (p := (· != c)) (l := s)
  cases hdrop : s.dropWhile (· != c) with
  | nil =>
    rw [hdrop, List.append_nil] at hs
    use tail
    rw [hs, splitOnce_append (hs ▸ hmem)]
  | cons d rest =>
    obtain rfl : d = c := by
      have := List.head_dropWhile_not (· != c) (l := s) (by simp [hdrop])
      simpa [hdrop] using this
    use rest ++ d :: tail
    rw [hdrop] at hs
    nth_rewrite 1 [← hs]
    rw [List.append_assoc, List.cons_append, splitOnce_append hmem]

theorem rsplitOnce_none {s : Text} {c : Char} (h : c ∉ s) :
  rsplitOnce s c = none
  := by
  rw [rsplitOnce, splitOnce_none fun hc => h (List.mem_reverse.mp hc)]
  rfl

theorem rsplitOnce_append {head tail : Text} {c : Char} (h : c ∉ tail) :
  rsplitOnce (head ++ c :: tail) c = some (head, tail)
  := by
  have hreverse : (head ++ c :: tail).reverse = tail.reverse ++ c :: head.reverse := by
    rw [List.reverse_append, List.reverse_cons, List.append_assoc]
    rfl
  have hmem : c ∉ tail.reverse := fun hc => h (List.mem_reverse.mp hc)
  rw [rsplitOnce, hreverse, splitOnce_append hmem]
  simp

/-- A text splits at the last copy of a character, if there is one. -/
theorem rsplitOnce_cases (s : Text) (c : Char) :
  (c ∉ s ∧ rsplitOnce s c = none)
    ∨ ∃ head tail, c ∉ tail ∧ s = head ++ c :: tail ∧ rsplitOnce s c = some (head, tail)
  := by
  rcases splitOnce_cases s.reverse c with ⟨hc, -⟩ | ⟨tail, head, htail, hs, -⟩
  · have hc' : c ∉ s := fun h => hc (List.mem_reverse.mpr h)
    left
    exact ⟨hc', rsplitOnce_none hc'⟩
  · have hs' : s = head.reverse ++ c :: tail.reverse := by
      rw [← List.reverse_reverse s, hs]
      simp
    have htail' : c ∉ tail.reverse := fun h => htail (List.mem_reverse.mp h)
    right
    use head.reverse, tail.reverse, htail', hs'
    rw [hs', rsplitOnce_append htail']

theorem mem_of_mem_rsplitOnce {s head tail : Text} {c d : Char}
    (h : rsplitOnce s c = some (head, tail)) (hd : d ∈ head) :
  d ∈ s
  := by
  rcases rsplitOnce_cases s c with ⟨-, hnone⟩ | ⟨head', tail', -, hs, hsome⟩
  · rw [hnone] at h
    cases h
  · rw [hsome] at h
    cases h
    rw [hs]
    exact List.mem_append_left _ hd

/-- A text splits at the first copy of a pattern. -/
theorem splitOnceText_append {head pattern : Text} {c : Char} (h : c ∉ head) (rest : Text) :
  splitOnceText (c :: pattern) (head ++ (c :: pattern ++ rest)) = some (head, rest)
  := by
  induction head with
  | nil =>
    have hdrop : (c :: (pattern ++ rest)).dropPrefix? (c :: pattern) = some rest :=
      stripPrefix_append (c :: pattern) rest
    rw [List.nil_append, List.cons_append, splitOnceText, hdrop]
  | cons d head ih =>
    rw [List.mem_cons, not_or] at h
    obtain ⟨hd, hhead⟩ := h
    have hdrop : (d :: (head ++ (c :: pattern ++ rest))).dropPrefix? (c :: pattern) = none := by
      apply stripPrefix_eq_none_iff.mpr
      simp [hd]
    rw [List.cons_append, splitOnceText, hdrop, ih hhead]
    rfl

theorem splitOnceP_append {head : Text} {p : Char → Bool} {c : Char}
    (h : ∀ d ∈ head, p d = false) (hc : p c = true) (rest : Text) :
  splitOnceP (head ++ c :: rest) p = some (head, rest)
  := by
  have hnot : ∀ d ∈ head, (!p d) = true := by
    intro d hd
    rw [h d hd]
    rfl
  rw [splitOnceP, List.dropWhile_append_of_pos hnot, List.takeWhile_append_of_pos hnot]
  simp [hc]

/-! ### Lines -/

@[simp]
theorem lines_nil :
  lines [] = []
  := rfl

theorem stripCarriageReturn_of_last {s : Text} (h : s.getLast? ≠ some '\r') :
  stripCarriageReturn s = s
  := by
  rw [stripCarriageReturn]
  cases hdrop : s.dropSuffix? ['\r'] with
  | none => rfl
  | some rest =>
    obtain ⟨suffix, rfl, hsuffix⟩ := List.dropSuffix?_eq_some_iff.mp hdrop
    rw [beq_iff_eq] at hsuffix
    rw [hsuffix] at h
    simp at h

theorem stripCarriageReturn_of_not_mem {s : Text} (h : '\r' ∉ s) :
  stripCarriageReturn s = s
  := by
  apply stripCarriageReturn_of_last
  intro hlast
  apply h (List.mem_of_getLast? hlast)

theorem lines_of_not_mem {s : Text} (hne : s ≠ []) (h : '\n' ∉ s) :
  lines s = [s]
  := by
  rw [lines, List.splitOn_eq_singleton h]
  simp [hne]

/-- The pieces are without the separator, and their characters are characters of the text. -/
theorem of_mem_splitOn {s piece : Text} {c : Char} (h : piece ∈ s.splitOn c) :
  c ∉ piece ∧ piece ⊆ s
  := by
  -- the text is split at its first separator
  induction hlength : s.length using Nat.strong_induction_on generalizing s with
  | _ n ih =>
  rcases splitOnce_cases s c with ⟨hmem, -⟩ | ⟨head, rest, hhead, rfl, -⟩
  · rw [List.splitOn_eq_singleton hmem, List.mem_singleton] at h
    rw [h]
    exact ⟨hmem, List.Subset.refl s⟩
  · rw [List.splitOn_append_cons_self_of_not_mem hhead] at h
    rcases List.mem_cons.mp h with rfl | hrest
    · exact ⟨hhead, List.subset_append_left _ _⟩
    · rw [List.length_append, List.length_cons] at hlength
      obtain ⟨hpiece, hsub⟩ := ih rest.length (by omega) hrest rfl
      exact ⟨hpiece, fun d hd => List.mem_append_right _ (List.mem_cons_of_mem _ (hsub hd))⟩

theorem mem_of_mem_splitOn {s piece : Text} {c d : Char} (h : piece ∈ s.splitOn c) (hd : d ∈ piece) :
  d ∈ s
  := (of_mem_splitOn h).2 hd

theorem mem_of_mem_rsplit {s piece : Text} {c d : Char} (h : piece ∈ rsplit s c) (hd : d ∈ piece) :
  d ∈ s
  := mem_of_mem_splitOn (List.mem_reverse.mp h) hd

theorem not_mem_of_mem_splitOn {s piece : Text} {c : Char} (h : piece ∈ s.splitOn c) :
  c ∉ piece
  := (of_mem_splitOn h).1

theorem stripCarriageReturn_sublist (s : Text) :
  (stripCarriageReturn s).Sublist s
  := by
  rw [stripCarriageReturn]
  cases hdrop : s.dropSuffix? ['\r'] with
  | none => exact .refl s
  | some rest =>
    obtain ⟨suffix, rfl, -⟩ := List.dropSuffix?_eq_some_iff.mp hdrop
    exact List.sublist_append_left rest suffix

/-- A line has no line feed in it. -/
theorem not_mem_of_mem_lines {s line : Text} (h : line ∈ lines s) :
  '\n' ∉ line
  := by
  rw [lines, List.mem_append, List.mem_map, Option.mem_toList] at h
  rcases h with ⟨piece, hpiece, rfl⟩ | hlast
  · intro hfeed
    apply not_mem_of_mem_splitOn (List.dropLast_subset _ hpiece)
      ((stripCarriageReturn_sublist piece).mem hfeed)
  · apply not_mem_of_mem_splitOn (List.mem_of_getLast? (Option.filter_eq_some_iff.mp hlast).1)

/-- The lines up to a line feed and those after it. -/
theorem lines_append_feed (s rest : Text) :
  lines (s ++ '\n' :: rest) = (s.splitOn '\n').map stripCarriageReturn ++ lines rest
  := by
  have hsplit : (s ++ '\n' :: rest).splitOn '\n' = s.splitOn '\n' ++ rest.splitOn '\n' :=
    List.splitOnP_append_cons _ _ rfl
  have hne := List.splitOn_ne_nil '\n' rest
  rw [lines, lines, hsplit, List.dropLast_append_of_ne_nil hne, List.getLast?_append_of_ne_nil _ hne,
    List.map_append, List.append_assoc]

/-- A line and what comes after its line feed. -/
theorem lines_append {line : Text} (hfeed : '\n' ∉ line) (hreturn : '\r' ∉ line) (rest : Text) :
  lines (line ++ '\n' :: rest) = line :: lines rest
  := by
  have hne : ∀ c ∈ line, (c == '\n') = false := by
    intro c hc
    rw [beq_eq_false_iff_ne]
    rintro rfl
    exact hfeed hc
  have hsplit : (line ++ '\n' :: rest).splitOn '\n' = line :: rest.splitOn '\n' :=
    List.splitOnP_append_cons_of_forall_mem hne _ rfl _
  obtain ⟨piece, pieces, hpieces⟩ := List.exists_cons_of_ne_nil (List.splitOn_ne_nil '\n' rest)
  rw [lines, lines, hsplit, hpieces]
  simp [stripCarriageReturn_of_not_mem hreturn]

/-- The pieces of a text that ends in the middle of a line are its lines. -/
theorem map_splitOn_eq_lines {s : Text} (hne : s ≠ []) (hfeed : s.getLast? ≠ some '\n')
    (hreturn : s.getLast? ≠ some '\r') :
  (s.splitOn '\n').map stripCarriageReturn = lines s
  := by
  rcases rsplitOnce_cases s '\n' with ⟨hmem, -⟩ | ⟨head, tail, htail, rfl, -⟩
  · rw [lines_of_not_mem hne hmem, List.splitOn_eq_singleton hmem, List.map_singleton,
      stripCarriageReturn_of_last hreturn]
  · have htailNe : tail ≠ [] := by
      rintro rfl
      simp at hfeed
    have hlast : (head ++ '\n' :: tail).getLast? = tail.getLast? := by
      rw [List.append_cons, List.getLast?_append_of_ne_nil _ htailNe]
    have hsplit : (head ++ '\n' :: tail).splitOn '\n' = head.splitOn '\n' ++ [tail] := by
      rw [← List.splitOn_eq_singleton htail]
      exact List.splitOnP_append_cons _ _ rfl
    rw [hlast] at hreturn
    rw [lines_append_feed, lines_of_not_mem htailNe htail, hsplit, List.map_append,
      List.map_singleton, stripCarriageReturn_of_last hreturn]

/-- Texts that end in the middle of a line have their lines one after the other when they are joined
by line feeds. -/
theorem lines_join {pieces : List Text}
    (h : ∀ p ∈ pieces, p ≠ [] ∧ p.getLast? ≠ some '\n' ∧ p.getLast? ≠ some '\r') :
  lines (join pieces ['\n']) = pieces.flatMap lines
  := by
  induction pieces with
  | nil => rfl
  | cons p pieces ih =>
    rw [List.forall_mem_cons] at h
    obtain ⟨⟨hne, hfeed, hreturn⟩, hrest⟩ := h
    cases pieces with
    | nil => simp [join]
    | cons q pieces =>
      have hjoin : join (p :: q :: pieces) ['\n'] = p ++ '\n' :: join (q :: pieces) ['\n'] := by
        rw [join, List.intercalate_cons_cons, List.append_assoc]
        rfl
      rw [hjoin, lines_append_feed, map_splitOn_eq_lines hne hfeed hreturn, ih hrest]
      exact List.flatMap_cons.symm

@[simp]
theorem readLine_append {line : Text} (hfeed : '\n' ∉ line) (rest : Text) :
  readLine (line ++ '\n' :: rest) = line ++ ['\n']
  := by
  have hne : ∀ c ∈ line, decide (c ≠ '\n') = true := by
    intro c hc
    rw [decide_eq_true_eq]
    rintro rfl
    exact hfeed hc
  rw [readLine, List.dropWhile_append_of_pos hne, List.takeWhile_append_of_pos hne]
  simp

/-! ### Copies at the end -/

theorem stripSuffixes_of_not_suffix {s suffix : Text} (h : ¬ suffix <:+ s) (fuel : ℕ) :
  stripSuffixes suffix fuel s = s
  := by
  cases fuel with
  | zero => rfl
  | succ fuel =>
    rw [stripSuffixes]
    split
    · next rest hrest =>
      obtain ⟨back, rfl, hback⟩ := List.dropSuffix?_eq_some_iff.mp hrest
      rw [beq_iff_eq.mp hback] at h
      exact absurd (List.suffix_append rest suffix) h
    · rfl

theorem stripSuffixes_sublist (suffix : Text) (fuel : ℕ) (s : Text) :
  (stripSuffixes suffix fuel s).Sublist s
  := by
  induction fuel generalizing s with
  | zero => exact List.Sublist.refl s
  | succ fuel ih =>
    rw [stripSuffixes]
    split
    · next rest hrest =>
      obtain ⟨back, rfl, -⟩ := List.dropSuffix?_eq_some_iff.mp hrest
      exact (ih rest).trans (List.sublist_append_left rest back)
    · exact List.Sublist.refl s

theorem trimEndMatches_sublist (s suffix : Text) :
  (trimEndMatches s suffix).Sublist s
  := stripSuffixes_sublist suffix s.length s

/-- A text without a copy of the pattern at its end stays as it is. -/
theorem trimEndMatches_of_not_suffix {s suffix : Text} (h : ¬ suffix <:+ s) :
  trimEndMatches s suffix = s
  := stripSuffixes_of_not_suffix h s.length

/-- Something is taken from a text with a copy of the pattern at its end. -/
theorem length_trimEndMatches_lt {s suffix : Text} (hne : suffix ≠ []) (h : suffix <:+ s) :
  (trimEndMatches s suffix).length < s.length
  := by
  obtain ⟨front, rfl⟩ := h
  have hpos : 0 < suffix.length := List.length_pos_iff.mpr hne
  obtain ⟨fuel, hfuel⟩ : ∃ fuel, (front ++ suffix).length = fuel + 1 := by
    apply Nat.exists_eq_add_one_of_ne_zero
    rw [List.length_append]
    omega
  have hdrop : (front ++ suffix).dropSuffix? suffix = some front :=
    List.dropSuffix?_eq_some_iff.mpr ⟨suffix, rfl, beq_self_eq_true suffix⟩
  have hle := (stripSuffixes_sublist suffix fuel front).length_le
  rw [trimEndMatches, hfuel, stripSuffixes, hdrop]
  rw [List.length_append] at hfuel
  dsimp only
  omega

/-! ### Lengths in bytes -/

@[simp]
theorem len_append (s t : Text) :
  len (s ++ t) = len s + len t
  := by
  rw [len, List.map_append, List.sum_append]
  rfl

theorem eq_nil_of_len {s : Text} (h : len s = 0) :
  s = []
  := by
  cases s with
  | nil => rfl
  | cons c s =>
    have hpos := Char.utf8Size_pos c
    rw [len, List.map_cons, List.sum_cons] at h
    omega

/-- Of two ends of a text, the one with fewer bytes is an end of the other. -/
theorem suffix_of_len_le {s t text : Text} (hs : s <:+ text) (ht : t <:+ text)
    (h : len s ≤ len t) :
  s <:+ t
  := by
  rcases List.suffix_or_suffix_of_suffix hs ht with hst | ⟨front, rfl⟩
  · apply hst
  · rw [len_append] at h
    have hfront : front = [] := eq_nil_of_len (by omega)
    rw [hfront]
    apply List.suffix_rfl

end Text
