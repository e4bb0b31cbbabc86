import AdBlock.Rust.Search

/-!
# Texts that open no tag

Where there is a space behind every `<` of a text, no tag is opened or closed in it
(`not_occurs_of_lessSpaced`).  This is so of most programs that compare numbers.  It is kept when
something without a `<` is put in place of a placeholder (`lessSpaced_replace`).
-/

namespace Text

/-- There is a space behind every `<`. -/
def lessSpaced : Text → Bool
  | [] => true
  | c :: s => (c ≠ '<' || s.head? = some ' ') && lessSpaced s

variable {s t pattern replacement : Text}

theorem lessSpaced_cons_iff {c : Char} :
  lessSpaced (c :: s) = true ↔ (c = '<' → s.head? = some ' ') ∧ lessSpaced s = true
  := by
  simp only [lessSpaced, Bool.and_eq_true, Bool.or_eq_true, decide_eq_true_eq, or_iff_not_imp_left,
    not_not]

theorem lessSpaced_of_not_mem (h : '<' ∉ s) :
  lessSpaced s = true
  := by
  induction s with
  | nil => rfl
  | cons c s ih =>
    obtain ⟨hc, hs⟩ := not_or.mp (List.mem_cons.not.mp h)
    rw [lessSpaced_cons_iff]
    exact ⟨fun heq => absurd heq.symm hc, ih hs⟩

theorem lessSpaced_append (hs : lessSpaced s = true) (ht : lessSpaced t = true) :
  lessSpaced (s ++ t) = true
  := by
  induction s with
  | nil => exact ht
  | cons c s ih =>
    rw [lessSpaced_cons_iff] at hs
    rw [List.cons_append, lessSpaced_cons_iff]
    refine ⟨?_, ih hs.2⟩
    intro hc
    rw [List.head?_append, hs.1 hc]
    rfl

theorem lessSpaced_of_append_right (h : lessSpaced (s ++ t) = true) :
  lessSpaced t = true
  := by
  induction s with
  | nil => exact h
  | cons c s ih => exact ih (lessSpaced_cons_iff.mp h).2

/-- A text in front of something that does not start with a space. -/
theorem lessSpaced_of_append_left (ht : t.head? ≠ some ' ') (h : lessSpaced (s ++ t) = true) :
  lessSpaced s = true
  := by
  induction s with
  | nil => rfl
  | cons c s ih =>
    rw [List.cons_append, lessSpaced_cons_iff] at h
    rw [lessSpaced_cons_iff]
    refine ⟨?_, ih h.2⟩
    intro hc
    cases s with
    | nil => exact absurd (h.1 hc) ht
    | cons d s => exact h.1 hc

theorem lessSpaced_join {pieces : List Text} {separator : Text}
    (hpieces : ∀ piece ∈ pieces, lessSpaced piece = true) (hseparator : lessSpaced separator = true) :
  lessSpaced (join pieces separator) = true
  := by
  induction pieces with
  | nil => rfl
  | cons piece pieces ih =>
    rw [List.forall_mem_cons] at hpieces
    cases pieces with
    | nil =>
      rw [join, List.intercalate_singleton]
      exact hpieces.1
    | cons next pieces =>
      rw [join, List.intercalate_cons_cons]
      exact lessSpaced_append (lessSpaced_append hpieces.1 hseparator) (ih hpieces.2)

theorem lessSpaced_splitTimes (hpattern : pattern ≠ []) (hhead : pattern.head? ≠ some ' ')
    (fuel : ℕ) (h : lessSpaced s = true) :
  ∀ piece ∈ splitTimes pattern fuel s, lessSpaced piece = true
  := by
  induction fuel generalizing s with
  | zero => exact List.forall_mem_singleton.mpr h
  | succ fuel ih =>
    rw [splitTimes]
    split
    · next front rest hsplit =>
      rw [splitOnceText_eq_some hsplit] at h
      rw [List.forall_mem_cons]
      constructor
      · apply lessSpaced_of_append_left _ h
        rw [List.head?_append_of_ne_nil _ hpattern]
        exact hhead
      · apply ih (lessSpaced_of_append_right (lessSpaced_of_append_right h))
    · exact List.forall_mem_singleton.mpr h

theorem lessSpaced_replace (hpattern : pattern ≠ []) (hhead : pattern.head? ≠ some ' ')
    (h : lessSpaced s = true) (hreplacement : '<' ∉ replacement) :
  lessSpaced (replace s pattern replacement) = true
  := lessSpaced_join (lessSpaced_splitTimes hpattern hhead _ h) (lessSpaced_of_not_mem hreplacement)

/-! ### Lines -/

/-- Lines, each with a line feed behind it. -/
def unlines (lines : List String) : Text :=
  lines.flatMap fun line => line.toList ++ ['\n']

theorem lessSpaced_unlines {lines : List String} (h : ∀ line ∈ lines, lessSpaced line.toList = true) :
  lessSpaced (unlines lines) = true
  := by
  induction lines with
  | nil => rfl
  | cons line lines ih =>
    rw [List.forall_mem_cons] at h
    exact lessSpaced_append (lessSpaced_append h.1 rfl) (ih h.2)

/-- The lines of a text are checked one by one, each as the list of its characters. -/
theorem forall_lessSpaced_cons {chars : List Char} {lines : List String}
    (hchars : lessSpaced chars = true) (hlines : ∀ line ∈ lines, lessSpaced line.toList = true) :
  ∀ line ∈ String.ofList chars :: lines, lessSpaced line.toList = true
  := by
  rw [List.forall_mem_cons, String.toList_ofList]
  exact ⟨hchars, hlines⟩

/-! ### Bytes -/

/-- No letter is folded to `<`. -/
theorem toNat_of_lower_eq {b : UInt8} (h : Bytes.lower b = Bytes.lower 60) :
  b.toNat = 60
  := by
  have hnat := congrArg UInt8.toNat h
  rw [Bytes.lower] at hnat
  split at hnat
  · next hb =>
    have hlow := UInt8.le_iff_toNat_le.mp hb.1
    have hhigh := UInt8.le_iff_toNat_le.mp hb.2
    rw [UInt8.toNat_add] at hnat
    change 65 ≤ b.toNat at hlow
    change b.toNat ≤ 90 at hhigh
    change (b.toNat + 32) % 256 = 60 at hnat
    omega
  · exact hnat

/-- The byte of `<` is in no other character. -/
theorem lower_ne_of_mem_utf8EncodeChar {c : Char} (hc : c ≠ '<') :
  ∀ b ∈ String.utf8EncodeChar c, Bytes.lower b ≠ Bytes.lower 60
  := by
  have hne : c.toNat ≠ 60 := fun h => hc (Char.toNat_inj.mp h)
  have hbyte {n : ℕ} (hn : n % 256 ≠ 60) : Bytes.lower (UInt8.ofNat n) ≠ Bytes.lower 60 := by
    intro h
    have := toNat_of_lower_eq h
    rw [UInt8.toNat_ofNat'] at this
    exact hn this
  simp only [String.utf8EncodeChar, ← Char.toNat.eq_1]
  split_ifs
  all_goals
    simp only [List.forall_mem_cons, List.not_mem_nil, false_implies, implies_true, and_true]
  · exact hbyte (by omega)
  · exact ⟨hbyte (by omega), hbyte (by omega)⟩
  · exact ⟨hbyte (by omega), hbyte (by omega), hbyte (by omega)⟩
  · exact ⟨hbyte (by omega), hbyte (by omega), hbyte (by omega), hbyte (by omega)⟩

/-- Nothing that starts with a `<` and has no space in it is found where all `<` have a space behind
them. -/
theorem not_occurs_of_lessSpaced {rest : Bytes} (hrest : rest ≠ [])
    (hspace : Bytes.lower 32 ∉ (60 :: rest).map Bytes.lower) (h : lessSpaced s = true) :
  ¬ Bytes.Occurs (asBytes s) (60 :: rest)
  := by
  have hshort : ¬ Bytes.Occurs [60] (60 :: rest) := by
    rintro ⟨i, hi⟩
    have hle := hi.add_length_le (List.cons_ne_nil _ _)
    have hpos := List.length_pos_of_ne_nil hrest
    simp only [List.length_cons, List.length_nil] at hle
    omega
  induction s with
  | nil => exact Bytes.not_occurs_nil (List.cons_ne_nil _ _)
  | cons c s ih =>
    rw [lessSpaced_cons_iff] at h
    have hcons : asBytes (c :: s) = String.utf8EncodeChar c ++ asBytes s := List.flatMap_cons
    by_cases hc : c = '<'
    · obtain ⟨s, rfl⟩ := List.head?_eq_some_iff.mp (h.1 hc)
      have htail : asBytes (' ' :: s) = 32 :: asBytes s := rfl
      have hspaced := ih h.2
      rw [htail, ← List.nil_append (32 :: asBytes s),
        Bytes.occurs_append_cons_iff (List.cons_ne_nil _ _) hspace, not_or] at hspaced
      have hless : String.utf8EncodeChar '<' = [60] := rfl
      rw [hcons, hc, hless, htail, Bytes.occurs_append_cons_iff (List.cons_ne_nil _ _) hspace, not_or]
      exact ⟨hshort, hspaced.2⟩
    · rw [hcons, Bytes.occurs_append_of_forall (lower_ne_of_mem_utf8EncodeChar hc)]
      exact ih h.2

end Text
