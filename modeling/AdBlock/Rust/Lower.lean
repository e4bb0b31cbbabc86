import AdBlock.Rust.Ascii

/-!
# Texts in lower case

The lower case of a character has no other lower case (`lowerChar_of_mem`).  So a text of such
characters is its own lower case, and so is every part of it.
-/

namespace Unicode

/-- The dotted capital I, which is not among the ranges. -/
def dottedRange : CaseRange :=
  ⟨0x130, 0x130, 1, 0⟩

/-- None of the code points from `first` to `last` is in a range: they are before it, after it,
or, if all have one parity, between its code points. -/
def CaseRange.avoids (first last : ℕ) (oneParity : Bool) (other : CaseRange) : Bool :=
  Nat.blt last other.first || Nat.blt other.last first
    || (Nat.beq other.step 2 && oneParity && Nat.beq ((first + other.first) % 2) 1)

/-- None of the code points that a range is lowered to is in another range. -/
def CaseRange.lowersOutside (others : List CaseRange) (r : CaseRange) : Bool :=
  others.all (CaseRange.avoids (r.first + r.offset).toNat (r.last + r.offset).toNat
    (Nat.beq r.step 2 || Nat.beq r.first r.last))

theorem lowerRanges_lowersOutside :
  lowerRanges.all (CaseRange.lowersOutside (dottedRange :: lowerRanges)) = true
  := by
  decide +kernel

theorem CaseRange.not_mem_of_avoids {first last t : ℕ} {oneParity : Bool} {other : CaseRange}
    (h : avoids first last oneParity other = true) (hfirst : first ≤ t) (hlast : t ≤ last)
    (hparity : oneParity = true → (t - first) % 2 = 0) :
  ¬ (other.first ≤ t ∧ t ≤ other.last ∧ (t - other.first) % other.step = 0)
  := by
  rintro ⟨hother_first, hother_last, hstep⟩
  simp only [avoids, Nat.blt_eq, Nat.beq_eq, Bool.or_eq_true, Bool.and_eq_true] at h
  rcases h with (h | h) | ⟨⟨htwo, hone⟩, hodd⟩
  · omega
  · omega
  · rw [htwo] at hstep
    have heven := hparity hone
    omega

/-- A code point that a character is lowered to is in no range. -/
theorem not_mem_range_of_lowered {r other : CaseRange} (hr : r ∈ lowerRanges)
    (hother : other ∈ dottedRange :: lowerRanges) {n : ℕ} (hfirst : r.first ≤ n)
    (hlast : n ≤ r.last) (hstep : (n - r.first) % r.step = 0) :
  ¬ (other.first ≤ ((n : ℤ) + r.offset).toNat ∧ ((n : ℤ) + r.offset).toNat ≤ other.last
    ∧ (((n : ℤ) + r.offset).toNat - other.first) % other.step = 0)
  := by
  have habove := lowerRanges_above r hr
  have hcheck := List.all_eq_true.mp (List.all_eq_true.mp lowerRanges_lowersOutside r hr) other hother
  apply CaseRange.not_mem_of_avoids hcheck
  · omega
  · omega
  · intro hparity
    simp only [Nat.beq_eq, Bool.or_eq_true] at hparity
    rcases hparity with htwo | hsingle
    · rw [htwo] at hstep
      omega
    · omega

theorem lowerChar_of_ascii {c : Char} (h : c.toNat < 0x80) (hlower : c.toLower = c) :
  lowerChar c = [c]
  := by
  rw [lowerChar, if_pos h, hlower]

theorem lowerChar_of_outside {c : Char} (h : ¬ c.toNat < 0x80)
    (houtside : ∀ r ∈ dottedRange :: lowerRanges,
      ¬ (r.first ≤ c.toNat ∧ c.toNat ≤ r.last ∧ (c.toNat - r.first) % r.step = 0)) :
  lowerChar c = [c]
  := by
  have hdotted : ¬ (c.toNat == 0x130) = true := by
    intro heq
    apply houtside dottedRange List.mem_cons_self
    rw [beq_iff_eq.mp heq]
    decide
  have hfind : (lowerRanges.find? fun r =>
      r.first ≤ c.toNat && c.toNat ≤ r.last && (c.toNat - r.first) % r.step == 0) = none := by
    rw [List.find?_eq_none]
    intro r hr hrange
    apply houtside r (List.mem_cons_of_mem _ hr)
    simpa only [Bool.and_eq_true, decide_eq_true_eq, beq_iff_eq, and_assoc] using hrange
  rw [lowerChar, if_neg h, if_neg hdotted, hfind]

/-- The lower case of a character has no other lower case. -/
theorem lowerChar_of_mem {c d : Char} (h : d ∈ lowerChar c) :
  lowerChar d = [d]
  := by
  have hlower := toLower_lowerChar c d h
  by_cases hascii : d.toNat < 0x80
  · exact lowerChar_of_ascii hascii hlower
  · unfold lowerChar at h
    split at h
    · next hc =>
      rw [List.mem_singleton.mp h, Ascii.toNat_toLower] at hascii
      split at hascii <;> omega
    · next hc =>
      split at h
      · rcases List.mem_pair.mp h with rfl | rfl <;> decide +kernel
      · next hdotted =>
        split at h
        · next r hfind =>
          have hr := List.mem_of_find?_eq_some hfind
          have hrange := List.find?_some hfind
          simp only [Bool.and_eq_true, decide_eq_true_eq, beq_iff_eq] at hrange
          obtain ⟨⟨hfirst, hlast⟩, hstep⟩ := hrange
          rw [List.mem_singleton.mp h] at hascii ⊢
          have hnat : (Char.ofNat (c.toNat + r.offset).toNat).toNat = (c.toNat + r.offset).toNat :=
            (toNat_ofNat_le _).resolve_right (by omega)
          apply lowerChar_of_outside hascii
          intro other hother
          rw [hnat]
          exact not_mem_range_of_lowered hr hother hfirst hlast hstep
        · next hfind =>
          rw [List.mem_singleton.mp h, lowerChar, if_neg hc, if_neg hdotted, hfind]

/-- Every character of the text is its own lower case. -/
def Lowered (s : Text) : Prop :=
  ∀ c ∈ s, lowerChar c = [c]

theorem lowered_toLowercase (s : Text) :
  Lowered (toLowercase s)
  := by
  apply forall_mem_toLowercaseFrom (p := fun c => lowerChar c = [c])
  · decide +kernel
  · decide +kernel
  · exact fun c d hd => lowerChar_of_mem hd

/-- A text of such characters is its own lower case. -/
theorem toLowercase_of_lowered {s : Text} (h : Lowered s) :
  toLowercase s = s
  := by
  have hself : ∀ c ∈ s, c.toNat ≠ 0x3A3 ∧ lowerChar c = [id c] := by
    intro c hc
    constructor
    · intro heq
      obtain rfl : c = Char.ofNat 0x3A3 := Char.toNat_inj.mp heq
      exact absurd (h _ hc) (by decide +kernel)
    · exact h c hc
  rw [toLowercase, toLowercaseFrom_of_forall [] hself, List.map_id]

theorem lowered_of_sublist {s t : Text} (h : s.Sublist (toLowercase t)) :
  Lowered s
  := fun c hc => lowered_toLowercase t c (h.mem hc)

/-- What is left of a text of such characters without the whitespace around it, in lower case, is
left of the text. -/
theorem Lowered.sublist {s t : Text} (ht : Lowered t)
    (h : s.Sublist (toLowercase (Text.trim t))) :
  s.Sublist t
  := by
  have htrim : Lowered (Text.trim t) := fun c hc => ht c (Text.mem_of_mem_trim hc)
  rw [toLowercase_of_lowered htrim] at h
  exact h.trans (Text.trim_sublist t)

end Unicode
