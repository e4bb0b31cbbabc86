import AdBlock.Rust.Text

/-!
# ASCII letters

The letters and digits of ASCII by their numbers, and lower case.
-/

namespace Ascii

theorem toNat_toLower (c : Char) :
  c.toLower.toNat = if 65 ≤ c.toNat ∧ c.toNat ≤ 90 then c.toNat + 32 else c.toNat
  := by
  have hupper : (c.val ≥ 'A'.val ∧ c.val ≤ 'Z'.val) ↔ 65 ≤ c.toNat ∧ c.toNat ≤ 90 := by
    rw [ge_iff_le, UInt32.le_iff_toNat_le, UInt32.le_iff_toNat_le]
    rfl
  delta Char.toLower
  split
  · next h =>
    rw [if_pos (hupper.mp h)]
    have := (hupper.mp h).2
    change (c.val + ('a'.val - 'A'.val)).toNat = c.toNat + 32
    rw [UInt32.toNat_add]
    change (c.toNat + 32) % 2 ^ 32 = c.toNat + 32
    omega
  · next h => rw [if_neg (hupper.not.mp h)]

theorem isAlphanum_iff (c : Char) :
  c.isAlphanum = true ↔ 65 ≤ c.toNat ∧ c.toNat ≤ 90 ∨ 97 ≤ c.toNat ∧ c.toNat ≤ 122
    ∨ 48 ≤ c.toNat ∧ c.toNat ≤ 57
  := by
  delta Char.isAlphanum Char.isAlpha Char.isUpper Char.isLower Char.isDigit
  simp only [Bool.or_eq_true, Bool.and_eq_true, decide_eq_true_eq, ge_iff_le, UInt32.le_iff_toNat_le,
    or_assoc]
  rfl

/-- A character without upper case stays as it is. -/
theorem toLower_eq_self_iff {c : Char} :
  c.toLower = c ↔ ¬ (65 ≤ c.toNat ∧ c.toNat ≤ 90)
  := by
  rw [← Char.toNat_inj, toNat_toLower]
  split
  · omega
  · next h => exact iff_of_true rfl h

@[simp]
theorem toLower_toLower (c : Char) :
  c.toLower.toLower = c.toLower
  := by
  rw [toLower_eq_self_iff, toNat_toLower]
  split <;> omega

end Ascii

namespace Text

/-- A text has no upper case letter of ASCII. -/
def IsLower (s : Text) : Prop :=
  ∀ c ∈ s, c.toLower = c

instance (s : Text) : Decidable (IsLower s) :=
  inferInstanceAs (Decidable (∀ c ∈ s, _))

theorem toAsciiLowercase_eq_self_iff {s : Text} :
  toAsciiLowercase s = s ↔ IsLower s
  := by
  rw [toAsciiLowercase]
  induction s with
  | nil => exact iff_of_true rfl fun c hc => absurd hc List.not_mem_nil
  | cons c s ih =>
    rw [List.map_cons, List.cons_eq_cons, ih, IsLower, IsLower, List.forall_mem_cons]

theorem isLower_toAsciiLowercase (s : Text) :
  IsLower (toAsciiLowercase s)
  := by
  intro c hc
  obtain ⟨d, -, rfl⟩ := List.mem_map.mp hc
  exact Ascii.toLower_toLower d

end Text

namespace Unicode

/-- No character outside ASCII is lowered to an upper case letter of ASCII. -/
theorem lowerRanges_above :
  ∀ r ∈ lowerRanges, 90 < (r.first : Int) + r.offset
  := by
  decide +kernel

theorem toNat_ofNat_le (n : Nat) :
  (Char.ofNat n).toNat = n ∨ (Char.ofNat n).toNat = 0
  := by
  by_cases h : n.isValidChar
  · left
    rw [Char.ofNat, dif_pos h]
    rfl
  · right
    rw [Char.ofNat, dif_neg h]
    rfl

theorem toLower_lowerChar (c : Char) :
  ∀ d ∈ lowerChar c, d.toLower = d
  := by
  intro d hd
  unfold lowerChar at hd
  split at hd
  · rw [List.mem_singleton.mp hd]
    exact Ascii.toLower_toLower c
  · next hascii =>
    split at hd
    · rcases List.mem_pair.mp hd with rfl | rfl <;> rfl
    · split at hd
      · next r hr =>
        rw [List.mem_singleton.mp hd, Ascii.toLower_eq_self_iff]
        have habove := lowerRanges_above r (List.mem_of_find?_eq_some hr)
        have hrange := List.find?_some hr
        simp only [Bool.and_eq_true, decide_eq_true_eq] at hrange
        rcases toNat_ofNat_le (c.toNat + r.offset).toNat with h | h <;> omega
      · rw [List.mem_singleton.mp hd, Ascii.toLower_eq_self_iff]
        omega

/-- The characters of a text in lower case come from one character each, or are a sigma. -/
theorem forall_mem_toLowercaseFrom {p : Char → Prop} (hplain : p (Char.ofNat 0x3C3))
    (hfinal : p (Char.ofNat 0x3C2)) (hchar : ∀ c, ∀ d ∈ lowerChar c, p d) (before s : Text) :
  ∀ d ∈ toLowercaseFrom before s, p d
  := by
  induction s generalizing before with
  | nil => exact fun c hc => absurd hc List.not_mem_nil
  | cons c s ih =>
    intro d hd
    rw [toLowercaseFrom, List.mem_append] at hd
    rcases hd with hd | hd
    · split at hd
      · rw [List.mem_singleton.mp hd, lowerSigma]
        split
        · exact hfinal
        · exact hplain
      · exact hchar c d hd
    · exact ih _ d hd

/-- A text in lower case has no upper case letter of ASCII. -/
theorem isLower_toLowercase (s : Text) :
  Text.IsLower (toLowercase s)
  := forall_mem_toLowercaseFrom (p := fun c => c.toLower = c) rfl rfl toLower_lowerChar [] s

/-- The lower case of a text without a sigma is that of its characters. -/
theorem toLowercaseFrom_of_forall {f : Char → Char} (before : Text) {s : Text}
    (h : ∀ c ∈ s, c.toNat ≠ 0x3A3 ∧ lowerChar c = [f c]) :
  toLowercaseFrom before s = s.map f
  := by
  induction s generalizing before with
  | nil => rfl
  | cons c s ih =>
    obtain ⟨⟨hsigma, hc⟩, hs⟩ := List.forall_mem_cons.mp h
    rw [toLowercaseFrom, if_neg (by rwa [beq_iff_eq]), hc, ih _ hs]
    rfl

/-- The lower case of a text in ASCII, character by character. -/
theorem toLowercase_of_ascii {s : Text} (h : ∀ c ∈ s, c.toNat < 0x80) :
  toLowercase s = Text.toAsciiLowercase s
  := by
  apply toLowercaseFrom_of_forall []
  intro c hc
  have hlt := h c hc
  rw [lowerChar, if_pos hlt]
  exact ⟨by omega, rfl⟩

theorem isLower_of_sublist {s t : Text} (h : s.Sublist (toLowercase t)) :
  Text.IsLower s
  := fun c hc => isLower_toLowercase t c (h.mem hc)

end Unicode
