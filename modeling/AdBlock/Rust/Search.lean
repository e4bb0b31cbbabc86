import AdBlock.Rust.Slice

/-!
# Searching byte strings

A search without regard to case gives the first place with the bytes (`IsFirst`, `MatchAt`).  A match
that starts in a byte string and runs over its end holds the byte that follows, so that there is none
if the pattern does not have this byte behind its first (`matchAt_append_iff`).  This tells when a
pattern that is written behind some bytes is the first one there (`isFirst_close_iff`).
-/

/-- `i` is the first number from `start` on with a property. -/
structure IsFirst (p : ℕ → Prop) (start i : ℕ) : Prop where
  le : start ≤ i
  holds : p i
  first : ∀ j, start ≤ j → j < i → ¬ p j

namespace IsFirst

variable {p q : ℕ → Prop} {start start' i j : ℕ}

theorem unique (hi : IsFirst p start i) (hj : IsFirst p start j) :
  i = j
  := by
  rcases Nat.lt_trichotomy i j with hlt | heq | hlt
  · exact absurd hi.holds (hj.first i hi.le hlt)
  · exact heq
  · exact absurd hj.holds (hi.first j hj.le hlt)

/-- If there is a number with the property, there is a first one. -/
theorem exists_of_exists (h : ∃ j, start ≤ j ∧ p j) :
  ∃ i, IsFirst p start i
  := by
  classical
  refine ⟨Nat.find h, (Nat.find_spec h).1, (Nat.find_spec h).2, ?_⟩
  intro j hle hlt hj
  apply Nat.find_min h hlt ⟨hle, hj⟩

/-- The first number from `start` on is also the first one from any number between. -/
theorem mono (h : IsFirst p start i) (hle : start ≤ start') (hi : start' ≤ i) :
  IsFirst p start' i
  where
  le := hi
  holds := h.holds
  first j hj hlt := h.first j (hle.trans hj) hlt

end IsFirst

namespace Bytes

/-- The bytes of the needle are at a place, in any case. -/
def MatchAt (haystack needle : Bytes) (i : ℕ) : Prop :=
  eqIgnoreAsciiCase ((haystack.drop i).take needle.length) needle = true

instance (haystack needle : Bytes) : DecidablePred (MatchAt haystack needle) :=
  fun _ => inferInstanceAs (Decidable (_ = true))

variable {haystack needle : Bytes} {i : ℕ}

theorem matchAt_iff :
  MatchAt haystack needle i
    ↔ ((haystack.drop i).take needle.length).map lower = needle.map lower
  := by
  rw [MatchAt, eqIgnoreAsciiCase, decide_eq_true_eq]

/-- The needle is at a place if each of its bytes is where it belongs. -/
theorem matchAt_iff_getElem? :
  MatchAt haystack needle i
    ↔ ∀ k, k < needle.length → (haystack[i + k]?).map lower = (needle[k]?).map lower
  := by
  rw [matchAt_iff]
  constructor
  · intro h k hk
    have hget := congrArg (·[k]?) h
    simpa [List.getElem?_take, hk] using hget
  · intro h
    apply List.ext_getElem?
    intro k
    by_cases hk : k < needle.length
    · simpa [List.getElem?_take, hk] using h k hk
    · simp [hk]

theorem MatchAt.add_length_le (h : MatchAt haystack needle i) (hne : needle ≠ []) :
  i + needle.length ≤ haystack.length
  := by
  have hlength := congrArg List.length (matchAt_iff.mp h)
  have hpos := List.length_pos_of_ne_nil hne
  simp only [List.length_map, List.length_take, List.length_drop] at hlength
  omega

/-- What is before a place does not matter. -/
theorem matchAt_append_left (before : Bytes) :
  MatchAt (before ++ haystack) needle (before.length + i) ↔ MatchAt haystack needle i
  := by
  rw [MatchAt, MatchAt, List.drop_length_add_append]

/-- A match that starts before a byte that the needle does not have behind its first ends before
it. -/
theorem matchAt_append_iff {b : UInt8} {rest : Bytes} (hb : lower b ∉ needle.tail.map lower)
    (hi : i < haystack.length) :
  MatchAt (haystack ++ b :: rest) needle i ↔ MatchAt haystack needle i
  := by
  by_cases hfits : i + needle.length ≤ haystack.length
  · rw [MatchAt, MatchAt, List.drop_append_of_le_length hi.le, List.take_append_of_le_length]
    rw [List.length_drop]
    omega
  · apply iff_of_false
    · intro h
      -- the byte is in the window, and not at its start
      obtain ⟨k, hk⟩ : ∃ k, haystack.length = i + (k + 1) := ⟨haystack.length - i - 1, by omega⟩
      have hget := matchAt_iff_getElem?.mp h (k + 1) (by omega)
      rw [← hk, List.getElem?_append_right le_rfl, Nat.sub_self, List.getElem?_cons_zero,
        Option.map_some] at hget
      apply hb
      apply List.mem_of_getElem? (i := k)
      rw [List.getElem?_map, List.getElem?_tail, ← hget]
    · intro h
      apply hfits
      apply h.add_length_le
      rintro rfl
      apply hfits
      simpa using hi.le

/-- A match starts with the first byte of the needle. -/
theorem MatchAt.head {a : UInt8} {rest : Bytes} (h : MatchAt haystack (a :: rest) i) :
  ∃ b, haystack[i]? = some b ∧ lower b = lower a
  := by
  have hget := matchAt_iff_getElem?.mp h 0 (Nat.zero_lt_succ _)
  simpa using hget

/-- No match starts where the first byte of the needle is not. -/
theorem not_matchAt_of_forall {a : UInt8} {rest before : Bytes}
    (h : ∀ c ∈ before, lower c ≠ lower a) (hi : i < before.length) :
  ¬ MatchAt (before ++ haystack) (a :: rest) i
  := by
  intro hmatch
  obtain ⟨b, hb, hlower⟩ := hmatch.head
  rw [List.getElem?_append_left hi] at hb
  apply h b (List.mem_of_getElem? hb) hlower

/-- The bytes of the needle are somewhere, in any case. -/
def Occurs (haystack needle : Bytes) : Prop :=
  ∃ i, MatchAt haystack needle i

/-- Behind the end of a byte string there is nothing new to find. -/
theorem occurs_iff_le_length :
  Occurs haystack needle ↔ ∃ i ≤ haystack.length, MatchAt haystack needle i
  := by
  constructor
  · rintro ⟨i, hi⟩
    rcases Nat.le_total i haystack.length with hle | hge
    · exact ⟨i, hle, hi⟩
    · refine ⟨haystack.length, le_rfl, ?_⟩
      rw [MatchAt, List.drop_length]
      rw [MatchAt, List.drop_of_length_le hge] at hi
      exact hi
  · rintro ⟨i, -, hi⟩
    exact ⟨i, hi⟩

instance (haystack needle : Bytes) : Decidable (Occurs haystack needle) :=
  decidable_of_iff' _ occurs_iff_le_length

theorem not_occurs_nil (hne : needle ≠ []) :
  ¬ Occurs [] needle
  := by
  rintro ⟨i, hi⟩
  have hle := hi.add_length_le hne
  have hpos := List.length_pos_of_ne_nil hne
  rw [List.length_nil] at hle
  omega

/-- A needle does not run over a byte that it does not have. -/
theorem occurs_append_cons_iff {x y : Bytes} {b : UInt8} (hne : needle ≠ [])
    (hb : lower b ∉ needle.map lower) :
  Occurs (x ++ b :: y) needle ↔ Occurs x needle ∨ Occurs y needle
  := by
  have htail : lower b ∉ needle.tail.map lower := by
    rw [List.map_tail]
    intro h
    apply hb (List.mem_of_mem_tail h)
  constructor
  · rintro ⟨i, hi⟩
    rcases Nat.lt_trichotomy i x.length with hlt | rfl | hlt
    · left
      exact ⟨i, (matchAt_append_iff htail hlt).mp hi⟩
    · obtain ⟨a, rest, rfl⟩ := List.exists_cons_of_ne_nil hne
      obtain ⟨c, hc, hlower⟩ := hi.head
      rw [List.getElem?_append_right le_rfl, Nat.sub_self, List.getElem?_cons_zero,
        Option.some_inj] at hc
      rw [← hc] at hlower
      simp [hlower] at hb
    · right
      obtain ⟨k, rfl⟩ : ∃ k, i = (x ++ [b]).length + k :=
        ⟨i - (x.length + 1), by simp only [List.length_append, List.length_singleton]; omega⟩
      rw [List.append_cons, matchAt_append_left] at hi
      exact ⟨k, hi⟩
  · rintro (⟨i, hi⟩ | ⟨i, hi⟩)
    · have hlt : i < x.length := by
        have := hi.add_length_le hne
        have := List.length_pos_of_ne_nil hne
        omega
      exact ⟨i, (matchAt_append_iff htail hlt).mpr hi⟩
    · refine ⟨(x ++ [b]).length + i, ?_⟩
      rw [List.append_cons, matchAt_append_left]
      exact hi

/-- Bytes that are not the first of the needle do not matter in front. -/
theorem occurs_append_of_forall {a : UInt8} {rest before : Bytes}
    (h : ∀ c ∈ before, lower c ≠ lower a) :
  Occurs (before ++ haystack) (a :: rest) ↔ Occurs haystack (a :: rest)
  := by
  constructor
  · rintro ⟨i, hi⟩
    rcases Nat.lt_or_ge i before.length with hlt | hge
    · exact absurd hi (not_matchAt_of_forall h hlt)
    · obtain ⟨k, rfl⟩ := Nat.exists_eq_add_of_le hge
      exact ⟨k, (matchAt_append_left before).mp hi⟩
  · rintro ⟨i, hi⟩
    exact ⟨before.length + i, (matchAt_append_left before).mpr hi⟩

/-- A needle that is written behind a body, with bytes around the body in which none starts, is the
first one exactly when there is none in the body. -/
theorem isFirst_close_iff {a : UInt8} {rest : Bytes} (hneedle : needle = a :: rest)
    {front back close : Bytes} (hfront : ∀ c ∈ front, lower c ≠ lower a)
    (hback : ∀ c ∈ back, lower c ≠ lower a) (hclose : MatchAt close needle 0)
    (hnext : ∀ b ∈ (back ++ close).head?, lower b ∉ rest.map lower) (opened body : Bytes) :
  IsFirst (MatchAt (opened ++ (front ++ (body ++ (back ++ close)))) needle) opened.length
      (opened.length + (front.length + (body.length + back.length)))
    ↔ ¬ Occurs body needle
  := by
  subst hneedle
  have hne : close ≠ [] := by
    rintro rfl
    simpa using hclose.add_length_le (List.cons_ne_nil _ _)
  obtain ⟨b, next, hcons⟩ := List.exists_cons_of_ne_nil (List.append_ne_nil_of_right_ne_nil back hne)
  have hb : lower b ∉ rest.map lower := by
    apply hnext
    rw [hcons]
    rfl
  have hbody {i : ℕ} (hi : i < body.length) :
      MatchAt (opened ++ (front ++ (body ++ (back ++ close)))) (a :: rest)
          (opened.length + (front.length + i)) ↔ MatchAt body (a :: rest) i := by
    rw [matchAt_append_left, matchAt_append_left, hcons]
    exact matchAt_append_iff hb hi
  constructor
  · rintro hfirst ⟨i, hi⟩
    have hlt : i < body.length := by
      have := hi.add_length_le (List.cons_ne_nil _ _)
      rw [List.length_cons] at this
      omega
    apply hfirst.first _ _ _ ((hbody hlt).mpr hi)
    · omega
    · omega
  · intro hnone
    constructor
    · omega
    · rw [matchAt_append_left, matchAt_append_left, matchAt_append_left]
      exact (matchAt_append_left back).mpr hclose
    · intro j hle hlt
      obtain ⟨j, rfl⟩ := Nat.exists_eq_add_of_le hle
      -- the place is in front of the body, in it, or behind it
      rcases Nat.lt_or_ge j front.length with hj | hj
      · rw [matchAt_append_left]
        apply not_matchAt_of_forall hfront hj
      obtain ⟨j, rfl⟩ := Nat.exists_eq_add_of_le hj
      rcases Nat.lt_or_ge j body.length with hj | hj
      · rw [hbody hj]
        intro h
        exact hnone ⟨j, h⟩
      obtain ⟨j, rfl⟩ := Nat.exists_eq_add_of_le hj
      rw [matchAt_append_left, matchAt_append_left, matchAt_append_left]
      apply not_matchAt_of_forall hback
      omega

end Bytes
