import AdBlock.Rust.NetText

/-!
# Characters of addresses

Which characters the texts of addresses consist of.  An IPv6 address has a colon and no other
punctuation than colons and points, so it is told from a name by its characters.  An address with a
port has brackets and a percent sign besides.
-/

namespace Net

/-- A reader has gone from a text to its rest over some characters. -/
def Consumed (ok : Char → Bool) (s rest : Text) : Prop :=
  ∃ front, s = front ++ rest ∧ ∀ c ∈ front, ok c = true

namespace Consumed

variable {ok : Char → Bool} {s s' s'' : Text}

/-- A reader that has read nothing. -/
theorem refl (ok : Char → Bool) (s : Text) :
  Consumed ok s s
  := ⟨[], rfl, fun _ h => absurd h List.not_mem_nil⟩

/-- Two readers, one after the other. -/
theorem trans (h : Consumed ok s s') (h' : Consumed ok s' s'') :
  Consumed ok s s''
  := by
  obtain ⟨front, rfl, hfront⟩ := h
  obtain ⟨front', rfl, hfront'⟩ := h'
  use front ++ front'
  constructor
  · rw [List.append_assoc]
  · intro c hc
    rcases List.mem_append.mp hc with hc | hc
    · exact hfront c hc
    · exact hfront' c hc

/-- A reader of some characters reads characters of a larger class. -/
theorem mono {ok' : Char → Bool} (h : Consumed ok s s') (hok : ∀ c, ok c = true → ok' c = true) :
  Consumed ok' s s'
  := by
  obtain ⟨front, hs, hfront⟩ := h
  exact ⟨front, hs, fun c hc => hok c (hfront c hc)⟩

/-- What is left was there. -/
theorem mem {c : Char} (h : Consumed ok s s') (hc : c ∈ s') :
  c ∈ s
  := by
  obtain ⟨front, rfl, -⟩ := h
  exact List.mem_append_right front hc

/-- A text that was read to its end consists of the characters. -/
theorem forall_mem (h : Consumed ok s []) :
  ∀ c ∈ s, ok c = true
  := by
  obtain ⟨front, rfl, hfront⟩ := h
  rw [List.append_nil]
  exact hfront

end Consumed

/-- The reader of a character takes that character off. -/
theorem readGivenChar_eq {c : Char} {s rest : Text} (h : readGivenChar c s = some rest) :
  s = c :: rest
  := by
  cases s with
  | nil => cases h
  | cons c' s =>
    rw [readGivenChar] at h
    split at h
    · next hc =>
      cases h
      rw [hc]
    · cases h

/-- The reader of a character reads it. -/
theorem consumed_readGivenChar {ok : Char → Bool} {c : Char} {s rest : Text} (hc : ok c = true)
    (h : readGivenChar c s = some rest) :
  Consumed ok s rest
  := by
  use [c]
  constructor
  · exact readGivenChar_eq h
  · intro c' hc'
    rw [List.mem_singleton.mp hc']
    exact hc

/-- A reader of numbers reads digits. -/
theorem consumed_readNumber {radix bound n : ℕ} {maxDigits : Option ℕ} {allowZeroPrefix : Bool}
    {s rest : Text} (h : readNumber radix maxDigits allowZeroPrefix bound s = some (n, rest)) :
  Consumed (isDigit radix) s rest
  := by
  have hrest : rest = s.dropWhile (isDigit radix) := by
    simp only [readNumber] at h
    split at h
    · cases h
    · split at h
      · cases h
      · split at h
        · cases h
        · split at h
          · cases h
            rfl
          · cases h
  use s.takeWhile (isDigit radix)
  constructor
  · rw [hrest, List.takeWhile_append_dropWhile]
  · exact fun c hc => List.mem_takeWhile_imp hc

/-! ### IPv4 addresses -/

/-- A character of IPv4 addresses. -/
def isIpv4Char (c : Char) : Bool :=
  isDigit 10 c || c == '.'

/-- The digits are next to each other. -/
theorem toNat_of_isDigit {c : Char} (h : isDigit 10 c = true) :
  48 ≤ c.toNat ∧ c.toNat ≤ 57
  := by
  simp only [isDigit, toDigit, Option.isSome_filter, Option.any_eq_true, decide_eq_true_eq] at h
  obtain ⟨d, hd, hlt⟩ := h
  have hzero : '0' ≤ c ↔ 48 ≤ c.toNat := UInt32.le_iff_toNat_le
  have hnine : c ≤ '9' ↔ c.toNat ≤ 57 := UInt32.le_iff_toNat_le
  split at hd
  · next hdigit => exact ⟨hzero.mp hdigit.1, hnine.mp hdigit.2⟩
  · split at hd
    · cases hd
      omega
    · split at hd
      · cases hd
        omega
      · cases hd

theorem toNat_of_isIpv4Char {c : Char} (h : isIpv4Char c = true) :
  c.toNat = 46 ∨ 48 ≤ c.toNat ∧ c.toNat ≤ 57
  := by
  rcases Bool.or_eq_true_iff.mp h with hdigit | hdot
  · exact .inr (toNat_of_isDigit hdigit)
  · rw [beq_iff_eq.mp hdot]
    exact .inl rfl

/-- A part of an IPv4 address consists of digits. -/
theorem consumed_readOctet {s rest : Text} {a : UInt8} (h : readOctet s = some (a, rest)) :
  Consumed isIpv4Char s rest
  := by
  simp only [readOctet, Option.bind_eq_bind, Option.bind_eq_some_iff] at h
  obtain ⟨⟨n, s'⟩, hnumber, heq⟩ := h
  cases heq
  apply (consumed_readNumber hnumber).mono
  intro c hc
  rw [isIpv4Char, hc, Bool.true_or]

/-- An IPv4 address consists of digits and points. -/
theorem consumed_readIpv4Addr {s rest : Text} {ip : Ipv4Addr}
    (h : readIpv4Addr s = some (ip, rest)) :
  Consumed isIpv4Char s rest
  := by
  simp only [readIpv4Addr, Option.bind_eq_bind, Option.bind_eq_some_iff] at h
  obtain ⟨⟨a, s₁⟩, ha, s₂, hdot₁, ⟨b, s₃⟩, hb, s₄, hdot₂, ⟨c, s₅⟩, hc, s₆, hdot₃, ⟨d, s₇⟩, hd,
    heq⟩ := h
  cases heq
  apply (consumed_readOctet ha).trans
  apply (consumed_readGivenChar rfl hdot₁).trans
  apply (consumed_readOctet hb).trans
  apply (consumed_readGivenChar rfl hdot₂).trans
  apply (consumed_readOctet hc).trans
  apply (consumed_readGivenChar rfl hdot₃).trans
  exact consumed_readOctet hd

/-- What is read from a whole text. -/
theorem of_parseWith {α : Type} {read : Text → Option (α × Text)} {s : Text} {a : α}
    (h : parseWith read s = some a) :
  read s = some (a, [])
  := by
  unfold parseWith at h
  split at h
  · next hread =>
    cases h
    exact hread
  · cases h

namespace Ipv4Addr

/-- A text that is an IPv4 address consists of digits and points. -/
theorem forall_isIpv4Char {s : Text} {ip : Ipv4Addr} (h : parse s = some ip) :
  ∀ c ∈ s, isIpv4Char c = true
  := (consumed_readIpv4Addr (of_parseWith h)).forall_mem

/-- The text of an IPv4 address is read as that address. -/
@[simp]
theorem parse_toText (ip : Ipv4Addr) :
  parse ip.toText = some ip
  := by
  have hread := @readIpv4Addr_toText ip [] (fun c hc => by cases hc)
  rw [List.append_nil] at hread
  rw [parse, parseWith, hread]

/-- The text of an address ends in a digit. -/
theorem getLast?_toText (ip : Ipv4Addr) :
  ip.toText.getLast? ≠ some '.'
  := by
  intro hlast
  have hne : decimal ip.d.toNat ≠ [] := Nat.toDigits_ne_nil
  rw [toText, List.getLast?_append_of_ne_nil _ (List.cons_ne_nil _ _),
    List.getLast?_cons_of_ne_nil hne] at hlast
  have hdigit := radix_ten.isDigit_toDigits _ _ (List.mem_of_mem_getLast? hlast)
  cases hdigit

end Ipv4Addr

/-! ### IPv6 addresses -/

/-- A character of IPv6 addresses. -/
def isIpv6Char (c : Char) : Bool :=
  isDigit 16 c || c == '.' || c == ':'

/-- An IPv6 address can have an IPv4 address at its end. -/
theorem isIpv6Char_of_isIpv4Char {c : Char} (h : isIpv4Char c = true) :
  isIpv6Char c = true
  := by
  rcases Bool.or_eq_true_iff.mp h with hdigit | hdot
  · rw [isIpv6Char, isDigit_sixteen_of_ten hdigit, Bool.true_or, Bool.true_or]
  · rw [isIpv6Char, hdot, Bool.or_true, Bool.true_or]

/-- A group of an IPv6 address consists of digits. -/
theorem consumed_readGroup {s rest : Text} {g : UInt16} (h : readGroup s = some (g, rest)) :
  Consumed isIpv6Char s rest
  := by
  simp only [readGroup, Option.bind_eq_bind, Option.bind_eq_some_iff] at h
  obtain ⟨⟨n, s'⟩, hnumber, heq⟩ := h
  cases heq
  apply (consumed_readNumber hnumber).mono
  intro c hc
  rw [isIpv6Char, hc, Bool.true_or, Bool.true_or]

/-- A colon in front of what is read belongs to the address. -/
theorem consumed_readSeparator {α : Type} {read : Text → Option (α × Text)} {first : Bool}
    {s rest : Text} {a : α}
    (hread : ∀ {s a rest}, read s = some (a, rest) → Consumed isIpv6Char s rest)
    (h : readSeparator first read s = some (a, rest)) :
  Consumed isIpv6Char s rest
  := by
  cases first with
  | true => exact hread h
  | false =>
    obtain ⟨s', hcolon, hs'⟩ := Option.bind_eq_some_iff.mp h
    exact (consumed_readGivenChar rfl hcolon).trans (hread hs')

/-- How groups are read: none, the last two as an IPv4 address, or one and then others. -/
theorem readGroups_cases (room : ℕ) (first : Bool) (s : Text) :
  readGroups room first s = ([], false, s)
    ∨ (∃ ip rest, readSeparator first readIpv4Addr s = some (ip, rest)
      ∧ readGroups room first s = ([ofBytes ip.a ip.b, ofBytes ip.c ip.d], true, rest))
    ∨ ∃ room' g s', readSeparator first readGroup s = some (g, s')
      ∧ readGroups room first s
        = (g :: (readGroups room' false s').1, (readGroups room' false s').2)
      ∧ room' < room
  := by
  cases room with
  | zero => exact .inl rfl
  | succ room =>
    rw [readGroups]
    split
    · next ip rest hip =>
      right; left
      split at hip
      · exact ⟨ip, rest, hip, rfl⟩
      · cases hip
    · split
      · exact .inl rfl
      · next g s' hgroup =>
        right; right
        exact ⟨room, g, s', hgroup, rfl, Nat.lt_succ_self room⟩

/-- Groups consist of digits, points and colons. -/
theorem consumed_readGroups (room : ℕ) (first : Bool) (s : Text) :
  Consumed isIpv6Char s (readGroups room first s).2.2
  := by
  induction room using Nat.strongRecOn generalizing first s with
  | ind room ih =>
    rcases readGroups_cases room first s with h | ⟨ip, rest, hip, h⟩ | ⟨room', g, s', hg, h, hlt⟩
    · rw [h]
      exact .refl _ s
    · rw [h]
      apply consumed_readSeparator _ hip
      intro s ip rest hread
      exact (consumed_readIpv4Addr hread).mono fun _ => isIpv6Char_of_isIpv4Char
    · rw [h]
      exact (consumed_readSeparator consumed_readGroup hg).trans (ih room' hlt false s')

/-- There is a colon where one is asked for. -/
theorem readSeparator_false_eq {α : Type} {read : Text → Option (α × Text)} {s rest : Text} {a : α}
    (h : readSeparator false read s = some (a, rest)) :
  ':' ∈ s
  := by
  obtain ⟨s', hcolon, -⟩ := Option.bind_eq_some_iff.mp h
  rw [readGivenChar_eq hcolon]
  exact List.mem_cons_self

/-- More than two groups have a colon between them. -/
theorem colon_mem_of_readGroups {room : ℕ} {first : Bool} {s : Text}
    (h : 2 < (readGroups room first s).1.length) :
  ':' ∈ s
  := by
  rcases readGroups_cases room first s with heq | ⟨ip, rest, -, heq⟩ | ⟨room', g, s', hg, heq, -⟩
  · rw [heq] at h
    cases h
  · rw [heq] at h
    exact absurd h (Nat.lt_irrefl 2)
  · apply (consumed_readSeparator consumed_readGroup hg).mem
    rcases readGroups_cases room' false s' with heq' | ⟨_, _, hip, -⟩ | ⟨_, _, _, hg', -⟩
    · rw [heq, heq'] at h
      exact absurd h (by simp)
    · exact readSeparator_false_eq hip
    · exact readSeparator_false_eq hg'

/-- The segments of an address are read over its characters, a colon among them. -/
theorem readSegments_spec {s rest : Text} {segments : List UInt16}
    (h : readSegments s = some (segments, rest)) :
  Consumed isIpv6Char s rest ∧ ':' ∈ s
  := by
  have hhead := consumed_readGroups 8 true s
  simp only [readSegments] at h
  split at h
  · next hlength =>
    cases h
    refine ⟨hhead, @colon_mem_of_readGroups 8 true s ?_⟩
    rw [hlength]
    decide
  · split at h
    · cases h
    · simp only [Option.bind_eq_bind, Option.bind_eq_some_iff] at h
      obtain ⟨s₁, hcolon₁, s₂, hcolon₂, heq⟩ := h
      have hcolons := hhead.trans ((consumed_readGivenChar rfl hcolon₁).trans
        (consumed_readGivenChar rfl hcolon₂))
      cases heq
      refine ⟨hcolons.trans (consumed_readGroups _ true s₂), hhead.mem ?_⟩
      rw [readGivenChar_eq hcolon₁]
      exact List.mem_cons_self

/-- An IPv6 address consists of digits, points and colons, and has a colon. -/
theorem readIpv6Addr_spec {s rest : Text} {ip : Ipv6Addr} (h : readIpv6Addr s = some (ip, rest)) :
  Consumed isIpv6Char s rest ∧ ':' ∈ s
  := by
  simp only [readIpv6Addr, Option.bind_eq_bind, Option.bind_eq_some_iff] at h
  obtain ⟨⟨segments, s'⟩, hsegments, heq⟩ := h
  split at heq
  · cases heq
    exact readSegments_spec hsegments
  · cases heq

namespace Ipv6Addr

/-- A text that is an IPv6 address consists of digits, points and colons, and has a colon. -/
theorem parse_spec {s : Text} {ip : Ipv6Addr} (h : parse s = some ip) :
  (∀ c ∈ s, isIpv6Char c = true) ∧ ':' ∈ s
  := by
  obtain ⟨hconsumed, hcolon⟩ := readIpv6Addr_spec (of_parseWith h)
  exact ⟨hconsumed.forall_mem, hcolon⟩

end Ipv6Addr

/-! ### Addresses with a port -/

/-- A character of addresses with a port. -/
def isSocketChar (c : Char) : Bool :=
  isIpv6Char c || c == '[' || c == ']' || c == '%'

/-- The characters of an address are characters of an address with a port. -/
theorem isSocketChar_of_isIpv6Char {c : Char} (h : isIpv6Char c = true) :
  isSocketChar c = true
  := by
  rw [isSocketChar, h]
  rfl

/-- Digits are characters of an address with a port. -/
theorem isSocketChar_of_isDigit {c : Char} (h : isDigit 10 c = true) :
  isSocketChar c = true
  := by
  apply isSocketChar_of_isIpv6Char
  rw [isIpv6Char, isDigit_sixteen_of_ten h, Bool.true_or, Bool.true_or]

/-- A port consists of a colon and digits. -/
theorem consumed_readPort {s rest : Text} {port : UInt16} (h : readPort s = some (port, rest)) :
  Consumed isSocketChar s rest
  := by
  simp only [readPort, Option.bind_eq_bind, Option.bind_eq_some_iff] at h
  obtain ⟨s₁, hcolon, ⟨n, s₂⟩, hnumber, heq⟩ := h
  cases heq
  apply (consumed_readGivenChar rfl hcolon).trans
  exact (consumed_readNumber hnumber).mono fun _ => isSocketChar_of_isDigit

/-- A scope, if there is one, consists of a percent sign and digits. -/
theorem consumed_readScopeId (s : Text) :
  Consumed isSocketChar s ((readScopeId s).getD (0, s)).2
  := by
  cases h : readScopeId s with
  | none => exact .refl _ s
  | some scope =>
    simp only [readScopeId, Option.bind_eq_bind, Option.bind_eq_some_iff] at h
    obtain ⟨s₁, hpercent, ⟨n, s₂⟩, hnumber, heq⟩ := h
    cases heq
    apply (consumed_readGivenChar rfl hpercent).trans
    exact (consumed_readNumber hnumber).mono fun _ => isSocketChar_of_isDigit

/-- An IPv4 address and a port. -/
theorem consumed_readSocketAddrV4 {s rest : Text} {a : SocketAddr}
    (h : readSocketAddrV4 s = some (a, rest)) :
  Consumed isSocketChar s rest
  := by
  simp only [readSocketAddrV4, Option.bind_eq_bind, Option.bind_eq_some_iff] at h
  obtain ⟨⟨ip, s₁⟩, hip, ⟨port, s₂⟩, hport, heq⟩ := h
  cases heq
  refine ((consumed_readIpv4Addr hip).mono fun _ hc => ?_).trans (consumed_readPort hport)
  exact isSocketChar_of_isIpv6Char (isIpv6Char_of_isIpv4Char hc)

/-- An IPv6 address in brackets and a port. -/
theorem consumed_readSocketAddrV6 {s rest : Text} {a : SocketAddr}
    (h : readSocketAddrV6 s = some (a, rest)) :
  Consumed isSocketChar s rest
  := by
  simp only [readSocketAddrV6, Option.bind_eq_bind, Option.bind_eq_some_iff] at h
  obtain ⟨s₁, hopen, ⟨ip, s₂⟩, hip, s₃, hclose, ⟨port, s₄⟩, hport, heq⟩ := h
  cases heq
  apply (consumed_readGivenChar rfl hopen).trans
  apply ((readIpv6Addr_spec hip).1.mono fun _ => isSocketChar_of_isIpv6Char).trans
  apply (consumed_readScopeId s₂).trans
  apply (consumed_readGivenChar rfl hclose).trans
  exact consumed_readPort hport

/-- A text that is an address with a port consists of digits, points, colons, brackets and percent
signs. -/
theorem SocketAddr.forall_isSocketChar {s : Text} {a : SocketAddr} (h : parse s = some a) :
  ∀ c ∈ s, isSocketChar c = true
  := by
  have hread := of_parseWith h
  cases hv4 : readSocketAddrV4 s with
  | some read =>
    rw [hv4] at hread
    cases hread
    exact (consumed_readSocketAddrV4 hv4).forall_mem
  | none =>
    rw [hv4] at hread
    exact (consumed_readSocketAddrV6 hread).forall_mem

end Net
