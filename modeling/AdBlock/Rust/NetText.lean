import AdBlock.Rust.Net

/-!
# Texts of internet addresses

How the standard library writes addresses.  A text that was written for an address is read as
that address (`SocketAddr.parse_toText`).
-/

namespace Net

/-! ### Numbers -/

/-- The digits that are written in this radix are read back. -/
structure Radix (r : ℕ) : Prop where
  one_lt : 1 < r
  toDigit_digitChar : ∀ d < r, toDigit r d.digitChar = some d

theorem radix_ten :
  Radix 10
  := ⟨by decide, by decide⟩

theorem radix_sixteen :
  Radix 16
  := ⟨by decide, by decide⟩

/-- The text does not start with a digit. -/
def NoDigit (r : ℕ) (s : Text) : Prop :=
  ∀ c ∈ s.head?, isDigit r c = false

namespace Radix

variable {r : ℕ} (h : Radix r)
include h

/-- Induction over the digits of a number, from the first to the last. -/
theorem induction {P : ℕ → Text → Prop} (digit : ∀ d < r, P d [d.digitChar])
    (more : ∀ n d, 0 < n → d < r → P n (Nat.toDigits r n) →
      P (n * r + d) (Nat.toDigits r n ++ [d.digitChar])) (n : ℕ) :
  P n (Nat.toDigits r n)
  := by
  have hr := h.one_lt
  induction n using Nat.strongRecOn with
  | ind n ih =>
    rw [Nat.toDigits_eq_if hr]
    split
    · next hlt => exact digit n hlt
    · next hlt =>
      have hpos : 0 < n / r := Nat.div_pos (by omega) (by omega)
      have hmore := more (n / r) (n % r) hpos (Nat.mod_lt n (by omega))
        (ih (n / r) (Nat.div_lt_self (by omega) hr))
      rwa [Nat.div_add_mod'] at hmore

theorem isDigit_digitChar {d : ℕ} (hd : d < r) :
  isDigit r d.digitChar = true
  := by
  rw [isDigit, h.toDigit_digitChar d hd]
  rfl

theorem isDigit_toDigits (n : ℕ) :
  ∀ c ∈ Nat.toDigits r n, isDigit r c = true
  := by
  induction n using h.induction with
  | digit d hd => simpa using h.isDigit_digitChar hd
  | more n d hn hd ih =>
    intro c hc
    rcases List.mem_append.mp hc with hc | hc
    · exact ih c hc
    · rw [List.mem_singleton.mp hc]
      exact h.isDigit_digitChar hd

theorem ofDigits_toDigits (n : ℕ) :
  ofDigits r (Nat.toDigits r n) = n
  := by
  induction n using h.induction with
  | digit d hd => simp [ofDigits, h.toDigit_digitChar d hd]
  | more n d hn hd ih =>
    rw [ofDigits, List.foldl_append, ← ofDigits, ih]
    simp [h.toDigit_digitChar d hd]

/-- Only zero is written with a zero in front. -/
theorem head_toDigits {n : ℕ} (hn : 0 < n) :
  (Nat.toDigits r n).head? ≠ some '0'
  := by
  induction n using h.induction with
  | digit d hd =>
    intro hhead
    have hzero := h.toDigit_digitChar 0 (by omega)
    have hdigit := h.toDigit_digitChar d hd
    rw [Option.some_injective _ hhead] at hdigit
    have : 0 = d := Option.some_injective _ (hzero.symm.trans hdigit)
    omega
  | more n d hpos hd ih =>
    rw [List.head?_append_of_ne_nil _ Nat.toDigits_ne_nil]
    exact ih hpos

/-- A number is read back. -/
theorem readNumber_toDigits {n bound : ℕ} {maxDigits : Option ℕ}
    (hmax : ∀ k ∈ maxDigits, (Nat.toDigits r n).length ≤ k) (allowZeroPrefix : Bool)
    (hbound : n < bound) {rest : Text} (hrest : NoDigit r rest) :
  readNumber r maxDigits allowZeroPrefix bound (Nat.toDigits r n ++ rest) = some (n, rest)
  := by
  have htake : (Nat.toDigits r n ++ rest).takeWhile (isDigit r) = Nat.toDigits r n := by
    rw [List.takeWhile_append_of_pos (h.isDigit_toDigits n)]
    cases rest with
    | nil => simp
    | cons c rest => simp [hrest c rfl]
  have hdrop : (Nat.toDigits r n ++ rest).dropWhile (isDigit r) = rest := by
    rw [List.dropWhile_append_of_pos (h.isDigit_toDigits n)]
    cases rest with
    | nil => rfl
    | cons c rest => simp [hrest c rfl]
  have hlength : ¬ maxDigits.any (· < (Nat.toDigits r n).length) := by
    cases maxDigits with
    | none => simp
    | some k => simpa using hmax k rfl
  have hzero : ¬ (!allowZeroPrefix ∧ (Nat.toDigits r n).head? = some '0'
      ∧ 1 < (Nat.toDigits r n).length) := by
    rintro ⟨-, hhead, hlong⟩
    cases n with
    | zero => simp [Nat.toDigits_zero] at hlong
    | succ n => exact h.head_toDigits (Nat.succ_pos n) hhead
  simp only [readNumber, htake, hdrop, h.ofDigits_toDigits]
  rw [if_neg Nat.toDigits_ne_nil, if_neg hlength, if_neg hzero, if_pos hbound]

end Radix

theorem readNumber_of_noDigit {r : ℕ} {s : Text} (h : NoDigit r s) (maxDigits : Option ℕ)
    (allowZeroPrefix : Bool) (bound : ℕ) :
  readNumber r maxDigits allowZeroPrefix bound s = none
  := by
  have htake : s.takeWhile (isDigit r) = [] := by
    cases s with
    | nil => rfl
    | cons c s => simp [h c rfl]
  simp only [readNumber, htake]
  rfl

theorem isDigit_sixteen_of_ten {c : Char} (h : isDigit 10 c = true) :
  isDigit 16 c = true
  := by
  simp only [isDigit, toDigit, Option.isSome_filter, Option.any_eq_true, decide_eq_true_eq] at h ⊢
  obtain ⟨d, hd, hlt⟩ := h
  exact ⟨d, hd, by omega⟩

/-! ### IPv4 addresses -/

theorem readOctet_decimal (a : UInt8) {rest : Text} (hrest : NoDigit 10 rest) :
  readOctet (decimal a.toNat ++ rest) = some (a, rest)
  := by
  have hlt : a.toNat < 256 := a.toNat_lt
  have hlength : (Nat.toDigits 10 a.toNat).length ≤ 3 :=
    (Nat.length_toDigits_le_iff (by decide) (by decide)).mpr (by omega)
  rw [readOctet, decimal,
    radix_ten.readNumber_toDigits (by simpa using hlength) false hlt hrest]
  simp

theorem readOctet_rest {s rest : Text} {a : UInt8} (h : readOctet s = some (a, rest)) :
  rest = s.dropWhile (isDigit 10)
  := by
  obtain ⟨⟨n, s'⟩, hnumber, heq⟩ := Option.bind_eq_some_iff.mp h
  obtain rfl : s' = rest := congrArg Prod.snd (Option.some_injective _ heq)
  simp only [readNumber] at hnumber
  split at hnumber
  · cases hnumber
  split at hnumber
  · cases hnumber
  split at hnumber
  · cases hnumber
  split at hnumber
  · exact (congrArg Prod.snd (Option.some_injective _ hnumber)).symm
  · cases hnumber

theorem noDigit_cons {r : ℕ} {c : Char} (h : isDigit r c = false) (rest : Text) :
  NoDigit r (c :: rest)
  := by
  intro d hd
  rw [← Option.some_injective _ hd]
  exact h

/-- An IPv4 address is read back. -/
theorem readIpv4Addr_toText (ip : Ipv4Addr) {rest : Text} (hrest : NoDigit 10 rest) :
  readIpv4Addr (ip.toText ++ rest) = some (ip, rest)
  := by
  have hdot (rest : Text) : NoDigit 10 ('.' :: rest) := noDigit_cons (by decide) rest
  have htext : ip.toText ++ rest
      = decimal ip.a.toNat ++ '.' :: (decimal ip.b.toNat ++ '.' :: (decimal ip.c.toNat
        ++ '.' :: (decimal ip.d.toNat ++ rest))) := by
    simp [Ipv4Addr.toText]
  rw [htext, readIpv4Addr, readOctet_decimal _ (hdot _)]
  simp only [Option.bind_eq_bind, Option.bind_some, readGivenChar, if_true,
    readOctet_decimal _ (hdot _), readOctet_decimal _ hrest]

/-! ### IPv6 addresses -/

/-- A number in lower case hexadecimal. -/
def hex (n : ℕ) : Text :=
  Nat.toDigits 16 n

/-- A stretch of segments. -/
structure Span where
  start : ℕ
  len : ℕ
  deriving DecidableEq, Repr

/-- The longest stretch of zeroes so far and the one that goes on. -/
structure ZeroScan where
  index : ℕ
  longest : Span
  current : Span
  deriving DecidableEq, Repr

/-- A stretch with one more segment at its end, which is at an index. -/
def Span.grow (z : Span) (index : ℕ) : Span where
  start := if z.len = 0 then index else z.start
  len := z.len + 1

def ZeroScan.step (z : ZeroScan) (segment : UInt16) : ZeroScan :=
  if segment = 0 then
    let current := z.current.grow z.index
    { index := z.index + 1
      longest := if z.longest.len < current.len then current else z.longest
      current }
  else { z with index := z.index + 1, current := ⟨0, 0⟩ }

/-- The first of the longest stretches of zeroes. -/
def zeroes (segments : List UInt16) : Span :=
  (segments.foldl ZeroScan.step ⟨0, ⟨0, 0⟩, ⟨0, 0⟩⟩).longest

/-- Groups with colons in between. -/
def writeGroups : List UInt16 → Text
  | [] => []
  | first :: tail => hex first.toNat ++ tail.flatMap fun segment => ':' :: hex segment.toNat

namespace Ipv6Addr

def toIpv4Mapped (ip : Ipv6Addr) : Option Ipv4Addr :=
  match ip.segments with
  | [s₀, s₁, s₂, s₃, s₄, s₅, ab, cd] =>
      if [s₀, s₁, s₂, s₃, s₄, s₅] = [0, 0, 0, 0, 0, 0xffff] then
        some ⟨UInt8.ofNat (ab.toNat / 256), UInt8.ofNat ab.toNat,
          UInt8.ofNat (cd.toNat / 256), UInt8.ofNat cd.toNat⟩
      else none
  | _ => none

/-- `to_string`. -/
def toText (ip : Ipv6Addr) : Text :=
  match ip.toIpv4Mapped with
  | some ipv4 => "::ffff:".toList ++ ipv4.toText
  | none =>
      let z := zeroes ip.segments
      if 1 < z.len then
        writeGroups (ip.segments.take z.start) ++ ':' :: ':'
          :: writeGroups (ip.segments.drop (z.start + z.len))
      else writeGroups ip.segments

end Ipv6Addr

/-- The text starts with a character that neither goes on with a number nor is a dot. -/
def Delimited : Text → Prop
  | [] => False
  | c :: _ => isDigit 16 c = false ∧ c ≠ '.'

/-- No further group follows. -/
def Stops (rest : Text) : Prop :=
  Delimited rest ∧ ∀ s, rest = ':' :: s → Delimited s

namespace Delimited

variable {s : Text} (h : Delimited s)
include h

theorem noDigit_sixteen :
  NoDigit 16 s
  := by
  cases s with
  | nil => cases h
  | cons c s => exact noDigit_cons h.1 s

theorem noDigit_ten :
  NoDigit 10 s
  := by
  cases s with
  | nil => cases h
  | cons c s =>
    apply noDigit_cons
    rw [Bool.eq_false_iff]
    intro hc
    have hsixteen := h.1
    rw [isDigit_sixteen_of_ten hc] at hsixteen
    cases hsixteen

theorem readIpv4Addr_eq_none :
  readIpv4Addr s = none
  := by
  rw [readIpv4Addr, readOctet, readNumber_of_noDigit h.noDigit_ten]
  rfl

theorem readGroup_eq_none :
  readGroup s = none
  := by
  rw [readGroup, readNumber_of_noDigit h.noDigit_sixteen]
  rfl

theorem append_groups (groups : List UInt16) :
  Delimited (groups.flatMap (fun segment => ':' :: hex segment.toNat) ++ s)
  := by
  cases groups with
  | nil => exact h
  | cons g groups => exact ⟨by decide, by decide⟩

/-- What follows the decimal digits of a group is no dot. -/
theorem readGivenChar_dot {digits : Text} (hdigits : ∀ c ∈ digits, isDigit 16 c = true) :
  readGivenChar '.' ((digits ++ s).dropWhile (isDigit 10)) = none
  := by
  induction digits with
  | nil =>
    have hten := h.noDigit_ten
    cases s with
    | nil => rfl
    | cons c s => simp [hten c rfl, readGivenChar, h.2]
  | cons d digits ih =>
    rw [List.forall_mem_cons] at hdigits
    rw [List.cons_append, List.dropWhile_cons]
    split
    · exact ih hdigits.2
    · have hdot : d ≠ '.' := by
        rintro rfl
        cases hdigits.1
      simp [readGivenChar, hdot]

/-- A group does not start an IPv4 address. -/
theorem readIpv4Addr_hex (n : ℕ) :
  readIpv4Addr (hex n ++ s) = none
  := by
  have hdot := h.readGivenChar_dot (radix_sixteen.isDigit_toDigits n)
  rw [readIpv4Addr]
  cases hoctet : readOctet (hex n ++ s) with
  | none => rfl
  | some octet =>
    obtain ⟨a, rest⟩ := octet
    obtain rfl : rest = (hex n ++ s).dropWhile (isDigit 10) := readOctet_rest hoctet
    simp only [Option.bind_eq_bind, Option.bind_some, hex, hdot, Option.bind_none]

theorem readGroup_hex (g : UInt16) :
  readGroup (hex g.toNat ++ s) = some (g, s)
  := by
  have hlt : g.toNat < 65536 := g.toNat_lt
  have hlength : (Nat.toDigits 16 g.toNat).length ≤ 4 :=
    (Nat.length_toDigits_le_iff (by decide) (by decide)).mpr (by omega)
  rw [readGroup, hex, radix_sixteen.readNumber_toDigits (by simpa using hlength) true hlt
    h.noDigit_sixteen]
  simp

end Delimited

theorem readSeparator_first {α : Type} (read : Text → Option (α × Text)) (s : Text) :
  readSeparator true read s = read s
  := rfl

theorem readSeparator_colon {α : Type} (read : Text → Option (α × Text)) (s : Text) :
  readSeparator false read (':' :: s) = read s
  := rfl

theorem readGroups_group {first : Bool} {s s' : Text} {g : UInt16}
    (hipv4 : readSeparator first readIpv4Addr s = none)
    (hgroup : readSeparator first readGroup s = some (g, s')) (room : ℕ) :
  readGroups (room + 1) first s = (g :: (readGroups room false s').1, (readGroups room false s').2)
  := by
  rw [readGroups, hipv4, ite_self, hgroup]

theorem readGroups_ipv4 {first : Bool} {s s' : Text} {ip : Ipv4Addr}
    (h : readSeparator first readIpv4Addr s = some (ip, s')) (room : ℕ) :
  readGroups (room + 2) first s = ([ofBytes ip.a ip.b, ofBytes ip.c ip.d], true, s')
  := by
  rw [readGroups, if_pos (Nat.le_add_left 1 room), h]

theorem readGroups_of_delimited {s : Text} (h : Delimited s) (room : ℕ) :
  readGroups room true s = ([], false, s)
  := by
  cases room with
  | zero => rfl
  | succ room =>
    simp [readGroups, readSeparator, h.readIpv4Addr_eq_none, h.readGroup_eq_none]

namespace Stops

variable {rest : Text} (h : Stops rest)
include h

theorem readSeparator_eq_none :
  readSeparator false readIpv4Addr rest = none ∧ readSeparator false readGroup rest = none
  := by
  cases rest with
  | nil => cases h.1
  | cons c s =>
    by_cases hc : c = ':'
    · subst hc
      have hs := h.2 s rfl
      simp [readSeparator, readGivenChar, hs.readIpv4Addr_eq_none, hs.readGroup_eq_none]
    · simp [readSeparator, readGivenChar, hc]

/-- The groups after the first are read back. -/
theorem readGroups_later (groups : List UInt16) (room : ℕ) (hroom : groups.length ≤ room) :
  readGroups room false (groups.flatMap (fun segment => ':' :: hex segment.toNat) ++ rest)
    = (groups, false, rest)
  := by
  induction groups generalizing room with
  | nil =>
    obtain ⟨hipv4, hgroup⟩ := h.readSeparator_eq_none
    cases room with
    | zero => rfl
    | succ room => simp [readGroups, hipv4, hgroup]
  | cons g groups ih =>
    cases room with
    | zero => simp at hroom
    | succ room =>
      have hmore := h.1.append_groups groups
      have hih := ih room (by simpa using hroom)
      rw [List.flatMap_cons, List.cons_append, List.cons_append, List.append_assoc,
        readGroups_group ((readSeparator_colon _ _).trans (hmore.readIpv4Addr_hex g.toNat))
          ((readSeparator_colon _ _).trans (hmore.readGroup_hex g)), hih]

/-- Groups are read back. -/
theorem readGroups_writeGroups {groups : List UInt16} {room : ℕ} (hroom : groups.length ≤ room) :
  readGroups room true (writeGroups groups ++ rest) = (groups, false, rest)
  := by
  cases groups with
  | nil => exact readGroups_of_delimited h.1 room
  | cons g groups =>
    cases room with
    | zero => simp at hroom
    | succ room =>
      have hmore := h.1.append_groups groups
      have hlater := h.readGroups_later groups room (by simpa using hroom)
      rw [writeGroups, List.append_assoc,
        readGroups_group ((readSeparator_first _ _).trans (hmore.readIpv4Addr_hex g.toNat))
          ((readSeparator_first _ _).trans (hmore.readGroup_hex g)), hlater]

end Stops

/-! ### Stretches of zeroes -/

/-- The stretch lies in the segments and has only zeroes. -/
structure Span.Zeroes (z : Span) (segments : List UInt16) : Prop where
  le : z.start + z.len ≤ segments.length
  zero : ∀ k, z.start ≤ k → k < z.start + z.len → segments[k]? = some 0

theorem Span.Zeroes.append {z : Span} {segments : List UInt16} (h : z.Zeroes segments)
    (more : List UInt16) :
  z.Zeroes (segments ++ more)
  := by
  constructor
  · have := h.le
    rw [List.length_append]
    omega
  · intro k hstart hend
    have := h.le
    rw [List.getElem?_append_left (by omega)]
    exact h.zero k hstart hend

/-- The segments without a stretch of zeroes, and the zeroes. -/
theorem Span.Zeroes.split {z : Span} {segments : List UInt16} (h : z.Zeroes segments) :
  segments.take z.start ++ List.replicate z.len 0 ++ segments.drop (z.start + z.len) = segments
  := by
  have hle := h.le
  have hzero : (segments.drop z.start).take z.len = List.replicate z.len 0 := by
    apply List.ext_getElem?
    intro k
    rw [List.getElem?_take, List.getElem?_replicate]
    split
    · rw [List.getElem?_drop]
      exact h.zero _ (by omega) (by omega)
    · rfl
  rw [← hzero, List.append_assoc, ← List.drop_drop, List.take_append_drop,
    List.take_append_drop]

theorem Span.grow_end {z : Span} {index : ℕ} (h : z.len = 0 ∨ z.start + z.len = index) :
  (z.grow index).start + (z.grow index).len = index + 1
  := by
  by_cases hlen : z.len = 0
  · simp [grow, hlen]
  · have := h.resolve_left hlen
    simp only [grow, if_neg hlen]
    omega

theorem Span.Zeroes.grow {z : Span} {segments : List UInt16} (h : z.Zeroes segments)
    (hend : z.len = 0 ∨ z.start + z.len = segments.length) :
  (z.grow segments.length).Zeroes (segments ++ [0])
  := by
  have hgrow := grow_end hend
  constructor
  · rw [hgrow, List.length_append, List.length_singleton]
  · intro k hstart hk
    rw [hgrow] at hk
    rcases Nat.lt_succ_iff_lt_or_eq.mp hk with hlt | rfl
    · have hlen : z.len ≠ 0 := by
        intro hlen
        simp only [Span.grow, if_pos hlen] at hstart
        omega
      simp only [Span.grow, if_neg hlen] at hstart
      have := hend.resolve_left hlen
      rw [List.getElem?_append_left hlt]
      exact h.zero k hstart (by omega)
    · exact List.getElem?_concat_length

/-- What a scan has found in the segments so far. -/
structure ZeroScan.Scanned (z : ZeroScan) (segments : List UInt16) : Prop where
  index : z.index = segments.length
  longest : z.longest.Zeroes segments
  current : z.current.Zeroes segments
  current_end : z.current.len = 0 ∨ z.current.start + z.current.len = segments.length

namespace ZeroScan.Scanned

variable {z : ZeroScan} {segments : List UInt16}

theorem step (h : z.Scanned segments) (segment : UInt16) :
  (z.step segment).Scanned (segments ++ [segment])
  := by
  have hindex : z.index + 1 = (segments ++ [segment]).length := by
    rw [h.index, List.length_append, List.length_singleton]
  rw [ZeroScan.step]
  split
  · next hzero =>
    subst hzero
    have hcurrent := h.current.grow h.current_end
    have hend := Span.grow_end h.current_end
    rw [← h.index] at hcurrent hend
    constructor
    · exact hindex
    · dsimp only
      split
      · exact hcurrent
      · exact h.longest.append _
    · exact hcurrent
    · right
      rw [← hindex]
      exact hend
  · constructor
    · exact hindex
    · exact h.longest.append _
    · exact ⟨Nat.zero_le _, by intro k _ hk; simp at hk⟩
    · exact .inl rfl

theorem foldl (h : z.Scanned segments) (more : List UInt16) :
  (more.foldl ZeroScan.step z).Scanned (segments ++ more)
  := by
  induction more generalizing z segments with
  | nil =>
    rw [List.append_nil]
    exact h
  | cons segment more ih =>
    rw [List.append_cons]
    exact ih (h.step segment)

end ZeroScan.Scanned

theorem zeroes_spec (segments : List UInt16) :
  (zeroes segments).Zeroes segments
  := by
  have hempty : Span.Zeroes ⟨0, 0⟩ [] := ⟨Nat.le_refl _, by intro k _ hk; simp at hk⟩
  have hstart : ZeroScan.Scanned ⟨0, ⟨0, 0⟩, ⟨0, 0⟩⟩ [] := ⟨rfl, hempty, hempty, .inl rfl⟩
  exact (hstart.foldl segments).longest

/-! ### Reading back -/

theorem stops_colons (s : Text) :
  Stops (':' :: ':' :: s)
  := by
  have hcolon (s : Text) : Delimited (':' :: s) := ⟨by decide, by decide⟩
  constructor
  · exact hcolon _
  · intro s' hs'
    rw [← List.tail_eq_of_cons_eq hs']
    exact hcolon s

namespace Stops

variable {rest : Text} (h : Stops rest)
include h

theorem readSegments_writeGroups {segments : List UInt16} (hlength : segments.length = 8) :
  readSegments (writeGroups segments ++ rest) = some (segments, rest)
  := by
  rw [readSegments, h.readGroups_writeGroups hlength.le]
  simp [hlength]

theorem readSegments_zeroes {head tail : List UInt16} (hlength : head.length + tail.length < 8) :
  readSegments (writeGroups head ++ ':' :: ':' :: (writeGroups tail ++ rest))
    = some (head ++ List.replicate (8 - head.length - tail.length) 0 ++ tail, rest)
  := by
  have hhead : readGroups 8 true (writeGroups head ++ ':' :: ':' :: (writeGroups tail ++ rest))
      = (head, false, ':' :: ':' :: (writeGroups tail ++ rest)) :=
    (stops_colons _).readGroups_writeGroups (by omega)
  have htail : readGroups (8 - (head.length + 1)) true (writeGroups tail ++ rest)
      = (tail, false, rest) := h.readGroups_writeGroups (by omega)
  have hne : head.length ≠ 8 := by omega
  simp only [readSegments, hhead, if_neg hne, Bool.false_eq_true, if_false, readGivenChar, if_true,
    Option.bind_eq_bind, Option.bind_some, htail]

theorem readSegments_mapped (ip : Ipv4Addr) :
  readSegments ("::ffff:".toList ++ (ip.toText ++ rest))
    = some ([0, 0, 0, 0, 0, 0xffff, ofBytes ip.a ip.b, ofBytes ip.c ip.d], rest)
  := by
  have hhead : readGroups 8 true ("::ffff:".toList ++ (ip.toText ++ rest))
      = ([], false, "::ffff:".toList ++ (ip.toText ++ rest)) :=
    readGroups_of_delimited (stops_colons _).1 8
  have hcolon : Delimited (':' :: (ip.toText ++ rest)) := ⟨by decide, by decide⟩
  have hipv4 := hcolon.readIpv4Addr_hex (0xffff : UInt16).toNat
  have hgroup := hcolon.readGroup_hex 0xffff
  have hread := readIpv4Addr_toText ip h.1.noDigit_ten
  have htail : readGroups 7 true ("ffff:".toList ++ (ip.toText ++ rest))
      = ([0xffff, ofBytes ip.a ip.b, ofBytes ip.c ip.d], true, rest) := by
    change readGroups 7 true (hex (0xffff : UInt16).toNat ++ ':' :: (ip.toText ++ rest)) = _
    have hlater : readGroups 6 false (':' :: (ip.toText ++ rest))
        = ([ofBytes ip.a ip.b, ofBytes ip.c ip.d], true, rest) :=
      readGroups_ipv4 ((readSeparator_colon _ _).trans hread) 4
    rw [readGroups_group ((readSeparator_first _ _).trans hipv4)
      ((readSeparator_first _ _).trans hgroup), hlater]
  have hlength : ([] : List UInt16).length ≠ 8 := by decide
  have htwo : "::ffff:".toList ++ (ip.toText ++ rest)
      = ':' :: ':' :: ("ffff:".toList ++ (ip.toText ++ rest)) := rfl
  rw [readSegments, hhead]
  dsimp only
  rw [if_neg hlength, htwo]
  simp only [Bool.false_eq_true, if_false, readGivenChar, if_true, Option.bind_eq_bind,
    Option.bind_some, List.length_nil, Nat.reduceAdd, Nat.reduceSub, htail]
  rfl

end Stops

theorem ofBytes_ofNat (n : UInt16) :
  ofBytes (UInt8.ofNat (n.toNat / 256)) (UInt8.ofNat n.toNat) = n
  := by
  have hlt : n.toNat < 65536 := n.toNat_lt
  rw [← UInt16.toNat_inj, ofBytes, UInt16.toNat_ofNat', UInt8.toNat_ofNat', UInt8.toNat_ofNat']
  omega

theorem segments_of_toIpv4Mapped {ip : Ipv6Addr} {ipv4 : Ipv4Addr}
    (h : ip.toIpv4Mapped = some ipv4) :
  ip.segments = [0, 0, 0, 0, 0, 0xffff, ofBytes ipv4.a ipv4.b, ofBytes ipv4.c ipv4.d]
  := by
  rw [Ipv6Addr.toIpv4Mapped] at h
  split at h
  · next hsegments =>
    split at h
    · next hprefix =>
      obtain rfl := Option.some_injective _ h
      simp only [List.cons.injEq, and_true] at hprefix
      obtain ⟨rfl, rfl, rfl, rfl, rfl, rfl⟩ := hprefix
      rw [hsegments, ofBytes_ofNat, ofBytes_ofNat]
    · cases h
  · cases h

/-- The segments of an IPv6 address are read back. -/
theorem readSegments_toText (ip : Ipv6Addr) {rest : Text} (h : Stops rest) :
  readSegments (ip.toText ++ rest) = some (ip.segments, rest)
  := by
  rw [Ipv6Addr.toText]
  cases hmapped : ip.toIpv4Mapped with
  | some ipv4 =>
    rw [segments_of_toIpv4Mapped hmapped]
    dsimp only
    rw [List.append_assoc, h.readSegments_mapped]
  | none =>
    dsimp only
    split
    · next hlen =>
      have hzeroes := zeroes_spec ip.segments
      have hle := hzeroes.le
      have hlength := ip.length_eq
      have hsplit := hzeroes.split
      rw [List.append_assoc, List.cons_append, List.cons_append, h.readSegments_zeroes (by
        rw [List.length_take, List.length_drop]
        omega)]
      have hcount : 8 - (ip.segments.take (zeroes ip.segments).start).length
          - (ip.segments.drop ((zeroes ip.segments).start + (zeroes ip.segments).len)).length
          = (zeroes ip.segments).len := by
        rw [List.length_take, List.length_drop]
        omega
      rw [hcount, hsplit]
    · exact h.readSegments_writeGroups ip.length_eq

/-- An IPv6 address is read back. -/
theorem readIpv6Addr_toText (ip : Ipv6Addr) {rest : Text} (h : Stops rest) :
  readIpv6Addr (ip.toText ++ rest) = some (ip, rest)
  := by
  rw [readIpv6Addr, readSegments_toText ip h]
  simp [ip.length_eq]

theorem readPort_decimal (port : UInt16) :
  readPort (':' :: decimal port.toNat) = some (port, [])
  := by
  have hlt : port.toNat < 65536 := port.toNat_lt
  have hread : readNumber 10 none true 65536 (Nat.toDigits 10 port.toNat ++ [])
      = some (port.toNat, []) :=
    radix_ten.readNumber_toDigits (by simp) true hlt (by simp [NoDigit])
  rw [List.append_nil] at hread
  simp [readPort, readGivenChar, decimal, hread]

theorem readScopeId_decimal (scopeId : UInt32) {rest : Text} (hrest : NoDigit 10 rest) :
  readScopeId ('%' :: (decimal scopeId.toNat ++ rest)) = some (scopeId, rest)
  := by
  have hlt : scopeId.toNat < 4294967296 := scopeId.toNat_lt
  have hread : readNumber 10 none true 4294967296 (Nat.toDigits 10 scopeId.toNat ++ rest)
      = some (scopeId.toNat, rest) :=
    radix_ten.readNumber_toDigits (by simp) true hlt hrest
  simp [readScopeId, readGivenChar, decimal, hread]

namespace SocketAddr

/-- `to_string`. -/
def toText : SocketAddr → Text
  | .v4 ip port => ip.toText ++ ':' :: decimal port.toNat
  | .v6 ip port scopeId =>
      '[' :: ip.toText ++ (if scopeId = 0 then [] else '%' :: decimal scopeId.toNat) ++ ']' :: ':'
        :: decimal port.toNat

theorem readSocketAddrV4_toText (ip : Ipv4Addr) (port : UInt16) :
  readSocketAddrV4 (toText (.v4 ip port)) = some (.v4 ip port, [])
  := by
  have hcolon : NoDigit 10 (':' :: decimal port.toNat) := noDigit_cons (by decide) _
  simp [readSocketAddrV4, toText, readIpv4Addr_toText ip hcolon, readPort_decimal]

theorem readSocketAddrV6_toText (ip : Ipv6Addr) (port : UInt16) (scopeId : UInt32) :
  readSocketAddrV6 (toText (.v6 ip port scopeId)) = some (.v6 ip port scopeId, [])
  := by
  have hstops {c : Char} (hdigit : isDigit 16 c = false) (hdot : c ≠ '.') (hcolon : c ≠ ':')
      (s : Text) : Stops (c :: s) :=
    ⟨⟨hdigit, hdot⟩, fun _ heq => absurd (List.head_eq_of_cons_eq heq) hcolon⟩
  have hbracket := hstops (c := ']') (by decide) (by decide) (by decide) (':' :: decimal port.toNat)
  rw [toText, readSocketAddrV6, List.append_assoc, List.cons_append, readGivenChar, if_pos rfl,
    Option.bind_eq_bind, Option.bind_some]
  by_cases hscope : scopeId = 0
  · rw [if_pos hscope, List.nil_append, readIpv6Addr_toText ip hbracket, hscope]
    simp [readScopeId, readGivenChar, readPort_decimal]
  · have hpercent := hstops (c := '%') (by decide) (by decide) (by decide)
      (decimal scopeId.toNat ++ ']' :: ':' :: decimal port.toNat)
    rw [if_neg hscope, List.cons_append, readIpv6Addr_toText ip hpercent]
    simp [readScopeId_decimal scopeId hbracket.1.noDigit_ten, readGivenChar, readPort_decimal]

/-- An address with a port is read back. -/
theorem parse_toText (a : SocketAddr) :
  parse a.toText = some a
  := by
  rw [parse, parseWith]
  cases a with
  | v4 ip port =>
    rw [readSocketAddrV4_toText]
    rfl
  | v6 ip port scopeId =>
    have hnone : readSocketAddrV4 (toText (.v6 ip port scopeId)) = none := by
      have hbracket (s : Text) : readIpv4Addr ('[' :: s) = none :=
        Delimited.readIpv4Addr_eq_none (s := '[' :: s) ⟨by decide, by decide⟩
      rw [toText, readSocketAddrV4, List.append_assoc, List.cons_append, hbracket]
      rfl
    rw [hnone, readSocketAddrV6_toText]
    rfl

example :
    toText (.v6 ⟨[0xfe80, 0, 0, 0, 0, 0, 0, 1], rfl⟩ 53 3) = "[fe80::1%3]:53".toList := by
  decide +kernel

end SocketAddr

namespace IpAddr

/-- A text that is no address of either kind is no address. -/
theorem parse_eq_none {s : Text} (hipv4 : Ipv4Addr.parse s = none)
    (hipv6 : Ipv6Addr.parse s = none) :
  parse s = none
  := by
  unfold Ipv4Addr.parse parseWith at hipv4
  unfold Ipv6Addr.parse parseWith at hipv6
  unfold parse parseWith
  dsimp only
  cases h4 : readIpv4Addr s with
  | some read =>
    obtain ⟨ip, rest⟩ := read
    rw [h4] at hipv4
    cases rest with
    | nil => cases hipv4
    | cons c rest => rfl
  | none =>
    cases h6 : readIpv6Addr s with
    | none => rfl
    | some read =>
      obtain ⟨ip, rest⟩ := read
      rw [h6] at hipv6
      cases rest with
      | nil => cases hipv6
      | cons c rest => rfl

end IpAddr

end Net
