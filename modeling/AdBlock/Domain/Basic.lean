import AdBlock.Rust.Ascii

/-!
# Domains and subdomains

A domain in lower case covers itself and its subdomains.  Names are compared as they are spelled:
a name whose lower case is covered is covered itself exactly if the part that is compared is in
lower case (`covers_iff`).
-/

namespace Domain

/-- The name is a subdomain of the domain. -/
def coversSub (domain name : Text) : Bool :=
  Text.endsWith name ('.' :: domain)

/-- The name is the domain or a subdomain of it. -/
def covers (domain name : Text) : Bool :=
  name == domain || coversSub domain name

/-- The end of a name, as long as a domain. -/
def tail (domain name : Text) : Text :=
  name.drop (name.length - domain.length)

/-- Whether a pattern has `*.` in front, and what follows. -/
def splitWildcard (pattern : Text) : Bool × Text :=
  match Text.stripPrefix pattern "*.".toList with
  | some rest => (true, rest)
  | none => (false, pattern)

theorem append_splitWildcard (pattern : Text) :
  (if (splitWildcard pattern).1 then "*.".toList else []) ++ (splitWildcard pattern).2 = pattern
  := by
  unfold splitWildcard
  split
  · next rest hstrip => exact (Text.eq_append_of_stripPrefix hstrip).symm
  · rfl

theorem mem_of_mem_splitWildcard {pattern : Text} {c : Char} (h : c ∈ (splitWildcard pattern).2) :
  c ∈ pattern
  := by
  rw [← append_splitWildcard pattern]
  exact List.mem_append_right _ h

theorem coversSub_iff_suffix {domain name : Text} :
  coversSub domain name = true ↔ ('.' :: domain) <:+ name
  := List.isSuffixOf_iff_suffix

theorem covers_iff_suffix {domain name : Text} :
  covers domain name = true ↔ name = domain ∨ ('.' :: domain) <:+ name
  := by
  rw [covers, Bool.or_eq_true_iff, beq_iff_eq, coversSub_iff_suffix]

theorem toLower_eq_dot {c : Char} (h : c.toLower = '.') :
  c = '.'
  := by
  have hnat := congrArg Char.toNat h
  rw [Ascii.toNat_toLower] at hnat
  rw [← Char.toNat_inj]
  simp only [Char.reduceToNat] at hnat ⊢
  split at hnat <;> omega

theorem tail_append {front rest domain : Text} (hlength : rest.length = domain.length) :
  tail domain (front ++ rest) = rest
  := by
  apply List.drop_left'
  rw [List.length_append, hlength, Nat.add_sub_cancel]

theorem coversSub_iff {domain name : Text} (hdomain : Text.IsLower domain) :
  coversSub domain name = true
    ↔ coversSub domain (Text.toAsciiLowercase name) = true ∧ Text.IsLower (tail domain name)
  := by
  have hself := Text.toAsciiLowercase_eq_self_iff.mpr hdomain
  rw [coversSub_iff_suffix, coversSub_iff_suffix]
  constructor
  · rintro ⟨front, rfl⟩
    constructor
    · use Text.toAsciiLowercase front
      rw [Text.toAsciiLowercase, Text.toAsciiLowercase, List.map_append, List.map_cons]
      congr 2
      exact hself.symm
    · rw [List.append_cons, tail_append rfl]
      exact hdomain
  · rintro ⟨⟨front, hfront⟩, hlower⟩
    obtain ⟨front', rest, rfl, rfl, hrest⟩ := List.map_eq_append_iff.mp hfront.symm
    obtain ⟨c, rest, rfl, hc, hrest⟩ := List.map_eq_cons_iff.mp hrest
    have hlength : rest.length = domain.length := by
      rw [← hrest, List.length_map]
    rw [List.append_cons, tail_append hlength] at hlower
    use front'
    rw [toLower_eq_dot hc, ← hrest]
    exact congrArg (fun rest => front' ++ '.' :: rest) (Text.toAsciiLowercase_eq_self_iff.mpr hlower)

theorem covers_iff {domain name : Text} (hdomain : Text.IsLower domain) :
  covers domain name = true
    ↔ covers domain (Text.toAsciiLowercase name) = true ∧ Text.IsLower (tail domain name)
  := by
  have hself := Text.toAsciiLowercase_eq_self_iff.mpr hdomain
  rw [covers, covers, Bool.or_eq_true_iff, Bool.or_eq_true_iff, beq_iff_eq, beq_iff_eq,
    coversSub_iff hdomain]
  have htail {name : Text} (hlength : name.length = domain.length) : tail domain name = name := by
    exact @tail_append [] name domain hlength
  constructor
  · rintro (rfl | ⟨hsub, hlower⟩)
    · rw [htail rfl]
      exact ⟨.inl hself, hdomain⟩
    · exact ⟨.inr hsub, hlower⟩
  · rintro ⟨heq | hsub, hlower⟩
    · have hlength : name.length = domain.length := by
        rw [← heq, Text.toAsciiLowercase, List.length_map]
      rw [htail hlength, ← Text.toAsciiLowercase_eq_self_iff] at hlower
      exact .inl (hlower.symm.trans heq)
    · exact .inr ⟨hsub, hlower⟩

end Domain
