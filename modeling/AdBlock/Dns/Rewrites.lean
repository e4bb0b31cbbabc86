import AdBlock.Persist.Lines
import AdBlock.Rust.NetChars
import AdBlock.Domain.Basic

/-!
# Local records

A rewrite answers queries for a pattern of domains with an address or with another name.  Patterns
and answers are brought to a normal form when they are read, and the line of a rewrite in normal
form is read back as that rewrite (`Rewrite.readable`).
-/

namespace Dns

/-- The characters of host names. -/
def isHostChar (c : Char) : Bool :=
  c.isAlphanum || c == '.' || c == '-' || c == '_'

inductive RewriteAnswer where
  | v4 (ip : Net.Ipv4Addr)
  | cname (host : Text)
  deriving DecidableEq, Repr

namespace RewriteAnswer

def parse (s : Text) : Except Text RewriteAnswer :=
  let s := Text.trimEndChar (Text.trim s) '.'
  if s = [] then .error "answer is empty".toList
  else
    match Net.Ipv4Addr.parse s with
    | some ip => .ok (.v4 ip)
    | none =>
        if (Net.Ipv6Addr.parse s).isSome then
          .error ('\'' :: s
            ++ "': IPv6 answers are not supported (IPv4-only resolver)".toList)
        else if (Text.toAsciiLowercase s).all isHostChar then .ok (.cname (Text.toAsciiLowercase s))
        else .error ('\'' :: s ++ "' is not an IP address or a hostname".toList)

/-- `to_string`. -/
def toText : RewriteAnswer → Text
  | .v4 ip => ip.toText
  | .cname host => host

end RewriteAnswer

/-- The pattern in normal form: a host name, or `*.` in front of one. -/
def normalizePattern (domain : Text) : Except Text Text :=
  let raw := Text.toAsciiLowercase (Text.trimEndChar (Text.trim domain) '.')
  let (wild, host) := Domain.splitWildcard raw
  let host := Text.trimMatches host '.'
  if host = [] ∨ '*' ∈ host ∨ ¬ host.all isHostChar then
    .error ("invalid rewrite domain '".toList ++ domain ++ ['\''])
  else .ok (if wild then "*.".toList ++ host else host)

/-- A local record.  One that is parked stays in the list and answers nothing. -/
structure Rewrite where
  domain : Text
  answer : RewriteAnswer
  enabled : Bool
  deriving DecidableEq, Repr

namespace Rewrite

def parse (line : Text) : Option Rewrite := do
  let (line, enabled) :=
    match Text.stripPrefix line ['!'] with
    | some rest => (Text.trimStart rest, false)
    | none => (line, true)
  let (domain, answer) ← Text.splitOnceP line Unicode.isWhitespace
  let domain ← (normalizePattern domain).toOption
  let answer ← (RewriteAnswer.parse answer).toOption
  some { domain, answer, enabled }

def format (r : Rewrite) : Text :=
  (if r.enabled then [] else ['!']) ++ r.domain ++ ' ' :: r.answer.toText

def lineFormat : LineFormat Rewrite where
  parse
  format

end Rewrite

/-! ### Characters of host names -/

theorem isHostChar_iff (c : Char) :
  isHostChar c = true ↔ c.toNat = 45 ∨ c.toNat = 46 ∨ c.toNat = 95
    ∨ 48 ≤ c.toNat ∧ c.toNat ≤ 57 ∨ 65 ≤ c.toNat ∧ c.toNat ≤ 90
    ∨ 97 ≤ c.toNat ∧ c.toNat ≤ 122
  := by
  have heq (d : Char) : (c == d) = true ↔ c.toNat = d.toNat := by
    rw [beq_iff_eq, Char.toNat_inj]
  simp only [isHostChar, Bool.or_eq_true, Ascii.isAlphanum_iff, heq]
  constructor
  · intro h
    simp only [Char.reduceToNat] at h
    omega
  · intro h
    simp only [Char.reduceToNat]
    omega

theorem ne_of_isHostChar {c d : Char} (hc : isHostChar c = true) (hd : isHostChar d = false) :
  c ≠ d
  := by
  rintro rfl
  rw [hc] at hd
  cases hd

theorem isWhitespace_of_isHostChar {c : Char} (h : isHostChar c = true) :
  Unicode.isWhitespace c = false
  := by
  rw [isHostChar_iff] at h
  simp only [Unicode.isWhitespace, Bool.or_eq_false_iff, Bool.and_eq_false_iff,
    decide_eq_false_iff_not, beq_eq_false_iff_ne]
  omega

/-! ### Patterns -/

/-- A host name in normal form. -/
structure HostName (host : Text) : Prop where
  nonempty : host ≠ []
  chars : ∀ c ∈ host, isHostChar c = true
  lower : Text.IsLower host
  head : host.head? ≠ some '.'
  last : host.getLast? ≠ some '.'

/-- A pattern in normal form. -/
def IsPattern (p : Text) : Prop :=
  ∃ host, HostName host ∧ (p = host ∨ p = '*' :: '.' :: host)

theorem hostName_trimMatches {s : Text} (hlower : Text.IsLower s)
    (h : ¬ (Text.trimMatches s '.' = [] ∨ '*' ∈ Text.trimMatches s '.'
      ∨ ¬ (Text.trimMatches s '.').all isHostChar)) :
  HostName (Text.trimMatches s '.')
  := by
  rw [not_or, not_or, not_not] at h
  obtain ⟨hne, -, hchars⟩ := h
  obtain ⟨hhead, hlast⟩ := Text.ends_trimMatches s '.'
  exact
    { nonempty := hne
      chars := List.all_eq_true.mp hchars
      lower := fun c hc => hlower c (Text.mem_of_mem_trimMatches hc)
      head := hhead
      last := hlast }

/-- What is normalized has the normal form. -/
theorem isPattern_of_normalizePattern {domain p : Text} (h : normalizePattern domain = .ok p) :
  IsPattern p
  := by
  simp only [normalizePattern] at h
  split at h
  · cases h
  · next hvalid =>
    have hhost := hostName_trimMatches
      (fun c hc => Text.isLower_toAsciiLowercase _ c (Domain.mem_of_mem_splitWildcard hc)) hvalid
    cases h
    refine ⟨_, hhost, ?_⟩
    split
    · exact .inr rfl
    · exact .inl rfl

namespace HostName

variable {host : Text}

theorem isWhitespace (h : HostName host) :
  ∀ c ∈ host, Unicode.isWhitespace c = false
  := fun c hc => isWhitespace_of_isHostChar (h.chars c hc)

theorem not_mem (h : HostName host) {c : Char} (hc : isHostChar c = false) :
  c ∉ host
  := fun hmem => ne_of_isHostChar (h.chars c hmem) hc rfl

/-- The checks of a pattern accept the host name as it is. -/
theorem valid (h : HostName host) :
  Text.trimMatches host '.' = host ∧ ¬ (host = [] ∨ '*' ∈ host ∨ ¬ host.all isHostChar)
  := by
  refine ⟨Text.trimMatches_of_ends h.head h.last, ?_⟩
  rw [not_or, not_or, not_not]
  exact ⟨h.nonempty, h.not_mem rfl, List.all_eq_true.mpr h.chars⟩

end HostName

namespace IsPattern

variable {p : Text}

theorem isWhitespace (h : IsPattern p) :
  ∀ c ∈ p, Unicode.isWhitespace c = false
  := by
  obtain ⟨host, hhost, rfl | rfl⟩ := h
  · exact hhost.isWhitespace
  · rw [List.forall_mem_cons, List.forall_mem_cons]
    exact ⟨rfl, rfl, hhost.isWhitespace⟩

theorem nonempty (h : IsPattern p) :
  p ≠ []
  := by
  obtain ⟨host, hhost, rfl | rfl⟩ := h
  · exact hhost.nonempty
  · exact List.cons_ne_nil _ _

theorem not_mem (h : IsPattern p) {c : Char} (hc : isHostChar c = false) (hstar : c ≠ '*') :
  c ∉ p
  := by
  obtain ⟨host, hhost, rfl | rfl⟩ := h
  · exact hhost.not_mem hc
  · rw [List.mem_cons, List.mem_cons, not_or, not_or]
    refine ⟨hstar, ?_, hhost.not_mem hc⟩
    rintro rfl
    cases hc

/-- A pattern in normal form is normalized to itself. -/
theorem normalizePattern (h : IsPattern p) :
  normalizePattern p = .ok p
  := by
  have htrim := Text.trim_of_forall h.isWhitespace
  obtain ⟨host, hhost, rfl | rfl⟩ := h
  · have hsplit : Domain.splitWildcard p = (false, p) := by
      have hstrip : Text.stripPrefix p "*.".toList = none := by
        rw [Text.stripPrefix_eq_none_iff]
        rintro ⟨rest, hrest⟩
        apply hhost.not_mem (c := '*') rfl
        rw [← hrest]
        exact List.mem_cons_self
      rw [Domain.splitWildcard, hstrip]
    simp only [Dns.normalizePattern, htrim, Text.trimEndChar_of_last hhost.last,
      Text.toAsciiLowercase_eq_self_iff.mpr hhost.lower, hsplit, hhost.valid.1]
    rw [if_neg hhost.valid.2]
    rfl
  · have hlast : ('*' :: '.' :: host).getLast? ≠ some '.' := by
      rw [List.getLast?_cons_of_ne_nil (List.cons_ne_nil _ _),
        List.getLast?_cons_of_ne_nil hhost.nonempty]
      exact hhost.last
    have hlower : Text.IsLower ('*' :: '.' :: host) := by
      rw [Text.IsLower, List.forall_mem_cons, List.forall_mem_cons]
      exact ⟨rfl, rfl, hhost.lower⟩
    have hsplit : Domain.splitWildcard ('*' :: '.' :: host) = (true, host) := by
      have hstrip : Text.stripPrefix ('*' :: '.' :: host) "*.".toList = some host :=
        Text.stripPrefix_append "*.".toList host
      rw [Domain.splitWildcard, hstrip]
    simp only [Dns.normalizePattern, htrim, Text.trimEndChar_of_last hlast,
      Text.toAsciiLowercase_eq_self_iff.mpr hlower, hsplit, hhost.valid.1]
    rw [if_neg hhost.valid.2]
    rfl

end IsPattern

/-! ### Answers -/

/-- An answer in normal form. -/
def IsAnswer : RewriteAnswer → Prop
  | .v4 _ => True
  | .cname host => host ≠ [] ∧ (∀ c ∈ host, isHostChar c = true) ∧ Text.IsLower host
      ∧ host.getLast? ≠ some '.' ∧ Net.Ipv4Addr.parse host = none

/-- Lower case makes no address of a text that is none. -/
theorem parse_toAsciiLowercase {s : Text} (h : Net.Ipv4Addr.parse s = none) :
  Net.Ipv4Addr.parse (Text.toAsciiLowercase s) = none
  := by
  by_contra hsome
  obtain ⟨ip, hip⟩ := Option.ne_none_iff_exists'.mp hsome
  have hlower : Text.toAsciiLowercase s = s := by
    rw [Text.toAsciiLowercase_eq_self_iff]
    intro c hc
    have hchar := Net.toNat_of_isIpv4Char (Net.Ipv4Addr.forall_isIpv4Char hip c.toLower
      (List.mem_map_of_mem hc))
    rw [Ascii.toLower_eq_self_iff]
    rw [Ascii.toNat_toLower] at hchar
    split at hchar <;> omega
  rw [hlower, h] at hip
  cases hip

theorem getLast?_toAsciiLowercase {s : Text} (h : s.getLast? ≠ some '.') :
  (Text.toAsciiLowercase s).getLast? ≠ some '.'
  := by
  rw [Text.toAsciiLowercase, List.getLast?_map]
  intro hlast
  obtain ⟨c, hc, hlower⟩ := Option.map_eq_some_iff.mp hlast
  apply h
  rw [hc, Option.some.injEq, ← Char.toNat_inj]
  have hnat := congrArg Char.toNat hlower
  rw [Ascii.toNat_toLower] at hnat
  simp only [Char.reduceToNat] at hnat ⊢
  split at hnat <;> omega

theorem isAnswer_of_parse {s : Text} {answer : RewriteAnswer}
    (h : RewriteAnswer.parse s = .ok answer) :
  IsAnswer answer
  := by
  simp only [RewriteAnswer.parse] at h
  split at h
  · cases h
  · next hne =>
    split at h
    · cases h
      trivial
    · next hv4 =>
      split at h
      · cases h
      · split at h
        · next hchars =>
          cases h
          exact ⟨List.map_eq_nil_iff.not.mpr hne, List.all_eq_true.mp hchars,
            Text.isLower_toAsciiLowercase _,
            getLast?_toAsciiLowercase (Text.getLast?_trimEndChar _ '.'),
            parse_toAsciiLowercase hv4⟩
        · cases h

namespace IsAnswer

variable {answer : RewriteAnswer}

theorem isHostChar (h : IsAnswer answer) :
  ∀ c ∈ answer.toText, isHostChar c = true
  := by
  cases answer with
  | v4 ip =>
    intro c hc
    have hchar := Net.toNat_of_isIpv4Char
      (Net.Ipv4Addr.forall_isIpv4Char (Net.Ipv4Addr.parse_toText ip) c hc)
    rw [isHostChar_iff]
    omega
  | cname host => exact h.2.1

theorem getLast? (h : IsAnswer answer) :
  answer.toText.getLast? ≠ some '.'
  := by
  cases answer with
  | v4 ip => exact ip.getLast?_toText
  | cname host => exact h.2.2.2.1

theorem nonempty (h : IsAnswer answer) :
  answer.toText ≠ []
  := by
  cases answer with
  | v4 ip =>
    intro hnil
    have hparse := Net.Ipv4Addr.parse_toText ip
    rw [show ip.toText = [] from hnil] at hparse
    cases hparse
  | cname host => exact h.1

/-- The text of an answer in normal form is read as that answer. -/
theorem parse (h : IsAnswer answer) :
  RewriteAnswer.parse answer.toText = .ok answer
  := by
  have htrim := Text.trim_of_forall fun c hc => isWhitespace_of_isHostChar (h.isHostChar c hc)
  simp only [RewriteAnswer.parse, htrim, Text.trimEndChar_of_last h.getLast?]
  rw [if_neg h.nonempty]
  cases answer with
  | v4 ip => simp only [RewriteAnswer.toText, Net.Ipv4Addr.parse_toText]
  | cname host =>
    obtain ⟨-, hchars, hlower, -, hv4⟩ := h
    have hv6 : ¬ (Net.Ipv6Addr.parse host).isSome = true := by
      intro hsome
      obtain ⟨ip, hip⟩ := Option.isSome_iff_exists.mp hsome
      exact ne_of_isHostChar (hchars ':' (Net.Ipv6Addr.parse_spec hip).2) rfl rfl
    simp only [RewriteAnswer.toText, hv4, Text.toAsciiLowercase_eq_self_iff.mpr hlower]
    rw [if_neg hv6, if_pos (List.all_eq_true.mpr hchars)]

end IsAnswer

/-! ### Lines -/

/-- A rewrite whose pattern and answer are in normal form. -/
structure Rewrite.Normal (r : Rewrite) : Prop where
  domain : IsPattern r.domain
  answer : IsAnswer r.answer

namespace Rewrite.Normal

variable {r : Rewrite}

theorem head? (h : Normal r) :
  ∀ c ∈ (r.domain ++ ' ' :: r.answer.toText).head?, c ∈ r.domain
  := by
  obtain ⟨c, rest, hdomain⟩ := List.exists_cons_of_ne_nil h.domain.nonempty
  rw [hdomain, List.cons_append, List.head?_cons]
  rintro d ⟨⟩
  exact List.mem_cons_self

theorem not_mem_format (h : Normal r) {c : Char} (hc : isHostChar c = false) (hstar : c ≠ '*')
    (hmark : c ≠ '!') (hspace : c ≠ ' ') :
  c ∉ r.format
  := by
  have hanswer : c ∉ r.answer.toText := fun hmem =>
    ne_of_isHostChar (h.answer.isHostChar c hmem) hc rfl
  rw [Rewrite.format, List.mem_append, List.mem_append, List.mem_cons, not_or, not_or, not_or]
  refine ⟨⟨?_, h.domain.not_mem hc hstar⟩, hspace, hanswer⟩
  split
  · exact List.not_mem_nil
  · exact fun hmem => hmark (List.mem_singleton.mp hmem)

theorem trim_format (h : Normal r) :
  Text.trim r.format = r.format
  := by
  apply Text.trim_of_ends
  · intro c hc
    rw [Rewrite.format] at hc
    cases henabled : r.enabled with
    | true =>
      rw [henabled] at hc
      exact h.domain.isWhitespace c (h.head? c hc)
    | false =>
      rw [henabled] at hc
      cases hc
      rfl
  · intro c hc
    rw [Rewrite.format, List.getLast?_append_of_ne_nil _ (List.cons_ne_nil _ _),
      List.getLast?_cons_of_ne_nil h.answer.nonempty] at hc
    exact isWhitespace_of_isHostChar (h.answer.isHostChar c (List.mem_of_mem_getLast? hc))

theorem parse_format (h : Normal r) :
  Rewrite.parse r.format = some r
  := by
  have hsplit := Text.splitOnceP_append (p := Unicode.isWhitespace) (c := ' ')
    h.domain.isWhitespace rfl r.answer.toText
  obtain ⟨domain, answer, enabled⟩ := r
  cases enabled with
  | true =>
    have hstrip : Text.stripPrefix (domain ++ ' ' :: answer.toText) ['!'] = none := by
      rw [Text.stripPrefix_eq_none_iff]
      rintro ⟨rest, hrest⟩
      apply h.domain.not_mem (c := '!') rfl (by decide)
      apply h.head?
      rw [← hrest]
      rfl
    simp only [Rewrite.parse, Rewrite.format, if_true, List.nil_append, hstrip]
    rw [hsplit]
    simp only [Option.bind_eq_bind, Option.bind_some, h.domain.normalizePattern, h.answer.parse,
      Except.toOption]
  | false =>
    have hstrip : Text.stripPrefix (['!'] ++ domain ++ ' ' :: answer.toText) ['!']
        = some (domain ++ ' ' :: answer.toText) := by
      rw [List.append_assoc]
      exact Text.stripPrefix_append _ _
    have hstart : Text.trimStart (domain ++ ' ' :: answer.toText)
        = domain ++ ' ' :: answer.toText :=
      Text.trimStart_of_head fun c hc => h.domain.isWhitespace c (h.head? c hc)
    simp only [Rewrite.parse, Rewrite.format, Bool.false_eq_true, if_false, hstrip, hstart]
    rw [hsplit]
    simp only [Option.bind_eq_bind, Option.bind_some, h.domain.normalizePattern, h.answer.parse,
      Except.toOption]

/-- The line of a rewrite in normal form is read back. -/
theorem readable (h : Normal r) :
  PersistedSet.Readable Rewrite.lineFormat r
  where
  no_feed := h.not_mem_format rfl (by decide) (by decide) (by decide)
  no_return := h.not_mem_format rfl (by decide) (by decide) (by decide)
  stripped := by
    change stripComment r.format = r.format
    rw [PersistedSet.stripComment_of_not_mem
      (h.not_mem_format rfl (by decide) (by decide) (by decide))]
    exact h.trim_format
  nonempty := List.append_ne_nil_of_right_ne_nil _ (List.cons_ne_nil _ _)
  parses := h.parse_format

end Rewrite.Normal

end Dns
