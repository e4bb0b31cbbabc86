import AdBlock.Dns.Commands
import AdBlock.Dns.Durability
import AdBlock.Rust.NetChars
import AdBlock.Rust.NetText

/-!
# A new upstream server

A new server is stored with a spec that is put together from its transport, its host and port, its
path, the address that its host has and its name.  The spec is taken apart again at the characters
`#`, `!`, `:`, `?` and `/`, at brackets and with default ports.  Whatever the host is that was
typed, if the server is accepted, then its spec is read as what was typed (`added_asTyped`).
-/

namespace Dns

namespace UpstreamAddr

/-! ### The parts of a spec -/

/-- The address and the label. -/
def labelOf (spec : Text) : Text × Text :=
  match Text.splitOnce spec '#' with
  | some (a, n) => (Text.trimEnd a, Text.trim n)
  | none => (spec, [])

/-- The address without the `!`, and whether there is none. -/
def enabledOf (addr : Text) : Text × Bool :=
  match Text.stripPrefix addr ['!'] with
  | some a => (Text.trimStart a, false)
  | none => (addr, true)

/-- What is in front of the parameters, and the address that is pinned. -/
def pinnedOf (spec rest : Text) : Except Text (Text × Option Net.Ipv4Addr) :=
  match Text.splitOnce rest '?' with
  | some (r, q) => (inSpec spec (parsePinnedIp q)).map (r, ·)
  | none => .ok (rest, none)

def pathOf (rest : Text) : Text × Text :=
  match Text.splitOnce rest '/' with
  | some (a, p) => (a, '/' :: p)
  | none => (rest, "/dns-query".toList)

/-- The server, unless there is no host or it is an IPv6 address. -/
def checked (a : UpstreamAddr) : Except Text UpstreamAddr :=
  if a.host = [] then
    .error ("upstream ".toList ++ quoted a.spec ++ ": empty host".toList)
  else if (Net.Ipv6Addr.parse a.host).isSome then
    .error ("upstream ".toList ++ quoted a.spec
      ++ ": IPv6 upstreams are not supported (IPv4-only resolver)".toList)
  else .ok a

/-- A spec is read part by part. -/
theorem parse_eq (text : Text) :
  parse text = (do
    let spec := Text.trim text
    let addr := (labelOf spec).1
    let (scheme, rest) ← parseScheme spec (enabledOf addr).1
    let (rest, ip) ← pinnedOf spec rest
    let (host, port) ← inSpec spec (splitHostPort (pathOf rest).1 (defaultPort scheme))
    checked
      { spec, name := (labelOf spec).2, enabled := (enabledOf addr).2, scheme, host, ip, port,
        path := (pathOf rest).2 })
  := by
  unfold parse
  apply bind_congr
  rintro ⟨scheme, rest⟩
  dsimp only [pinnedOf]
  cases Text.splitOnce rest '?' with
  | none => rfl
  | some split => rfl

/-- How a spec is read as a server. -/
structure Reads (spec rest r : Text) (a : UpstreamAddr) : Prop where
  scheme : parseScheme spec (enabledOf (labelOf spec).1).1 = .ok (a.scheme, rest)
  pinned : pinnedOf spec rest = .ok (r, a.ip)
  authority : splitHostPort (pathOf r).1 (defaultPort a.scheme) = .ok (a.host, a.port)
  path : a.path = (pathOf r).2
  name : a.name = (labelOf spec).2
  enabled : a.enabled = (enabledOf (labelOf spec).1).2
  host : a.host ≠ []
  notIpv6 : Net.Ipv6Addr.parse a.host = none

theorem inSpec_eq_ok {α : Type} {spec : Text} {x : Except Text α} {y : α}
    (h : inSpec spec x = .ok y) :
  x = .ok y
  := by
  cases x with
  | error e => cases h
  | ok x => exact h

theorem checked_eq_ok {a a' : UpstreamAddr} (h : checked a = .ok a') :
  a = a' ∧ a.host ≠ [] ∧ Net.Ipv6Addr.parse a.host = none
  := by
  rw [checked] at h
  split at h
  · cases h
  · rename_i hhost
    split at h
    · cases h
    · rename_i hipv6
      injection h with h
      exact ⟨h, hhost, Option.not_isSome_iff_eq_none.mp hipv6⟩

theorem reads_of_parse {text : Text} {a : UpstreamAddr} (h : parse text = .ok a) :
  ∃ rest r, Reads (Text.trim text) rest r a
  := by
  rw [parse_eq] at h
  obtain ⟨⟨scheme, rest⟩, hscheme, h⟩ := Fallible.bind_eq_ok h
  obtain ⟨⟨r, ip⟩, hpinned, h⟩ := Fallible.bind_eq_ok h
  obtain ⟨⟨host, port⟩, hauthority, h⟩ := Fallible.bind_eq_ok h
  obtain ⟨rfl, hhost, hipv6⟩ := checked_eq_ok h
  exact ⟨rest, r, hscheme, hpinned, inSpec_eq_ok hauthority, rfl, rfl, rfl, hhost, hipv6⟩

/-! ### The parts of an address -/

/-- The text has no whitespace and none of the characters that end an address. -/
def Clean (s : Text) : Prop :=
  ∀ c ∈ s, Unicode.isWhitespace c = false ∧ c ≠ '#' ∧ c ≠ '?'

theorem Clean.append {s t : Text} (hs : Clean s) (ht : Clean t) :
  Clean (s ++ t)
  := List.forall_mem_append.mpr ⟨hs, ht⟩

theorem Clean.of_subset {s t : Text} (ht : Clean t) (h : s ⊆ t) :
  Clean s
  := fun c hc => ht c (h hc)

theorem clean_asStr (scheme : Scheme) :
  Clean (scheme.asStr ++ "://".toList)
  := by
  have hall : ∀ c ∈ scheme.asStr ++ "://".toList,
      (!Unicode.isWhitespace c && c != '#' && c != '?') = true := by
    cases scheme <;> decide
  intro c hc
  have h := hall c hc
  simp only [Bool.and_eq_true, Bool.not_eq_true', bne_iff_ne] at h
  exact ⟨h.1.1, h.1.2, h.2⟩

/-- The part of a spec that starts with a transport. -/
theorem parseScheme_asStr (spec : Text) (scheme : Scheme) (rest : Text) :
  parseScheme spec (enabledOf (scheme.asStr ++ "://".toList ++ rest)).1 = .ok (scheme, rest)
    ∧ (enabledOf (scheme.asStr ++ "://".toList ++ rest)).2 = true
  := by
  have hcolon : ':' ∉ scheme.asStr := by
    cases scheme <;> decide
  have henabled : enabledOf (scheme.asStr ++ "://".toList ++ rest)
      = (scheme.asStr ++ "://".toList ++ rest, true) := by
    cases scheme <;> rfl
  have hsplit : Text.splitOnceText "://".toList (scheme.asStr ++ ("://".toList ++ rest))
      = some (scheme.asStr, rest) := Text.splitOnceText_append hcolon rest
  rw [henabled]
  refine ⟨?_, rfl⟩
  rw [List.append_assoc, parseScheme, hsplit]
  cases scheme <;> rfl

/-- The address of a typed host, up to a label. -/
theorem labelOf_typed (scheme : Scheme) {host : Text}
    (hspace : ∀ c ∈ host, Unicode.isWhitespace c = false) :
  ∃ h, h ⊆ host ∧ '#' ∉ h
    ∧ (labelOf (scheme.asStr ++ "://".toList ++ host)).1 = scheme.asStr ++ "://".toList ++ h
  := by
  have hscheme : '#' ∉ scheme.asStr ++ "://".toList := fun h => (clean_asStr scheme _ h).2.1 rfl
  rcases Text.splitOnce_cases host '#' with ⟨hhost, -⟩ | ⟨h, label, hh, rfl, -⟩
  · have hnone : '#' ∉ scheme.asStr ++ "://".toList ++ host := by
      rw [List.mem_append, not_or]
      exact ⟨hscheme, hhost⟩
    use host, List.Subset.refl _, hhost
    rw [labelOf, Text.splitOnce_none hnone]
  · have hsub : h ⊆ h ++ '#' :: label := List.subset_append_left _ _
    have hfront : '#' ∉ scheme.asStr ++ "://".toList ++ h := by
      rw [List.mem_append, not_or]
      exact ⟨hscheme, hh⟩
    use h, hsub, hh
    rw [labelOf, ← List.append_assoc, Text.splitOnce_append hfront]
    apply Text.trimEnd_of_forall
    intro c hc
    rcases List.mem_append.mp hc with hc | hc
    · apply (clean_asStr scheme c hc).1
    · apply hspace c (hsub hc)

theorem pinnedOf_eq_ok {spec rest r : Text} {ip : Option Net.Ipv4Addr}
    (h : pinnedOf spec rest = .ok (r, ip)) :
  r ⊆ rest ∧ '?' ∉ r
  := by
  rw [pinnedOf] at h
  rcases Text.splitOnce_cases rest '?' with ⟨hrest, hnone⟩ | ⟨r', q, hr', rfl, hsome⟩
  · rw [hnone] at h
    injection h with h
    obtain ⟨rfl, -⟩ := Prod.mk.inj h
    exact ⟨List.Subset.refl _, hrest⟩
  · rw [hsome] at h
    cases hpin : inSpec spec (parsePinnedIp q) with
    | error e =>
      simp only [hpin] at h
      cases h
    | ok ip' =>
      simp only [hpin] at h
      injection h with h
      obtain ⟨rfl, -⟩ := Prod.mk.inj h
      exact ⟨List.subset_append_left _ _, hr'⟩

/-- The authority has no slash, and the path starts with one. -/
theorem pathOf_spec (r : Text) :
  (pathOf r).1 ⊆ r ∧ '/' ∉ (pathOf r).1
    ∧ ∃ p, (pathOf r).2 = '/' :: p ∧ (p ⊆ r ∨ p = "dns-query".toList)
  := by
  rw [pathOf]
  rcases Text.splitOnce_cases r '/' with ⟨hr, hnone⟩ | ⟨authority, p, hauthority, rfl, hsome⟩
  · rw [hnone]
    exact ⟨List.Subset.refl _, hr, _, rfl, .inr rfl⟩
  · rw [hsome]
    refine ⟨List.subset_append_left _ _, hauthority, p, rfl, .inl ?_⟩
    intro c hc
    apply List.mem_append_right
    apply List.mem_cons_of_mem _ hc

theorem parsePort_map_eq_ok {s h host : Text} {port : UInt16}
    (hok : (parsePort s).map (h, ·) = .ok (host, port)) :
  h = host
  := by
  cases hport : parsePort s with
  | error e =>
    rw [hport] at hok
    cases hok
  | ok p =>
    rw [hport] at hok
    injection hok with hok
    exact (Prod.mk.inj hok).1

/-- The host is a part of the authority.  If it starts with a bracket, then it was in brackets. -/
theorem splitHostPort_eq_ok {authority host : Text} {defaultPort port : UInt16}
    (h : splitHostPort authority defaultPort = .ok (host, port)) :
  host ⊆ authority ∧ (host.head? = some '[' → ']' ∉ host)
  := by
  rw [splitHostPort] at h
  cases hstrip : Text.stripPrefix authority ['['] with
  | some rest =>
    have hrest : rest ⊆ authority := fun c hc => Text.mem_of_stripPrefix hstrip hc
    simp only [hstrip] at h
    rcases Text.splitOnce_cases rest ']' with ⟨-, hnone⟩ | ⟨host', tail, hhost', rfl, hsome⟩
    · rw [hnone] at h
      cases h
    · have hsub : host' ⊆ authority := fun c hc => hrest (List.mem_append_left _ hc)
      have heq : host' = host := by
        simp only [hsome] at h
        split at h
        · apply parsePort_map_eq_ok h
        · injection h with h
          exact (Prod.mk.inj h).1
      subst heq
      exact ⟨hsub, fun _ => hhost'⟩
  | none =>
    simp only [hstrip] at h
    -- a part from the start of the authority does not start with a bracket either
    have hfront : host <+: authority := by
      split at h
      · injection h with h
        rw [(Prod.mk.inj h).1]
      · rcases Text.rsplitOnce_cases authority ':' with ⟨-, hnone⟩ | ⟨host', p, -, rfl, hsome⟩
        · rw [hnone] at h
          injection h with h
          rw [(Prod.mk.inj h).1]
        · simp only [hsome] at h
          rw [← parsePort_map_eq_ok h]
          apply List.prefix_append
    refine ⟨hfront.subset, ?_⟩
    intro hhead
    obtain ⟨tail, rfl⟩ := List.head?_eq_some_iff.mp hhead
    apply absurd _ (Text.stripPrefix_eq_none_iff.mp hstrip)
    exact List.IsPrefix.trans (List.prefix_append ['['] tail) hfront

/-- What a typed host is read as. -/
theorem typed_spec {scheme : Scheme} {host : Text} {typed : UpstreamAddr}
    (hspace : ∀ c ∈ host, Unicode.isWhitespace c = false)
    (h : parse (scheme.asStr ++ "://".toList ++ host) = .ok typed) :
  typed.scheme = scheme ∧ Clean typed.host ∧ '/' ∉ typed.host
    ∧ (typed.host.head? = some '[' → ']' ∉ typed.host) ∧ typed.host ≠ []
    ∧ Net.Ipv6Addr.parse typed.host = none ∧ ∃ p, typed.path = '/' :: p ∧ Clean p
  := by
  have htrim : Text.trim (scheme.asStr ++ "://".toList ++ host)
      = scheme.asStr ++ "://".toList ++ host := by
    apply Text.trim_of_forall
    intro c hc
    rcases List.mem_append.mp hc with hc | hc
    · apply (clean_asStr scheme c hc).1
    · apply hspace c hc
  obtain ⟨rest, r, hreads⟩ := reads_of_parse h
  rw [htrim] at hreads
  obtain ⟨h', hsub, hlabel, haddr⟩ := labelOf_typed scheme hspace
  have hscheme := hreads.scheme
  rw [haddr, (parseScheme_asStr _ scheme h').1] at hscheme
  injection hscheme with hscheme
  obtain ⟨rfl, rfl⟩ := Prod.mk.inj hscheme
  obtain ⟨hr, hquery⟩ := pinnedOf_eq_ok hreads.pinned
  have hclean : Clean r := by
    intro c hc
    refine ⟨hspace c (hsub (hr hc)), ?_, ?_⟩
    · rintro rfl
      exact hlabel (hr hc)
    · rintro rfl
      exact hquery hc
  obtain ⟨hauthority, hslash, p, hpath, hp⟩ := pathOf_spec r
  obtain ⟨hhost, hbracket⟩ := splitHostPort_eq_ok hreads.authority
  refine ⟨rfl, hclean.of_subset (List.Subset.trans hhost hauthority), fun hc => hslash (hhost hc),
    hbracket, hreads.host, hreads.notIpv6, p, hreads.path.trans hpath, ?_⟩
  rcases hp with hp | rfl
  · apply hclean.of_subset hp
  · unfold Clean
    decide

/-! ### Numbers and addresses in a spec -/

theorem not_mem_of_isIpv4Char {s : Text} (h : ∀ c ∈ s, Net.isIpv4Char c = true) {d : Char}
    (hd : Net.isIpv4Char d = false) :
  d ∉ s
  := by
  intro hmem
  rw [h d hmem] at hd
  cases hd

theorem isWhitespace_of_isIpv4Char {c : Char} (h : Net.isIpv4Char c = true) :
  Unicode.isWhitespace c = false
  := by
  have hrange := Net.toNat_of_isIpv4Char h
  simp only [Unicode.isWhitespace, Bool.or_eq_false_iff, Bool.and_eq_false_iff, beq_eq_false_iff_ne,
    decide_eq_false_iff_not]
  omega

theorem isIpv4Char_decimal (n : ℕ) :
  ∀ c ∈ Net.decimal n, Net.isIpv4Char c = true
  := by
  intro c hc
  rw [Net.isIpv4Char, Net.radix_ten.isDigit_toDigits n c hc]
  rfl

theorem isIpv4Char_toText (ip : Net.Ipv4Addr) :
  ∀ c ∈ ip.toText, Net.isIpv4Char c = true
  := Net.Ipv4Addr.forall_isIpv4Char ip.parse_toText

theorem parsePort_decimal (port : UInt16) :
  parsePort (Net.decimal port.toNat) = .ok port
  := by
  have hlt : port.toNat < 65536 := port.toNat_lt
  have hplus : Text.stripPrefix (Net.decimal port.toNat) ['+'] = none := by
    rw [Text.stripPrefix_eq_none_iff]
    intro hfront
    have hmem : '+' ∈ Net.decimal port.toNat := hfront.subset (List.mem_singleton_self '+')
    exact not_mem_of_isIpv4Char (isIpv4Char_decimal _) (by decide) hmem
  have hdigits : (Net.decimal port.toNat).all (Net.isDigit 10) = true :=
    List.all_eq_true.mpr (Net.radix_ten.isDigit_toDigits port.toNat)
  have hvalue : Net.ofDigits 10 (Net.decimal port.toNat) = port.toNat :=
    Net.radix_ten.ofDigits_toDigits port.toNat
  rw [parsePort, Net.parseU16, hplus, Option.getD_none, hvalue,
    if_pos ⟨Nat.toDigits_ne_nil, hdigits, hlt⟩, UInt16.ofNat_toNat]

theorem parsePinnedIp_toText (ip : Net.Ipv4Addr) :
  parsePinnedIp ("ip=".toList ++ ip.toText) = .ok (some ip)
  := by
  have hspace : ∀ c ∈ "ip=".toList ++ ip.toText, Unicode.isWhitespace c = false := by
    intro c hc
    rcases List.mem_append.mp hc with hc | hc
    · have hall : ∀ c ∈ "ip=".toList, Unicode.isWhitespace c = false := by decide
      apply hall c hc
    · apply isWhitespace_of_isIpv4Char (isIpv4Char_toText ip c hc)
  have hsingle : ("ip=".toList ++ ip.toText).splitOn '&' = ["ip=".toList ++ ip.toText] := by
    apply List.splitOnP_eq_singleton
    intro c hc
    rcases List.mem_append.mp hc with hc | hc
    · have hall : ∀ c ∈ "ip=".toList, (c == '&') = false := by decide
      apply hall c hc
    · rw [beq_eq_false_iff_ne]
      rintro rfl
      exact not_mem_of_isIpv4Char (isIpv4Char_toText ip) (by decide) hc
  rw [parsePinnedIp, hsingle, List.findSome?_cons, Text.trim_of_forall hspace,
    Text.stripPrefix_append]
  simp only [ip.parse_toText]

/-- A host and a port that are put together are taken apart again, unless they read as an IPv6
address. -/
theorem splitHostPort_join {host host' : Text} {port port' defaultPort : UInt16}
    (hbracket : host.head? = some '[' → ']' ∉ host) (hne : host ≠ [])
    (h : splitHostPort (host ++ ':' :: Net.decimal port.toNat) defaultPort = .ok (host', port'))
    (hipv6 : Net.Ipv6Addr.parse host' = none) :
  host' = host ∧ port' = port
  := by
  rw [splitHostPort] at h
  cases hstrip : Text.stripPrefix (host ++ ':' :: Net.decimal port.toNat) ['['] with
  | some rest =>
    obtain ⟨c, tail, rfl⟩ := List.exists_cons_of_ne_nil hne
    obtain ⟨rfl, hrest⟩ := List.cons.inj (Text.eq_append_of_stripPrefix hstrip)
    have hclosed : ']' ∉ tail ++ ':' :: Net.decimal port.toNat := by
      have hdigits := not_mem_of_isIpv4Char (isIpv4Char_decimal port.toNat)
        (by decide : Net.isIpv4Char ']' = false)
      have htail : ']' ∉ tail := fun hmem => hbracket rfl (List.mem_cons_of_mem _ hmem)
      simp [hdigits, htail]
    rw [show tail ++ ':' :: Net.decimal port.toNat = rest from hrest] at hclosed
    simp only [hstrip, Text.splitOnce_none hclosed] at h
    cases h
  | none =>
    simp only [hstrip] at h
    split at h
    · rename_i hsome
      injection h with h
      rw [(Prod.mk.inj h).1, hipv6] at hsome
      cases hsome
    · have hcolon : ':' ∉ Net.decimal port.toNat :=
        not_mem_of_isIpv4Char (isIpv4Char_decimal _) (by decide)
      simp only [Text.rsplitOnce_append hcolon, parsePort_decimal] at h
      injection h with h
      obtain ⟨rfl, rfl⟩ := Prod.mk.inj h
      exact ⟨rfl, rfl⟩

/-! ### The spec that is stored -/

/-- The part of a spec in front of the label. -/
def Address (before : Text) : Prop :=
  ∀ c ∈ before, Unicode.isWhitespace c = false ∧ c ≠ '#'

theorem Address.append {s t : Text} (hs : Address s) (ht : Address t) :
  Address (s ++ t)
  := List.forall_mem_append.mpr ⟨hs, ht⟩

theorem Clean.address {s : Text} (h : Clean s) :
  Address s
  := fun c hc => ⟨(h c hc).1, (h c hc).2.1⟩

theorem labelOf_address {before name : Text} (hbefore : Address before)
    (hname : Text.trim name = name) :
  labelOf (before ++ '#' :: name) = (before, name)
  := by
  have hlabel : '#' ∉ before := fun hc => (hbefore _ hc).2 rfl
  rw [labelOf, Text.splitOnce_append hlabel]
  simp only [Text.trimEnd_of_forall fun c hc => (hbefore c hc).1, hname]

theorem clean_of_isIpv4Char {s : Text} (h : ∀ c ∈ s, Net.isIpv4Char c = true) :
  Clean s
  := by
  intro c hc
  refine ⟨isWhitespace_of_isIpv4Char (h c hc), ?_, ?_⟩
  · rintro rfl
    exact not_mem_of_isIpv4Char h (by decide) hc
  · rintro rfl
    exact not_mem_of_isIpv4Char h (by decide) hc

/-- What pins an address in a spec. -/
def pinText : Option Net.Ipv4Addr → Text
  | none => []
  | some ip => "?ip=".toList ++ ip.toText

/-- What is pinned in a spec is read back. -/
theorem pinnedOf_pinText {r : Text} (hr : Clean r) (spec : Text) (ip : Option Net.Ipv4Addr) :
  pinnedOf spec (r ++ pinText ip) = .ok (r, ip)
  := by
  have hquery : '?' ∉ r := fun hc => (hr _ hc).2.2 rfl
  cases ip with
  | none => rw [pinnedOf, pinText, List.append_nil, Text.splitOnce_none hquery]
  | some ip =>
    have hpin : r ++ pinText (some ip) = r ++ '?' :: ("ip=".toList ++ ip.toText) := rfl
    rw [pinnedOf, hpin, Text.splitOnce_append hquery]
    simp only [parsePinnedIp_toText]
    rfl

theorem address_pinText (ip : Option Net.Ipv4Addr) :
  Address (pinText ip)
  := by
  cases ip with
  | none => exact List.forall_mem_nil _
  | some ip =>
    have hip : Address "?ip=".toList := by
      unfold Address
      decide
    apply hip.append (clean_of_isIpv4Char (isIpv4Char_toText ip)).address

theorem pathOf_append {authority path : Text} (h : '/' ∉ authority)
    (hpath : path = [] ∨ ∃ p, path = '/' :: p) :
  (pathOf (authority ++ path)).1 = authority
    ∧ (path ≠ [] → (pathOf (authority ++ path)).2 = path)
  := by
  rcases hpath with rfl | ⟨p, rfl⟩
  · rw [List.append_nil, pathOf, Text.splitOnce_none h]
    exact ⟨rfl, fun hne => absurd rfl hne⟩
  · rw [pathOf, Text.splitOnce_append h]
    exact ⟨rfl, fun _ => rfl⟩

/-- A spec with a label is not changed by trimming. -/
theorem trim_labelled (scheme : Scheme) (rest : Text) {name : Text} (hname : Text.trim name = name)
    (hne : name ≠ []) :
  Text.trim (scheme.asStr ++ "://".toList ++ rest ++ '#' :: name)
    = scheme.asStr ++ "://".toList ++ rest ++ '#' :: name
  := by
  apply Text.trim_of_ends
  · have hhead : (scheme.asStr ++ "://".toList ++ rest ++ '#' :: name).head?
        = scheme.asStr.head? := by
      cases scheme <;> rfl
    rw [hhead]
    intro c hc
    cases scheme <;> cases hc <;> rfl
  · have hlast : (scheme.asStr ++ "://".toList ++ rest ++ '#' :: name).getLast?
        = name.getLast? := by
      rw [List.append_cons, List.getLast?_append_of_ne_nil _ hne]
    rw [hlast, ← hname]
    exact fun c hc => Text.getLast?_trim hc

/-- A spec that is put together and accepted is read as what it was put together from. -/
theorem stored_spec {scheme : Scheme} {host path name : Text} {port : UInt16}
    {ip : Option Net.Ipv4Addr} {a : UpstreamAddr} (hhost : Clean host) (hslash : '/' ∉ host)
    (hbracket : host.head? = some '[' → ']' ∉ host) (hne : host ≠ [])
    (hpath : path = [] ∨ ∃ p, path = '/' :: p) (hclean : Clean path)
    (hname : Text.trim name = name) (hnamed : name ≠ [])
    (h : parse (scheme.asStr ++ "://".toList
      ++ (host ++ ':' :: Net.decimal port.toNat ++ path ++ pinText ip) ++ '#' :: name) = .ok a) :
  a.scheme = scheme ∧ a.host = host ∧ a.port = port ∧ a.enabled = true ∧ a.name = name
    ∧ (path ≠ [] → a.path = path) ∧ a.ip = ip
  := by
  have hdigits := isIpv4Char_decimal port.toNat
  have hcolon : Clean (':' :: Net.decimal port.toNat) := by
    intro c hc
    rcases List.mem_cons.mp hc with rfl | hc
    · decide
    · apply clean_of_isIpv4Char hdigits c hc
  have hauthority : '/' ∉ host ++ ':' :: Net.decimal port.toNat := by
    simp [hslash, not_mem_of_isIpv4Char hdigits (by decide : Net.isIpv4Char '/' = false)]
  have hr : Clean (host ++ ':' :: Net.decimal port.toNat ++ path) :=
    (hhost.append hcolon).append hclean
  have hbefore := (clean_asStr scheme).address.append (hr.address.append (address_pinText ip))
  obtain ⟨rest, r, hreads⟩ := reads_of_parse h
  rw [trim_labelled scheme _ hname hnamed] at hreads
  have hlabel := labelOf_address hbefore hname
  -- the parts are read one after the other
  have hscheme := hreads.scheme
  rw [hlabel, (parseScheme_asStr _ scheme _).1] at hscheme
  injection hscheme with heq
  obtain ⟨hsame, rfl⟩ := Prod.mk.inj heq
  have hpinned := hreads.pinned
  rw [pinnedOf_pinText hr] at hpinned
  injection hpinned with heq
  obtain ⟨rfl, hip⟩ := Prod.mk.inj heq
  obtain ⟨hbeforePath, hafterPath⟩ := pathOf_append hauthority hpath
  have hsplit := hreads.authority
  rw [hbeforePath] at hsplit
  obtain ⟨hhost', hport⟩ := splitHostPort_join hbracket hne hsplit hreads.notIpv6
  refine ⟨hsame.symm, hhost', hport, ?_, ?_, ?_, hip.symm⟩
  · rw [hreads.enabled, hlabel]
    apply (parseScheme_asStr [] scheme _).2
  · rw [hreads.name, hlabel]
  · intro hne
    rw [hreads.path, hafterPath hne]

end UpstreamAddr

namespace UpstreamCommand

open UpstreamAddr

theorem parseScheme_eq_ok {v : Json} {typedScheme : Option Text} {scheme : Text}
    (h : parseScheme v typedScheme = .ok scheme) :
  ∃ s : Scheme, scheme = s.asStr
  := by
  simp only [parseScheme] at h
  split_ifs at h <;> cases h
  · exact ⟨.https, rfl⟩
  · exact ⟨.tls, rfl⟩
  · exact ⟨.udp, rfl⟩
  · exact ⟨.tcp, rfl⟩

theorem parseAdd_eq_ok {v : Json} {name host scheme : Text}
    (h : parseAdd v = .ok (.add name host scheme)) :
  Text.trim name = name ∧ name ≠ [] ∧ ∃ s : Scheme, scheme = s.asStr
  := by
  simp only [parseAdd] at h
  split_ifs at h with hname hlabel hhost hempty
  obtain ⟨scheme', hscheme, h⟩ := Fallible.bind_eq_ok h
  injection h with h
  injection h with hnamed hhosted hschemed
  subst hnamed hschemed
  exact ⟨Text.trim_trim _, hname, parseScheme_eq_ok hscheme⟩

theorem map_ne_add {x : Except Text Text} {f : Text → UpstreamCommand} {name host scheme : Text}
    (hf : ∀ spec, f spec ≠ .add name host scheme) :
  x.map f ≠ .ok (.add name host scheme)
  := by
  intro h
  cases x with
  | error e => cases h
  | ok spec =>
    injection h with h
    exact hf spec h

/-- A command to add a server has a name that is trimmed, and a transport. -/
theorem parse_eq_add {S : SerdeJson} {jsonError : Text → Text} {body name host scheme : Text}
    (h : parse S jsonError body = .ok (.add name host scheme)) :
  Text.trim name = name ∧ name ≠ [] ∧ ∃ s : Scheme, scheme = s.asStr
  := by
  obtain ⟨v, -, h⟩ := Fallible.bind_eq_ok h
  split at h
  · apply absurd h (map_ne_add (fun _ => nofun))
  · split at h
    · apply absurd h (map_ne_add (fun _ => nofun))
    · apply parseAdd_eq_ok h

/-- The parts that the spec of a new server is put together from. -/
theorem specOf_eq (name : Text) (scheme : Scheme) (typed : UpstreamAddr) (ip : Net.Ipv4Addr) :
  specOf name scheme.asStr typed ip
    = scheme.asStr ++ "://".toList
      ++ (typed.host ++ ':' :: Net.decimal typed.port.toNat
        ++ (if typed.scheme = .https then typed.path else [])
        ++ pinText (if typed.hostname = [] then none else some ip)) ++ '#' :: name
  := by
  have hpin : (if typed.hostname = [] then [] else "?ip=".toList ++ ip.toText)
      = pinText (if typed.hostname = [] then none else some ip) := by
    split <;> rfl
  simp only [specOf, hpin, List.append_assoc]

theorem applyAdd_eq_ok {list : List Text} {name host scheme : Text} {typed : UpstreamAddr}
    {ip : Net.IpAddr} {edited : Edited} (h : applyAdd list name host scheme typed ip = .ok edited) :
  ∃ ipv4 addr, ip = .v4 ipv4 ∧ UpstreamAddr.parse (specOf name scheme typed ipv4) = .ok addr
    ∧ edited.list = list ++ [specOf name scheme typed ipv4]
  := by
  cases ip with
  | v6 ipv6 => cases h
  | v4 ipv4 =>
    obtain ⟨addr, haddr, h⟩ := Fallible.bind_eq_ok h
    split at h
    · cases h
    · injection h with h
      subst h
      exact ⟨ipv4, addr, rfl, haddr, rfl⟩

end UpstreamCommand

namespace DnsService

open UpstreamAddr

/-- The address of a host name is what a look up finds. -/
theorem resolveHost_eq_ok {host : Text} {lookup : Except Text Net.IpAddr} {st st' : DnsService}
    {ip : Net.IpAddr} (h : (resolveHost host lookup).run st = (.ok ip, st'))
    (hipv4 : Net.Ipv4Addr.parse host = none) (hipv6 : Net.Ipv6Addr.parse host = none) :
  lookup = .ok ip
  := by
  rw [run_resolveHost_of_none (Net.IpAddr.parse_eq_none hipv4 hipv6)] at h
  exact (Prod.mk.inj h).1

/-- The test of a new server changes nothing if the server is kept. -/
theorem testAdded_eq_ok {codec : Codec DnsOverrides} {previous : List Text} {edited : Edited}
    {outcomes : EditOutcomes} {st st' : DnsService} {message : Text}
    (h : (testAdded codec previous edited outcomes).run st = (.ok message, st')) :
  st = st'
  := by
  rw [testAdded] at h
  split at h
  · cases h
    rfl
  · rename_i spec what _
    obtain ⟨fails, s, hfails, h⟩ := Fallible.run_bind_eq_ok h
    obtain ⟨_, hsame⟩ := testFails_run spec outcomes.answered st
    cases hfails.symm.trans hsame
    split at h
    · obtain ⟨_, _, -, hthrow⟩ := Fallible.run_bind_eq_ok h
      cases hthrow
    · cases h
      rfl

/-- The edit of a command to add a server. -/
theorem edit_add_eq_ok {list : List Text} {lookup : Except Text Net.IpAddr}
    {name host scheme : Text} {st st' : DnsService} {edited : Edited}
    (h : (edit list lookup (.add name host scheme)).run st = (.ok edited, st')) :
  st = st' ∧ ∃ typed ip addr, UpstreamAddr.parse (scheme ++ "://".toList ++ host) = .ok typed
    ∧ (resolveHost typed.host lookup).run st = (.ok (.v4 ip), st)
    ∧ UpstreamAddr.parse (UpstreamCommand.specOf name scheme typed ip) = .ok addr
    ∧ edited.list = list ++ [UpstreamCommand.specOf name scheme typed ip]
  := by
  obtain ⟨_, hsame⟩ := edit_run list lookup (.add name host scheme) st
  obtain ⟨-, rfl⟩ := Prod.mk.inj (hsame.symm.trans h)
  obtain ⟨typed, s, htyped, h⟩ := Fallible.run_bind_eq_ok h
  rw [Fallible.run_ofExcept] at htyped
  obtain ⟨hread, rfl⟩ := Prod.mk.inj htyped
  obtain ⟨ip, s, hip, h⟩ := Fallible.run_bind_eq_ok h
  obtain ⟨_, hsame⟩ := resolveHost_run typed.host lookup st
  obtain ⟨-, rfl⟩ := Prod.mk.inj (hsame.symm.trans hip)
  rw [Fallible.run_ofExcept] at h
  obtain ⟨ipv4, addr, rfl, haddr, hlist⟩ := UpstreamCommand.applyAdd_eq_ok (Prod.mk.inj h).1
  exact ⟨rfl, typed, ipv4, addr, hread, hip, haddr, hlist⟩

/-- A new server that is accepted is in the list. -/
theorem editUpstreams_add_eq_ok {codec : Codec DnsOverrides} {name host scheme : Text}
    {outcomes : EditOutcomes} {st st' : DnsService} {message : Text}
    (h : (editUpstreams codec (.add name host scheme) outcomes).run st = (.ok message, st')) :
  ∃ typed ip addr, UpstreamAddr.parse (scheme ++ "://".toList ++ host) = .ok typed
    ∧ (resolveHost typed.host outcomes.lookup).run st = (.ok (.v4 ip), st)
    ∧ UpstreamAddr.parse (UpstreamCommand.specOf name scheme typed ip) = .ok addr
    ∧ st'.live.settings.upstreams
      = (st.live.settings.upstreams ++ [UpstreamCommand.specOf name scheme typed ip]).map Text.trim
  := by
  rw [editUpstreams, Fallible.run_bind_ok (run_readLive st)] at h
  obtain ⟨edited, s, hedit, h⟩ := Fallible.run_bind_eq_ok h
  obtain ⟨⟨⟩, s', happly, htest⟩ := Fallible.run_bind_eq_ok h
  obtain ⟨rfl, typed, ip, addr, htyped, hip, haddr, hlist⟩ := edit_add_eq_ok hedit
  obtain ⟨-, hsettings⟩ := applySettings_eq_ok happly
  cases testAdded_eq_ok htest
  refine ⟨typed, ip, addr, htyped, hip, haddr, ?_⟩
  rw [hsettings, hlist]
  rfl

/-- A server that is added is stored as it was typed. -/
theorem added_asTyped {S : SerdeJson} {jsonError : Text → Text} {body name host scheme : Text}
    (hparse : UpstreamCommand.parse S jsonError body = .ok (.add name host scheme))
    (hspace : ∀ c ∈ host, Unicode.isWhitespace c = false) {codec : Codec DnsOverrides}
    {outcomes : EditOutcomes} {st st' : DnsService} {message : Text}
    (hedit : (editUpstreams codec (.add name host scheme) outcomes).run st = (.ok message, st')) :
  ∃ typed spec addr, UpstreamAddr.parse (scheme ++ "://".toList ++ host) = .ok typed
    ∧ st'.live.settings.upstreams = st.live.settings.upstreams.map Text.trim ++ [spec]
    ∧ UpstreamAddr.parse spec = .ok addr
    ∧ addr.scheme.asStr = scheme ∧ addr.host = typed.host ∧ addr.port = typed.port
    ∧ addr.enabled = true ∧ addr.label = name
    ∧ (scheme = "https".toList → addr.path = typed.path)
    ∧ (if (Net.Ipv4Addr.parse typed.host).isSome then addr.ip = none
      else ∃ ip, outcomes.lookup = .ok (.v4 ip) ∧ addr.ip = some ip)
  := by
  obtain ⟨hname, hnamed, s, rfl⟩ := UpstreamCommand.parse_eq_add hparse
  obtain ⟨typed, ip, addr, htyped, hip, haddr, hlist⟩ := editUpstreams_add_eq_ok hedit
  obtain ⟨rfl, hclean, hslash, hbracket, hne, hipv6, p, hpath, hp⟩ := typed_spec hspace htyped
  have hpathClean : Clean typed.path := by
    rw [hpath]
    intro c hc
    rcases List.mem_cons.mp hc with rfl | hc
    · decide
    · apply hp c hc
  have hspec := haddr
  rw [UpstreamCommand.specOf_eq] at hspec
  obtain ⟨hscheme, hhost, hport, henabled, hlabel, hpath', hpin⟩ :=
    stored_spec hclean hslash hbracket hne (by
      split
      · exact .inr ⟨p, hpath⟩
      · exact .inl rfl) (by
      split
      · exact hpathClean
      · nofun) hname hnamed hspec
  refine ⟨typed, UpstreamCommand.specOf name typed.scheme.asStr typed ip, addr, htyped, ?_, haddr,
    by rw [hscheme], hhost, hport, henabled, ?_, ?_, ?_⟩
  · rw [hlist, List.map_append, List.map_singleton, UpstreamCommand.specOf_eq,
      trim_labelled _ _ hname hnamed]
  · rw [UpstreamAddr.label, hlabel, if_neg hnamed]
  · intro hhttps
    have hscheme : typed.scheme = .https := by
      cases hs : typed.scheme with
      | https => rfl
      | udp | tcp | tls =>
        rw [hs] at hhttps
        cases hhttps
    rw [if_pos hscheme] at hpath'
    apply hpath'
    rw [hpath]
    nofun
  · rw [hpin, UpstreamAddr.hostname]
    split
    · rw [if_pos rfl]
    · rename_i hipv4
      exact ⟨ip, resolveHost_eq_ok hip (Option.not_isSome_iff_eq_none.mp hipv4) hipv6, rfl⟩

/-- The body of a request to add a server under a name. -/
def quadBody : Json :=
  .obj [("host".toList, .str "dns.quad9.net/dns".toList), ("name".toList, .str "Quad9".toList)]

/-- The default service after a server is added whose name is found to be `9.9.9.9`. -/
def withQuad : Except Text Text × DnsService :=
  (editUpstreams DnsOverrides.referenceCodec
    (.add "Quad9".toList "dns.quad9.net/dns".toList "https".toList)
    { lookup := .ok (.v4 ⟨9, 9, 9, 9⟩), saved := .ok (), answered := true,
      rolledBack := .ok () }).run defaultService

/-- A server that is found by its name is stored with the address and the path. -/
theorem added_asTyped_quad :
  ∃ typed spec addr, UpstreamAddr.parse "https://dns.quad9.net/dns".toList = .ok typed
    ∧ withQuad.2.live.settings.upstreams
      = defaultService.live.settings.upstreams.map Text.trim ++ [spec]
    ∧ UpstreamAddr.parse spec = .ok addr
    ∧ addr.scheme.asStr = "https".toList ∧ addr.host = typed.host ∧ addr.port = typed.port
    ∧ addr.enabled = true ∧ addr.label = "Quad9".toList
    ∧ ("https".toList = "https".toList → addr.path = typed.path)
    ∧ (if (Net.Ipv4Addr.parse typed.host).isSome then addr.ip = none
      else ∃ ip, (.ok (.v4 ⟨9, 9, 9, 9⟩) : Except Text Net.IpAddr) = .ok (.v4 ip)
        ∧ addr.ip = some ip)
  := by
  have hbody : readBody .reference id (SerdeJson.reference.toString quadBody) = .ok quadBody := by
    apply readBody_toString
    · apply Json.Plain.obj
      simp only [List.forall_mem_cons, List.not_mem_nil, false_implies, implies_true, and_true]
      exact ⟨.str _, .str _⟩
    · simp [quadBody, Json.depth, Json.depthFields, Json.recursionLimit]
  have hparse : UpstreamCommand.parse .reference id (SerdeJson.reference.toString quadBody)
      = .ok (.add "Quad9".toList "dns.quad9.net/dns".toList "https".toList) := by
    rw [UpstreamCommand.parse, hbody]
    rfl
  have hedit : withQuad = (.ok "dns upstream added: Quad9 (9.9.9.9)".toList, withQuad.2) := rfl
  apply added_asTyped hparse (by decide) hedit

end DnsService

end Dns
