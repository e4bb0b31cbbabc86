import AdBlock.Proxy.Exclusions
import AdBlock.Rust.NetChars

/-!
# Tunnels

A client asks for a tunnel to an authority, a host with an optional port.  The host is judged by
the filter and by the exclusions (`planConnect`), and a tunnel that is not inspected is dialled
from the same authority by another parser (`splitHostPort`).
-/

namespace Proxy

inductive ConnectVerdict where
  | deny (blockedBy : Text)
  | blindTunnel (excludedBy : Text)
  | mitm
  deriving DecidableEq, Repr

structure ConnectPlan where
  host : Text
  url : Text
  verdict : ConnectVerdict
  deriving DecidableEq, Repr

namespace ConnectPlan

/-- The plan for a host, from what the filter and the exclusions say about it. -/
def ofHost (host : Text) (blockedBy excludedBy : Option Text) : ConnectPlan where
  host
  url := "https://".toList ++ host ++ ['/']
  verdict :=
    match blockedBy, excludedBy with
    | some blockedBy, _ => .deny blockedBy
    | none, some excludedBy => .blindTunnel excludedBy
    | none, none => .mitm

end ConnectPlan

/-- The host of the plan is also the one that certificates are made for. -/
def planConnect (authority : Text) (check exclusion : Text → Option Text) : ConnectPlan :=
  let host := authority.takeWhile (· ≠ ':')
  .ofHost host (check host) (exclusion host)

/-- The port that stands after a colon. -/
def parsePort (default : UInt16) (port : Text) : UInt16 :=
  (Net.parseU16 port).getD default

def splitHostPort (hostport : Text) (default : UInt16) : Text × UInt16 :=
  match (Text.stripPrefix hostport ['[']).bind (Text.splitOnce · ']') with
  | some (host, after) =>
      ('[' :: host ++ [']'],
        ((Text.stripPrefix after [':']).map (parsePort default)).getD default)
  | none =>
      match Text.rsplitOnce hostport ':' with
      | some (h, p) => if ':' ∈ h then (hostport, default) else (h, parsePort default p)
      | none => (hostport, default)

/-- The host that a tunnel without inspection is dialled to. -/
def dialled (authority : Text) : Text :=
  (splitHostPort authority 443).1

/-! ### Hosts that are excluded -/

theorem takeWhile_colon {host rest : Text} (hhost : ':' ∉ host)
    (hrest : ∀ c ∈ rest.head?, c = ':') :
  (host ++ rest).takeWhile (· ≠ ':') = host
  := by
  have hall : ∀ c ∈ host, decide (c ≠ ':') = true := by
    intro c hc
    rw [decide_eq_true_eq]
    rintro rfl
    exact hhost hc
  rw [List.takeWhile_append_of_pos hall]
  cases rest with
  | nil => exact List.append_nil host
  | cons c rest =>
    rw [hrest c rfl, List.takeWhile_cons_of_neg (by decide), List.append_nil]

/-- A host that the filter lets through gets a tunnel without inspection exactly if an entry that
is not parked excludes the host in lower case, and the part of the host that it is compared with is
spelled in lower case. -/
theorem planConnect_blindTunnel_iff (file : Option Text) (ops : List ExclusionStore.Op)
    {store : ExclusionStore} (hstore : ExclusionStore.run ops (.load file) = store)
    {host rest : Text} (hhost : ':' ∉ host) (hrest : ∀ c ∈ rest.head?, c = ':')
    {check : Text → Option Text} (hcheck : check host = none) :
  (∃ excludedBy, (planConnect (host ++ rest) check store.matching).verdict
      = .blindTunnel excludedBy)
    ↔ ∃ e ∈ store.entries, e.enabled = true ∧ e.excludes (Text.toAsciiLowercase host) = true
      ∧ Text.IsLower (Domain.tail e.base host)
  := by
  have hlowered : ExclusionStore.Lowered store.entries := by
    rw [← hstore]
    exact ExclusionStore.lowered_run (ExclusionStore.lowered_load file) ops
  have hverdict : (∃ excludedBy, (planConnect (host ++ rest) check store.matching).verdict
      = .blindTunnel excludedBy) ↔ (store.matching host).isSome = true := by
    simp only [planConnect, takeWhile_colon hhost hrest, hcheck, ConnectPlan.ofHost]
    cases store.matching host with
    | none => simp
    | some excludedBy => simp
  rw [hverdict, ExclusionStore.isSome_matching_iff]
  constructor
  · rintro ⟨e, he, henabled, hexcludes⟩
    have hlower := hlowered _ (List.mem_map_of_mem he)
    exact ⟨e, he, henabled, (ExclusionStore.excludes_iff hlower).mp hexcludes⟩
  · rintro ⟨e, he, henabled, hexcludes⟩
    have hlower := hlowered _ (List.mem_map_of_mem he)
    exact ⟨e, he, henabled, (ExclusionStore.excludes_iff hlower).mpr hexcludes⟩

/-- The store with one entry. -/
def bankStore : ExclusionStore :=
  ExclusionStore.run [.add "Bank.example".toList (.ok ())] (.load none)

theorem planConnect_blindTunnel_lower :
  ∃ excludedBy, (planConnect "www.bank.example:443".toList (fun _ => none)
      bankStore.matching).verdict = .blindTunnel excludedBy
  := by
  apply (@planConnect_blindTunnel_iff none [.add "Bank.example".toList (.ok ())] bankStore rfl
    "www.bank.example".toList ":443".toList (by decide) (by rintro c ⟨⟩; rfl) (fun _ => none)
    rfl).mpr
  use { domain := "bank.example".toList, enabled := true }
  decide +kernel

/-- The host in upper case is excluded in lower case and is inspected. -/
theorem planConnect_blindTunnel_upper :
  bankStore.entries = [{ domain := "bank.example".toList, enabled := true }]
    ∧ Domain.covers "bank.example".toList (Text.toAsciiLowercase "WWW.BANK.EXAMPLE".toList) = true
    ∧ (planConnect "WWW.BANK.EXAMPLE:443".toList (fun _ => none) bankStore.matching).verdict
      = .mitm
  := by
  decide +kernel

/-! ### The host that is judged and the host that is dialled -/

/-- The characters of registered names. -/
def isRegNameChar (c : Char) : Bool :=
  c.isAlphanum || "-._~%!$&'()*+,;=".toList.contains c

inductive Host where
  | regName (name : Text) (chars : ∀ c ∈ name, isRegNameChar c = true)
  | ipv4 (ip : Net.Ipv4Addr)
  | ipv6 (text : Text) (isIpv6 : (Net.Ipv6Addr.parse text).isSome = true)

/-- A host with an optional port and no user information. -/
structure Authority where
  host : Host
  port : Option { digits : Text // ∀ c ∈ digits, Net.isDigit 10 c = true }

def Host.toText : Host → Text
  | .regName name _ => name
  | .ipv4 ip => ip.toText
  | .ipv6 text _ => '[' :: text ++ [']']

def Host.isIpv6 : Host → Bool
  | .ipv6 _ _ => true
  | _ => false

namespace Authority

def portText (a : Authority) : Text :=
  (a.port.map fun port => ':' :: port.val).getD []

def toText (a : Authority) : Text :=
  a.host.toText ++ a.portText

theorem head?_portText (a : Authority) :
  ∀ c ∈ a.portText.head?, c = ':'
  := by
  obtain ⟨host, port⟩ := a
  intro c hc
  cases port with
  | none => cases hc
  | some port =>
    cases hc
    rfl

/-- A host without brackets and colons is dialled as it is. -/
theorem dialled_plain {host : Text} (hopen : '[' ∉ host) (hcolon : ':' ∉ host)
    (port : Option { digits : Text // ∀ c ∈ digits, Net.isDigit 10 c = true }) :
  dialled (host ++ (port.map fun port => ':' :: port.val).getD []) = host
  := by
  have hstrip : Text.stripPrefix (host ++ (port.map fun port => ':' :: port.val).getD []) ['[']
      = none := by
    rw [Text.stripPrefix_eq_none_iff]
    rintro ⟨rest, hrest⟩
    have hmem : '[' ∈ host ++ (port.map fun port => ':' :: port.val).getD [] := by
      rw [← hrest]
      exact List.mem_cons_self
    rcases List.mem_append.mp hmem with hmem | hmem
    · exact hopen hmem
    · cases port with
      | none => cases hmem
      | some port =>
        rcases List.mem_cons.mp hmem with hmem | hmem
        · exact absurd hmem (by decide)
        · exact absurd (port.property '[' hmem) (by decide)
  rw [dialled, splitHostPort, hstrip, Option.bind_none]
  cases port with
  | none =>
    rw [Option.map_none, Option.getD_none, List.append_nil, Text.rsplitOnce_none hcolon]
  | some port =>
    have hport : ':' ∉ port.val := fun hmem => absurd (port.property ':' hmem) (by decide)
    rw [Option.map_some, Option.getD_some, Text.rsplitOnce_append hport]
    exact congrArg Prod.fst (if_neg hcolon)

theorem dialled_ipv6 (text : Text) (hclose : ']' ∉ text) (rest : Text) :
  dialled ('[' :: text ++ [']'] ++ rest) = '[' :: text ++ [']']
  := by
  have hstrip : Text.stripPrefix ('[' :: text ++ [']'] ++ rest) ['['] = some (text ++ ']' :: rest) := by
    rw [List.append_assoc]
    exact Text.stripPrefix_append ['['] _
  rw [dialled, splitHostPort, hstrip, Option.bind_some, Text.splitOnce_append hclose]

theorem toText_ipv6 (text : Text) (h : (Net.Ipv6Addr.parse text).isSome = true) :
  ':' ∈ text ∧ ']' ∉ text
  := by
  obtain ⟨ip, hip⟩ := Option.isSome_iff_exists.mp h
  obtain ⟨hchars, hcolon⟩ := Net.Ipv6Addr.parse_spec hip
  exact ⟨hcolon, fun hmem => absurd (hchars ']' hmem) (by decide)⟩

/-- A host that is no IPv6 address has no brackets and no colons. -/
theorem not_mem_toText {host : Host} (h : host.isIpv6 = false) :
  '[' ∉ host.toText ∧ ':' ∉ host.toText
  := by
  cases host with
  | regName name chars =>
    constructor
    · exact fun hmem => absurd (chars '[' hmem) (by decide)
    · exact fun hmem => absurd (chars ':' hmem) (by decide)
  | ipv4 ip =>
    have hchars := Net.Ipv4Addr.forall_isIpv4Char ip.parse_toText
    constructor
    · exact fun hmem => absurd (hchars '[' hmem) (by decide)
    · exact fun hmem => absurd (hchars ':' hmem) (by decide)
  | ipv6 text isIpv6 => cases h

/-- The host that is judged, and that certificates are made for, is the host that is dialled
exactly if it is no IPv6 address. -/
theorem planConnect_dialled_iff (a : Authority) :
  (∀ check exclusion : Text → Option Text, planConnect a.toText check exclusion
      = .ofHost (dialled a.toText) (check (dialled a.toText)) (exclusion (dialled a.toText)))
    ↔ a.host.isIpv6 = false
  := by
  constructor
  · intro h
    obtain ⟨host, port⟩ := a
    cases host with
    | regName name chars => rfl
    | ipv4 ip => rfl
    | ipv6 text isIpv6 =>
      -- the judged host ends before the first colon, and the dialled host has one
      obtain ⟨hcolon, hclose⟩ := toText_ipv6 text isIpv6
      have hjudged := congrArg ConnectPlan.host (h (fun _ => none) (fun _ => none))
      have hdialled : dialled (toText ⟨.ipv6 text isIpv6, port⟩) = '[' :: text ++ [']'] :=
        dialled_ipv6 text hclose _
      have hmem : ':' ∈ (planConnect (toText ⟨.ipv6 text isIpv6, port⟩) (fun _ => none)
          (fun _ => none)).host := by
        rw [hjudged, hdialled]
        exact List.mem_append_left _ (List.mem_cons_of_mem _ hcolon)
      have hne := @List.mem_takeWhile_imp _ (fun c : Char => decide (c ≠ ':')) _ _ hmem
      cases hne
  · intro h check exclusion
    obtain ⟨hopen, hcolon⟩ := not_mem_toText h
    have hdialled : dialled a.toText = a.host.toText := dialled_plain hopen hcolon a.port
    have hjudged : a.toText.takeWhile (· ≠ ':') = a.host.toText :=
      takeWhile_colon hcolon a.head?_portText
    rw [hdialled]
    simp only [planConnect, hjudged]

/-- The address of the local host, on port 443. -/
def localhost : Authority where
  host := .ipv6 "::1".toList (by decide +kernel)
  port := some ⟨"443".toList, by decide⟩

/-- The host that is judged is a bracket. -/
theorem planConnect_dialled_ipv6 :
  localhost.toText = "[::1]:443".toList
    ∧ dialled localhost.toText = "[::1]".toList
    ∧ (planConnect localhost.toText (fun _ => none) (fun _ => none)).host = "[".toList
  := by
  decide +kernel

end Authority

end Proxy
