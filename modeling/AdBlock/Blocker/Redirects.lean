import AdBlock.Blocker.Fetch
import AdBlock.Uri.Splitting

/-!
# Where redirects lead

A redirection is followed to what its `Location` refers to from the current URL by RFC 3986 in two
cases (`Reaches`, `next_request_iff`): for an absolute URL written with `http` in small letters
that the URI library accepts, and for an absolute path when the current URL has the default port of
its scheme and the library accepts what is built.  The port of the current URL is not part of what
a path is appended to (`port_dropped`), and an authority or a relative path is appended to the host
as if it were an absolute path.
-/

namespace Fetch

open Rfc3986

/-! ### The target of an address -/

/-- A request for an address: its scheme, host and port, and its path with its query. -/
structure FetchTarget.Requests (t : FetchTarget) (u : Url) : Prop where
  scheme : t.scheme = u.scheme.lower
  host : t.host = u.authority.host.text
  port : t.port.toNat = u.port
  path : t.path = u.target

/-- What is read from the text of an accepted address. -/
def targetOf (u : Url) : FetchTarget where
  scheme := u.scheme.lower
  host := u.authority.host.text
  port := (u.authority.port.bind (Net.parseU16 ·.val)).getD (FetchTarget.defaultPort u.scheme.lower)
  path :=
    if pathText u.path ++ queryText u.query = [] then ['/'] else pathText u.path ++ queryText u.query

variable {U : UriCrate} (hU : U.Lawful)

include hU in
theorem parse_url {u : Url} (h : U.Accepts u.text) :
  FetchTarget.parse U u.text = .ok (targetOf u)
  := by
  obtain ⟨uri, huri⟩ := h
  rw [parse_of_uri huri (hU.schemeStr_text huri) u.scheme.lower_cases (hU.host_text huri),
    hU.portU16_text huri, hU.pathAndQuery_text huri]
  rfl

include hU in
/-- The request for an address. -/
theorem request_url_iff {u : Url} {sent : Sent} :
  request U u.text = .ok sent
    ↔ U.Accepts u.text ∧ U.Accepts (targetOf u).path ∧ sent = ⟨u.text, targetOf u⟩
  := by
  rw [request_eq_ok_iff]
  constructor
  · rintro ⟨hurl, hparse, hpath⟩
    have haccepts : U.Accepts u.text := by
      obtain ⟨uri, huri, -⟩ := parse_inv hparse
      exact ⟨uri, huri⟩
    rw [parse_url hU haccepts, Except.ok.injEq] at hparse
    rw [hparse]
    exact ⟨haccepts, hpath, by rw [← hurl]⟩
  · rintro ⟨haccepts, hpath, rfl⟩
    exact ⟨rfl, parse_url hU haccepts, hpath⟩

theorem toNat_defaultPort (scheme : Scheme) :
  (FetchTarget.defaultPort scheme.lower).toNat = scheme.defaultPort
  := by
  rw [FetchTarget.defaultPort, Scheme.defaultPort]
  split_ifs <;> rfl

theorem defaultPort_lt (scheme : Scheme) :
  scheme.defaultPort < 65536
  := by
  rw [← toNat_defaultPort]
  exact UInt16.toNat_lt _

/-- The port of a request is the one that is meant if it is a 16 bit number. -/
theorem port_targetOf_iff (u : Url) :
  (targetOf u).port.toNat = u.port ↔ u.port < 65536
  := by
  have hlt := UInt16.toNat_lt (targetOf u).port
  constructor
  · intro h
    omega
  intro h
  rw [targetOf]
  rw [Url.port] at h ⊢
  cases hport : u.authority.port with
  | none => exact toNat_defaultPort u.scheme
  | some digits =>
    rw [hport] at h
    simp only [Option.bind_some, parseU16_digits] at h ⊢
    by_cases hnil : digits.val = []
    · rw [if_neg fun hsome => hsome.1 hnil, if_pos hnil, Option.getD_none, toNat_defaultPort]
    · rw [if_neg hnil] at h ⊢
      rw [if_pos ⟨hnil, h⟩, Option.getD_some, UInt16.toNat_ofNat_of_lt' h]

theorem head?_target (u : Url) :
  u.target.head? = some '/'
  := by
  rw [Url.target]
  cases u.path with
  | nil => rfl
  | cons s path => rfl

/-- What is requested is the path and the query that are meant, unless there is a query only. -/
theorem path_targetOf_iff (u : Url) :
  (targetOf u).path = u.target ↔ (u.path = [] → u.query = none)
  := by
  rw [targetOf, Url.target]
  cases hpath : u.path with
  | cons s path => exact iff_of_true rfl fun h => by cases h
  | nil =>
    cases hquery : u.query with
    | none => exact iff_of_true rfl fun _ => rfl
    | some query =>
      apply iff_of_false
      · intro h
        have hhead := congrArg List.head? h
        cases hhead
      · intro h
        cases h rfl

theorem requests_targetOf_iff (u : Url) :
  (targetOf u).Requests u ↔ u.port < 65536 ∧ (u.path = [] → u.query = none)
  := by
  rw [← port_targetOf_iff, ← path_targetOf_iff]
  exact ⟨fun h => ⟨h.port, h.path⟩, fun ⟨hport, hpath⟩ => ⟨rfl, rfl, hport, hpath⟩⟩

include hU in
/-- What is asked for at an accepted address is accepted by itself, unless it is a query only. -/
theorem accepts_path {u : Url} (h : U.Accepts u.text) (hquery : u.path = [] → u.query = none) :
  U.Accepts (targetOf u).path
  := by
  rw [(path_targetOf_iff u).mpr hquery]
  exact hU.accepts_target h

theorem length_target_le (u : Url) :
  u.target.length ≤ (pathText u.path ++ queryText u.query).length + 1
  := by
  rw [Url.target, List.length_append, List.length_append]
  split_ifs
  · rw [List.length_singleton]
    omega
  · omega

/-! ### What is appended to the host -/

/-- A path and a query at the host of an address, without its port. -/
def atHost (base : Url) (path : List Segment) (query : Option Query) : Url :=
  ⟨base.scheme.small, ⟨none, base.authority.host, none⟩, path, query⟩

theorem nextUrl_of_not {base : Url} {loc : Text} (h : Text.startsWith loc "http".toList = false) :
  nextUrl (targetOf base) loc
    = base.scheme.small.text ++ "://".toList ++ (base.authority.host.text ++ loc)
  := by
  rw [nextUrl, h, if_neg Bool.false_ne_true, List.append_assoc]
  rfl

/-- A path and a query are appended to the host. -/
theorem nextUrl_path (base : Url) (path : List Segment) (query : Option Query) :
  nextUrl (targetOf base) (pathText path ++ queryText query) = (atHost base path query).text
  := by
  have hstarts : Text.startsWith (pathText path ++ queryText query) "http".toList = false := by
    cases path with
    | nil =>
      cases query with
      | none => rfl
      | some query => rfl
    | cons s path => rfl
  rw [nextUrl_of_not hstarts, Url.text]
  simp only [atHost, Authority.text, Authority.front, Authority.back, writePart, List.nil_append,
    List.append_nil]

theorem port_atHost (base : Url) (path : List Segment) (query : Option Query) :
  (atHost base path query).port = base.scheme.defaultPort
  := by
  rw [Url.port, atHost]
  simp only [Scheme.defaultPort, Scheme.lower_small]

/-- A request for an address at the host is one for another address there if that has the default
port and the same path and query. -/
theorem requests_atHost_iff (base u : Url) (path : List Segment) (query : Option Query)
    (hscheme : u.scheme = base.scheme) (hauthority : u.authority = base.authority) :
  (targetOf (atHost base path query)).Requests u
    ↔ base.port = base.scheme.defaultPort ∧ (targetOf (atHost base path query)).path = u.target
  := by
  have hport : (targetOf (atHost base path query)).port.toNat = base.scheme.defaultPort := by
    rw [← port_atHost base path query, port_targetOf_iff, port_atHost]
    exact defaultPort_lt base.scheme
  have huport : u.port = base.port := by
    rw [Url.port, Url.port, hscheme, hauthority]
  constructor
  · intro hrequests
    refine ⟨?_, hrequests.path⟩
    rw [← huport, ← hrequests.port, hport]
  · rintro ⟨hdefault, htarget⟩
    refine ⟨?_, ?_, ?_, htarget⟩
    · rw [hscheme]
      exact base.scheme.lower_small
    · rw [hauthority]
      rfl
    · rw [hport, huport, hdefault]

/-! ### What is not a path -/

section Appended

variable {base : Url} {ref : Reference} {sent : Sent}
  (hstarts : Text.startsWith ref.text "http".toList = false)
  (h : request U (nextUrl (targetOf base) ref.text) = .ok sent)

include hU hstarts h

/-- What is appended to the host is cut at the first character that ends an authority. -/
theorem path_of_appended :
  sent.target.path
    = if ref.text.dropWhile (!isEnd ·) = [] then ['/'] else ref.text.dropWhile (!isEnd ·)
  := by
  obtain ⟨-, hparse, -⟩ := request_eq_ok_iff.mp h
  obtain ⟨uri, huri, hscheme, hpath⟩ := parse_inv hparse
  rw [nextUrl_of_not hstarts] at huri
  have hfragment : '#' ∉ base.authority.host.text ++ ref.text := by
    rw [List.mem_append, not_or]
    refine ⟨fun hmem => ?_, ref.fragment_not_mem⟩
    cases base.authority.host.isEnd_text '#' hmem
  rw [hpath, hU.pathAndQuery_append base.scheme.small.isEnd_text hfragment huri hscheme,
    Option.getD_some, UriCrate.pathOf,
    List.dropWhile_append_of_pos (by simpa using base.authority.host.isEnd_text)]

/-- An authority that is appended to the host becomes part of the path, which is too long then. -/
theorem not_requests_of_authority {front : Text} {u : Url}
    (hfront : ∀ c ∈ front, isEnd c = false)
    (htext : ref.text
      = front ++ '/' :: '/' :: (u.authority.text ++ (pathText u.path ++ queryText u.query))) :
  ¬ sent.target.Requests u
  := by
  intro hrequests
  have hdrop : ref.text.dropWhile (!isEnd ·)
      = '/' :: '/' :: (u.authority.text ++ (pathText u.path ++ queryText u.query)) := by
    rw [htext, List.dropWhile_append_of_pos (by simpa using hfront)]
    rfl
  have hpath := path_of_appended hU hstarts h
  rw [hdrop, if_neg (List.cons_ne_nil _ _), hrequests.path] at hpath
  have hle := length_target_le u
  rw [hpath, List.length_cons, List.length_cons, List.length_append] at hle
  omega

/-- What is appended to the host is shorter than the path that a relative path leads to. -/
theorem not_requests_of_length {u : Url} (hne : ref.text ≠ [])
    (hlength : ref.text.length < u.target.length) :
  ¬ sent.target.Requests u
  := by
  intro hrequests
  have hpath := path_of_appended hU hstarts h
  have hpos := List.length_pos_iff.mpr hne
  have hdrop := (List.dropWhile_suffix (!isEnd ·) (l := ref.text)).length_le
  rw [← hrequests.path, hpath] at hlength
  split_ifs at hlength
  · rw [List.length_singleton] at hlength
    omega
  · omega

end Appended

include hU in
/-- A relative path by itself is never requested: it has no scheme. -/
theorem request_relative {first : Segment} {rest : List Segment} {query : Option Query}
    {nonempty : first.val ≠ []} {colon : ':' ∉ first.val} {sent : Sent} :
  request U (Reference.relativePath first rest query nonempty colon).text ≠ .ok sent
  := by
  intro h
  obtain ⟨-, hparse, -⟩ := request_eq_ok_iff.mp h
  obtain ⟨uri, huri, hscheme, -⟩ := parse_inv hparse
  have hfirst : ∀ c ∈ first.val, isEnd c = false :=
    fun c hc => isEnd_of_isAuthorityChar (isAuthorityChar_of_isSegmentChar (Word.forall first c hc))
  rw [hU.schemeStr_eq_none hfirst colon (ends_text rest query)
    (Reference.relativePath first rest query nonempty colon).fragment_not_mem huri] at hscheme
  cases hscheme

/-! ### Following a reference -/

/-- When a redirection from `base` leads to what the reference refers to. -/
def Reaches (U : UriCrate) (base : Url) : Reference → Prop
  | .absolute url =>
      Text.startsWith url.text "http".toList ∧ U.Accepts url.text ∧ url.port < 65536 ∧
        (url.path = [] → url.query = none)
  | .network _ _ _ => False
  | .absolutePath first rest query _ =>
      base.port = base.scheme.defaultPort ∧ U.Accepts (atHost base (first :: rest) query).text
  | .relativePath _ _ _ _ _ => False
  | .samePath query =>
      query = none ∧ base.port = base.scheme.defaultPort ∧ base.target = ['/'] ∧
        U.Accepts (atHost base [] none).text

/-- The request after a redirection from `base` is one for the address that the reference refers
to. -/
def Leads (U : UriCrate) (base : Url) (ref : Reference) : Prop :=
  ∃ next, request U (nextUrl (targetOf base) ref.text) = .ok next ∧
    next.target.Requests (ref.resolve base)

section Leads

variable {base : Url}

include hU

theorem leads_absolute_iff {url : Url} (hdots : NoDots url.path) :
  Leads U base (.absolute url) ↔ Reaches U base (.absolute url)
  := by
  have hresolve : (Reference.absolute url).resolve base = url := by
    rw [Reference.resolve, removeDotSegments_of_noDots hdots]
  rw [Leads, hresolve, Reaches, Reference.text]
  cases hstarts : Text.startsWith url.text "http".toList with
  | true =>
    rw [nextUrl, hstarts, if_pos rfl]
    simp only [request_url_iff hU]
    constructor
    · rintro ⟨next, ⟨haccepts, -, rfl⟩, hrequests⟩
      exact ⟨trivial, haccepts, (requests_targetOf_iff url).mp hrequests⟩
    · rintro ⟨-, haccepts, hport, hquery⟩
      exact ⟨_, ⟨haccepts, accepts_path hU haccepts hquery, rfl⟩,
        (requests_targetOf_iff url).mpr ⟨hport, hquery⟩⟩
  | false =>
    apply iff_of_false
    · rintro ⟨next, hrequest, hrequests⟩
      have hfront : ∀ c ∈ url.scheme.text ++ [':'], isEnd c = false := by
        rw [List.forall_mem_append]
        exact ⟨url.scheme.isEnd_text, by decide⟩
      have htext : url.text = url.scheme.text ++ [':']
          ++ '/' :: '/' :: (url.authority.text ++ (pathText url.path ++ queryText url.query)) := by
        rw [Url.text, List.append_assoc, List.append_assoc]
        rfl
      exact @not_requests_of_authority U hU base (.absolute url) next hstarts hrequest _ _ hfront
        htext hrequests
    · rintro ⟨hstarts, -⟩
      cases hstarts

theorem not_leads_network {authority : Authority} {path : List Segment} {query : Option Query}
    (hdots : NoDots path) :
  ¬ Leads U base (.network authority path query)
  := by
  rintro ⟨next, hrequest, hrequests⟩
  rw [Reference.resolve, removeDotSegments_of_noDots hdots] at hrequests
  exact @not_requests_of_authority U hU base (.network authority path query) next rfl hrequest []
    ⟨base.scheme, authority, path, query⟩ (fun c hc => absurd hc List.not_mem_nil) rfl hrequests

theorem leads_absolutePath_iff {first : Segment} {rest : List Segment} {query : Option Query}
    {slash : first.val = [] → rest = []} (hdots : NoDots (first :: rest)) :
  Leads U base (.absolutePath first rest query slash)
    ↔ Reaches U base (.absolutePath first rest query slash)
  := by
  have hquery : first :: rest = [] → query = none := fun h => by cases h
  have hpath : (targetOf (atHost base (first :: rest) query)).path
      = Url.target ⟨base.scheme, base.authority, first :: rest, query⟩ :=
    (path_targetOf_iff (atHost base (first :: rest) query)).mpr hquery
  have hrequests := requests_atHost_iff base
    ⟨base.scheme, base.authority, first :: rest, query⟩ (first :: rest) query rfl rfl
  rw [Leads, Reference.resolve, removeDotSegments_of_noDots hdots, Reaches, Reference.text,
    nextUrl_path]
  simp only [request_url_iff hU]
  constructor
  · rintro ⟨next, ⟨haccepts, -, rfl⟩, hnext⟩
    exact ⟨(hrequests.mp hnext).1, haccepts⟩
  · rintro ⟨hport, haccepts⟩
    exact ⟨_, ⟨haccepts, accepts_path hU haccepts hquery, rfl⟩, hrequests.mpr ⟨hport, hpath⟩⟩

theorem not_leads_relativePath (hbaseDots : NoDots base.path) {first : Segment}
    {rest : List Segment} {query : Option Query} {nonempty : first.val ≠ []}
    {colon : ':' ∉ first.val} (hdots : NoDots (first :: rest)) :
  ¬ Leads U base (.relativePath first rest query nonempty colon)
  := by
  rintro ⟨next, hrequest, hrequests⟩
  have hmerged : NoDots (base.path.dropLast ++ first :: rest) := by
    intro s hs
    rcases List.mem_append.mp hs with hs | hs
    · exact hbaseDots s (List.mem_of_mem_dropLast hs)
    · exact hdots s hs
  rw [Reference.resolve, removeDotSegments_of_noDots hmerged] at hrequests
  cases hstarts : Text.startsWith (Reference.relativePath first rest query nonempty colon).text
      "http".toList with
  | true =>
    rw [nextUrl, hstarts, if_pos rfl] at hrequest
    exact request_relative hU hrequest
  | false =>
    apply not_requests_of_length hU hstarts hrequest _ _ hrequests
    · exact fun h => nonempty (List.append_eq_nil_iff.mp h).1
    · rw [Url.target, if_neg (by simp), pathText_append, pathText_cons, Reference.text]
      simp only [List.length_append, List.length_cons]
      omega

theorem leads_samePath_iff {query : Option Query} :
  Leads U base (.samePath query) ↔ Reaches U base (.samePath query)
  := by
  have hpath : queryText query = pathText [] ++ queryText query := rfl
  have hrequests := requests_atHost_iff base
    ⟨base.scheme, base.authority, base.path, query <|> base.query⟩ [] query rfl rfl
  rw [Leads, Reference.resolve, Reaches, Reference.text, hpath, nextUrl_path]
  simp only [request_url_iff hU]
  constructor
  · rintro ⟨next, ⟨haccepts, -, rfl⟩, hnext⟩
    obtain ⟨hport, htarget⟩ := hrequests.mp hnext
    cases query with
    | none => exact ⟨rfl, hport, htarget.symm, haccepts⟩
    | some query =>
      -- The query by itself is no path.
      have hhead := congrArg List.head? htarget
      rw [head?_target] at hhead
      cases hhead
  · rintro ⟨rfl, hport, htarget, haccepts⟩
    exact ⟨_, ⟨haccepts, accepts_path hU haccepts fun _ => rfl, rfl⟩,
      hrequests.mpr ⟨hport, htarget.symm⟩⟩

/-- A redirection leads to what its reference refers to in exactly the cases of `Reaches`. -/
theorem leads_iff (hbaseDots : NoDots base.path) {ref : Reference} (hdots : ref.NoDotSegments) :
  Leads U base ref ↔ Reaches U base ref
  := by
  cases ref with
  | absolute url => exact leads_absolute_iff hU hdots
  | network authority path query => exact iff_of_false (not_leads_network hU hdots) id
  | absolutePath first rest query slash => exact leads_absolutePath_iff hU hdots
  | relativePath first rest query nonempty colon =>
    exact iff_of_false (not_leads_relativePath hU hbaseDots hdots) id
  | samePath query => exact leads_samePath_iff hU

end Leads

/-! ### Chains of redirections -/

/-- A header value of visible characters is read as its text. -/
theorem toStr_asBytes {s : Text} (h : ∀ c ∈ s, 33 ≤ c.toNat ∧ c.toNat < 127) :
  toStr (Text.asBytes s) = some s
  := by
  have hascii : ∀ c ∈ s, c.toNat < 128 := by
    intro c hc
    have := (h c hc).2
    omega
  have htoNat {c : Char} (hc : c ∈ s) : (UInt8.ofNat c.toNat).toNat = c.toNat := by
    have := hascii c hc
    rw [UInt8.toNat_ofNat', Nat.mod_eq_of_lt (by omega)]
  rw [Text.asBytes_of_ascii hascii, toStr, if_pos, List.map_map]
  · rw [List.map_congr_left fun c hc => _, List.map_id]
    intro c hc
    rw [Function.comp_apply, htoNat hc, Char.ofNat_toNat, id_eq]
  · rw [List.all_eq_true]
    intro b hb
    obtain ⟨c, hc, rfl⟩ := List.mem_map.mp hb
    obtain ⟨hlow, hhigh⟩ := h c hc
    rw [htoNat hc]
    simp only [Bool.or_eq_true, Bool.and_eq_true, decide_eq_true_eq]
    omega

theorem toOption_eq_some_iff {x : Except Text Sent} {sent : Sent} :
  x.toOption = some sent ↔ x = .ok sent
  := by
  cases x with
  | error e => exact iff_of_false (fun h => by cases h) fun h => by cases h
  | ok found =>
    constructor
    · intro h
      rw [Option.some.inj h]
    · intro h
      rw [Except.ok.inj h]
      rfl

/-- In every chain of answers at most six requests are made; and a redirection from a URL to a
reference makes the next request one for the resolved address in exactly the cases of
`Reaches`. -/
theorem next_request_iff (U : UriCrate) (hU : U.Lawful) (network : Network) (start : Text)
    (maxBytes : ℕ) :
  (getBytes U network start maxBytes).1.length ≤ 6 ∧
  ∀ (i : ℕ) (sent : Sent) (base : Url) (ref : Reference) (resp : Response),
    i < 5 → (getBytes U network start maxBytes).1[i]? = some sent → sent.url = base.text →
    network (((getBytes U network start maxBytes).1.take (i + 1)).map Sent.target) = .ok resp →
    resp.isRedirection → resp.location = some (Text.asBytes ref.text) →
    NoDots base.path → ref.NoDotSegments →
    ((∃ next, (getBytes U network start maxBytes).1[i + 1]? = some next ∧
        next.target.Requests (ref.resolve base)) ↔ Reaches U base ref)
  := by
  have hrounds := rounds_getBytes (U := U) network start maxBytes
  generalize (getBytes U network start maxBytes).1 = requests at hrounds
  refine ⟨hrounds.length_le, ?_⟩
  intro i sent base ref resp hi hsent hurl hresp hredirection hlocation hbaseDots hdots
  have hrequest := hrounds.request_of_getElem? (Nat.zero_le i) hsent
  rw [hurl] at hrequest
  obtain ⟨-, -, rfl⟩ := (request_url_iff hU).mp hrequest
  have hfollowed : followed (network ((requests.take (i + 1)).map Sent.target))
      = some ref.text := by
    rw [hresp, followed, if_pos hredirection, hlocation, Option.bind_some]
    apply toStr_asBytes
    intro c hc
    obtain ⟨hlow, hhigh, -⟩ := ref.forall_text c hc
    exact ⟨hlow, hhigh⟩
  have hroom : i + 1 < ([] : List Sent).length + 6 := by
    rw [List.length_nil]
    omega
  rw [← leads_iff hU hbaseDots hdots, Leads,
    hrounds.getElem?_succ (Nat.zero_le i) hsent hroom hfollowed]
  simp only [toOption_eq_some_iff]

/-- A network that redirects the first request. -/
def redirectOnce (loc : Text) : Network
  | [_] => .ok ⟨302, "302 Found".toList, some (Text.asBytes loc), .ok []⟩
  | _ => .ok ⟨200, "200 OK".toList, none, .ok []⟩

/-- The address `http://h:port/a`. -/
def atPort (port : Word (Net.isDigit 10)) : Url :=
  ⟨⟨"http".toList, .inl rfl⟩, ⟨none, .name ⟨['h'], rfl⟩ (List.cons_ne_nil _ _), some port⟩,
    [⟨['a'], rfl⟩], none⟩

/-- The reference `/b`. -/
def pathB : Reference :=
  .absolutePath ⟨['b'], rfl⟩ [] none fun h => absurd h (List.cons_ne_nil _ _)

theorem next_request_default_port :
  ∃ next, (getBytes .splitting (redirectOnce pathB.text) "http://h:80/a".toList 100).1[1]? = some next ∧
    next.target.Requests (pathB.resolve (atPort ⟨"80".toList, rfl⟩))
  := by
  have hfirst : ((getBytes .splitting (redirectOnce pathB.text) "http://h:80/a".toList 100).1.take 1).map
      Sent.target = [⟨"http".toList, "h".toList, 80, "/a".toList⟩] := by
    decide +kernel
  have hdots : NoDots (atPort ⟨"80".toList, rfl⟩).path := by
    unfold NoDots
    decide +kernel
  have hdotsB : pathB.NoDotSegments := by
    unfold Reference.NoDotSegments pathB NoDots
    decide
  apply ((next_request_iff .splitting UriCrate.splittingLawful (redirectOnce pathB.text)
    "http://h:80/a".toList 100).2 0
    ⟨"http://h:80/a".toList, ⟨"http".toList, "h".toList, 80, "/a".toList⟩⟩
    (atPort ⟨"80".toList, rfl⟩) pathB
    ⟨302, "302 Found".toList, some (Text.asBytes pathB.text), .ok []⟩
    (by decide) (by decide +kernel) (by decide +kernel) (by rw [hfirst]; rfl) rfl rfl hdots
    hdotsB).mpr
  exact ⟨by decide +kernel, UriCrate.accepts_splitting _⟩

/-- The port of the current URL is not kept for a path: after `http://h:8080/a`, the path `/b` is
asked for at port 80. -/
theorem port_dropped :
  (pathB.resolve (atPort ⟨"8080".toList, rfl⟩)).text = "http://h:8080/b".toList ∧
    (pathB.resolve (atPort ⟨"8080".toList, rfl⟩)).port = 8080 ∧
    (getBytes .splitting (redirectOnce pathB.text) (atPort ⟨"8080".toList, rfl⟩).text 100).1.map Sent.target
      = [⟨"http".toList, "h".toList, 8080, "/a".toList⟩,
        ⟨"http".toList, "h".toList, 80, "/b".toList⟩]
  := by
  refine ⟨?_, ?_, ?_⟩
  all_goals decide +kernel

end Fetch
