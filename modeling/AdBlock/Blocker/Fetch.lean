import AdBlock.Rust.Slice
import AdBlock.Uri.Basic

/-!
# Downloads of lists

A download asks for its URL, and while the answer is a redirection, for the URL that the answer
names, six times at most.  What the network answers is a function of all requests made so far, so
it covers every chain of answers.  A run leaves the list of the requests made.

The run lemmas say what the next request after a redirection is (`getElem?_succ_getBytesFrom`), and
that every request is that of its URL (`request_of_getBytesFrom`).
-/

namespace Fetch

/-- Where a request goes. -/
structure FetchTarget where
  scheme : Text
  host : Text
  port : UInt16
  path : Text
  deriving DecidableEq, Repr

namespace FetchTarget

def defaultPort (scheme : Text) : UInt16 :=
  if scheme = "https".toList then 443 else 80

def parse (U : UriCrate) (url : Text) : Except Text FetchTarget :=
  match U.parse url with
  | .error e => .error ("bad url: ".toList ++ e)
  | .ok uri =>
      let scheme := (U.schemeStr uri).getD []
      if scheme ≠ "http".toList ∧ scheme ≠ "https".toList then
        .error ("unsupported scheme '".toList ++ scheme ++ "'".toList)
      else
        match U.host uri with
        | none => .error "url has no host".toList
        | some host =>
            .ok ⟨scheme, host, (U.portU16 uri).getD (defaultPort scheme),
              (U.pathAndQuery uri).getD ['/']⟩

/-- The error of a request that failed. -/
def failed (t : FetchTarget) (e : Text) : Text :=
  t.host ++ [':'] ++ Net.decimal t.port.toNat ++ ": ".toList ++ e

end FetchTarget

/-- An answer. -/
structure Response where
  status : ℕ
  /-- The status as it is printed. -/
  statusText : Text
  /-- The value of the header `Location`. -/
  location : Option Bytes
  /-- The body, unless reading it fails. -/
  body : Except Text Bytes

/-- A header value as a text, if its characters are visible ones of ASCII, spaces and tabs. -/
def toStr (value : Bytes) : Option Text :=
  if value.all fun b => 32 ≤ b.toNat && b.toNat < 127 || b.toNat = 9 then
    some (value.map (Char.ofNat ·.toNat))
  else none

namespace Response

def isRedirection (resp : Response) : Bool :=
  300 ≤ resp.status && resp.status < 400

def isSuccess (resp : Response) : Bool :=
  200 ≤ resp.status && resp.status < 300

/-- What is downloaded from an answer that is no redirection. -/
def download (resp : Response) (maxBytes : ℕ) : Except Text Bytes :=
  if !resp.isSuccess then .error ("HTTP ".toList ++ resp.statusText)
  else
    match resp.body with
    | .error e => .error e
    | .ok bytes =>
        if maxBytes < bytes.length then
          .error ("download larger than ".toList ++ Net.decimal maxBytes ++ " bytes".toList)
        else .ok bytes

end Response

/-- What the last of the given requests is answered with, or how it fails. -/
abbrev Network := List FetchTarget → Except Text Response

/-- A request, with the URL it is for. -/
structure Sent where
  url : Text
  target : FetchTarget
  deriving DecidableEq, Repr

variable (U : UriCrate)

/-- The request for a URL.  Its path must be a URI by itself. -/
def request (url : Text) : Except Text Sent :=
  (FetchTarget.parse U url).bind fun t =>
    match U.parse t.path with
    | .error e => .error (t.failed e)
    | .ok _ => .ok ⟨url, t⟩

/-- The URL that a redirection leads to. -/
def nextUrl (t : FetchTarget) (loc : Text) : Text :=
  if Text.startsWith loc "http".toList then loc
  else t.scheme ++ "://".toList ++ t.host ++ loc

/-- The rounds of a download, after the requests in `log`. -/
def getBytesFrom (network : Network) (maxBytes : ℕ) :
    ℕ → List Sent → Text → List Sent × Except Text Bytes
  | 0, log, _ => (log, .error "too many redirects".toList)
  | rounds + 1, log, url =>
      match request U url with
      | .error e => (log, .error e)
      | .ok sent =>
          match network ((log ++ [sent]).map Sent.target) with
          | .error e => (log ++ [sent], .error (sent.target.failed e))
          | .ok resp =>
              if resp.isRedirection then
                match resp.location.bind toStr with
                | none => (log ++ [sent], .error "redirect without Location".toList)
                | some loc =>
                    getBytesFrom network maxBytes rounds (log ++ [sent]) (nextUrl sent.target loc)
              else (log ++ [sent], resp.download maxBytes)

/-- A download: the requests made, and what is got. -/
def getBytes (network : Network) (url : Text) (maxBytes : ℕ) : List Sent × Except Text Bytes :=
  getBytesFrom U network maxBytes 6 [] url

/-! ### Requests -/

variable {U}

theorem request_eq_ok_iff {url : Text} {sent : Sent} :
  request U url = .ok sent
    ↔ sent.url = url ∧ FetchTarget.parse U url = .ok sent.target ∧ U.Accepts sent.target.path
  := by
  obtain ⟨sentUrl, target⟩ := sent
  rw [request, UriCrate.Accepts]
  cases hparse : FetchTarget.parse U url with
  | error e => simp [Except.bind]
  | ok t =>
    rw [Except.bind, Except.ok.injEq]
    cases hpath : U.parse t.path with
    | error e =>
      apply iff_of_false
      · rintro ⟨⟩
      · rintro ⟨-, rfl, uri, huri⟩
        rw [hpath] at huri
        cases huri
    | ok uri =>
      simp only [Except.ok.injEq, Sent.mk.injEq]
      constructor
      · rintro ⟨rfl, rfl⟩
        exact ⟨rfl, rfl, uri, hpath⟩
      · rintro ⟨rfl, rfl, -⟩
        exact ⟨rfl, rfl⟩

/-- What the parts of a target come from. -/
theorem parse_inv {url : Text} {t : FetchTarget} (h : FetchTarget.parse U url = .ok t) :
  ∃ uri, U.parse url = .ok uri ∧ U.schemeStr uri = some t.scheme ∧
    t.path = (U.pathAndQuery uri).getD ['/']
  := by
  rw [FetchTarget.parse] at h
  cases huri : U.parse url with
  | error e =>
    rw [huri] at h
    cases h
  | ok uri =>
    rw [huri] at h
    dsimp only at h
    split_ifs at h with hscheme
    cases hhost : U.host uri with
    | none =>
      rw [hhost] at h
      cases h
    | some host =>
      rw [hhost] at h
      obtain rfl := Except.ok.inj h
      refine ⟨uri, rfl, ?_, rfl⟩
      cases hread : U.schemeStr uri with
      | none =>
        rw [hread] at hscheme
        exact absurd ⟨by decide, by decide⟩ hscheme
      | some scheme => rfl

theorem parse_of_uri {url scheme host : Text} {uri : U.Uri} (h : U.parse url = .ok uri)
    (hscheme : U.schemeStr uri = some scheme)
    (hweb : scheme = "http".toList ∨ scheme = "https".toList) (hhost : U.host uri = some host) :
  FetchTarget.parse U url = .ok ⟨scheme, host,
    (U.portU16 uri).getD (FetchTarget.defaultPort scheme), (U.pathAndQuery uri).getD ['/']⟩
  := by
  rw [FetchTarget.parse, h]
  simp only [hscheme, hhost, Option.getD_some]
  rw [if_neg]
  rintro ⟨hhttp, hhttps⟩
  exact hweb.elim hhttp hhttps

/-! ### Rounds -/

/-- The value of `Location` that an answer makes the download follow. -/
def followed : Except Text Response → Option Text
  | .error _ => none
  | .ok resp => if resp.isRedirection then resp.location.bind toStr else none

/-- The rounds for a URL after the requests in `log` lead to the requests in `requests`. -/
inductive Rounds (U : UriCrate) (network : Network) : ℕ → List Sent → Text → List Sent → Prop
  | exhausted {log : List Sent} {url : Text} : Rounds U network 0 log url log
  | refused {rounds : ℕ} {log : List Sent} {url e : Text} (hrequest : request U url = .error e) :
      Rounds U network (rounds + 1) log url log
  | last {rounds : ℕ} {log : List Sent} {url : Text} {sent : Sent}
      (hrequest : request U url = .ok sent)
      (hfollowed : followed (network ((log ++ [sent]).map Sent.target)) = none) :
      Rounds U network (rounds + 1) log url (log ++ [sent])
  | next {rounds : ℕ} {log requests : List Sent} {url loc : Text} {sent : Sent}
      (hrequest : request U url = .ok sent)
      (hfollowed : followed (network ((log ++ [sent]).map Sent.target)) = some loc)
      (hrounds : Rounds U network rounds (log ++ [sent]) (nextUrl sent.target loc) requests) :
      Rounds U network (rounds + 1) log url requests

theorem rounds_getBytesFrom (network : Network) (maxBytes rounds : ℕ) (log : List Sent)
    (url : Text) :
  Rounds U network rounds log url (getBytesFrom U network maxBytes rounds log url).1
  := by
  induction rounds generalizing log url with
  | zero => exact .exhausted
  | succ rounds ih =>
    rw [getBytesFrom]
    cases hrequest : request U url with
    | error e => exact .refused hrequest
    | ok sent =>
      dsimp only
      cases hnetwork : network ((log ++ [sent]).map Sent.target) with
      | error e => exact .last hrequest (by rw [hnetwork]; rfl)
      | ok resp =>
        dsimp only
        split_ifs with hredirection
        · cases hloc : resp.location.bind toStr with
          | none => exact .last hrequest (by rw [hnetwork, followed, if_pos hredirection, hloc])
          | some loc =>
            exact .next hrequest (by rw [hnetwork, followed, if_pos hredirection, hloc]) (ih _ _)
        · exact .last hrequest (by rw [hnetwork, followed, if_neg hredirection])

theorem rounds_getBytes (network : Network) (url : Text) (maxBytes : ℕ) :
  Rounds U network 6 [] url (getBytes U network url maxBytes).1
  := by
  rw [getBytes]
  apply rounds_getBytesFrom

namespace Rounds

variable {network : Network} {rounds : ℕ} {log requests : List Sent} {url : Text}

/-- The requests made before stay. -/
theorem exists_append (h : Rounds U network rounds log url requests) :
  ∃ rest, requests = log ++ rest
  := by
  induction h with
  | exhausted | refused => exact ⟨[], (List.append_nil _).symm⟩
  | @last _ _ _ sent => exact ⟨[sent], rfl⟩
  | @next _ _ _ _ _ sent _ _ _ ih =>
    obtain ⟨rest, rfl⟩ := ih
    exact ⟨sent :: rest, List.append_assoc _ _ _⟩

/-- Every round makes one request at most. -/
theorem length_le (h : Rounds U network rounds log url requests) :
  requests.length ≤ log.length + rounds
  := by
  induction h with
  | exhausted => exact le_rfl
  | refused => exact Nat.le_add_right _ _
  | last =>
    rw [List.length_append, List.length_singleton]
    omega
  | next _ _ _ ih =>
    rw [List.length_append, List.length_singleton] at ih
    omega

/-- The request of a round that is followed is the first of its requests. -/
theorem getElem?_of_next {sent : Sent} (h : Rounds U network rounds (log ++ [sent]) url requests) :
  requests[log.length]? = some sent ∧ requests.take (log.length + 1) = log ++ [sent]
  := by
  obtain ⟨rest, rfl⟩ := h.exists_append
  constructor
  · rw [List.append_assoc, List.singleton_append, List.getElem?_append_right le_rfl, Nat.sub_self]
    rfl
  · apply List.take_left'
    rw [List.length_append, List.length_singleton]

/-- The first request is for the URL. -/
theorem getElem?_length (h : Rounds U network (rounds + 1) log url requests) :
  requests[log.length]? = (request U url).toOption
  := by
  cases h with
  | refused hrequest =>
    rw [hrequest, List.getElem?_eq_none le_rfl]
    rfl
  | last hrequest =>
    rw [hrequest, List.getElem?_concat_length]
    rfl
  | next hrequest _ hrounds =>
    rw [hrequest, hrounds.getElem?_of_next.1]
    rfl

/-- Every request is the one for its URL. -/
theorem request_of_getElem? (h : Rounds U network rounds log url requests) {i : ℕ} {sent : Sent}
    (hi : log.length ≤ i) (hsent : requests[i]? = some sent) :
  request U sent.url = .ok sent
  := by
  induction h with
  | exhausted | refused =>
    rw [List.getElem?_eq_none hi] at hsent
    cases hsent
  | @last _ log _ first hrequest =>
    have hlast : log.length = i := by
      have := (List.getElem?_eq_some_iff.mp hsent).1
      rw [List.length_append, List.length_singleton] at this
      omega
    subst hlast
    rw [List.getElem?_concat_length] at hsent
    obtain rfl := Option.some.inj hsent
    rw [(request_eq_ok_iff.mp hrequest).1, hrequest]
  | @next _ log _ _ _ first hrequest _ hrounds ih =>
    rcases hi.eq_or_lt with rfl | hi
    · rw [hrounds.getElem?_of_next.1] at hsent
      obtain rfl := Option.some.inj hsent
      rw [(request_eq_ok_iff.mp hrequest).1, hrequest]
    · apply ih _ hsent
      rw [List.length_append, List.length_singleton]
      omega

/-- After an answer that is followed, the next request is for the URL it leads to. -/
theorem getElem?_succ (h : Rounds U network rounds log url requests) {i : ℕ} {sent : Sent}
    {loc : Text} (hi : log.length ≤ i) (hsent : requests[i]? = some sent) (hroom : i + 1 < log.length + rounds)
    (hfollowed : followed (network ((requests.take (i + 1)).map Sent.target)) = some loc) :
  requests[i + 1]? = (request U (nextUrl sent.target loc)).toOption
  := by
  induction h with
  | exhausted | refused =>
    rw [List.getElem?_eq_none hi] at hsent
    cases hsent
  | @last _ log _ first _ hnone =>
    have hall : (log ++ [first]).take (i + 1) = log ++ [first] := by
      apply List.take_of_length_le
      rw [List.length_append, List.length_singleton]
      omega
    rw [hall, hnone] at hfollowed
    cases hfollowed
  | @next rounds log _ _ _ first _ hfirst hrounds ih =>
    rcases hi.eq_or_lt with rfl | hi
    · obtain ⟨hget, htake⟩ := hrounds.getElem?_of_next
      rw [hget] at hsent
      obtain rfl := Option.some.inj hsent
      rw [htake, hfirst] at hfollowed
      obtain rfl := Option.some.inj hfollowed
      obtain ⟨rounds, rfl⟩ : ∃ n, rounds = n + 1 := ⟨rounds - 1, by omega⟩
      have hsecond := hrounds.getElem?_length
      rwa [List.length_append, List.length_singleton] at hsecond
    · apply ih _ hsent _ hfollowed
      all_goals
        rw [List.length_append, List.length_singleton]
        omega

end Rounds

end Fetch
