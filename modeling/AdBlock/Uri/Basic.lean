import AdBlock.Uri.Characters

/-!
# The URIs of the HTTP library

A URI is whatever the library makes of a text, and what is used of it are its parts.  Which texts
the library accepts is left open.  What is assumed (`UriCrate.Lawful`) is where the parts of an
accepted text come from: a scheme stands in front of `://` and the path begins where the authority
ends, and of an address of the web the parts that are written are read.
-/

open Rfc3986

/-- What is used of the URIs of the `http` crate. -/
structure UriCrate where
  Uri : Type
  /-- `str::parse`, with the text of the error. -/
  parse : Text → Except Text Uri
  schemeStr : Uri → Option Text
  host : Uri → Option Text
  portU16 : Uri → Option UInt16
  /-- `authority`, by its host and its port. -/
  authority : Uri → Option (Text × Option UInt16)
  /-- The text of `path_and_query`. -/
  pathAndQuery : Uri → Option Text

namespace UriCrate

variable {U : UriCrate}

/-- The text is a URI to the library. -/
def Accepts (U : UriCrate) (s : Text) : Prop :=
  ∃ uri, U.parse s = .ok uri

/-- What follows an authority, or a slash if nothing does. -/
def pathOf (s : Text) : Text :=
  if s.dropWhile (!isEnd ·) = [] then ['/'] else s.dropWhile (!isEnd ·)

/-- What is assumed of the library. -/
structure Lawful (U : UriCrate) : Prop where
  /-- A scheme is read from in front of `://`, and the path with the query is what follows the
  authority after it. -/
  exists_scheme {s scheme : Text} {uri : U.Uri} (h : U.parse s = .ok uri)
      (hscheme : U.schemeStr uri = some scheme) (hs : '#' ∉ s) :
    ∃ front rest, s = front ++ "://".toList ++ rest ∧ (∀ c ∈ front, isEnd c = false) ∧
      U.pathAndQuery uri = some (pathOf rest)
  /-- A scheme of the web is read in any case of its letters. -/
  schemeStr_text {u : Url} {uri : U.Uri} (h : U.parse u.text = .ok uri) :
    U.schemeStr uri = some u.scheme.lower
  host_text {u : Url} {uri : U.Uri} (h : U.parse u.text = .ok uri) :
    U.host uri = some u.authority.host.text
  /-- A port is read if it is a 16 bit number. -/
  portU16_text {u : Url} {uri : U.Uri} (h : U.parse u.text = .ok uri) :
    U.portU16 uri = u.authority.port.bind (Net.parseU16 ·.val)
  /-- What is asked for at the host of an accepted address is accepted by itself. -/
  accepts_target {u : Url} (h : U.Accepts u.text) : U.Accepts u.target

/-! ### The path -/

/-- What is in front of the first `://` ends before the first slash. -/
theorem takeWhile_scheme {front rest : Text} (h : ∀ c ∈ front, isEnd c = false) :
  (front ++ "://".toList ++ rest).takeWhile (!isEnd ·) = front ++ [':']
  := by
  have hsplit : front ++ "://".toList ++ rest = front ++ [':'] ++ '/' :: '/' :: rest := by
    rw [List.append_assoc, List.append_assoc]
    rfl
  rw [hsplit]
  apply takeWhile_append_stop
  · rw [List.forall_mem_append]
    exact ⟨fun c hc => by rw [h c hc]; rfl, by decide⟩
  · intro c hc
    rw [← Option.some.inj hc]
    rfl

theorem scheme_inj {front front' rest rest' : Text} (h : ∀ c ∈ front, isEnd c = false)
    (h' : ∀ c ∈ front', isEnd c = false)
    (heq : front ++ "://".toList ++ rest = front' ++ "://".toList ++ rest') :
  rest = rest'
  := by
  have htake := congrArg (List.takeWhile (!isEnd ·)) heq
  rw [takeWhile_scheme h, takeWhile_scheme h'] at htake
  rw [List.append_cancel_right htake] at heq
  exact List.append_cancel_left heq

namespace Lawful

variable (hU : U.Lawful)

include hU

/-- The path of what is built with a scheme is what follows the authority. -/
theorem pathAndQuery_append {front rest scheme : Text} {uri : U.Uri}
    (hfront : ∀ c ∈ front, isEnd c = false) (hrest : '#' ∉ rest)
    (h : U.parse (front ++ "://".toList ++ rest) = .ok uri)
    (hscheme : U.schemeStr uri = some scheme) :
  U.pathAndQuery uri = some (pathOf rest)
  := by
  have hs : '#' ∉ front ++ "://".toList ++ rest := by
    rw [List.mem_append, List.mem_append, not_or, not_or]
    refine ⟨⟨fun hmem => ?_, by decide⟩, hrest⟩
    cases hfront '#' hmem
  obtain ⟨front', rest', heq, hfront', hpath⟩ := hU.exists_scheme h hscheme hs
  rw [hpath, scheme_inj hfront hfront' heq]

/-- The path with the query of an address is the one that is written. -/
theorem pathAndQuery_text {u : Url} {uri : U.Uri} (h : U.parse u.text = .ok uri) :
  U.pathAndQuery uri
    = some (if pathText u.path ++ queryText u.query = [] then ['/']
        else pathText u.path ++ queryText u.query)
  := by
  have hfragment : '#' ∉ u.authority.text ++ (pathText u.path ++ queryText u.query) := by
    intro hmem
    apply (Reference.absolute u).fragment_not_mem
    rw [Reference.text, Url.text]
    exact List.mem_append_right _ hmem
  have hdrop : (pathText u.path ++ queryText u.query).dropWhile (!isEnd ·)
      = pathText u.path ++ queryText u.query := by
    rw [List.dropWhile_eq_self_iff]
    intro hlen
    have hend := ends_text u.path u.query
    rw [Ends, List.head?_eq_getElem?, List.getElem?_eq_getElem hlen] at hend
    simpa using hend _ rfl
  rw [hU.pathAndQuery_append u.scheme.isEnd_text hfragment h (hU.schemeStr_text h), pathOf,
    List.dropWhile_append_of_pos (by simpa using u.authority.isEnd_text), hdrop]

/-- A text that has no colon before the first end of an authority has no scheme. -/
theorem schemeStr_eq_none {first tail : Text} (hfirst : ∀ c ∈ first, isEnd c = false)
    (hcolon : ':' ∉ first) (htail : Ends tail) (hfragment : '#' ∉ first ++ tail) {uri : U.Uri}
    (h : U.parse (first ++ tail) = .ok uri) :
  U.schemeStr uri = none
  := by
  cases hscheme : U.schemeStr uri with
  | none => rfl
  | some scheme =>
    obtain ⟨front, rest, heq, hfront, -⟩ := hU.exists_scheme h hscheme hfragment
    have htake : (first ++ tail).takeWhile (!isEnd ·) = first := by
      apply takeWhile_append_stop
      · intro c hc
        rw [hfirst c hc]
        rfl
      · intro c hc
        rw [htail c hc]
        rfl
    rw [heq, takeWhile_scheme hfront] at htake
    apply absurd _ hcolon
    rw [← htake]
    exact List.mem_append_right _ List.mem_cons_self

end Lawful

end UriCrate
