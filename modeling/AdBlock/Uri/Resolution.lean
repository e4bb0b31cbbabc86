import AdBlock.Rust.Ascii
import AdBlock.Rust.Net

/-!
# References to web addresses

The grammar of RFC 3986 for addresses of the schemes `http` and `https` without a fragment, and the
resolution of a reference against a base (section 5.2).  Every part is a text of the characters
allowed there (`Word`), so what is built from the parts is well formed; that a percent sign is
followed by two digits is not asked for, nor the form of an address in brackets.  A path after an
authority is the list of its segments, each with a slash in front.
-/

namespace Rfc3986

/-! ### Characters -/

/-- The characters that stand for themselves everywhere: the unreserved ones and those that delimit
within a part. -/
def isPlain (c : Char) : Bool :=
  c.isAlphanum || ['-', '.', '_', '~', '!', '$', '&', '\'', '(', ')', '*', '+', ',', ';',
    '='].contains c

def isNameChar (c : Char) : Bool :=
  isPlain c || c = '%'

def isLiteralChar (c : Char) : Bool :=
  isPlain c || c = ':'

def isUserinfoChar (c : Char) : Bool :=
  isPlain c || c = '%' || c = ':'

def isSegmentChar (c : Char) : Bool :=
  isPlain c || c = '%' || c = ':' || c = '@'

def isQueryChar (c : Char) : Bool :=
  isSegmentChar c || c = '/' || c = '?'

/-- A text of characters of one kind. -/
abbrev Word (p : Char → Bool) : Type :=
  { s : Text // s.all p }

abbrev Segment : Type := Word isSegmentChar

abbrev Query : Type := Word isQueryChar

/-! ### Addresses -/

/-- A scheme of the web, in some case of its letters. -/
structure Scheme where
  text : Text
  web : Text.toAsciiLowercase text = "http".toList ∨ Text.toAsciiLowercase text = "https".toList

namespace Scheme

def lower (scheme : Scheme) : Text :=
  Text.toAsciiLowercase scheme.text

def defaultPort (scheme : Scheme) : ℕ :=
  if scheme.lower = "https".toList then 443 else 80

theorem lower_cases (scheme : Scheme) :
  scheme.lower = "http".toList ∨ scheme.lower = "https".toList
  := scheme.web

theorem toAsciiLowercase_lower (scheme : Scheme) :
  Text.toAsciiLowercase scheme.lower = scheme.lower
  := Text.toAsciiLowercase_eq_self_iff.mpr (Text.isLower_toAsciiLowercase scheme.text)

/-- The scheme in small letters. -/
def small (scheme : Scheme) : Scheme where
  text := scheme.lower
  web := by
    rw [toAsciiLowercase_lower]
    exact scheme.lower_cases

theorem lower_small (scheme : Scheme) :
  scheme.small.lower = scheme.lower
  := toAsciiLowercase_lower scheme

end Scheme

/-- A name, or an address in brackets. -/
inductive Host where
  | name (s : Word isNameChar) (nonempty : s.val ≠ [])
  | literal (s : Word isLiteralChar)

def Host.text : Host → Text
  | name s _ => s.val
  | literal s => '[' :: s.val ++ [']']

structure Authority where
  userinfo : Option (Word isUserinfoChar)
  host : Host
  port : Option (Word (Net.isDigit 10))

/-- A part with what is in front of it or behind it, if the part is there. -/
def writePart {p : Char → Bool} (write : Text → Text) : Option (Word p) → Text
  | none => []
  | some s => write s.val

namespace Authority

/-- What is in front of the host. -/
def front (a : Authority) : Text :=
  writePart (· ++ ['@']) a.userinfo

/-- What is behind the host. -/
def back (a : Authority) : Text :=
  writePart (':' :: ·) a.port

def text (a : Authority) : Text :=
  a.front ++ a.host.text ++ a.back

end Authority

def pathText (path : List Segment) : Text :=
  path.flatMap fun s => '/' :: s.val

@[simp]
theorem pathText_cons (s : Segment) (path : List Segment) :
  pathText (s :: path) = '/' :: (s.val ++ pathText path)
  := rfl

@[simp]
theorem pathText_append (path path' : List Segment) :
  pathText (path ++ path') = pathText path ++ pathText path'
  := List.flatMap_append

def queryText (query : Option Query) : Text :=
  writePart ('?' :: ·) query

/-- An address of the web without a fragment. -/
structure Url where
  scheme : Scheme
  authority : Authority
  path : List Segment
  query : Option Query

namespace Url

def text (u : Url) : Text :=
  u.scheme.text ++ "://".toList ++ (u.authority.text ++ (pathText u.path ++ queryText u.query))

/-- The port that is meant: that of the scheme if none is given. -/
def port (u : Url) : ℕ :=
  match u.authority.port with
  | none => u.scheme.defaultPort
  | some digits => if digits.val = [] then u.scheme.defaultPort else Net.ofDigits 10 digits.val

/-- What is asked for at the host: the path, which is a slash if it is empty, and the query. -/
def target (u : Url) : Text :=
  (if u.path = [] then ['/'] else pathText u.path) ++ queryText u.query

end Url

/-! ### Resolution -/

/-- No segment stands for the folder itself or the one above. -/
def NoDots (path : List Segment) : Prop :=
  ∀ s ∈ path, s.val ≠ ['.'] ∧ s.val ≠ ['.', '.']

def emptySegment : Segment :=
  ⟨[], rfl⟩

/-- Take the dot segments out of a path, after the segments `kept`, of which the last is first.  A
dot segment at the end leaves an empty segment. -/
def removeDotSegmentsFrom (kept : List Segment) : List Segment → List Segment
  | [] => kept.reverse
  | s :: path =>
      if s.val = ['.'] then
        if path = [] then (emptySegment :: kept).reverse else removeDotSegmentsFrom kept path
      else if s.val = ['.', '.'] then
        if path = [] then (emptySegment :: kept.tail).reverse
        else removeDotSegmentsFrom kept.tail path
      else removeDotSegmentsFrom (s :: kept) path

def removeDotSegments (path : List Segment) : List Segment :=
  removeDotSegmentsFrom [] path

theorem removeDotSegmentsFrom_of_noDots {path : List Segment} (h : NoDots path)
    (kept : List Segment) :
  removeDotSegmentsFrom kept path = kept.reverse ++ path
  := by
  induction path generalizing kept with
  | nil => rw [removeDotSegmentsFrom, List.append_nil]
  | cons s path ih =>
    obtain ⟨hdot, hdots⟩ := h s List.mem_cons_self
    rw [removeDotSegmentsFrom, if_neg hdot, if_neg hdots,
      ih fun s hs => h s (List.mem_cons_of_mem _ hs), List.reverse_cons, List.append_assoc]
    rfl

/-- A path without dot segments stays as it is. -/
theorem removeDotSegments_of_noDots {path : List Segment} (h : NoDots path) :
  removeDotSegments path = path
  := removeDotSegmentsFrom_of_noDots h []

/-- A reference to an address of the web. -/
inductive Reference where
  | absolute (url : Url)
  | network (authority : Authority) (path : List Segment) (query : Option Query)
  /-- An empty first segment is the only one: two slashes are in front of an authority. -/
  | absolutePath (first : Segment) (rest : List Segment) (query : Option Query)
      (slash : first.val = [] → rest = [])
  /-- A colon in the first segment is that of a scheme. -/
  | relativePath (first : Segment) (rest : List Segment) (query : Option Query)
      (nonempty : first.val ≠ []) (colon : ':' ∉ first.val)
  | samePath (query : Option Query)

namespace Reference

def text : Reference → Text
  | absolute url => url.text
  | network authority path query =>
      "//".toList ++ (authority.text ++ (pathText path ++ queryText query))
  | absolutePath first rest query _ => pathText (first :: rest) ++ queryText query
  | relativePath first rest query _ _ => first.val ++ (pathText rest ++ queryText query)
  | samePath query => queryText query

/-- No segment of the reference is a dot segment. -/
def NoDotSegments : Reference → Prop
  | absolute url => NoDots url.path
  | network _ path _ => NoDots path
  | absolutePath first rest _ _ => NoDots (first :: rest)
  | relativePath first rest _ _ _ => NoDots (first :: rest)
  | samePath _ => True

/-- What a reference refers to from a base.  A relative path replaces the last segment of the
base. -/
def resolve (base : Url) : Reference → Url
  | absolute url => { url with path := removeDotSegments url.path }
  | network authority path query => ⟨base.scheme, authority, removeDotSegments path, query⟩
  | absolutePath first rest query _ =>
      ⟨base.scheme, base.authority, removeDotSegments (first :: rest), query⟩
  | relativePath first rest query _ _ =>
      ⟨base.scheme, base.authority, removeDotSegments (base.path.dropLast ++ first :: rest), query⟩
  | samePath query => ⟨base.scheme, base.authority, base.path, query <|> base.query⟩

end Reference

end Rfc3986
