import AdBlock.Rust.Slice
import Mathlib.Data.Finset.Basic
import Mathlib.Data.Finset.Dedup

/-!
# Rewriting a page

A style sheet and a script are spliced into the bytes of a page, and the class and id names of a
page are read off its text.  The scan for names slices the text at byte offsets; it ends, and never
slices inside a character (`htmlClassesAndIds_isSome`).
-/

namespace Rewrite

/-- Pages with more bytes are forwarded as they are. -/
def maxEditBytes : ℕ := 4 * 1024 * 1024

/-- The headers of a response under which an inline script does not run. -/
def cspHeaders : List Text :=
  ["content-security-policy".toList, "content-security-policy-report-only".toList]

/-! ### The script that asks about names -/

/-- The script with the address that it asks. -/
def endpoint (template host port : Text) : Text :=
  Text.replace template "__COSMETIC_ENDPOINT__".toList
    ("http://".toList ++ host ++ ':' :: port ++ "/api/cosmetic".toList)

def cosmeticRuntime (template adminListen : Text) : Option Text :=
  let addr := Text.trim adminListen
  if addr.isEmpty then none
  else do
    let port ← (Text.rsplit addr ':').head?.filter (· ≠ [])
    match (Text.rsplitOnce addr ':').map fun (h, _) => Text.trimMatchesAny h ['[', ']'] with
    | none => some (endpoint template "127.0.0.1".toList port)
    | some h =>
        if h = "0.0.0.0".toList ∨ h = "::".toList ∨ h = [] then
          some (endpoint template "127.0.0.1".toList port)
        else if ':' ∈ h then some (endpoint template ('[' :: h ++ [']']) port)
        else some (endpoint template h port)

/-! ### Splicing -/

/-- The first place at or after `start` with the bytes, in any case. -/
def findAscii (haystack needle : Bytes) (start : ℕ) : Option ℕ :=
  if haystack.length < start then none
  else
    ((Bytes.windows (haystack.drop start) needle.length).findIdx?
      (Bytes.eqIgnoreAsciiCase · needle)).map (start + ·)

def styleTag (css : Text) : Text :=
  "<style type=\"text/css\">".toList ++ css ++ "</style>".toList

/-- A script that removes itself after it has run. -/
def scriptTag (script : Text) : Text :=
  "<script>try\x7b\n".toList ++ script
    ++ "\n\x7dcatch(e)\x7b\x7ddocument.currentScript.remove()</script>".toList

/-- The bytes up to the script and the script, and the place from which the page goes on. -/
def spliceScript (html : Bytes) (script : Text) : Bytes × ℕ :=
  if script.isEmpty then ([], 0)
  else
    let tag := Text.asBytes (scriptTag script)
    let afterHead := (findAscii html (Text.asBytes "<head".toList) 0).bind fun h =>
      (findAscii html (Text.asBytes ">".toList) h).map (· + 1)
    match afterHead with
    | some p => (html.take p ++ tag, p)
    | none => (tag, 0)

/-- The bytes up to the style sheet and the style sheet, and the place from which the page goes
on. -/
def spliceStyle (html : Bytes) (css : Text) (out : Bytes) (cursor : ℕ) : Bytes × ℕ :=
  if css.isEmpty then (out, cursor)
  else
    let style := Text.asBytes (styleTag css)
    let pos := (findAscii html (Text.asBytes "</head>".toList) cursor).or
      (findAscii html (Text.asBytes "</body>".toList) cursor)
    match pos with
    | some p => (out ++ (html.take p).drop cursor ++ style, p)
    | none => (out ++ style, cursor)

def injectIntoHtml (html : Bytes) (css script : Text) : Option Bytes :=
  if css.isEmpty && script.isEmpty then none
  else
    let (out, cursor) := spliceScript html script
    let (out, cursor) := spliceStyle html css out cursor
    some (out ++ html.drop cursor)

theorem injectIntoHtml_eq_none_iff {html : Bytes} {css script : Text} :
  injectIntoHtml html css script = none ↔ css = [] ∧ script = []
  := by
  simp [injectIntoHtml]

/-! ### The names of a page -/

/-- The value in quotes after the name of an attribute, if there is one.  Fails if a slice does. -/
def quotedValue (rest : Text) : Option (Option Text) :=
  match Text.stripPrefix rest ['='] with
  | none => some none
  | some rest =>
      match rest.head?.filter (· ∈ "\"'".toList) with
      | none => some none
      | some quote => do
          let value ← Text.sliceFrom rest 1
          match Text.findChar value quote with
          | none => some none
          | some stop => (Text.sliceTo value stop).map some

/-- The values of an attribute from an offset on.  Fails if a slice does, or if there are more than
`fuel` copies of the name. -/
def attributeValues (html attr : Text) : (fuel start : ℕ) → Option (List Text)
  | 0, _ => none
  | fuel + 1, start => do
      let lower := Text.toAsciiLowercase html
      match Text.find (← Text.sliceFrom lower start) attr with
      | none => some []
      | some p =>
          let start := start + p
          let next := start + Text.len attr
          if (← Text.sliceTo lower start).getLast?.any Text.isAsciiWhitespace then
            let value ← quotedValue (← Text.sliceFrom html next)
            (value.toList ++ ·) <$> attributeValues html attr fuel next
          else attributeValues html attr fuel next

/-- The class names and the id names of a page. -/
def htmlClassesAndIds (html : Text) : Option (Finset Text × Finset Text) := do
  let classes ← attributeValues html "class".toList (html.length + 1) 0
  let ids ← attributeValues html "id".toList (html.length + 1) 0
  return ((classes.flatMap Text.splitAsciiWhitespace).toFinset, (ids.filter (· ≠ [])).toFinset)

/-- A quote has one byte. -/
theorem sliceFrom_quote {quote : Char} (h : quote ∈ "\"'".toList) (text : Text) :
  Text.sliceFrom (quote :: text) 1 = some text
  := by
  have hone : ∀ c ∈ "\"'".toList, Text.len [c] = 1 := by decide
  have hslice := Text.sliceFrom_append [quote] text
  rw [hone quote h, List.singleton_append] at hslice
  exact hslice

theorem quotedValue_total (rest : Text) :
  ∃ value, quotedValue rest = some value
  := by
  rw [quotedValue]
  split
  · exact ⟨none, rfl⟩
  · rename_i rest hprefix
    split
    · exact ⟨none, rfl⟩
    · rename_i quote hhead
      obtain ⟨hquote, hmem⟩ := Option.filter_eq_some_iff.mp hhead
      obtain ⟨value, rfl⟩ := List.head?_eq_some_iff.mp hquote
      rw [sliceFrom_quote (of_decide_eq_true hmem), Option.bind_eq_bind, Option.bind_some]
      split
      · exact ⟨none, rfl⟩
      · rename_i stop hstop
        obtain ⟨front, tail, rfl, rfl⟩ := Text.findChar_eq_some hstop
        rw [Text.sliceTo_append]
        exact ⟨some front, rfl⟩

theorem toAsciiLowercase_append (s t : Text) :
  Text.toAsciiLowercase (s ++ t) = Text.toAsciiLowercase s ++ Text.toAsciiLowercase t
  := List.map_append

section Step

variable {attr : Text} {fuel : ℕ} {before front name tail : Text}

theorem sliceFrom_toAsciiLowercase (before rest : Text) :
  Text.sliceFrom (Text.toAsciiLowercase (before ++ rest)) (Text.len before)
    = some (Text.toAsciiLowercase rest)
  := by
  rw [toAsciiLowercase_append, ← Text.len_toAsciiLowercase before, Text.sliceFrom_append]

/-- Without another copy of the name the scan ends. -/
theorem attributeValues_of_none {rest : Text}
    (h : Text.splitOnceText attr (Text.toAsciiLowercase rest) = none) :
  attributeValues (before ++ rest) attr (fuel + 1) (Text.len before) = some []
  := by
  rw [attributeValues, sliceFrom_toAsciiLowercase, Option.bind_eq_bind, Option.bind_some, Text.find,
    h]
  rfl

/-- The next copy of the name: there may be a value behind it, and the scan goes on there. -/
theorem attributeValues_of_some
    (h : Text.splitOnceText attr (Text.toAsciiLowercase (front ++ (name ++ tail)))
      = some (Text.toAsciiLowercase front, Text.toAsciiLowercase tail))
    (hname : Text.toAsciiLowercase name = attr) {values : List Text} {value : Option Text}
    (hvalue : quotedValue tail = some value)
    (hvalues : attributeValues (before ++ front ++ name ++ tail) attr fuel
      (Text.len (before ++ front ++ name)) = some values) :
  attributeValues (before ++ (front ++ (name ++ tail))) attr (fuel + 1) (Text.len before)
    = some ((if (Text.toAsciiLowercase (before ++ front)).getLast?.any Text.isAsciiWhitespace
      then value.toList else []) ++ values)
  := by
  have hstart : Text.sliceTo (Text.toAsciiLowercase (before ++ (front ++ (name ++ tail))))
      (Text.len before + Text.len (Text.toAsciiLowercase front))
      = some (Text.toAsciiLowercase (before ++ front)) := by
    rw [Text.len_toAsciiLowercase, ← List.append_assoc before, toAsciiLowercase_append,
      ← Text.len_append, ← Text.len_toAsciiLowercase (before ++ front), Text.sliceTo_append]
  have hnext : before ++ (front ++ (name ++ tail)) = before ++ front ++ name ++ tail := by
    simp only [List.append_assoc]
  have hlen : Text.len before + Text.len (Text.toAsciiLowercase front) + Text.len attr
      = Text.len (before ++ front ++ name) := by
    rw [← hname, Text.len_toAsciiLowercase, Text.len_toAsciiLowercase, Text.len_append,
      Text.len_append]
  rw [attributeValues, sliceFrom_toAsciiLowercase, Option.bind_eq_bind, Option.bind_some, Text.find,
    h, Option.map_some]
  dsimp only
  rw [hstart, Option.bind_some, hlen, hnext, hvalues, Text.sliceFrom_append, Option.bind_some,
    hvalue]
  split
  · rfl
  · rfl

end Step

/-- A copy of the name in lower case is one of the text, and what is behind it is shorter. -/
theorem exists_of_splitOnceText_toAsciiLowercase {attr rest : Text} {parts : Text × Text}
    (hattr : attr ≠ [])
    (h : Text.splitOnceText attr (Text.toAsciiLowercase rest) = some parts) :
  ∃ front name tail, rest = front ++ (name ++ tail) ∧ Text.toAsciiLowercase name = attr
    ∧ parts = (Text.toAsciiLowercase front, Text.toAsciiLowercase tail)
    ∧ tail.length < rest.length
  := by
  have hlt := Text.splitOnceText_length_lt hattr h
  obtain ⟨front, last, rfl, hfront, hlast⟩ :=
    List.map_eq_append_iff.mp (Text.splitOnceText_eq_some h)
  obtain ⟨name, tail, rfl, hname, htail⟩ := List.map_eq_append_iff.mp hlast
  rw [← htail, Text.toAsciiLowercase, List.length_map, List.length_map] at hlt
  exact ⟨front, name, tail, rfl, hname, Prod.ext hfront.symm htail.symm, hlt⟩

/-- The scan slices the text only where a character starts, and ends. -/
theorem attributeValues_total {attr : Text} (hattr : attr ≠ []) (fuel : ℕ) (before rest : Text)
    (hfuel : rest.length < fuel) :
  ∃ values, attributeValues (before ++ rest) attr fuel (Text.len before) = some values
  := by
  -- what is behind the name gets shorter from copy to copy
  induction fuel generalizing before rest with
  | zero => omega
  | succ fuel ih =>
    cases hsplit : Text.splitOnceText attr (Text.toAsciiLowercase rest) with
    | none => exact ⟨[], attributeValues_of_none hsplit⟩
    | some parts =>
      obtain ⟨front, name, tail, rfl, hname, rfl, hlt⟩ :=
        exists_of_splitOnceText_toAsciiLowercase hattr hsplit
      obtain ⟨values, hvalues⟩ := ih (before ++ front ++ name) tail (by omega)
      obtain ⟨value, hvalue⟩ := quotedValue_total tail
      exact ⟨_, attributeValues_of_some hsplit hname hvalue hvalues⟩

theorem htmlClassesAndIds_isSome (html : Text) :
  (htmlClassesAndIds html).isSome = true
  := by
  obtain ⟨classes, hclasses⟩ := attributeValues_total
    (by decide : "class".toList ≠ []) (html.length + 1) [] html (Nat.lt_succ_self _)
  obtain ⟨ids, hids⟩ := attributeValues_total
    (by decide : "id".toList ≠ []) (html.length + 1) [] html (Nat.lt_succ_self _)
  have hclasses : attributeValues html "class".toList (html.length + 1) 0 = some classes := hclasses
  have hids : attributeValues html "id".toList (html.length + 1) 0 = some ids := hids
  rw [htmlClassesAndIds, hclasses, hids]
  rfl

/-- The names, which the scan always gives. -/
def classesAndIds (html : Text) : Finset Text × Finset Text :=
  (htmlClassesAndIds html).get (htmlClassesAndIds_isSome html)

end Rewrite
