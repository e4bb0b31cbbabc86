import AdBlock.Blocker.Page
import AdBlock.Json.Escape

/-!
# The script of the procedural rules

The procedural rules of a page go into a script as a JSON array, with an escape for each `<`, and the
array denotes the same values (`escapedRules_denotes`).  The script has two placeholders for the array:
one where the rules are used, and one in a comment.  The comment still ends where it did exactly when
no rule has one of the line terminators that JSON does not escape (`proceduralInjection_comment_iff`).
-/

open Json

/-! ### The rules -/

/-- The rules as an array that can be put into a script. -/
def escapedRules (rules : List Text) : Text :=
  escapeLess ('[' :: Text.join rules [','] ++ [']'])

/-- JSON texts in order, as an array with escapes: there is no `<` left, and the array denotes the
values of the texts, in this order, and nothing else. -/
theorem escapedRules_denotes (texts : List Text) (value : Text → Json)
    (h : ∀ text ∈ texts, Denotes text (value text)) :
  '<' ∉ escapedRules (texts.insertionSort (· ≤ ·))
    ∧ Denotes (escapedRules (texts.insertionSort (· ≤ ·)))
      (.arr ((texts.insertionSort (· ≤ ·)).map value))
    ∧ ∀ v, Denotes (escapedRules (texts.insertionSort (· ≤ ·))) v →
      v = .arr ((texts.insertionSort (· ≤ ·)).map value)
  := by
  have hvalues : List.Forall₂ Denotes (texts.insertionSort (· ≤ ·))
      ((texts.insertionSort (· ≤ ·)).map value) := by
    rw [List.forall₂_map_right_iff, List.forall₂_same]
    intro text htext
    apply h text ((List.perm_insertionSort _ texts).mem_iff.mp htext)
  have hdenotes := denotes_escapeLess (denotes_array hvalues)
  refine ⟨not_mem_escapeLess _, hdenotes, ?_⟩
  intro v hv
  apply hv.unique hdenotes

/-- Two texts, one with an end of a script in it. -/
theorem escapedRules_denotes_script :
  Denotes (escapedRules (["\"</script>\"".toList, "1".toList].insertionSort (· ≤ ·)))
    (.arr ((["\"</script>\"".toList, "1".toList].insertionSort (· ≤ ·)).map fun text =>
      if text = "1".toList then .int 1 else .str "</script>".toList))
  := by
  apply (escapedRules_denotes _ _ _).2.1
  intro text htext
  rcases List.mem_pair.mp htext with rfl | rfl
  · rfl
  · rfl

namespace AdBlocker

variable {A : Library} (P : PageLibrary A) (b : AdBlocker A)

/-- The procedural rules of a page, in order. -/
def proceduralRules (url : Text) : List Text :=
  sorted ((A.urlCosmeticResources b.core.engine url).proceduralActions.filter (P.isProcedural ·))

/-- The rules of a page go into the script as an array with escapes. -/
theorem proceduralInjection_of_rules {url : Text} (hon : b.enabled = true)
    (hrules : b.proceduralRules P url ≠ []) :
  b.proceduralInjection P url
    = some (Text.replace P.proceduralRuntime "__PROCEDURAL_FILTERS__".toList
      (escapedRules (b.proceduralRules P url)))
  := by
  have hactions : b.proceduralActions P url
      = '[' :: Text.join (b.proceduralRules P url) [','] ++ [']'] := by
    rw [proceduralActions, hon]
    exact if_neg (mt List.isEmpty_iff.mp hrules)
  rw [proceduralInjection, hactions]
  rfl

end AdBlocker

/-! ### Comments of a script -/

/-- A character that ends a line of a script, and with it a comment. -/
def isLineTerminator (c : Char) : Bool :=
  c ∈ ['\n', '\r', '\u2028', '\u2029']

/-- White space of a script. -/
def isScriptSpace (c : Char) : Bool :=
  c ∈ ['\t', '\x0b', '\x0c', ' ', '\xa0', '\u1680', '\u202f', '\u205f', '\u3000', '\ufeff']
    || '\u2000' ≤ c && c ≤ '\u200a'

/-- What is left of a script without the comments and the white space in front of it.  The flag says
whether a comment is open. -/
def skipComments : Bool → Text → Text
  | _, [] => []
  | true, c :: s => skipComments (!isLineTerminator c) s
  | false, '/' :: '/' :: s => skipComments true s
  | false, c :: s => if isLineTerminator c || isScriptSpace c then skipComments false s else c :: s

/-- The rest of a comment. -/
theorem skipComments_comment {line : Text} (h : ∀ c ∈ line, isLineTerminator c = false)
    (rest : Text) :
  skipComments true (line ++ rest) = skipComments true rest
  := by
  induction line with
  | nil => rfl
  | cons c line ih =>
    rw [List.forall_mem_cons] at h
    rw [List.cons_append, skipComments, h.1]
    exact ih h.2

/-- A line that is a comment. -/
theorem skipComments_line {line : Text} (h : ∀ c ∈ line, isLineTerminator c = false) (rest : Text) :
  skipComments false ("//".toList ++ (line ++ '\n' :: rest)) = skipComments false rest
  := by
  have hopen : skipComments false ("//".toList ++ (line ++ '\n' :: rest))
      = skipComments true (line ++ '\n' :: rest) := rfl
  rw [hopen, skipComments_comment h]
  rfl

/-! ### The script -/

/-- The lines of the script before the one with the first placeholder. -/
def runtimeLines : List Text :=
  [" Procedural cosmetic filtering.".toList,
    "".toList,
    " The cosmetic rules a stylesheet cannot express: pick elements by the text".toList,
    " inside them, by an ancestor, by computed style, by an XPath expression — and".toList,
    " act on them by deleting the node, an attribute or a class, not only by hiding".toList,
    " it. CSS can make something invisible; it cannot take it out of the document,".toList,
    " and some anti-adblock code checks for presence rather than visibility.".toList,
    "".toList,
    " The proxy embeds this page's own rules below, so unlike the class/id lookup".toList,
    " in cosmetic_runtime.js this asks the proxy nothing and works in every".toList]

/-- The script up to the first placeholder. -/
def runtimeFront : Text :=
  (runtimeLines.flatMap fun line => "//".toList ++ (line ++ ['\n'])) ++ "// browser. ".toList

/-- The rest of the comment behind the first placeholder. -/
def runtimeComment : Text :=
  (" is replaced with the JSON the filter engine\n"
    ++ "// produced for this page before this is injected.\n").toList

/-- The code between the comment and the second placeholder. -/
def runtimeOpen : Text :=
  "(function () \x7b\n  var FILTERS = ".toList

/-- The script with something in place of both placeholders; `rest` is the code behind the second. -/
def runtimeWith (filters rest : Text) : Text :=
  runtimeFront ++ (filters ++ (runtimeComment ++ runtimeOpen ++ (filters ++ rest)))

/-- The placeholder. -/
def placeholder : Text := "__PROCEDURAL_FILTERS__".toList

/-- The lines in front have no line terminator in them, and no placeholder. -/
theorem runtimeFront_lines :
  (∀ line ∈ runtimeLines, ∀ c ∈ line, isLineTerminator c = false)
    ∧ Text.splitOnceText placeholder (runtimeFront ++ placeholder) = some (runtimeFront, [])
  := by
  -- both at once, since it is reading the lines that takes long
  decide +kernel

/-- Both placeholders are replaced, and nothing else. -/
theorem replace_runtimeWith {rest : Text} (hrest : Text.splitOnceText placeholder rest = none)
    (filters : Text) :
  Text.replace (runtimeWith placeholder rest) placeholder filters = runtimeWith filters rest
  := by
  have hne : placeholder ≠ [] := by decide
  have hsplit {before : Text} (h : Text.splitOnceText placeholder (before ++ placeholder)
      = some (before, [])) (rest : Text) :
      Text.splitOnceText placeholder (before ++ (placeholder ++ rest)) = some (before, rest) := by
    rw [← List.append_assoc]
    apply Text.splitOnceText_append_right hne h
  have hcode : Text.splitOnceText placeholder (runtimeComment ++ runtimeOpen ++ placeholder)
      = some (runtimeComment ++ runtimeOpen, []) := by decide +kernel
  rw [runtimeWith, Text.replace_of_split hne (hsplit runtimeFront_lines.2 _),
    Text.replace_of_split hne (hsplit hcode _), Text.replace_of_none hrest]
  rfl

theorem skipComments_runtimeFront (rest : Text) :
  skipComments false (runtimeFront ++ rest) = skipComments true rest
  := by
  have hlines : ∀ lines : List Text, (∀ line ∈ lines, ∀ c ∈ line, isLineTerminator c = false) →
      ∀ rest, skipComments false
        ((lines.flatMap fun line => "//".toList ++ (line ++ ['\n'])) ++ rest)
        = skipComments false rest := by
    intro lines h rest
    induction lines with
    | nil => rfl
    | cons line lines ih =>
      rw [List.forall_mem_cons] at h
      rw [List.flatMap_cons, List.append_assoc, List.append_assoc, List.append_assoc,
        List.singleton_append, skipComments_line h.1, ih h.2]
  rw [runtimeFront, List.append_assoc, hlines runtimeLines runtimeFront_lines.1]
  rfl

/-- With filters that have no line terminator, the code is that of the script with the filters in
place of the second placeholder. -/
theorem skipComments_runtimeWith {filters : Text}
    (h : ∀ c ∈ filters, isLineTerminator c = false) (rest : Text) :
  skipComments false (runtimeWith filters rest) = runtimeOpen ++ (filters ++ rest)
  := by
  rw [runtimeWith, skipComments_runtimeFront, skipComments_comment h]
  rfl

/-! ### Line terminators in the rules -/

theorem forall_mem_escapeLess_iff {text : Text} :
  (∀ c ∈ escapeLess text, isLineTerminator c = false) ↔ ∀ c ∈ text, isLineTerminator c = false
  := by
  have hescape : ∀ c ∈ "\\u003c".toList, isLineTerminator c = false := by decide
  rw [escapeLess, Text.replaceChar, List.forall_mem_flatMap]
  apply forall₂_congr
  intro c _
  split
  · next hc =>
    rw [hc]
    exact iff_of_true hescape rfl
  · exact List.forall_mem_singleton

theorem forall_mem_join_iff {rules : List Text} :
  (∀ c ∈ Text.join rules [','], isLineTerminator c = false)
    ↔ ∀ rule ∈ rules, ∀ c ∈ rule, isLineTerminator c = false
  := by
  induction rules with
  | nil => exact iff_of_true nofun nofun
  | cons rule rules ih =>
    cases rules with
    | nil => simp [Text.join]
    | cons next rules =>
      have hjoin : Text.join (rule :: next :: rules) [',']
          = rule ++ ',' :: Text.join (next :: rules) [','] := by
        rw [Text.join, List.intercalate_cons_cons, List.append_assoc]
        rfl
      rw [hjoin, List.forall_mem_append, List.forall_mem_cons, List.forall_mem_cons, ih]
      exact and_congr_right fun _ => and_iff_right rfl

/-- Of the line terminators, JSON leaves two as they are. -/
theorem isLineTerminator_iff {c : Char} (h : 0x20 ≤ c.toNat) :
  isLineTerminator c = false ↔ c ≠ '\u2028' ∧ c ≠ '\u2029'
  := by
  have hfeed : c ≠ '\n' := by
    rintro rfl
    revert h
    decide
  have hreturn : c ≠ '\r' := by
    rintro rfl
    revert h
    decide
  simp [isLineTerminator, hfeed, hreturn]

theorem isLineTerminator_escapedRules {rules : List Text}
    (hserde : ∀ rule ∈ rules, ∀ c ∈ rule, 0x20 ≤ c.toNat) :
  (∀ c ∈ escapedRules rules, isLineTerminator c = false)
    ↔ ∀ rule ∈ rules, '\u2028' ∉ rule ∧ '\u2029' ∉ rule
  := by
  have hopen : isLineTerminator '[' = false := by decide
  have hclose : ∀ c ∈ [']'], isLineTerminator c = false := by decide
  rw [escapedRules, forall_mem_escapeLess_iff, List.cons_append, List.forall_mem_cons,
    List.forall_mem_append, and_iff_right hopen, and_iff_left hclose, forall_mem_join_iff]
  apply forall₂_congr
  intro rule hrule
  have hchars : (∀ c ∈ rule, isLineTerminator c = false)
      ↔ ∀ c ∈ rule, c ≠ '\u2028' ∧ c ≠ '\u2029' :=
    forall₂_congr fun c hc => isLineTerminator_iff (hserde rule hrule c hc)
  rw [hchars]
  constructor
  · intro h
    exact ⟨fun hmem => (h _ hmem).1 rfl, fun hmem => (h _ hmem).2 rfl⟩
  · rintro ⟨hline, hparagraph⟩ c hc
    constructor
    · rintro rfl
      exact hline hc
    · rintro rfl
      exact hparagraph hc

namespace AdBlocker

variable {A : Library} (P : PageLibrary A) (b : AdBlocker A)

/-- The comment in the script has no line terminator in place of the placeholder, and the code of the
script is that of the template with the rules as its filters, exactly when no rule has a line separator
or a paragraph separator in it. -/
theorem proceduralInjection_comment_iff {url rest : Text} (hon : b.enabled = true)
    (hruntime : P.proceduralRuntime = runtimeWith placeholder rest)
    (hrest : Text.splitOnceText placeholder rest = none) (hrules : b.proceduralRules P url ≠ [])
    (hserde : ∀ rule ∈ b.proceduralRules P url, ∀ c ∈ rule, 0x20 ≤ c.toNat) :
  ∃ filters, filters = escapedRules (b.proceduralRules P url)
    ∧ b.proceduralInjection P url = some (runtimeWith filters rest)
    ∧ ((∀ c ∈ filters, isLineTerminator c = false)
        ∧ skipComments false (runtimeWith filters rest) = runtimeOpen ++ (filters ++ rest)
      ↔ ∀ rule ∈ b.proceduralRules P url, '\u2028' ∉ rule ∧ '\u2029' ∉ rule)
  := by
  refine ⟨_, rfl, ?_, ?_⟩
  · rw [proceduralInjection_of_rules P b hon hrules, hruntime]
    exact congrArg some (replace_runtimeWith hrest _)
  · rw [← isLineTerminator_escapedRules hserde]
    constructor
    · rintro ⟨hnone, -⟩
      exact hnone
    · intro hnone
      exact ⟨hnone, skipComments_runtimeWith hnone rest⟩

/-- A library whose engine has one procedural rule for every page. -/
def oneRule (rule : Text) : Library :=
  { Library.counting with
    urlCosmeticResources := fun _ _ =>
      { hideSelectors := ∅
        proceduralActions := {rule}
        exceptions := ∅
        injectedScript := []
        generichide := false } }

/-- The pages of that library, with a short script behind the filters. -/
def oneRulePages (rule : Text) : PageLibrary (oneRule rule) :=
  { plainPages with
    isProcedural := fun _ => true
    proceduralRuntime := runtimeWith placeholder ";\n\x7d)();\n".toList }

def oneRuleBlocker (rule : Text) : AdBlocker (oneRule rule) where
  core :=
    { enabled := true
      engine := (0, [])
      lists := []
      scriptlets := { inject := false, path := [], resources := [] }
      engineCache := none }
  decisions := counting.decisions

theorem proceduralRules_oneRule (rule url : Text) :
  (oneRuleBlocker rule).proceduralRules (oneRulePages rule) url = [rule]
  := by
  have hfilter : Finset.filter (fun text => (oneRulePages rule).isProcedural text = true) {rule}
      = {rule} := Finset.filter_true_of_mem fun _ _ => rfl
  exact (congrArg sorted hfilter).trans (Finset.sort_singleton _ _)

/-- A rule that picks paragraphs by their text. -/
def textRule (text : String) : Text :=
  ("\x7b\"selector\":[\x7b\"type\":\"css-selector\",\"arg\":\"p\"\x7d,"
    ++ "\x7b\"type\":\"has-text\",\"arg\":\"" ++ text ++ "\"\x7d]\x7d").toList

/-- A rule without separators: the code is that of the template, with the rule as its filter. -/
theorem proceduralInjection_comment_plain :
  ∃ filters, (oneRuleBlocker (textRule "ad")).proceduralInjection (oneRulePages (textRule "ad")) pageUrl
      = some (runtimeWith filters ";\n\x7d)();\n".toList)
    ∧ skipComments false (runtimeWith filters ";\n\x7d)();\n".toList)
      = runtimeOpen ++ (filters ++ ";\n\x7d)();\n".toList)
  := by
  have hrules := proceduralRules_oneRule (textRule "ad") pageUrl
  obtain ⟨filters, -, hinjection, hiff⟩ := @proceduralInjection_comment_iff _
    (oneRulePages (textRule "ad")) (oneRuleBlocker (textRule "ad")) pageUrl
    ";\n\x7d)();\n".toList rfl rfl (by decide +kernel)
    (by rw [hrules]; exact List.cons_ne_nil _ _) (by rw [hrules]; decide +kernel)
  rw [hrules] at hiff
  exact ⟨filters, hinjection, (hiff.mpr (by decide +kernel)).2⟩

/-- A rule with a line separator: the comment ends in the rule, and the rest of it is code. -/
theorem proceduralInjection_comment_separator :
  (oneRuleBlocker (textRule "a\u2028b")).proceduralInjection (oneRulePages (textRule "a\u2028b"))
      pageUrl
    = some (runtimeWith (escapedRules [textRule "a\u2028b"]) ";\n\x7d)();\n".toList)
    ∧ (∀ c ∈ textRule "a\u2028b", 0x20 ≤ c.toNat)
    ∧ '\u2028' ∈ escapedRules [textRule "a\u2028b"]
    ∧ (skipComments false (runtimeWith (escapedRules [textRule "a\u2028b"])
        ";\n\x7d)();\n".toList)).take 24
      = "b\"\x7d]\x7d] is replaced with ".toList
  := by
  have hskip : (skipComments true (escapedRules [textRule "a\u2028b"] ++ (runtimeComment
      ++ runtimeOpen ++ (escapedRules [textRule "a\u2028b"] ++ ";\n\x7d)();\n".toList)))).take 24
      = "b\"\x7d]\x7d] is replaced with ".toList := by decide +kernel
  refine ⟨?_, by decide +kernel, by decide +kernel, ?_⟩
  · have hrules := proceduralRules_oneRule (textRule "a\u2028b") pageUrl
    rw [proceduralInjection_of_rules _ _ rfl (by rw [hrules]; exact List.cons_ne_nil _ _), hrules]
    exact congrArg some (replace_runtimeWith (by decide +kernel) _)
  · rw [runtimeWith, skipComments_runtimeFront, hskip]

end AdBlocker
