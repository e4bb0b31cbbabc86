import AdBlock.Blocker.Runtimes
import AdBlock.Blocker.Splice

/-!
# Where tags close

The tags that are put into a page end where they were written to end, unless what is in them has the
end of a script or of a style sheet in it.  The scripts of the program have none.  What the engine
gives is put in as it is, so it depends on its scriptlets, its selectors and its styles
(`AdBlocker.editPage_closed_iff`).
-/

open Bytes

theorem Text.asBytes_append_append (s t u : Text) :
  asBytes (s ++ t ++ u) = asBytes s ++ asBytes t ++ asBytes u
  := by
  rw [asBytes_append, asBytes_append]

namespace Rewrite

variable {css script : Text}

/-- What ends the text of a script. -/
def scriptEnd : Bytes := Text.asBytes "</script".toList

/-- What ends the text of a style sheet. -/
def styleEnd : Bytes := Text.asBytes "</style".toList

/-- The first end behind what opens a tag at a place is the one that it is closed with. -/
def Closes (out ending opening tag closing : Bytes) (p : ℕ) : Prop :=
  IsFirst (MatchAt out ending) (p + opening.length) (p + tag.length - closing.length)

/-- The first end of a script behind the tag that opens it is the one that its own tag has. -/
def ScriptCloses (out : Bytes) (script : Text) (p : ℕ) : Prop :=
  Closes out scriptEnd (Text.asBytes "<script>".toList) (scriptBytes script)
    (Text.asBytes "</script>".toList) p

/-- The first end of a style sheet behind the tag that opens it is the one that its own tag has. -/
def StyleCloses (out : Bytes) (css : Text) (p : ℕ) : Prop :=
  Closes out styleEnd (Text.asBytes "<style type=\"text/css\">".toList) (styleBytes css)
    (Text.asBytes "</style>".toList) p

/-- What is between the tag that opens a script and the script. -/
def scriptFront : Bytes := Text.asBytes "try\x7b\n".toList

/-- What is between a script and the tag that closes it. -/
def scriptBack : Bytes :=
  Text.asBytes "\n\x7dcatch(e)\x7b\x7ddocument.currentScript.remove()".toList

theorem scriptBytes_of_ne (hscript : script ≠ []) :
  scriptBytes script = Text.asBytes "<script>".toList ++ (scriptFront ++ (Text.asBytes script
    ++ (scriptBack ++ Text.asBytes "</script>".toList)))
  := by
  have hopen : Text.asBytes "<script>try\x7b\n".toList
      = Text.asBytes "<script>".toList ++ scriptFront := by decide +kernel
  have hclose : Text.asBytes
        "\n\x7dcatch(e)\x7b\x7ddocument.currentScript.remove()</script>".toList
      = scriptBack ++ Text.asBytes "</script>".toList := by decide +kernel
  have hisEmpty : ¬ script.isEmpty = true := mt List.isEmpty_iff.mp hscript
  calc scriptBytes script
      = Text.asBytes (scriptTag script) := if_neg hisEmpty
    _ = Text.asBytes "<script>try\x7b\n".toList ++ Text.asBytes script ++ Text.asBytes
          "\n\x7dcatch(e)\x7b\x7ddocument.currentScript.remove()</script>".toList :=
        Text.asBytes_append_append _ _ _
    _ = Text.asBytes "<script>".toList ++ scriptFront ++ Text.asBytes script
          ++ (scriptBack ++ Text.asBytes "</script>".toList) :=
        congrArg₂ (· ++ Text.asBytes script ++ ·) hopen hclose
    _ = _ := by simp only [List.append_assoc]

theorem styleBytes_of_ne (hcss : css ≠ []) :
  styleBytes css = Text.asBytes "<style type=\"text/css\">".toList ++ (Text.asBytes css
    ++ Text.asBytes "</style>".toList)
  := by
  have hisEmpty : ¬ css.isEmpty = true := mt List.isEmpty_iff.mp hcss
  calc styleBytes css
      = Text.asBytes (styleTag css) := if_neg hisEmpty
    _ = Text.asBytes "<style type=\"text/css\">".toList ++ Text.asBytes css
          ++ Text.asBytes "</style>".toList := Text.asBytes_append_append _ _ _
    _ = _ := by simp only [List.append_assoc]

/-- A tag closes where it was written to exactly if what is in it has no end. -/
theorem closes_iff {a : UInt8} {ending rest opening tag body closing : Bytes}
    (hending : ending = a :: rest) (front back : Bytes) (hfront : ∀ c ∈ front, lower c ≠ lower a)
    (hback : ∀ c ∈ back, lower c ≠ lower a)
    (htag : tag = opening ++ (front ++ (body ++ (back ++ closing)))) (before after : Bytes)
    (hclose : MatchAt (closing ++ after) ending 0)
    (hnext : ∀ b ∈ (back ++ (closing ++ after)).head?, lower b ∉ rest.map lower) :
  Closes (before ++ (tag ++ after)) ending opening tag closing before.length
    ↔ ¬ Occurs body ending
  := by
  have hiff := isFirst_close_iff hending hfront hback hclose hnext (before ++ opening) body
  have hout : before ++ (tag ++ after)
      = before ++ opening ++ (front ++ (body ++ (back ++ (closing ++ after)))) := by
    simp only [htag, List.append_assoc]
  have hend : before.length + tag.length - closing.length
      = (before ++ opening).length + (front.length + (body.length + back.length)) := by
    simp only [htag, List.length_append]
    omega
  rw [← hiff, Closes, hend, hout, List.length_append]

theorem scriptCloses_iff (hscript : script ≠ []) (before after : Bytes) :
  ScriptCloses (before ++ (scriptBytes script ++ after)) script before.length
    ↔ ¬ Occurs (Text.asBytes script) scriptEnd
  := by
  have hending : scriptEnd = 60 :: Text.asBytes "/script".toList := by decide +kernel
  apply closes_iff hending scriptFront scriptBack (by decide +kernel) (by decide +kernel)
    (scriptBytes_of_ne hscript) before after rfl
  rintro b ⟨⟩
  decide +kernel

theorem styleCloses_iff (hcss : css ≠ []) (before after : Bytes) :
  StyleCloses (before ++ (styleBytes css ++ after)) css before.length
    ↔ ¬ Occurs (Text.asBytes css) styleEnd
  := by
  have hending : styleEnd = 60 :: Text.asBytes "/style".toList := by decide +kernel
  apply closes_iff hending [] [] (List.forall_mem_nil _) (List.forall_mem_nil _)
    (styleBytes_of_ne hcss) before after rfl
  rintro b ⟨⟩
  decide +kernel

/-- What closes unless it is empty has no end in it. -/
theorem closes_of_ne_iff {text : Text} {closes : Prop} {ending : Bytes} (hne : ending ≠ [])
    (h : text ≠ [] → (closes ↔ ¬ Occurs (Text.asBytes text) ending)) :
  (text ≠ [] → closes) ↔ ¬ Occurs (Text.asBytes text) ending
  := by
  by_cases htext : text = []
  · rw [htext]
    exact iff_of_true (absurd rfl) (not_occurs_nil hne)
  · rw [← h htext]
    exact ⟨fun hcloses => hcloses htext, fun hcloses _ => hcloses⟩

/-! ### Texts in lines -/

/-- A line feed ends each part. -/
def IsLines (parts : List Text) : Prop :=
  ∀ part ∈ parts, ∃ line, part = line ++ ['\n']

section Lines

variable {needle : Bytes} (hne : needle ≠ []) (hfeed : lower 10 ∉ needle.map lower)

include hne hfeed

/-- A text whose parts are joined by line feeds has something without a line feed in it if a part
has. -/
theorem occurs_join_iff (parts : List Text) :
  Occurs (Text.asBytes (Text.join parts ['\n'])) needle
    ↔ ∃ part ∈ parts, Occurs (Text.asBytes part) needle
  := by
  induction parts with
  | nil =>
    apply iff_of_false
    · exact not_occurs_nil hne
    · rintro ⟨_, hmem, -⟩
      cases hmem
  | cons part parts ih =>
    cases parts with
    | nil => simp [Text.join]
    | cons next parts =>
      have hjoin : Text.asBytes (Text.join (part :: next :: parts) ['\n'])
          = Text.asBytes part ++ 10 :: Text.asBytes (Text.join (next :: parts) ['\n']) := by
        rw [Text.join, List.intercalate_cons_cons, Text.asBytes_append, Text.asBytes_append,
          List.append_assoc]
        rfl
      rw [hjoin, occurs_append_cons_iff hne hfeed, ih]
      simp only [List.mem_cons, exists_eq_or_imp]

/-- So it is if a line feed ends each part. -/
theorem occurs_flatten_iff {parts : List Text} (hparts : IsLines parts) :
  Occurs (Text.asBytes parts.flatten) needle ↔ ∃ part ∈ parts, Occurs (Text.asBytes part) needle
  := by
  induction parts with
  | nil =>
    apply iff_of_false
    · exact not_occurs_nil hne
    · rintro ⟨_, hmem, -⟩
      cases hmem
  | cons part parts ih =>
    obtain ⟨⟨line, rfl⟩, htail⟩ := List.forall_mem_cons.mp hparts
    have hline : Text.asBytes (line ++ ['\n']) = Text.asBytes line ++ 10 :: [] :=
      Text.asBytes_append line ['\n']
    have hflatten : Text.asBytes ((line ++ ['\n']) :: parts).flatten
        = Text.asBytes line ++ 10 :: Text.asBytes parts.flatten := by
      rw [List.flatten_cons, Text.asBytes_append, hline, List.append_assoc]
      rfl
    rw [hflatten, occurs_append_cons_iff hne hfeed, ih htail]
    simp only [List.mem_cons, exists_eq_or_imp, hline, occurs_append_cons_iff hne hfeed]
    rw [or_iff_left (not_occurs_nil hne)]

end Lines

end Rewrite

namespace AdBlocker

open Rewrite

variable {A : Library} (P : PageLibrary A) (b : AdBlocker A)

/-! ### What goes into the tags -/

/-- Scriptlets are put into pages. -/
def InjectsScriptlets : Prop :=
  b.decisions.scriptlets = true ∧ b.enabled = true ∧ b.core.scriptlets.enabled = true

/-- Elements of pages are hidden and styled. -/
def AppliesCosmetics : Prop :=
  b.decisions.cosmetic = true ∧ b.enabled = true

/-- The selectors of the elements of a page that are hidden. -/
def pageSelectors (url : Text) (body : Bytes) : Finset Text :=
  let names := Rewrite.classesAndIds (P.fromUtf8Lossy body)
  engineSelectors b.core.engine url (P.hashOrder names.1) (P.hashOrder names.2)
    ∪ b.customSelectors url

/-- An end of a script in the scriptlets is one of the engine. -/
theorem occurs_pageScriptlets_iff (url : Text) :
  Occurs (Text.asBytes ((b.pageScriptlets P url).elim [] ScriptletInjection.js)) scriptEnd
    ↔ b.InjectsScriptlets
      ∧ Occurs (Text.asBytes (A.urlCosmeticResources b.core.engine url).injectedScript) scriptEnd
  := by
  have hnil : ¬ Occurs (Text.asBytes []) scriptEnd := not_occurs_nil (by decide +kernel)
  have hglobals : ∀ c ∈ Text.asBytes "const scriptletGlobals = \x7b\x7d;\n".toList,
      lower c ≠ lower 60 := by decide +kernel
  rw [InjectsScriptlets, pageScriptlets, scriptletInjection]
  cases b.decisions.scriptlets with
  | false => simpa using hnil
  | true =>
    cases b.enabled with
    | false => simpa using hnil
    | true =>
      cases b.core.scriptlets.enabled with
      | false => simpa using hnil
      | true =>
        simp only [if_true, Bool.not_true, Bool.or_false, and_self, true_and, Bool.false_eq_true,
          if_false]
        split
        · next hempty =>
          rw [List.isEmpty_iff.mp hempty]
          rfl
        · rw [Option.elim_some, Text.asBytes_append]
          exact occurs_append_of_forall hglobals

/-- Of the scripts of a page, only the scriptlets can have an end of a script in them. -/
theorem not_occurs_pageScript_iff {P : PageLibrary A} {b : AdBlocker A} (hP : P.BuiltIn)
    (hlisten : b.Listens P) (url : Text) :
  ¬ Occurs (Text.asBytes (b.pageScript P url (b.pageScriptlets P url))) scriptEnd
    ↔ (b.InjectsScriptlets →
      ¬ Occurs (Text.asBytes (A.urlCosmeticResources b.core.engine url).injectedScript) scriptEnd)
  := by
  have hend : scriptEnd = 60 :: Text.asBytes "/script".toList := by decide +kernel
  have hspaced {part : Text} (h : Text.lessSpaced part = true) :
      ¬ Occurs (Text.asBytes part) scriptEnd := by
    rw [hend]
    exact Text.not_occurs_of_lessSpaced (by decide +kernel) (by decide +kernel) h
  have hprocedural : ¬ Occurs (Text.asBytes
      (if b.decisions.cosmetic then (b.proceduralInjection P url).getD [] else [])) scriptEnd := by
    apply hspaced
    split
    · exact lessSpaced_proceduralInjection hP url
    · rfl
  rw [← not_and, ← occurs_pageScriptlets_iff P, pageScript,
    occurs_join_iff (by decide +kernel) (by decide +kernel)]
  apply not_congr
  constructor
  · rintro ⟨part, hpart, hoccurs⟩
    rw [List.mem_filter, List.mem_cons, List.mem_pair] at hpart
    rcases hpart.1 with rfl | rfl | rfl
    · exact hoccurs
    · exact absurd hoccurs hprocedural
    · exact absurd hoccurs (hspaced (lessSpaced_runtimeScript hP hlisten))
  · intro hoccurs
    refine ⟨_, List.mem_filter.mpr ⟨List.mem_cons_self, decide_eq_true ?_⟩, hoccurs⟩
    intro hnil
    rw [hnil] at hoccurs
    exact not_occurs_nil (by decide +kernel) hoccurs

/-! ### The style sheet -/

/-- What can be in a style sheet without ending it. -/
theorem occurs_rule_iff (selector style : Text) :
  Occurs (Text.asBytes (selector ++ '\x7b' :: style ++ "\x7d\n".toList)) styleEnd
    ↔ Occurs (Text.asBytes selector) styleEnd ∨ Occurs (Text.asBytes style) styleEnd
  := by
  have hne : styleEnd ≠ [] := by decide +kernel
  have hbytes : Text.asBytes (selector ++ '\x7b' :: style ++ "\x7d\n".toList)
      = Text.asBytes selector ++ 123 :: (Text.asBytes style ++ 125 :: [10]) := by
    have hopen : Text.asBytes ('\x7b' :: style) = 123 :: Text.asBytes style := rfl
    rw [Text.asBytes_append_append, hopen, List.append_assoc]
    rfl
  have hfeed : ¬ Occurs [10] styleEnd := by decide +kernel
  rw [hbytes, occurs_append_cons_iff hne (by decide +kernel),
    occurs_append_cons_iff hne (by decide +kernel), or_iff_left hfeed]

/-- A style sheet is a list of rules: elements are hidden, or styled. -/
theorem exists_lines_cosmeticCss (hon : b.enabled = true) (url : Text) (classes ids : List Text) :
  ∃ rules, b.cosmeticCss url classes ids = rules.flatten ∧ IsLines rules
    ∧ ∀ rule, rule ∈ rules
      ↔ (∃ sel ∈ engineSelectors b.core.engine url classes ids ∪ b.customSelectors url,
          sel ++ '\x7b' :: "display:none !important".toList ++ "\x7d\n".toList = rule)
        ∨ ∃ json ∈ (A.urlCosmeticResources b.core.engine url).proceduralActions,
          ∃ selector style, A.actionAsCss json = some (selector, style)
            ∧ selector ++ '\x7b' :: style ++ "\x7d\n".toList = rule
  := by
  have hline (selector style : Text) :
      ∃ line, selector ++ '\x7b' :: style ++ "\x7d\n".toList = line ++ ['\n'] := by
    use selector ++ '\x7b' :: style ++ ['\x7d']
    rw [List.append_assoc _ ['\x7d']]
    rfl
  have hhide (selectors : Finset Text) : hideRules selectors = (selectors.sort.map fun sel =>
      sel ++ '\x7b' :: "display:none !important".toList ++ "\x7d\n".toList).flatten := by
    have hrule : "\x7bdisplay:none !important\x7d\n".toList
        = '\x7b' :: "display:none !important".toList ++ "\x7d\n".toList := by decide +kernel
    rw [hideRules, List.flatMap_def, hrule]
    simp only [List.append_assoc]
  rw [cosmeticCss, hon, hhide, styleRules]
  refine ⟨_, List.flatten_append.symm, ?_, ?_⟩
  · intro rule hrule
    simp only [List.mem_append, List.mem_map, Multiset.mem_sort, Multiset.mem_filterMap,
      Option.map_eq_some_iff, Prod.exists] at hrule
    rcases hrule with ⟨sel, -, rfl⟩ | ⟨json, -, selector, style, -, rfl⟩
    · apply hline
    · apply hline
  · intro rule
    simp only [List.mem_append, List.mem_map, Finset.mem_sort, Multiset.mem_sort,
      Multiset.mem_filterMap, Option.map_eq_some_iff, Prod.exists, Finset.mem_val]

/-- The style sheet of a page has no end in it exactly if its selectors and its styles have none. -/
theorem not_occurs_pageCss_iff (url : Text) (body : Bytes) :
  ¬ Occurs (Text.asBytes (b.pageCss P url body)) styleEnd
    ↔ (b.AppliesCosmetics →
      (∀ sel ∈ b.pageSelectors P url body, ¬ Occurs (Text.asBytes sel) styleEnd)
      ∧ ∀ json ∈ (A.urlCosmeticResources b.core.engine url).proceduralActions,
        ∀ selector style, A.actionAsCss json = some (selector, style) →
          ¬ Occurs (Text.asBytes selector) styleEnd ∧ ¬ Occurs (Text.asBytes style) styleEnd)
  := by
  have hnil : ¬ Occurs (Text.asBytes []) styleEnd := not_occurs_nil (by decide +kernel)
  have hhidden : ¬ Occurs (Text.asBytes "display:none !important".toList) styleEnd := by
    decide +kernel
  cases hcosmetic : b.decisions.cosmetic with
  | false => simpa [AppliesCosmetics, pageCss, hcosmetic] using hnil
  | true =>
    cases hon : b.enabled with
    | false => simpa [AppliesCosmetics, pageCss, cosmeticCss, hcosmetic, hon] using hnil
    | true =>
      rw [forall_prop_of_true ⟨hcosmetic, hon⟩, pageCss, if_pos hcosmetic]
      obtain ⟨rules, hrules, hlines, hmem⟩ := b.exists_lines_cosmeticCss hon url
        (P.hashOrder (Rewrite.classesAndIds (P.fromUtf8Lossy body)).1)
        (P.hashOrder (Rewrite.classesAndIds (P.fromUtf8Lossy body)).2)
      dsimp only
      rw [hrules, occurs_flatten_iff (by decide +kernel) (by decide +kernel) hlines]
      push Not
      constructor
      · intro hnone
        constructor
        · intro sel hsel hoccurs
          apply hnone _ ((hmem _).mpr (.inl ⟨sel, hsel, rfl⟩))
          exact (occurs_rule_iff _ _).mpr (.inl hoccurs)
        · intro json hjson selector style hcss
          rw [← not_or, ← occurs_rule_iff]
          exact hnone _ ((hmem _).mpr (.inr ⟨json, hjson, selector, style, hcss, rfl⟩))
      · rintro ⟨hsels, hstyles⟩ rule hrule
        rcases (hmem rule).mp hrule with ⟨sel, hsel, rfl⟩ | ⟨json, hjson, selector, style, hcss, rfl⟩
        · rw [occurs_rule_iff, or_iff_left hhidden]
          exact hsels sel hsel
        · rw [occurs_rule_iff, not_or]
          exact hstyles json hjson selector style hcss

/-- In a page that was edited, the tags of the script and of the style sheet end where they were
written to end, exactly when the scriptlets that the engine gives have no end of a script in them, and
the selectors and the styles no end of a style sheet. -/
theorem editPage_closed_iff (hP : P.BuiltIn) (hlisten : b.Listens P) {url : Text}
    {headers headers' : P.headers.Map} {body : Bytes} {edit : ResponseEdit}
    (h : b.editPage P url headers body = some (edit, headers')) :
  ∃ out p q, edit.body = some out
    ∧ IsScriptPlace body (b.pageScript P url (b.pageScriptlets P url)) p ∧ IsStylePlace body p q
    ∧ out = body.take p ++ scriptBytes (b.pageScript P url (b.pageScriptlets P url))
      ++ (body.take q).drop p ++ styleBytes (b.pageCss P url body) ++ body.drop q
    ∧ ((b.pageScript P url (b.pageScriptlets P url) ≠ [] →
          ScriptCloses out (b.pageScript P url (b.pageScriptlets P url)) p)
        ∧ (b.pageCss P url body ≠ [] → StyleCloses out (b.pageCss P url body)
          ((scriptBytes (b.pageScript P url (b.pageScriptlets P url))).length + q))
      ↔ (b.InjectsScriptlets → ¬ Occurs
          (Text.asBytes (A.urlCosmeticResources b.core.engine url).injectedScript) scriptEnd)
        ∧ (b.AppliesCosmetics →
          (∀ sel ∈ b.pageSelectors P url body, ¬ Occurs (Text.asBytes sel) styleEnd)
          ∧ ∀ json ∈ (A.urlCosmeticResources b.core.engine url).proceduralActions,
            ∀ selector style, A.actionAsCss json = some (selector, style) →
              ¬ Occurs (Text.asBytes selector) styleEnd ∧ ¬ Occurs (Text.asBytes style) styleEnd))
  := by
  rw [← not_occurs_pageScript_iff hP hlisten, ← not_occurs_pageCss_iff]
  rw [editPage] at h
  split at h
  · cases h
  obtain ⟨out, hinject, h⟩ := Option.bind_eq_some_iff.mp h
  cases h
  replace hinject : injectIntoHtml body (b.pageCss P url body)
      (b.pageScript P url (b.pageScriptlets P url)) = some out := hinject
  generalize b.pageScript P url (b.pageScriptlets P url) = script at hinject ⊢
  generalize b.pageCss P url body = css at hinject ⊢
  have hsome : ¬ (css = [] ∧ script = []) := by
    rw [← @injectIntoHtml_eq_none_iff body, hinject]
    apply Option.some_ne_none
  obtain ⟨p, q, hle, hlength, hscriptPlace, hstylePlace, hsplice, -⟩ :=
    injectIntoHtml_splice body css script hsome
  obtain rfl := Option.some_injective _ (hinject.symm.trans hsplice)
  refine ⟨_, p, q, rfl, hscriptPlace, hstylePlace, rfl, ?_⟩
  have htake : (body.take p).length = p := List.length_take_of_le (hle.trans hlength)
  apply and_congr
  · apply closes_of_ne_iff (by decide +kernel)
    intro hscript
    have hcloses := scriptCloses_iff hscript (body.take p)
      ((body.take q).drop p ++ (styleBytes css ++ body.drop q))
    rw [htake] at hcloses
    simpa only [List.append_assoc] using hcloses
  · apply closes_of_ne_iff (by decide +kernel)
    intro hcss
    have hbefore : (body.take p ++ scriptBytes script ++ (body.take q).drop p).length
        = (scriptBytes script).length + q := by
      simp only [List.length_append, List.length_drop, htake, List.length_take_of_le hlength]
      omega
    have hcloses := styleCloses_iff hcss (body.take p ++ scriptBytes script
      ++ (body.take q).drop p) (body.drop q)
    rwa [hbefore, ← List.append_assoc] at hcloses

/-- A library whose engine puts the text of its lists into every page as a script. -/
def verbatimRules : Library :=
  { Library.counting with
    Engine := Text
    fromFilterSet := List.flatten
    useResources := fun engine _ => engine
    serializeRaw := fun _ => none
    deserialize := fun _ => none
    checkNetworkRequest := fun _ _ =>
      { matched := false, filter := none, redirect := none, rewrittenUrl := none }
    getCspDirectives := fun _ _ => none
    urlCosmeticResources := fun engine _ =>
      { hideSelectors := ∅
        proceduralActions := ∅
        exceptions := ∅
        injectedScript := engine
        generichide := false }
    hiddenClassIdSelectors := fun _ _ _ _ => [] }

def verbatimPages : PageLibrary verbatimRules :=
  { plainPages with proceduralRuntime := proceduralScript, cosmeticRuntime := cosmeticScript }

instance : DecidableEq verbatimPages.headers.Map :=
  inferInstanceAs (DecidableEq (List (Text × Text)))

/-- The blocker of one list, with scriptlets. -/
def verbatimBlocker (list : Text) : AdBlocker verbatimRules where
  core :=
    { enabled := true
      engine := verbatimRules.fromFilterSet [list]
      lists := []
      scriptlets := { inject := true, path := [], resources := [[]] }
      engineCache := none }
  decisions := counting.decisions

/-- The page that a script is put into. -/
def scriptedPage (script : String) : Bytes :=
  Text.asBytes ("<html><head>".toList ++ scriptTag ("const scriptletGlobals = \x7b\x7d;\n".toList
    ++ script.toList) ++ "</head></html>".toList)

theorem editPage_closed_call :
  ∃ p, ScriptCloses (scriptedPage "f(1)")
    ("const scriptletGlobals = \x7b\x7d;\nf(1)".toList) p
  := by
  have h : (verbatimBlocker "f(1)".toList).editPage verbatimPages pageUrl
        verbatimPages.headers.new shortPage
      = some ({ body := some (scriptedPage "f(1)"), scriptlets := [] },
        verbatimPages.headers.new) := by decide +kernel
  obtain ⟨out, p, q, hbody, -, -, -, hiff⟩ :=
    editPage_closed_iff verbatimPages _ ⟨rfl, rfl⟩ (fun _ hruntime => by cases hruntime) h
  obtain rfl := Option.some_injective _ hbody
  have hscript : (verbatimBlocker "f(1)".toList).pageScript verbatimPages pageUrl
        ((verbatimBlocker "f(1)".toList).pageScriptlets verbatimPages pageUrl)
      = "const scriptletGlobals = \x7b\x7d;\nf(1)".toList := by decide +kernel
  have hcall : ¬ Occurs (Text.asBytes "f(1)".toList) scriptEnd := by decide +kernel
  have hselectors : (verbatimBlocker "f(1)".toList).pageSelectors verbatimPages pageUrl shortPage = ∅ :=
    rfl
  have hcloses := (hiff.mpr ⟨fun _ => hcall, fun _ => ⟨?_, ?_⟩⟩).1
  · rw [hscript] at hcloses
    use p
    apply hcloses
    decide
  · rw [hselectors]
    exact fun sel hsel => absurd hsel (Finset.notMem_empty sel)
  · exact fun json hjson => absurd hjson (Finset.notMem_empty json)

/-- A rule with the end of a script in it: the script ends there. -/
theorem editPage_closed_quoted :
  (verbatimBlocker "f('</script>')".toList).editPage verbatimPages pageUrl
        verbatimPages.headers.new shortPage
      = some ({ body := some (scriptedPage "f('</script>')"), scriptlets := [] },
        verbatimPages.headers.new)
    ∧ IsFirst (MatchAt (scriptedPage "f('</script>')") scriptEnd) 20 57
    ∧ ¬ ScriptCloses (scriptedPage "f('</script>')")
      "const scriptletGlobals = \x7b\x7d;\nf('</script>')".toList 12
  := by
  have hends : IsFirst (MatchAt (scriptedPage "f('</script>')") scriptEnd) 20 57 := by
    have hbefore : ∀ j < 57, 20 ≤ j → ¬ MatchAt (scriptedPage "f('</script>')") scriptEnd j := by
      decide +kernel
    have hmatch : MatchAt (scriptedPage "f('</script>')") scriptEnd 57 := by decide +kernel
    exact ⟨by decide, hmatch, fun j hle hlt => hbefore j hlt hle⟩
  refine ⟨by decide +kernel, hends, ?_⟩
  intro hcloses
  have hplace : 57 ≠ 12 + (scriptBytes
        "const scriptletGlobals = \x7b\x7d;\nf('</script>')".toList).length
      - (Text.asBytes "</script>".toList).length := by decide +kernel
  have hopen : (Text.asBytes "<script>".toList).length = 8 := by decide +kernel
  rw [ScriptCloses, Closes, hopen] at hcloses
  exact hplace (hends.unique hcloses)

end AdBlocker
