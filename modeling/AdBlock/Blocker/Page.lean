import AdBlock.Blocker.DisabledLists
import AdBlock.Blocker.Rewrite
import AdBlock.Http.Headers

/-!
# Editing a page

What the blocker makes of a response: it splices the style sheet and the scripts of a page into its
body, and adds the policy that a rule asks for to its headers.  The style sheet, the scriptlets and
the procedural rules are asked for when the response comes, and there are none if the blocker is
off.  The script that asks about names goes by its own switch only, and the policy is that of the
decision, so a blocker that is switched off after the decision still touches the page
(`filterResponse_untouched_iff`).
-/

/-- What the edit of a page uses of the `adblock` and `http` crates and of the standard library,
and the scripts that are built into the program. -/
structure PageLibrary (A : Library) where
  /-- A rule given in JSON parses as a procedural rule and does not reduce to plain CSS. -/
  isProcedural : Text → Bool
  resourceName : A.Resource → Text
  resourceContent : A.Resource → Text
  headers : HeaderCrate
  /-- `String::from_utf8_lossy`. -/
  fromUtf8Lossy : Bytes → Text
  /-- `str::from_utf8`. -/
  fromUtf8 : Bytes → Option Text
  /-- The order in which a hash set gives its members. -/
  hashOrder : Finset Text → List Text
  /-- `procedural_runtime.js`. -/
  proceduralRuntime : Text
  /-- `cosmetic_runtime.js`. -/
  cosmeticRuntime : Text

variable {A : Library} (P : PageLibrary A)

/-! ### Scriptlets -/

/-- A script to inject, with the names of its scriptlets. -/
structure ScriptletInjection where
  js : Text
  names : List Text
  deriving DecidableEq, Repr

namespace Scriptlets

def enabled (s : Scriptlets A) : Bool :=
  s.inject && !s.resources.isEmpty

/-- The function that a resource defines. -/
def functionName (r : A.Resource) : Option Text := do
  if Text.endsWith (P.resourceName r) ".fn".toList then none
  else
    let src ← P.fromUtf8 (← A.decodeBase64 (P.resourceContent r))
    let rest ← Text.stripPrefix src "function ".toList
    let fnName := rest.takeWhile fun c => !(c = '(' || Unicode.isWhitespace c)
    if fnName.isEmpty then none else some fnName

/-- The names of the functions with their resources.  Of two resources for one function the later
one counts. -/
def buildFnMap (resources : List A.Resource) : List (Text × Text) :=
  (resources.filterMap fun r => (functionName P r).map (·, P.resourceName r)).reverse

def namesIn (s : Scriptlets A) (injectedJs : Text) : List Text :=
  let map := buildFnMap P s.resources
  ((Text.splitText injectedJs "try \x7b\n".toList).drop 1).foldl
    (fun out block =>
      let call := block.takeWhile (· ≠ '\n')
      let fnName := Text.trim (call.takeWhile (· ≠ '('))
      match map.lookup fnName with
      | some name => if out.contains name then out else out ++ [name]
      | none => out)
    []

end Scriptlets

/-- What the blocker made of a response: the new body, if there is one, and the names of the
scriptlets in it. -/
structure ResponseEdit where
  body : Option Bytes := none
  scriptlets : List Text := []
  deriving DecidableEq, Repr

namespace AdBlocker

variable (b : AdBlocker A)

/-- The admin server that pages ask is set once. -/
def setAdminEndpoint (adminListen : Text) : AdBlocker A :=
  { b with runtime := b.runtime.or (some (Rewrite.cosmeticRuntime P.cosmeticRuntime adminListen)) }

def scriptletInjection (url : Text) : Option ScriptletInjection :=
  if !b.enabled || !b.core.scriptlets.enabled then none
  else
    let js := (A.urlCosmeticResources b.core.engine url).injectedScript
    if js.isEmpty then none
    else
      some
        { js := "const scriptletGlobals = \x7b\x7d;\n".toList ++ js
          names := b.core.scriptlets.namesIn P js }

/-- The procedural rules of a page as an array. -/
def proceduralActions (url : Text) : Text :=
  if !b.enabled then []
  else
    let rules := sorted
      ((A.urlCosmeticResources b.core.engine url).proceduralActions.filter (P.isProcedural ·))
    if rules.isEmpty then [] else '[' :: Text.join rules [','] ++ [']']

def proceduralInjection (url : Text) : Option Text :=
  let rules := b.proceduralActions P url
  if rules.isEmpty then none
  else
    some (Text.replace P.proceduralRuntime "__PROCEDURAL_FILTERS__".toList
      (Text.replaceChar rules '<' "\\u003c".toList))

/-- The script that asks about names, if it is switched on. -/
def runtimeScript : Text :=
  if b.decisions.runtime then b.runtime.join.getD [] else []

/-- The scripts of a page, one after the other. -/
def pageScript (url : Text) (scriptlets : Option ScriptletInjection) : Text :=
  let procedural :=
    if b.decisions.cosmetic then (b.proceduralInjection P url).getD [] else []
  Text.join ([scriptlets.elim [] ScriptletInjection.js, procedural, b.runtimeScript].filter
    (· ≠ [])) ['\n']

/-- The style sheet of a page. -/
def pageCss (url : Text) (body : Bytes) : Text :=
  if b.decisions.cosmetic then
    let names := Rewrite.classesAndIds (P.fromUtf8Lossy body)
    b.cosmeticCss url (P.hashOrder names.1) (P.hashOrder names.2)
  else []

/-- The edit of a page and the headers that are left, unless there is nothing to put in. -/
def editPage (url : Text) (headers : P.headers.Map) (body : Bytes) :
    Option (ResponseEdit × P.headers.Map) :=
  if Rewrite.maxEditBytes < body.length then none
  else do
    let scriptlets := if b.decisions.scriptlets then b.scriptletInjection P url else none
    let script := b.pageScript P url scriptlets
    let out ← Rewrite.injectIntoHtml body (b.pageCss P url body) script
    let headers := if script.isEmpty then headers else Rewrite.cspHeaders.foldl P.headers.remove headers
    return ({ body := some out, scriptlets := scriptlets.elim [] ScriptletInjection.names },
      P.headers.remove headers "content-length".toList)

/-- What becomes of a response and of its headers. -/
def filterResponse (url : Text) (decision : BlockDecision) (headers : P.headers.Map)
    (body : Option Bytes) : ResponseEdit × P.headers.Map :=
  let (edit, headers) := (body.bind (b.editPage P url headers)).getD ({}, headers)
  -- a policy that is no header value is dropped
  match decision.csp.bind P.headers.fromStr with
  | some value => (edit, P.headers.append headers "content-security-policy".toList value)
  | none => (edit, headers)

/-! ### Blockers that are off -/

theorem runtimeScript_eq_nil_iff :
  b.runtimeScript = [] ↔ b.decisions.runtime = false ∨ b.runtime.join.getD [] = []
  := by
  rw [runtimeScript]
  cases b.decisions.runtime with
  | false => exact iff_of_true rfl (.inl rfl)
  | true => simp

section Off

variable {b} (hoff : b.enabled = false)

include hoff

theorem scriptletInjection_of_off (url : Text) :
  b.scriptletInjection P url = none
  := by
  rw [scriptletInjection, hoff]
  rfl

theorem proceduralInjection_of_off (url : Text) :
  b.proceduralInjection P url = none
  := by
  have hrules : b.proceduralActions P url = [] := by
    rw [proceduralActions, hoff]
    rfl
  rw [proceduralInjection, hrules]
  rfl

theorem pageCss_of_off (url : Text) (body : Bytes) :
  b.pageCss P url body = []
  := by
  have hcss (classes ids : List Text) : b.cosmeticCss url classes ids = [] := by
    rw [cosmeticCss, hoff]
    rfl
  rw [pageCss]
  split
  · apply hcss
  · rfl

/-- Of the scripts of a page, the one that asks about names is left. -/
theorem pageScript_of_off (url : Text) :
  b.pageScript P url none = b.runtimeScript
  := by
  have hprocedural :
      (if b.decisions.cosmetic then (b.proceduralInjection P url).getD [] else []) = [] := by
    rw [proceduralInjection_of_off P hoff]
    split <;> rfl
  rw [pageScript, hprocedural]
  by_cases hempty : b.runtimeScript = []
  · simp [hempty, Text.join]
  · simp [hempty, Text.join]

/-- A page is edited if it is not too long and there is a script that asks about names. -/
theorem editPage_eq_none_iff_of_off (url : Text) (headers : P.headers.Map)
    (body : Bytes) :
  b.editPage P url headers body = none
    ↔ Rewrite.maxEditBytes < body.length ∨ b.runtimeScript = []
  := by
  have hscriptlets :
      (if b.decisions.scriptlets then b.scriptletInjection P url else none) = none := by
    rw [scriptletInjection_of_off P hoff]
    split <;> rfl
  rw [editPage, hscriptlets]
  dsimp only
  rw [pageScript_of_off P hoff, pageCss_of_off P hoff]
  split
  · rename_i hlong
    exact iff_of_true rfl (.inl hlong)
  · rename_i hshort
    cases hinject : Rewrite.injectIntoHtml body [] b.runtimeScript with
    | none =>
      obtain ⟨-, hscript⟩ := Rewrite.injectIntoHtml_eq_none_iff.mp hinject
      exact iff_of_true rfl (.inr hscript)
    | some out =>
      apply iff_of_false nofun
      rintro (hlong | hscript)
      · exact hshort hlong
      · rw [Rewrite.injectIntoHtml_eq_none_iff.mpr ⟨rfl, hscript⟩] at hinject
        cases hinject

end Off

/-- A page that is edited has a new body. -/
theorem editPage_body {url : Text} {headers headers' : P.headers.Map} {body : Bytes}
    {edit : ResponseEdit} (h : b.editPage P url headers body = some (edit, headers')) :
  edit.body ≠ none
  := by
  rw [editPage] at h
  split at h
  · cases h
  · obtain ⟨out, -, h⟩ := Option.bind_eq_some_iff.mp h
    cases h
    nofun

/-- A response passes as it is if there is no policy to add, and none of these: a page that is not
too long, the switch of the script that asks about names, and the script. -/
theorem filterResponse_untouched_iff (hP : P.headers.Lawful) (hoff : b.enabled = false) (url : Text)
    (decision : BlockDecision) (headers : P.headers.Map) (body : Option Bytes) :
  b.filterResponse P url decision headers body = ({ body := none, scriptlets := [] }, headers)
    ↔ (∀ csp ∈ decision.csp, P.headers.fromStr csp = none)
      ∧ ∀ page ∈ body, Rewrite.maxEditBytes < page.length
        ∨ b.decisions.runtime = false ∨ b.runtime.join.getD [] = []
  := by
  have hcsp : (∀ csp ∈ decision.csp, P.headers.fromStr csp = none)
      ↔ decision.csp.bind P.headers.fromStr = none := by
    rw [Option.bind_eq_none_iff]
    rfl
  have hpage : (∀ page ∈ body, Rewrite.maxEditBytes < page.length
        ∨ b.decisions.runtime = false ∨ b.runtime.join.getD [] = [])
      ↔ body.bind (b.editPage P url headers) = none := by
    rw [Option.bind_eq_none_iff]
    simp only [editPage_eq_none_iff_of_off P hoff, runtimeScript_eq_nil_iff]
    rfl
  rw [hcsp, hpage, filterResponse]
  cases hedit : body.bind (b.editPage P url headers) with
  | none =>
    cases hvalue : decision.csp.bind P.headers.fromStr with
    | none => exact iff_of_true rfl ⟨rfl, rfl⟩
    | some value =>
      apply iff_of_false
      · intro h
        apply hP.append_ne headers _ value (congrArg Prod.snd h)
      · rintro ⟨h, -⟩
        cases h
  | some edited =>
    -- the body is new, whatever the policy
    obtain ⟨edit, headers'⟩ := edited
    obtain ⟨page, -, hpage⟩ := Option.bind_eq_some_iff.mp hedit
    have hbody := editPage_body P b hpage
    apply iff_of_false
    · intro h
      apply hbody
      cases hvalue : decision.csp.bind P.headers.fromStr with
      | none =>
        rw [hvalue] at h
        exact congrArg (·.1.body) h
      | some value =>
        rw [hvalue] at h
        exact congrArg (·.1.body) h
    · rintro ⟨-, h⟩
      cases h

/-- A library for pages of ASCII characters, with a short script that asks about names. -/
def plainPages : PageLibrary Library.counting where
  isProcedural _ := false
  resourceName r := r
  resourceContent r := r
  headers := .listed
  fromUtf8Lossy bytes := bytes.map fun b => Char.ofNat b.toNat
  fromUtf8 bytes := some (bytes.map fun b => Char.ofNat b.toNat)
  hashOrder names := sorted names
  proceduralRuntime := "apply(__PROCEDURAL_FILTERS__)".toList
  cosmeticRuntime := "ask(\"__COSMETIC_ENDPOINT__\")".toList

instance : DecidableEq plainPages.headers.Map :=
  inferInstanceAs (DecidableEq (List (Text × Text)))

/-- The blocker without rules, switched off. -/
def countingOff : AdBlocker Library.counting :=
  { counting with decisions := { counting.decisions with enabled := false } }

def pageHeaders : plainPages.headers.Map :=
  show List (Text × Text) from
    [("content-security-policy".toList, "script-src https:".toList),
      ("content-length".toList, "26".toList)]

def shortPage : Bytes :=
  Text.asBytes "<html><head></head></html>".toList

/-- Without an admin server, a page passes as it is. -/
theorem filterResponse_untouched_noServer :
  countingOff.filterResponse plainPages pageUrl (counting.check pageUrl [] "document".toList)
      pageHeaders (some shortPage)
    = ({ body := none, scriptlets := [] }, pageHeaders)
  := by
  apply (filterResponse_untouched_iff plainPages countingOff HeaderCrate.listedLawful rfl pageUrl _
    pageHeaders _).mpr
  constructor
  · rintro csp ⟨⟩
  · intro page _
    exact .inr (.inr rfl)

/-- A page whose decision was made before the blocker was switched off gets a script, and loses its
policy; and a policy that a rule asked for then is added. -/
theorem filterResponse_untouched_switched :
  (counting.check pageUrl [] "document".toList).wantsBody = true
    ∧ (countingOff.setAdminEndpoint plainPages "127.0.0.1:8081".toList).enabled = false
    ∧ (countingOff.setAdminEndpoint plainPages "127.0.0.1:8081".toList).filterResponse plainPages
        pageUrl (counting.check pageUrl [] "document".toList) pageHeaders (some shortPage)
      = ({ body := some (Text.asBytes
            ("<html><head><script>try\x7b\nask(\"http://127.0.0.1:8081/api/cosmetic\")\n"
              ++ "\x7dcatch(e)\x7b\x7ddocument.currentScript.remove()</script>"
              ++ "</head></html>").toList)
           scriptlets := [] }, plainPages.headers.new)
    ∧ countingOff.filterResponse plainPages pageUrl
        { counting.check pageUrl [] "document".toList with csp := some "img-src https:".toList }
        pageHeaders none
      = ({ body := none, scriptlets := [] },
        plainPages.headers.append pageHeaders "content-security-policy".toList
          "img-src https:".toList)
  := by
  decide +kernel

end AdBlocker
