import AdBlock.Curation.Basic
import AdBlock.Engine.Cache

/-!
# Asking the blocker

What the blocker makes of a request and which style sheet it gives a page.  Both go to the
engine; the attribution of a match to a list, and the generic selectors of the custom list, are
read off the texts of the lists directly.
-/

/-- The switches of the blocker. -/
structure DecisionSettings where
  enabled : Bool
  redirect : Bool
  removeparam : Bool
  csp : Bool
  cosmetic : Bool
  scriptlets : Bool
  runtime : Bool
  deriving DecidableEq, Repr

/-- Whether anything at all would go into a page. -/
def DecisionSettings.injects (s : DecisionSettings) : Bool :=
  s.cosmetic || s.scriptlets || s.runtime

/-- The rule behind a decision, and the list it is in. -/
structure BlockAttribution where
  rule : Option Text
  list : Option Text
  deriving DecidableEq, Repr

/-- The rule and the list as they are shown. -/
def BlockAttribution.display (a : BlockAttribution) : Text :=
  let rule := a.rule.getD ['?']
  match a.list with
  | some list => rule ++ " — ".toList ++ list
  | none => rule

/-- What is served in place of a blocked resource. -/
structure Redirect where
  mime : Text
  body : Bytes
  deriving DecidableEq, Repr

/-- What is to happen to a request. -/
structure BlockDecision where
  blocked : Bool
  attribution : BlockAttribution
  redirect : Option Redirect
  rewrittenUrl : Option Text
  csp : Option Text
  wantsBody : Bool
  reqType : Text
  deriving DecidableEq, Repr

/-- The request passes. -/
def BlockDecision.pass : BlockDecision where
  blocked := false
  attribution := { rule := none, list := none }
  redirect := none
  rewrittenUrl := none
  csp := none
  wantsBody := false
  reqType := []

def filterRequestType (reqType : Text) : Text :=
  if reqType = "fetch".toList then "xmlhttprequest".toList else reqType

/-- Read a redirect of the form `data:<mime>;base64,<payload>`. -/
def decodeRedirect (A : Library) (dataUrl : Text) : Option Redirect := do
  let (mime, payload) ←
    Text.splitOnceText ";base64,".toList (← Text.stripPrefix dataUrl "data:".toList)
  return { mime, body := ← A.decodeBase64 payload }

/-! ### Readers of the list table -/

/-- The first enabled list with a line that is the rule. -/
def filterOrigin (lists : List ListEntry) (filter : Text) : Option Text :=
  let needle := Text.trim filter
  if needle.isEmpty then none
  else
    ((lists.filter ListEntry.enabled).find? fun l =>
      (Text.lines l.text).any fun line => Text.trim line = needle).map ListEntry.name

def attribution (lists : List ListEntry) (filter : Option Text) : BlockAttribution where
  rule := filter
  list := filter.bind (filterOrigin lists)

/-- The selectors of the plain generic hide rules in a text. -/
def genericSelectors (text : Text) : List Text :=
  ((Text.lines text).filterMap fun line => Text.stripPrefix (Text.trim line) "##".toList).filter
    fun sel => !sel.isEmpty && !Text.startsWith sel "+js(".toList && !Text.startsWith sel ['^']

def customGenericSelectors (lists : List ListEntry) : List Text :=
  match findList lists customList with
  | none => []
  | some custom => genericSelectors custom.text

/-! ### The blocker -/

/-- The blocker: the engine with its lists, and the switches. -/
structure AdBlocker (A : Library) where
  core : EngineCore A
  decisions : DecisionSettings
  /-- The script with which pages ask about names, if there is an admin server, once this is
  known. -/
  runtime : Option (Option Text) := none

namespace AdBlocker

variable {A : Library}

/-- Whether the blocker does anything at all. -/
def enabled (b : AdBlocker A) : Bool :=
  b.core.enabled && b.decisions.enabled

def matchRequest (b : AdBlocker A) (url sourceUrl requestType : Text) : BlockDecision :=
  if !b.enabled then .pass
  else
    let rendersAPage :=
      requestType = "document".toList ∨ requestType = "subdocument".toList
    match A.newRequest url sourceUrl (filterRequestType requestType) with
    | none => .pass
    | some request =>
        let result := A.checkNetworkRequest b.core.engine request
        let allow := b.decisions
        { blocked := result.matched
          attribution := attribution b.core.lists result.filter
          redirect :=
            if result.matched && allow.redirect then result.redirect.bind (decodeRedirect A)
            else none
          rewrittenUrl := if allow.removeparam then result.rewrittenUrl else none
          csp :=
            if allow.csp && !result.matched then A.getCspDirectives b.core.engine request
            else none
          wantsBody := rendersAPage && !result.matched && allow.injects
          reqType := [] }

def check (b : AdBlocker A) (url sourceUrl requestType : Text) : BlockDecision :=
  { b.matchRequest url sourceUrl requestType with reqType := requestType }

def checkHost (b : AdBlocker A) (scheme host : Text) : BlockDecision :=
  b.check (scheme ++ "://".toList ++ host ++ ['/']) [] "document".toList

def checkDns (b : AdBlocker A) (domain : Text) : BlockDecision :=
  let url := "https://".toList ++ domain ++ ['/']
  b.check url url "other".toList

/-- The texts of a set, in order. -/
def sorted (texts : Finset Text) : List Text :=
  texts.sort

/-- One hide rule for each selector, in order. -/
def hideRules (selectors : Finset Text) : Text :=
  selectors.sort.flatMap fun sel => sel ++ "\x7bdisplay:none !important\x7d\n".toList

/-- The selectors that the engine hides on a page: its own, and unless the page is excepted,
those for the class and id names. -/
def engineSelectors (engine : A.Engine) (url : Text) (classes ids : List Text) :
    Finset Text :=
  let resources := A.urlCosmeticResources engine url
  if resources.generichide then resources.hideSelectors
  else resources.hideSelectors
    ∪ (A.hiddenClassIdSelectors engine classes ids resources.exceptions).toFinset

/-- The generic selectors of the custom list that a page does not except. -/
def customSelectors (b : AdBlocker A) (url : Text) : Finset Text :=
  let resources := A.urlCosmeticResources b.core.engine url
  if resources.generichide then ∅
  else ((customGenericSelectors b.core.lists).filter fun s => s ∉ resources.exceptions).toFinset

/-- The style rules among the procedural rules of a page, in order. -/
def styleRules (engine : A.Engine) (url : Text) : Text :=
  let actions := (A.urlCosmeticResources engine url).proceduralActions.val.filterMap fun json =>
    (A.actionAsCss json).map fun (selector, style) =>
      selector ++ '\x7b' :: style ++ "\x7d\n".toList
  actions.sort.flatten

def cosmeticCss (b : AdBlocker A) (url : Text) (classes ids : List Text) : Text :=
  if !b.enabled then []
  else
    hideRules (engineSelectors b.core.engine url classes ids ∪ b.customSelectors url)
      ++ styleRules b.core.engine url

end AdBlocker
