import AdBlock.Blocker.Procedural
import AdBlock.Rust.NetChars
import AdBlock.Rust.Spaced

/-!
# The scripts that go into pages

The program brings two scripts with it: one for the procedural rules, and one with which pages ask
about class and id names.  Each has a placeholder.  Wherever a number is compared in them there is a
space behind the `<`, and what is put in place of the placeholders has no `<` in it, so that no tag is
opened or closed in the scripts (`lessSpaced_proceduralInjection`, `lessSpaced_runtimeScript`).
-/

/-- The script of the procedural rules behind its second placeholder, line by line. -/
def proceduralLines : List String := [
  ";",
  "  var DEBOUNCE_MS = 50;",
  "",
  "  // The engine only ever puts a plain CSS selector first in a chain. Anything",
  "  // else is a shape we do not know how to walk, and matching nothing is the",
  "  // safe reading of a rule we cannot read.",
  "  FILTERS = FILTERS.filter(function (f) \x7b",
  "    var ops = f.selector || [];",
  "    return (",
  "      ops.length > 0 &&",
  "      ops.every(function (op, i) \x7b",
  "        return i === 0 || op.type !== \"css-selector\";",
  "      \x7d)",
  "    );",
  "  \x7d);",
  "  if (FILTERS.length === 0) return;",
  "",
  "  function escapeRe(s) \x7b",
  "    return s.replace(/[.*+?^$\x7b\x7d()|[\\]\\\\]/g, \"\\\\$&\");",
  "  \x7d",
  "",
  "  // \"/pattern/flags\" is a regular expression; anything else is literal.",
  "  function toRegex(s) \x7b",
  "    var m = /^\\/(.+)\\/([a-z]*)$/.exec(s);",
  "    if (!m) return null;",
  "    try \x7b",
  "      return new RegExp(m[1], m[2]);",
  "    \x7d catch (e) \x7b",
  "      return null;",
  "    \x7d",
  "  \x7d",
  "",
  "  // :has-text() and :matches-path() — a substring, or a regex.",
  "  function contains(arg) \x7b",
  "    var re = toRegex(arg);",
  "    if (re) \x7b",
  "      return function (v) \x7b",
  "        return re.test(v);",
  "      \x7d;",
  "    \x7d",
  "    return function (v) \x7b",
  "      return v.indexOf(arg) !== -1;",
  "    \x7d;",
  "  \x7d",
  "",
  "  // :matches-attr() and :matches-css() values — exact, `*` wildcards, or a regex.",
  "  function equals(arg) \x7b",
  "    var re = toRegex(arg);",
  "    if (re) \x7b",
  "      return function (v) \x7b",
  "        return re.test(v);",
  "      \x7d;",
  "    \x7d",
  "    var s = arg.replace(/^[\"']|[\"']$/g, \"\");",
  "    if (s.indexOf(\"*\") === -1) \x7b",
  "      return function (v) \x7b",
  "        return v === s;",
  "      \x7d;",
  "    \x7d",
  "    var rx = new RegExp(\"^\" + s.split(\"*\").map(escapeRe).join(\".*\") + \"$\");",
  "    return function (v) \x7b",
  "      return rx.test(v);",
  "    \x7d;",
  "  \x7d",
  "",
  "  function qsa(selector) \x7b",
  "    try \x7b",
  "      return Array.prototype.slice.call(document.querySelectorAll(selector));",
  "    \x7d catch (e) \x7b",
  "      return [];",
  "    \x7d",
  "  \x7d",
  "",
  "  function attrTest(arg) \x7b",
  "    var eq = arg.indexOf(\"=\");",
  "    var nameMatch = equals(eq === -1 ? arg : arg.slice(0, eq));",
  "    var valueMatch = eq === -1 ? null : equals(arg.slice(eq + 1));",
  "    return function (el) \x7b",
  "      var attrs = el.attributes;",
  "      for (var i = 0; i < attrs.length; i++) \x7b",
  "        if (!nameMatch(attrs[i].name)) continue;",
  "        if (!valueMatch || valueMatch(attrs[i].value)) return true;",
  "      \x7d",
  "      return false;",
  "    \x7d;",
  "  \x7d",
  "",
  "  function cssTest(arg, pseudo) \x7b",
  "    var colon = arg.indexOf(\":\");",
  "    if (colon === -1) \x7b",
  "      return function () \x7b",
  "        return false;",
  "      \x7d;",
  "    \x7d",
  "    var prop = arg.slice(0, colon).trim();",
  "    var valueMatch = equals(arg.slice(colon + 1).trim());",
  "    return function (el) \x7b",
  "      var style = getComputedStyle(el, pseudo);",
  "      return !!style && valueMatch(style.getPropertyValue(prop));",
  "    \x7d;",
  "  \x7d",
  "",
  "  // :upward(3) walks up that many parents; :upward(selector) finds the nearest",
  "  // ancestor that matches.",
  "  function upward(el, arg) \x7b",
  "    var n = parseInt(arg, 10);",
  "    if (String(n) === arg.trim()) \x7b",
  "      var up = el;",
  "      while (n-- > 0 && up) up = up.parentElement;",
  "      return up;",
  "    \x7d",
  "    try \x7b",
  "      return el.parentElement ? el.parentElement.closest(arg) : null;",
  "    \x7d catch (e) \x7b",
  "      return null;",
  "    \x7d",
  "  \x7d",
  "",
  "  function xpath(el, expr) \x7b",
  "    var out = [];",
  "    try \x7b",
  "      // 7 is ORDERED_NODE_SNAPSHOT_TYPE: a static list, safe to act on while",
  "      // the document changes under it.",
  "      var r = document.evaluate(expr, el, null, 7, null);",
  "      for (var i = 0; i < r.snapshotLength; i++) \x7b",
  "        var n = r.snapshotItem(i);",
  "        if (n.nodeType === 1) out.push(n);",
  "      \x7d",
  "    \x7d catch (e) \x7b\x7d",
  "    return out;",
  "  \x7d",
  "",
  "  // Walk each element somewhere else, keeping the result a set.",
  "  function walk(nodes, f) \x7b",
  "    var out = [];",
  "    for (var i = 0; i < nodes.length; i++) \x7b",
  "      var got = f(nodes[i]);",
  "      if (!got) continue;",
  "      if (got.nodeType) got = [got];",
  "      for (var j = 0; j < got.length; j++) \x7b",
  "        if (out.indexOf(got[j]) === -1) out.push(got[j]);",
  "      \x7d",
  "    \x7d",
  "    return out;",
  "  \x7d",
  "",
  "  // One operator: narrow the current set, or move it.",
  "  function step(nodes, op) \x7b",
  "    var arg = op.arg;",
  "    switch (op.type) \x7b",
  "      case \"has-text\":",
  "        var text = contains(arg);",
  "        return nodes.filter(function (el) \x7b",
  "          return text(el.textContent);",
  "        \x7d);",
  "      case \"min-text-length\":",
  "        var min = parseInt(arg, 10);",
  "        return nodes.filter(function (el) \x7b",
  "          return el.textContent.length >= min;",
  "        \x7d);",
  "      case \"matches-path\":",
  "        // A page-level test: either every element stays or none do.",
  "        return contains(arg)(location.pathname + location.search) ? nodes : [];",
  "      case \"matches-attr\":",
  "        return nodes.filter(attrTest(arg));",
  "      case \"matches-css\":",
  "        return nodes.filter(cssTest(arg, null));",
  "      case \"matches-css-before\":",
  "        return nodes.filter(cssTest(arg, \":before\"));",
  "      case \"matches-css-after\":",
  "        return nodes.filter(cssTest(arg, \":after\"));",
  "      case \"upward\":",
  "        return walk(nodes, function (el) \x7b",
  "          return upward(el, arg);",
  "        \x7d);",
  "      case \"xpath\":",
  "        return walk(nodes, function (el) \x7b",
  "          return xpath(el, arg);",
  "        \x7d);",
  "    \x7d",
  "    return [];",
  "  \x7d",
  "",
  "  function select(ops) \x7b",
  "    var first = ops[0].type === \"css-selector\";",
  "    var nodes = qsa(first ? ops[0].arg : \"*\");",
  "    for (var i = first ? 1 : 0; i < ops.length && nodes.length > 0; i++) \x7b",
  "      nodes = step(nodes, ops[i]);",
  "    \x7d",
  "    return nodes;",
  "  \x7d",
  "",
  "  // No action means hide, which is what a plain rule does.",
  "  //",
  "  // Each of these reads the page's current state first, so a pass with nothing",
  "  // to do changes nothing at all. That is what keeps the observer below from",
  "  // waking on our own edits and looping — and, unlike remembering which",
  "  // elements a rule has already touched, it also means that when the page",
  "  // undoes what a rule did, the next pass does it again.",
  "  function act(el, action) \x7b",
  "    if (!action) \x7b",
  "      if (el.style.getPropertyValue(\"display\") !== \"none\") \x7b",
  "        el.style.setProperty(\"display\", \"none\", \"important\");",
  "      \x7d",
  "      return;",
  "    \x7d",
  "    switch (action.type) \x7b",
  "      case \"remove\":",
  "        el.remove();",
  "        return;",
  "      case \"style\":",
  "        // Appended styles cannot be read back apart from the page's own, so",
  "        // this one is remembered on the element — a property, not an",
  "        // attribute, so it is not itself a mutation.",
  "        if (el.__spStyle !== action.arg) \x7b",
  "          el.__spStyle = action.arg;",
  "          el.style.cssText += \";\" + action.arg;",
  "        \x7d",
  "        return;",
  "      case \"remove-attr\":",
  "        if (el.hasAttribute(action.arg)) el.removeAttribute(action.arg);",
  "        return;",
  "      case \"remove-class\":",
  "        if (el.classList.contains(action.arg)) el.classList.remove(action.arg);",
  "        return;",
  "    \x7d",
  "  \x7d",
  "",
  "  var pending = null;",
  "",
  "  function run() \x7b",
  "    pending = null;",
  "    for (var i = 0; i < FILTERS.length; i++) \x7b",
  "      var f = FILTERS[i];",
  "      var nodes = select(f.selector);",
  "      for (var j = 0; j < nodes.length; j++) \x7b",
  "        try \x7b",
  "          act(nodes[j], f.action);",
  "        \x7d catch (e) \x7b\x7d",
  "      \x7d",
  "    \x7d",
  "  \x7d",
  "",
  "  function schedule() \x7b",
  "    if (pending === null) pending = setTimeout(run, DEBOUNCE_MS);",
  "  \x7d",
  "",
  "  new MutationObserver(schedule).observe(document.documentElement, \x7b",
  "    childList: true,",
  "    subtree: true,",
  "    attributes: true,",
  "  \x7d);",
  "  run();",
  "\x7d)();"
]

/-- The script with which pages ask about names, line by line. -/
def cosmeticLines : List String := [
  "// Live-DOM cosmetic filtering.",
  "//",
  "// The proxy scans a page for class and id names once, as it is served, and",
  "// ships the generic rules that match. A page that builds itself in JavaScript",
  "// has almost nothing to scan at that moment. This watches for elements the",
  "// page adds afterwards, reports the names it has not asked about yet, and",
  "// applies whatever CSS comes back.",
  "//",
  "// __COSMETIC_ENDPOINT__ is replaced with the admin server's cosmetic endpoint",
  "// before this is injected.",
  "(function () \x7b",
  "  var endpoint = \"__COSMETIC_ENDPOINT__\";",
  "  var BATCH_MS = 100;",
  "  var MAX_NAMES = 500; // per request",
  "  var MAX_ROUNDS = 20; // a page that rewrites itself forever stops here",
  "",
  "  var asked = Object.create(null); // every name already sent",
  "  var queue = [];",
  "  var rounds = 0;",
  "  var timer = null;",
  "  var sheet = null;",
  "",
  "  function apply(css) \x7b",
  "    if (!css) return;",
  "    if (!sheet) \x7b",
  "      sheet = document.createElement(\"style\");",
  "      sheet.setAttribute(\"type\", \"text/css\");",
  "      (document.head || document.documentElement).appendChild(sheet);",
  "    \x7d",
  "    sheet.appendChild(document.createTextNode(css));",
  "  \x7d",
  "",
  "  function flush() \x7b",
  "    timer = null;",
  "    if (!queue.length || rounds >= MAX_ROUNDS) return;",
  "    rounds++;",
  "",
  "    var batch = queue.splice(0, MAX_NAMES);",
  "    var classes = [];",
  "    var ids = [];",
  "    for (var i = 0; i < batch.length; i++) \x7b",
  "      var name = batch[i];",
  "      (name.charCodeAt(0) === 35 ? ids : classes).push(name.slice(1));",
  "    \x7d",
  "",
  "    // text/plain keeps this a \"simple\" cross-origin request, so the browser",
  "    // sends it without a preflight.",
  "    fetch(endpoint, \x7b",
  "      method: \"POST\",",
  "      headers: \x7b \"content-type\": \"text/plain\" \x7d,",
  "      body: JSON.stringify(\x7b url: location.href, classes: classes, ids: ids \x7d),",
  "      credentials: \"omit\",",
  "      cache: \"no-store\",",
  "    \x7d)",
  "      .then(function (r) \x7b",
  "        return r.json();",
  "      \x7d)",
  "      .then(function (d) \x7b",
  "        apply(d && d.css);",
  "      \x7d)",
  "      .catch(function () \x7b\x7d);",
  "",
  "    if (queue.length) schedule();",
  "  \x7d",
  "",
  "  function schedule() \x7b",
  "    if (!timer) timer = setTimeout(flush, BATCH_MS);",
  "  \x7d",
  "",
  "  function note(name) \x7b",
  "    if (asked[name]) return;",
  "    asked[name] = true;",
  "    queue.push(name);",
  "    schedule();",
  "  \x7d",
  "",
  "  function scan(node) \x7b",
  "    if (!node || node.nodeType !== 1) return;",
  "    if (node.id) note(\"#\" + node.id);",
  "    var list = node.classList;",
  "    if (list) \x7b",
  "      for (var i = 0; i < list.length; i++) note(\".\" + list[i]);",
  "    \x7d",
  "    var kids = node.children;",
  "    if (kids) \x7b",
  "      for (var j = 0; j < kids.length; j++) scan(kids[j]);",
  "    \x7d",
  "  \x7d",
  "",
  "  new MutationObserver(function (records) \x7b",
  "    if (rounds >= MAX_ROUNDS) return;",
  "    for (var i = 0; i < records.length; i++) \x7b",
  "      var r = records[i];",
  "      if (r.type === \"attributes\") \x7b",
  "        scan(r.target);",
  "        continue;",
  "      \x7d",
  "      for (var j = 0; j < r.addedNodes.length; j++) scan(r.addedNodes[j]);",
  "    \x7d",
  "  \x7d).observe(document.documentElement, \x7b",
  "    childList: true,",
  "    subtree: true,",
  "    attributes: true,",
  "    attributeFilter: [\"class\", \"id\"],",
  "  \x7d);",
  "\x7d)();"
]

/-- The script of the procedural rules, with its placeholders. -/
def proceduralScript : Text :=
  runtimeWith placeholder (Text.unlines proceduralLines)

/-- The script with which pages ask about names, with its placeholder. -/
def cosmeticScript : Text :=
  Text.unlines cosmeticLines

theorem lessSpaced_proceduralScript :
  Text.lessSpaced proceduralScript = true
  := by
  have hlines : ∀ line ∈ proceduralLines, Text.lessSpaced line.toList = true := by
    unfold proceduralLines
    repeat apply Text.forall_lessSpaced_cons rfl
    exact List.forall_mem_nil _
  have hfront : Text.lessSpaced runtimeFront = true := by decide +kernel
  have hcode : Text.lessSpaced (runtimeComment ++ runtimeOpen) = true := by decide +kernel
  have hplaceholder : Text.lessSpaced placeholder = true := by decide +kernel
  apply Text.lessSpaced_append hfront
  apply Text.lessSpaced_append hplaceholder
  apply Text.lessSpaced_append hcode
  exact Text.lessSpaced_append hplaceholder (Text.lessSpaced_unlines hlines)

theorem lessSpaced_cosmeticScript :
  Text.lessSpaced cosmeticScript = true
  := by
  apply Text.lessSpaced_unlines
  unfold cosmeticLines
  repeat apply Text.forall_lessSpaced_cons rfl
  exact List.forall_mem_nil _

namespace Rewrite

variable {template listen : Text}

theorem lessSpaced_endpoint (htemplate : Text.lessSpaced template = true) {host port : Text}
    (hhost : '<' ∉ host) (hport : '<' ∉ port) :
  Text.lessSpaced (endpoint template host port) = true
  := by
  have hhttp : '<' ∉ "http://".toList := by decide
  have hpath : '<' ∉ "/api/cosmetic".toList := by decide
  apply Text.lessSpaced_replace (by decide) (by decide) htemplate
  simp only [List.mem_append, List.mem_cons, not_or]
  exact ⟨⟨⟨hhttp, hhost⟩, by decide, hport⟩, hpath⟩

/-- An address without a `<` is put into the script. -/
theorem lessSpaced_cosmeticRuntime (htemplate : Text.lessSpaced template = true)
    (hlisten : '<' ∉ listen) :
  ∀ runtime ∈ cosmeticRuntime template listen, Text.lessSpaced runtime = true
  := by
  have haddr : '<' ∉ Text.trim listen := fun h => hlisten (Text.mem_of_mem_trim h)
  have hlocal : '<' ∉ "127.0.0.1".toList := by decide
  intro runtime hruntime
  rw [cosmeticRuntime] at hruntime
  split at hruntime
  · cases hruntime
  obtain ⟨port, hport, hruntime⟩ := Option.bind_eq_some_iff.mp hruntime
  replace hport : '<' ∉ port := by
    intro hless
    have hmem := List.mem_of_mem_head? (Option.filter_eq_some_iff.mp hport).1
    exact haddr (Text.mem_of_mem_rsplit hmem hless)
  split at hruntime
  · cases hruntime
    exact lessSpaced_endpoint htemplate hlocal hport
  next h hhost =>
  replace hhost : '<' ∉ h := by
    intro hless
    obtain ⟨⟨front, port'⟩, hsplit, rfl⟩ := Option.map_eq_some_iff.mp hhost
    exact haddr (Text.mem_of_mem_rsplitOnce hsplit (Text.mem_of_mem_trimMatchesAny hless))
  split at hruntime
  · cases hruntime
    exact lessSpaced_endpoint htemplate hlocal hport
  split at hruntime
  · cases hruntime
    apply lessSpaced_endpoint htemplate _ hport
    simp only [List.mem_append, List.mem_cons, List.not_mem_nil, or_false, not_or]
    exact ⟨⟨by decide, hhost⟩, by decide⟩
  · cases hruntime
    exact lessSpaced_endpoint htemplate hhost hport

end Rewrite

variable {A : Library} {P : PageLibrary A}

/-- The scripts are those that the program brings with it. -/
structure PageLibrary.BuiltIn (P : PageLibrary A) : Prop where
  proceduralRuntime : P.proceduralRuntime = proceduralScript
  cosmeticRuntime : P.cosmeticRuntime = cosmeticScript

namespace AdBlocker

/-- The admin server, if there is one, listens at an address with a port. -/
def IsListen (listen : Text) : Prop :=
  listen = [] ∨ (Net.SocketAddr.parse listen).isSome = true

/-- The script that pages ask with is that of an admin server, if there is one. -/
def Listens (P : PageLibrary A) (b : AdBlocker A) : Prop :=
  ∀ runtime ∈ b.runtime, ∃ listen, IsListen listen
    ∧ runtime = Rewrite.cosmeticRuntime P.cosmeticRuntime listen

/-- The admin server is set when the program starts, once its address was checked. -/
theorem Listens.setAdminEndpoint {b : AdBlocker A} (h : b.Listens P) {listen : Text}
    (hlisten : IsListen listen) :
  (b.setAdminEndpoint P listen).Listens P
  := by
  intro runtime hruntime
  rcases Option.or_eq_some_iff.mp hruntime with hset | ⟨-, hset⟩
  · exact h runtime hset
  · cases hset
    exact ⟨listen, hlisten, rfl⟩

theorem less_not_mem_of_isListen {listen : Text} (h : IsListen listen) :
  '<' ∉ listen
  := by
  rcases h with rfl | h
  · exact List.not_mem_nil
  · obtain ⟨a, ha⟩ := Option.isSome_iff_exists.mp h
    intro hless
    have hchar := Net.SocketAddr.forall_isSocketChar ha '<' hless
    revert hchar
    decide +kernel

variable {b : AdBlocker A}

theorem lessSpaced_runtimeScript (hP : P.BuiltIn) (hlisten : b.Listens P) :
  Text.lessSpaced b.runtimeScript = true
  := by
  rw [runtimeScript]
  split
  · cases hruntime : b.runtime.join with
    | none => rfl
    | some runtime =>
      obtain ⟨listen, hlisten, heq⟩ := hlisten _ (Option.join_eq_some_iff.mp hruntime)
      have hless := less_not_mem_of_isListen hlisten
      apply Rewrite.lessSpaced_cosmeticRuntime lessSpaced_cosmeticScript hless
      rw [← hP.cosmeticRuntime, ← heq]
      rfl
  · rfl

/-- The rules go into the script with an escape for each `<`. -/
theorem lessSpaced_proceduralInjection (hP : P.BuiltIn) (url : Text) :
  Text.lessSpaced ((b.proceduralInjection P url).getD []) = true
  := by
  rw [proceduralInjection]
  split
  · rfl
  · rw [Option.getD_some, hP.proceduralRuntime]
    apply Text.lessSpaced_replace (by decide) (by decide) lessSpaced_proceduralScript
    exact Json.not_mem_escapeLess _

end AdBlocker
