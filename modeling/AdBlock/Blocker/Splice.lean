import AdBlock.Blocker.Page
import AdBlock.Rust.Search

/-!
# Where a page is spliced

A script goes behind the first `>` after the first `<head`, and a style sheet in front of the first
`</head>` or `</body>` after it; the bytes of the page stay as they are (`injectIntoHtml_splice`).  The
search for `<head` also finds tags whose names only start this way (`headPlace_spliceScript_iff`).
-/

open Bytes

namespace Rewrite

/-! ### The search -/

theorem findAscii_eq_some_iff {haystack needle : Bytes} {start i : ℕ} (hne : needle ≠ []) :
  findAscii haystack needle start = some i ↔ IsFirst (MatchAt haystack needle) start i
  := by
  have hpos := List.length_pos_of_ne_nil hne
  have hwindow (j : ℕ) : eqIgnoreAsciiCase (((haystack.drop start).drop j).take needle.length) needle
      = true ↔ MatchAt haystack needle (start + j) := by
    rw [MatchAt, List.drop_drop]
  rw [findAscii]
  split
  · next hlong =>
    apply iff_of_false
    · apply (Option.some_ne_none _).symm
    · intro h
      have := h.holds.add_length_le hne
      have := h.le
      omega
  · next hshort =>
    rw [Option.map_eq_some_iff]
    simp only [windows, List.findIdx?_map, List.findIdx?_eq_some_iff_getElem, List.length_range,
      List.getElem_range, Function.comp_apply, hwindow, List.length_drop]
    constructor
    · rintro ⟨j, ⟨hj, hmatch, hfirst⟩, rfl⟩
      refine ⟨Nat.le_add_right _ _, hmatch, ?_⟩
      intro k hle hlt
      obtain ⟨k, rfl⟩ := Nat.exists_eq_add_of_le hle
      apply hfirst k (by omega)
    · intro h
      obtain ⟨j, rfl⟩ := Nat.exists_eq_add_of_le h.le
      have := h.holds.add_length_le hne
      refine ⟨j, ⟨by omega, h.holds, ?_⟩, rfl⟩
      intro k hk
      apply h.first _ (Nat.le_add_right _ _) (by omega)

theorem findAscii_eq_none_iff {haystack needle : Bytes} {start : ℕ} (hne : needle ≠ []) :
  findAscii haystack needle start = none ↔ ∀ i, start ≤ i → ¬ MatchAt haystack needle i
  := by
  constructor
  · intro hnone i hle hmatch
    obtain ⟨j, hj⟩ := IsFirst.exists_of_exists ⟨i, hle, hmatch⟩
    rw [(findAscii_eq_some_iff hne).mpr hj] at hnone
    cases hnone
  · intro hall
    rw [Option.eq_none_iff_forall_ne_some]
    intro i hi
    have hfirst := (findAscii_eq_some_iff hne).mp hi
    apply hall i hfirst.le hfirst.holds

/-! ### The places -/

variable {html : Bytes} {css script : Text} {p q : ℕ}

/-- The tag of the script, if there is one. -/
def scriptBytes (script : Text) : Bytes :=
  if script.isEmpty then [] else Text.asBytes (scriptTag script)

/-- The tag of the style sheet, if there is one. -/
def styleBytes (css : Text) : Bytes :=
  if css.isEmpty then [] else Text.asBytes (styleTag css)

/-- The place is behind the first `>` at or after the first `<head`. -/
def BehindHead (html : Bytes) (p : ℕ) : Prop :=
  ∃ h g, IsFirst (MatchAt html (Text.asBytes "<head".toList)) 0 h
    ∧ IsFirst (MatchAt html (Text.asBytes ">".toList)) h g ∧ p = g + 1

/-- The script goes behind the head, if there is one, and else to the front. -/
def IsScriptPlace (html : Bytes) (script : Text) (p : ℕ) : Prop :=
  if script = [] then p = 0
  else BehindHead html p ∨ ((¬ ∃ p', BehindHead html p') ∧ p = 0)

/-- The style sheet goes to the first `</head>` from a place on, or else to the first `</body>`, or
else to the place itself. -/
def IsStylePlace (html : Bytes) (p q : ℕ) : Prop :=
  IsFirst (MatchAt html (Text.asBytes "</head>".toList)) p q
    ∨ (∀ i, p ≤ i → ¬ MatchAt html (Text.asBytes "</head>".toList) i)
      ∧ (IsFirst (MatchAt html (Text.asBytes "</body>".toList)) p q
        ∨ (∀ i, p ≤ i → ¬ MatchAt html (Text.asBytes "</body>".toList) i) ∧ q = p)

/-- Where the style sheet goes. -/
def stylePlace (html : Bytes) (p : ℕ) : ℕ :=
  ((findAscii html (Text.asBytes "</head>".toList) p).or
    (findAscii html (Text.asBytes "</body>".toList) p)).getD p

theorem behindHead_iff :
  BehindHead html p
    ↔ ((findAscii html (Text.asBytes "<head".toList) 0).bind fun h =>
      (findAscii html (Text.asBytes ">".toList) h).map (· + 1)) = some p
  := by
  simp only [BehindHead, Option.bind_eq_some_iff, Option.map_eq_some_iff,
    findAscii_eq_some_iff (by decide : Text.asBytes "<head".toList ≠ []),
    findAscii_eq_some_iff (by decide : Text.asBytes ">".toList ≠ [])]
  constructor
  · rintro ⟨h, g, hh, hg, rfl⟩
    exact ⟨h, hh, g, hg, rfl⟩
  · rintro ⟨h, hh, g, hg, rfl⟩
    exact ⟨h, g, hh, hg, rfl⟩

theorem BehindHead.le_length (h : BehindHead html p) :
  p ≤ html.length
  := by
  obtain ⟨_, g, -, hg, rfl⟩ := h
  apply hg.holds.add_length_le (by decide)

theorem isScriptPlace_spliceScript :
  IsScriptPlace html script (spliceScript html script).2
  := by
  rw [IsScriptPlace, spliceScript]
  by_cases hscript : script = []
  · rw [if_pos hscript, hscript]
    rfl
  · rw [if_neg hscript, if_neg (by simpa using hscript)]
    dsimp only
    split
    · next p hp =>
      left
      exact behindHead_iff.mpr hp
    · next hnone =>
      right
      refine ⟨?_, rfl⟩
      rintro ⟨p, hp⟩
      rw [behindHead_iff.mp hp] at hnone
      cases hnone

theorem IsScriptPlace.le_length (h : IsScriptPlace html script p) :
  p ≤ html.length
  := by
  rw [IsScriptPlace] at h
  split at h
  · omega
  · rcases h with h | ⟨-, rfl⟩
    · apply h.le_length
    · apply Nat.zero_le

theorem spliceScript_fst :
  (spliceScript html script).1 = html.take (spliceScript html script).2 ++ scriptBytes script
  := by
  rw [spliceScript, scriptBytes]
  split
  · rfl
  · dsimp only
    split
    · rfl
    · rfl

theorem isStylePlace_stylePlace (html : Bytes) (p : ℕ) :
  IsStylePlace html p (stylePlace html p)
  := by
  have hheadNe : Text.asBytes "</head>".toList ≠ [] := by decide
  have hbodyNe : Text.asBytes "</body>".toList ≠ [] := by decide
  rw [IsStylePlace, stylePlace]
  cases hhead : findAscii html (Text.asBytes "</head>".toList) p with
  | some q =>
    left
    exact (findAscii_eq_some_iff hheadNe).mp hhead
  | none =>
    right
    use (findAscii_eq_none_iff hheadNe).mp hhead
    cases hbody : findAscii html (Text.asBytes "</body>".toList) p with
    | some q =>
      left
      exact (findAscii_eq_some_iff hbodyNe).mp hbody
    | none =>
      right
      exact ⟨(findAscii_eq_none_iff hbodyNe).mp hbody, rfl⟩

theorem IsStylePlace.le (h : IsStylePlace html p q) :
  p ≤ q
  := by
  rcases h with h | ⟨-, h | ⟨-, rfl⟩⟩
  · exact h.le
  · exact h.le
  · exact le_rfl

theorem IsStylePlace.le_length (h : IsStylePlace html p q) (hp : p ≤ html.length) :
  q ≤ html.length
  := by
  have hmatch {needle : Bytes} (hne : needle ≠ []) (h : IsFirst (MatchAt html needle) p q) :
      q ≤ html.length := (Nat.le_add_right _ _).trans (h.holds.add_length_le hne)
  rcases h with h | ⟨-, h | ⟨-, rfl⟩⟩
  · apply hmatch (by decide) h
  · apply hmatch (by decide) h
  · exact hp

theorem take_drop_append_drop (html : Bytes) (h : p ≤ q) :
  (html.take q).drop p ++ html.drop q = html.drop p
  := by
  obtain ⟨k, rfl⟩ := Nat.exists_eq_add_of_le h
  rw [List.drop_take, Nat.add_sub_cancel_left, ← List.drop_drop, List.take_append_drop]

theorem spliceStyle_append (out : Bytes) :
  (spliceStyle html css out p).1 ++ html.drop (spliceStyle html css out p).2
    = out ++ (html.take (stylePlace html p)).drop p ++ styleBytes css
      ++ html.drop (stylePlace html p)
  := by
  have hle := (isStylePlace_stylePlace html p).le
  rw [spliceStyle, styleBytes]
  split
  · rw [List.append_nil, List.append_assoc, take_drop_append_drop html hle]
  · rw [stylePlace]
    dsimp only
    split
    · next q hq =>
      rw [hq]
      rfl
    · next hnone =>
      rw [hnone, Option.getD_none, List.drop_take, Nat.sub_self, List.take_zero, List.append_nil]

/-- The page is spliced at the places of the script and of the style sheet. -/
theorem injectIntoHtml_eq (h : ¬ (css = [] ∧ script = [])) :
  injectIntoHtml html css script
    = some (html.take (spliceScript html script).2 ++ scriptBytes script
      ++ (html.take (stylePlace html (spliceScript html script).2)).drop
        (spliceScript html script).2
      ++ styleBytes css ++ html.drop (stylePlace html (spliceScript html script).2))
  := by
  rw [injectIntoHtml, if_neg (by simpa using h)]
  dsimp only
  rw [spliceStyle_append, spliceScript_fst]

/-- A page keeps its bytes: the script is put in behind the head, and the style sheet at the first
end of the head or of the body behind it. -/
theorem injectIntoHtml_splice (html : Bytes) (css script : Text) (h : ¬ (css = [] ∧ script = [])) :
  ∃ p q, p ≤ q ∧ q ≤ html.length ∧ IsScriptPlace html script p ∧ IsStylePlace html p q
    ∧ injectIntoHtml html css script
      = some (html.take p ++ scriptBytes script ++ (html.take q).drop p ++ styleBytes css
        ++ html.drop q)
    ∧ html.take p ++ (html.take q).drop p ++ html.drop q = html
  := by
  have hscript : IsScriptPlace html script (spliceScript html script).2 :=
    isScriptPlace_spliceScript
  have hstyle := isStylePlace_stylePlace html (spliceScript html script).2
  refine ⟨_, _, hstyle.le, hstyle.le_length hscript.le_length, hscript, hstyle,
    injectIntoHtml_eq h, ?_⟩
  rw [List.append_assoc, take_drop_append_drop html hstyle.le, List.take_append_drop]

/-- A page with a head that has an attribute. -/
def attributePage : Bytes :=
  Text.asBytes "<HTML><Head lang=en></head></HTML>".toList

theorem injectIntoHtml_splice_attributePage :
  ∃ p q, p ≤ q ∧ q ≤ attributePage.length
    ∧ injectIntoHtml attributePage "p\x7b\x7d".toList "f()".toList
      = some (attributePage.take p ++ scriptBytes "f()".toList ++ (attributePage.take q).drop p
        ++ styleBytes "p\x7b\x7d".toList ++ attributePage.drop q)
  := by
  obtain ⟨p, q, hle, hlength, -, -, hinject, -⟩ :=
    injectIntoHtml_splice attributePage "p\x7b\x7d".toList "f()".toList (by decide)
  exact ⟨p, q, hle, hlength, hinject⟩

/-! ### The head -/

/-- The name of a start tag is `head`: whitespace, a slash or the end of the tag follows it. -/
def HeadNameAt (html : Bytes) (h : ℕ) : Prop :=
  MatchAt html (Text.asBytes "<head".toList) h
    ∧ ∃ c ∈ html[h + 5]?, c ∈ Text.asBytes " \t\n\x0c\r/>".toList

/-- The place is behind the first start tag named `head`, whose attributes have no `>` in them, or at
the front of a page without one. -/
def HeadPlace (html : Bytes) (p : ℕ) : Prop :=
  (∃ h g, IsFirst (HeadNameAt html) 0 h
      ∧ IsFirst (MatchAt html (Text.asBytes ">".toList)) h g ∧ p = g + 1)
    ∨ (∀ h g, HeadNameAt html h → h ≤ g → ¬ MatchAt html (Text.asBytes ">".toList) g) ∧ p = 0

/-- No tag ends behind a `<head` before there is a start tag named `head`. -/
def HeadFirst (html : Bytes) : Prop :=
  ∀ h g, MatchAt html (Text.asBytes "<head".toList) h →
    MatchAt html (Text.asBytes ">".toList) g → h ≤ g → ∃ h' ≤ g, HeadNameAt html h'

theorem headPlace_of_headFirst (hfirst : HeadFirst html) (hscript : script ≠ [])
    (hp : IsScriptPlace html script p) :
  HeadPlace html p
  := by
  rw [IsScriptPlace, if_neg hscript] at hp
  rcases hp with ⟨h, g, hh, hg, rfl⟩ | ⟨hnone, rfl⟩
  · left
    obtain ⟨h', hle, hname⟩ := hfirst h g hh.holds hg.holds hg.le
    obtain ⟨h₁, hh₁⟩ := IsFirst.exists_of_exists ⟨h', Nat.zero_le _, hname⟩
    have hle₁ : h₁ ≤ h' := not_lt.mp fun hlt => hh₁.first h' (Nat.zero_le _) hlt hname
    have hge : h ≤ h₁ := not_lt.mp fun hlt => hh.first h₁ (Nat.zero_le _) hlt hh₁.holds.1
    exact ⟨h₁, g, hh₁, hg.mono hge (hle₁.trans hle), rfl⟩
  · right
    refine ⟨?_, rfl⟩
    intro h g hname hle hg
    obtain ⟨h₀, hh₀⟩ := IsFirst.exists_of_exists ⟨h, Nat.zero_le _, hname.1⟩
    have hge : h₀ ≤ h := not_lt.mp fun hlt => hh₀.first h (Nat.zero_le _) hlt hname.1
    obtain ⟨g₀, hg₀⟩ := IsFirst.exists_of_exists ⟨g, hge.trans hle, hg⟩
    apply hnone
    exact ⟨g₀ + 1, h₀, g₀, hh₀, hg₀, rfl⟩

theorem headFirst_of_headPlace (hhead : HeadPlace html p) (hscript : script ≠ [])
    (hp : IsScriptPlace html script p) :
  HeadFirst html
  := by
  intro h g hh hg hle
  obtain ⟨h₀, hh₀⟩ := IsFirst.exists_of_exists ⟨h, Nat.zero_le _, hh⟩
  have hge : h₀ ≤ h := not_lt.mp fun hlt => hh₀.first h (Nat.zero_le _) hlt hh
  obtain ⟨g₀, hg₀⟩ := IsFirst.exists_of_exists ⟨g, hge.trans hle, hg⟩
  have hle₀ : g₀ ≤ g := not_lt.mp fun hlt => hg₀.first g (hge.trans hle) hlt hg
  rw [IsScriptPlace, if_neg hscript] at hp
  rcases hp with ⟨h₁, g₁, hh₁, hg₁, rfl⟩ | ⟨hnone, -⟩
  · obtain rfl := hh₁.unique hh₀
    obtain rfl := hg₁.unique hg₀
    rcases hhead with ⟨h', g', hname, hg', heq⟩ | ⟨-, heq⟩
    · refine ⟨h', ?_, hname.holds⟩
      have := hg'.le
      omega
    · omega
  · exact absurd ⟨g₀ + 1, h₀, g₀, hh₀, hg₀, rfl⟩ hnone

/-- The script is put behind the first start tag named `head`, or to the front of a page without one,
exactly when no tag ends behind a `<head` before there is a start tag named `head`. -/
theorem headPlace_spliceScript_iff (html : Bytes) (hscript : script ≠ []) :
  (∃ p, HeadPlace html p
      ∧ spliceScript html script = (html.take p ++ Text.asBytes (scriptTag script), p))
    ↔ HeadFirst html
  := by
  have hplace : IsScriptPlace html script (spliceScript html script).2 :=
    isScriptPlace_spliceScript
  have hbytes : scriptBytes script = Text.asBytes (scriptTag script) := by
    rw [scriptBytes, if_neg (by simpa using hscript)]
  constructor
  · rintro ⟨p, hhead, hsplice⟩
    rw [hsplice] at hplace
    apply headFirst_of_headPlace hhead hscript hplace
  · intro hfirst
    refine ⟨_, headPlace_of_headFirst hfirst hscript hplace, ?_⟩
    rw [← hbytes, ← spliceScript_fst]

/-- The tag of the head has an attribute, and the script is put behind it. -/
theorem headPlace_spliceScript_attribute :
  HeadPlace attributePage (spliceScript attributePage "f()".toList).2
    ∧ (spliceScript attributePage "f()".toList).2 = 20
  := by
  have hname : ∀ h < 34, MatchAt attributePage (Text.asBytes "<head".toList) h →
      MatchAt attributePage (Text.asBytes "<head".toList) h
        ∧ attributePage[h + 5]? = some 32 := by decide +kernel
  have hspace : (32 : UInt8) ∈ Text.asBytes " \t\n\x0c\r/>".toList := by decide +kernel
  have hfirst : HeadFirst attributePage := by
    intro h g hh _ hle
    have hlength : attributePage.length = 34 := by decide +kernel
    have hpos : (Text.asBytes "<head".toList).length = 5 := by decide +kernel
    have hfits := hh.add_length_le (by decide)
    obtain ⟨hmatch, hnext⟩ := hname h (by omega) hh
    exact ⟨h, hle, hmatch, 32, hnext, hspace⟩
  obtain ⟨p, hhead, hsplice⟩ :=
    (headPlace_spliceScript_iff attributePage (by decide : "f()".toList ≠ [])).mpr hfirst
  constructor
  · rw [hsplice]
    exact hhead
  · decide +kernel

/-- A page whose head is not the first tag that starts with `<head`. -/
def headerPage : Bytes :=
  Text.asBytes "<header></header><head></head>".toList

/-- The script is put into the header. -/
theorem headPlace_spliceScript_header :
  ¬ HeadPlace headerPage (spliceScript headerPage "f()".toList).2
    ∧ injectIntoHtml headerPage [] "f()".toList
      = some (Text.asBytes "<header>".toList ++ Text.asBytes (scriptTag "f()".toList)
        ++ Text.asBytes "</header><head></head>".toList)
  := by
  have hplace : (spliceScript headerPage "f()".toList).2 = 8 := by decide +kernel
  constructor
  · rw [hplace]
    rintro (⟨h, g, hh, hg, heq⟩ | ⟨-, heq⟩)
    · -- the name of the only tag that starts this way goes on
      have hname : ∀ h < 8, MatchAt headerPage (Text.asBytes "<head".toList) h →
          headerPage[h + 5]? = some 101 := by decide +kernel
      have hle := hg.le
      obtain ⟨hmatch, c, hc, hmem⟩ := hh.holds
      rw [hname h (by omega) hmatch] at hc
      obtain rfl := Option.some_injective _ hc
      revert hmem
      decide
    · cases heq
  · decide +kernel

end Rewrite

/-- The scriptlets of a page, if they are switched on. -/
def AdBlocker.pageScriptlets {A : Library} (P : PageLibrary A) (b : AdBlocker A) (url : Text) :
    Option ScriptletInjection :=
  if b.decisions.scriptlets then b.scriptletInjection P url else none
