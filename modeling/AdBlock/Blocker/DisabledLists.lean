import AdBlock.Blocker.Basic
import AdBlock.Curation.Backing
import Mathlib.Algebra.Order.BigOperators.Group.Finset

/-!
# Disabled lists

Neither the engine nor the attribution of a match looks at a disabled list, so no decision on a
request depends on one.  A style sheet does: the generic selectors of the custom list are read
off its text, enabled or not.  The style sheet is as if the disabled lists were not there exactly
when the custom list is enabled, or the page is excepted from generic hiding, or none of these
selectors is new (`AdBlocker.disabledLists_ignored_iff`).
-/

/-! ### Readers of the enabled lists -/

theorem enabledInOrder_filter_enabled (lists : List ListEntry) :
  enabledInOrder (lists.filter ListEntry.enabled) = enabledInOrder lists
  := by
  rw [enabledInOrder, List.filter_filter, enabledInOrder]
  simp only [Bool.and_self]

theorem filterOrigin_filter_enabled (lists : List ListEntry) (filter : Text) :
  filterOrigin (lists.filter ListEntry.enabled) filter = filterOrigin lists filter
  := by
  rw [filterOrigin, List.filter_filter, filterOrigin]
  simp only [Bool.and_self]

theorem attribution_filter_enabled (lists : List ListEntry) (filter : Option Text) :
  attribution (lists.filter ListEntry.enabled) filter = attribution lists filter
  := by
  rw [attribution, funext (filterOrigin_filter_enabled lists), attribution]

theorem buildEngine_filter_enabled {A : Library} (lists : List ListEntry)
    (resources : List A.Resource) (cache : Option (Option Bytes)) :
  buildEngine (lists.filter ListEntry.enabled) resources cache
    = buildEngine lists resources cache
  := by
  rw [buildEngine, engineKey, enabledInOrder_filter_enabled, buildEngine, engineKey]

theorem findList_filter_enabled {lists : List ListEntry} (hunique : UniqueNames lists)
    (name : Text) :
  findList (lists.filter ListEntry.enabled) name = (findList lists name).filter ListEntry.enabled
  := by
  ext l
  have hunique' : UniqueNames (lists.filter ListEntry.enabled) :=
    hunique.sublist (List.filter_sublist.map _)
  rw [findList_eq_some_iff hunique', Option.filter_eq_some_iff, findList_eq_some_iff hunique,
    List.mem_filter]
  apply and_right_comm

/-! ### Hide rules -/

namespace AdBlocker

/-- A style sheet has room for each of its selectors. -/
theorem length_hideRules (s : Finset Text) :
  (hideRules s).length
    = ∑ sel ∈ s, (sel ++ "\x7bdisplay:none !important\x7d\n".toList).length
  := by
  rw [hideRules, List.length_flatMap, ((s.sort_perm_toList _).map _).sum_eq,
    Finset.sum_map_toList]

/-- More selectors make another style sheet. -/
theorem hideRules_eq_iff_of_subset {s t : Finset Text} (hst : s ⊆ t) :
  hideRules s = hideRules t ↔ s = t
  := by
  constructor
  · intro h
    have hlength := congrArg List.length h
    rw [length_hideRules, length_hideRules] at hlength
    by_contra hne
    obtain ⟨sel, hsel, hnew⟩ := Finset.exists_of_ssubset (hst.ssubset_of_ne hne)
    apply (Finset.sum_lt_sum_of_subset hst hsel hnew _ fun _ _ _ => Nat.zero_le _).ne hlength
    rw [List.length_append]
    apply Nat.add_pos_right
    decide
  · rintro rfl
    rfl

/-! ### The blocker without the disabled lists -/

variable {A : Library}

/-- The blocker with other lists, and the engine that is built from them. -/
def withLists (b : AdBlocker A) (lists : List ListEntry) : AdBlocker A :=
  { b with
    core :=
      { b.core with
        lists
        engine := (buildEngine lists b.core.scriptlets.resources none).1 } }

variable (b : AdBlocker A) (lists : List ListEntry)

@[simp]
theorem lists_withLists : (b.withLists lists).core.lists = lists := rfl

@[simp]
theorem enabled_withLists : (b.withLists lists).enabled = b.enabled := rfl

@[simp]
theorem engine_withLists_filter_enabled :
  (b.withLists (lists.filter ListEntry.enabled)).core.engine = (b.withLists lists).core.engine
  := by
  rw [withLists, withLists, buildEngine_filter_enabled]

/-- No decision on a request depends on a disabled list. -/
theorem check_withLists_filter_enabled (url sourceUrl requestType : Text) :
  (b.withLists (lists.filter ListEntry.enabled)).check url sourceUrl requestType
    = (b.withLists lists).check url sourceUrl requestType
  := by
  have hmatch : (b.withLists (lists.filter ListEntry.enabled)).matchRequest url sourceUrl
      requestType = (b.withLists lists).matchRequest url sourceUrl requestType := by
    rw [matchRequest, enabled_withLists, engine_withLists_filter_enabled, lists_withLists,
      funext (attribution_filter_enabled lists)]
    rfl
  rw [check, hmatch, check]

theorem mem_customSelectors {b : AdBlocker A} {url sel : Text} :
  sel ∈ b.customSelectors url
    ↔ (A.urlCosmeticResources b.core.engine url).generichide = false
      ∧ ∃ custom, findList b.core.lists customList = some custom
        ∧ sel ∈ genericSelectors custom.text
        ∧ sel ∉ (A.urlCosmeticResources b.core.engine url).exceptions
  := by
  rw [customSelectors, customGenericSelectors]
  split
  next hhide => simp [hhide]
  next hhide =>
    split
    next hnone => simp [hnone]
    next custom hcustom => simp [hhide, hcustom]

variable {b} {lists} (hunique : UniqueNames lists) {url : Text}

include hunique in
/-- The selectors of the custom list are there without the disabled lists when it is enabled. -/
theorem mem_customSelectors_filter_enabled {sel : Text} :
  sel ∈ (b.withLists (lists.filter ListEntry.enabled)).customSelectors url
    ↔ sel ∈ (b.withLists lists).customSelectors url
      ∧ ∀ custom ∈ lists, custom.name = customList → custom.enabled = true
  := by
  rw [mem_customSelectors, mem_customSelectors, engine_withLists_filter_enabled,
    lists_withLists, lists_withLists, findList_filter_enabled hunique]
  constructor
  · rintro ⟨hhide, custom, hcustom, hsel⟩
    obtain ⟨hfind, henabled⟩ := Option.filter_eq_some_iff.mp hcustom
    and_intros
    · exact hhide
    · use custom
    · intro custom' hmem hname
      obtain rfl := Option.some_injective _
        (hfind.symm.trans ((findList_eq_some_iff hunique).mpr ⟨hmem, hname⟩))
      exact henabled
  · rintro ⟨⟨hhide, custom, hfind, hsel⟩, henabled⟩
    obtain ⟨hmem, hname⟩ := (findList_eq_some_iff hunique).mp hfind
    use hhide, custom, Option.filter_eq_some_iff.mpr ⟨hfind, henabled custom hmem hname⟩

include hunique in
/-- The selectors of a page do not depend on the disabled lists, unless the custom list is
disabled and has a selector of its own. -/
theorem selectors_filter_enabled_iff (E : Finset Text) :
  E ∪ (b.withLists (lists.filter ListEntry.enabled)).customSelectors url
      = E ∪ (b.withLists lists).customSelectors url
    ↔ (∀ custom ∈ lists, custom.name = customList → custom.enabled = true)
      ∨ (b.withLists lists).customSelectors url ⊆ E
  := by
  constructor
  · intro h
    rw [or_iff_not_imp_left]
    intro hdisabled sel hsel
    have hunion : sel ∈ E ∪ (b.withLists (lists.filter ListEntry.enabled)).customSelectors url := by
      rw [h]
      apply Finset.mem_union_right E hsel
    apply (Finset.mem_union.mp hunion).resolve_right
    intro hfilter
    apply hdisabled ((mem_customSelectors_filter_enabled hunique).mp hfilter).2
  · rintro (henabled | hsub)
    · congr 1
      ext sel
      rw [mem_customSelectors_filter_enabled hunique]
      apply and_iff_left henabled
    · rw [Finset.union_eq_left.mpr hsub, Finset.union_eq_left]
      intro sel hsel
      apply hsub ((mem_customSelectors_filter_enabled hunique).mp hsel).1

include hunique in
/-- The style sheet of a page does not depend on the disabled lists exactly when its selectors do
not. -/
theorem cosmeticCss_filter_enabled_iff (henabled : b.enabled = true) (classes ids : List Text) :
  (b.withLists (lists.filter ListEntry.enabled)).cosmeticCss url classes ids
      = (b.withLists lists).cosmeticCss url classes ids
    ↔ (∀ custom ∈ lists, custom.name = customList → custom.enabled = true)
      ∨ (b.withLists lists).customSelectors url
        ⊆ engineSelectors (b.withLists lists).core.engine url classes ids
  := by
  rw [← selectors_filter_enabled_iff hunique, cosmeticCss, cosmeticCss, enabled_withLists,
    enabled_withLists, henabled, engine_withLists_filter_enabled]
  simp only [Bool.not_true, Bool.false_eq_true, if_false, List.append_left_inj]
  apply hideRules_eq_iff_of_subset
  apply Finset.union_subset_union_right
  intro sel hsel
  apply ((mem_customSelectors_filter_enabled hunique).mp hsel).1

/-- With the blocker on, no answer depends on the disabled lists exactly when every list named
`custom` is enabled, or the engine hides what the custom list hides on the page anyway. -/
theorem disabledLists_ignored_iff (b : AdBlocker A) {lists : List ListEntry}
    (hunique : UniqueNames lists) (henabled : b.enabled = true)
    (url sourceUrl requestType : Text) (classes ids : List Text) :
  ((b.withLists lists).check url sourceUrl requestType).blocked
      = ((b.withLists (lists.filter ListEntry.enabled)).check url sourceUrl requestType).blocked
    ∧ ((b.withLists lists).check url sourceUrl requestType).attribution
      = ((b.withLists (lists.filter ListEntry.enabled)).check url sourceUrl
        requestType).attribution
    ∧ (b.withLists lists).cosmeticCss url classes ids
      = (b.withLists (lists.filter ListEntry.enabled)).cosmeticCss url classes ids
    ↔ (∀ custom ∈ lists, custom.name = customList → custom.enabled = true)
      ∨ (b.withLists lists).customSelectors url
        ⊆ engineSelectors (b.withLists lists).core.engine url classes ids
  := by
  rw [check_withLists_filter_enabled, ← cosmeticCss_filter_enabled_iff hunique henabled,
    eq_comm (a := (b.withLists lists).cosmeticCss url classes ids)]
  constructor
  · rintro ⟨-, -, hcss⟩
    exact hcss
  · intro hcss
    and_intros
    · rfl
    · rfl
    · exact hcss

/-- The blocker of an engine without rules, with everything switched on. -/
def counting : AdBlocker Library.counting where
  core :=
    { enabled := true
      engine := (0, [])
      lists := []
      scriptlets := { inject := false, path := [], resources := [] }
      engineCache := none }
  decisions :=
    { enabled := true
      redirect := true
      removeparam := true
      csp := true
      cosmetic := true
      scriptlets := true
      runtime := true }

/-- The URL of a page. -/
def pageUrl : Text := "https://news.example/".toList

/-- The custom list with one hide rule, and a list that is switched off. -/
def hidingLists (enabled : Bool) : List ListEntry :=
  [{ name := "ads".toList
     source := "https://lists.example/ads.txt".toList
     rules := 1
     enabled := false
     text := "||ads.example^".toList },
   { name := customList
     source := customSource
     rules := 1
     enabled
     text := "##.ad".toList }]

/-- The disabled list next to the enabled custom list has no effect. -/
theorem disabledLists_ignored_enabled :
  UniqueNames (hidingLists true) ∧ counting.enabled = true
    ∧ (counting.withLists (hidingLists true)).cosmeticCss pageUrl [] []
      = (counting.withLists ((hidingLists true).filter ListEntry.enabled)).cosmeticCss pageUrl
        [] []
  := by
  have hunique : UniqueNames (hidingLists true) := by decide
  have henabled : counting.enabled = true := rfl
  have h := (disabledLists_ignored_iff counting hunique henabled pageUrl pageUrl
    "document".toList [] []).mpr (.inl (by decide))
  exact ⟨hunique, henabled, h.2.2⟩

/-- The hide rule of a disabled custom list is in the style sheet of the page. -/
theorem disabledLists_ignored_custom :
  UniqueNames (hidingLists false) ∧ counting.enabled = true
    ∧ (counting.withLists (hidingLists false)).cosmeticCss pageUrl [] []
      ≠ (counting.withLists ((hidingLists false).filter ListEntry.enabled)).cosmeticCss pageUrl
        [] []
  := by
  have hunique : UniqueNames (hidingLists false) := by decide
  have henabled : counting.enabled = true := rfl
  use hunique, henabled
  intro h
  rw [eq_comm, cosmeticCss_filter_enabled_iff hunique henabled] at h
  revert h
  decide

end AdBlocker
