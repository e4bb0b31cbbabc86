import AdBlock.Dns.RewriteStore

/-!
# The pattern that answers

Of the patterns that cover a domain, the one that is the domain itself answers, or else the one
with the longest suffix.  It is determined by the entries that are not parked (`Best.unique`), and
`matching` gives its answers in the order of the list (`matching_of_best`).
-/

namespace Dns

/-! ### Greatest elements -/

section maxByKey

variable {α β : Type} [LinearOrder β] (key : α → β)

theorem maxByKey_eq_none {l : List α} :
  maxByKey key l = none ↔ l = []
  := by
  cases l with
  | nil => simp [maxByKey]
  | cons a as => simp [maxByKey]

theorem foldl_max (as : List α) (a : α) :
  as.foldl (fun best a => if key best ≤ key a then a else best) a ∈ a :: as
    ∧ ∀ b ∈ a :: as,
      key b ≤ key (as.foldl (fun best a => if key best ≤ key a then a else best) a)
  := by
  induction as generalizing a with
  | nil => simp
  | cons a' as ih =>
    rw [List.foldl_cons, List.forall_mem_cons, List.forall_mem_cons]
    -- the greater of the first two goes on
    rcases le_or_gt (key a) (key a') with h | h
    · obtain ⟨hmem, hle⟩ := ih a'
      rw [List.forall_mem_cons] at hle
      rw [if_pos h]
      exact ⟨List.mem_cons_of_mem _ hmem, h.trans hle.1, hle⟩
    · obtain ⟨hmem, hle⟩ := ih a
      rw [List.forall_mem_cons] at hle
      rw [if_neg h.not_ge]
      refine ⟨?_, hle.1, h.le.trans hle.1, hle.2⟩
      rcases List.mem_cons.mp hmem with heq | hmem
      · rw [heq]
        apply List.mem_cons_self
      · apply List.mem_cons_of_mem _ (List.mem_cons_of_mem _ hmem)

theorem maxByKey_spec {l : List α} {best : α} (h : maxByKey key l = some best) :
  best ∈ l ∧ ∀ b ∈ l, key b ≤ key best
  := by
  cases l with
  | nil => cases h
  | cons a as =>
    obtain rfl := Option.some.inj h
    apply foldl_max

end maxByKey

/-! ### Patterns that cover a domain -/

/-- A pattern in normal form has `*.` in front or is a host name. -/
theorem IsPattern.cases {p : Text} (h : IsPattern p) :
  (HostName p ∧ Text.stripPrefix p "*.".toList = none)
    ∨ ∃ s, HostName s ∧ p = '*' :: '.' :: s
  := by
  obtain ⟨host, hhost, rfl | rfl⟩ := h
  · left
    use hhost
    rw [Text.stripPrefix_eq_none_iff]
    rintro ⟨rest, hrest⟩
    have hstar : '*' ∈ p := by
      rw [← hrest]
      apply List.mem_cons_self
    exact hhost.not_mem rfl hstar
  · right
    use host, hhost

theorem patternMatches_wild (s domain : Text) :
  patternMatches ('*' :: '.' :: s) domain = Domain.covers s domain
  := by
  have hstrip : Text.stripPrefix ('*' :: '.' :: s) "*.".toList = some s :=
    Text.stripPrefix_append "*.".toList s
  rw [patternMatches, hstrip]

theorem patternMatches_exact {p : Text} (h : Text.stripPrefix p "*.".toList = none)
    (domain : Text) :
  patternMatches p domain = true ↔ domain = p
  := by
  rw [patternMatches, h, beq_iff_eq]

theorem specificity_wild (s : Text) :
  patternSpecificity ('*' :: '.' :: s) = toLex (false, 2 + Text.len s)
  := by
  have hlen : Text.len ('*' :: '.' :: s) = 2 + Text.len s := Text.len_append ['*', '.'] s
  rw [patternSpecificity, hlen]
  rfl

theorem specificity_exact {p : Text} (h : Text.stripPrefix p "*.".toList = none) :
  patternSpecificity p = toLex (true, Text.len p)
  := by
  have hstart : Text.startsWith p "*.".toList = false := by
    rw [Text.stripPrefix_eq_none_iff, ← List.isPrefixOf_iff_prefix, Bool.not_eq_true] at h
    apply h
  rw [patternSpecificity, hstart]
  rfl

theorem specificity_wild_le {s s' : Text} :
  patternSpecificity ('*' :: '.' :: s) ≤ patternSpecificity ('*' :: '.' :: s')
    ↔ Text.len s ≤ Text.len s'
  := by
  rw [specificity_wild, specificity_wild, Prod.Lex.toLex_le_toLex]
  simp

theorem not_specificity_exact_le_wild {p s : Text} (h : Text.stripPrefix p "*.".toList = none) :
  ¬ patternSpecificity p ≤ patternSpecificity ('*' :: '.' :: s)
  := by
  rw [specificity_exact h, specificity_wild, Prod.Lex.toLex_le_toLex]
  simp

/-- What covers a domain is an end of it. -/
theorem suffix_of_covers {s domain : Text} (h : Domain.covers s domain = true) :
  s <:+ domain
  := by
  rcases Domain.covers_iff_suffix.mp h with rfl | hsub
  · apply List.suffix_rfl
  · apply (List.suffix_cons '.' s).trans hsub

/-! ### The best pattern -/

/-- An entry that is not parked has the pattern. -/
def Live (rewrites : List Rewrite) (pattern : Text) : Prop :=
  ∃ r ∈ rewrites, r.enabled = true ∧ r.domain = pattern

/-- The pattern is `*.` with an end that covers the domain, and no longer one is there. -/
def Longest (rewrites : List Rewrite) (domain pattern : Text) : Prop :=
  ∃ s, pattern = '*' :: '.' :: s ∧ Domain.covers s domain = true
    ∧ ∀ s', Live rewrites ('*' :: '.' :: s') → Domain.covers s' domain = true →
      s'.length ≤ s.length

/-- The pattern is there, and is the domain itself, or the longest if the domain is not there. -/
structure Best (rewrites : List Rewrite) (domain pattern : Text) : Prop where
  live : Live rewrites pattern
  choice : pattern = domain ∨ ¬ Live rewrites domain ∧ Longest rewrites domain pattern

variable {rewrites rewrites' : List Rewrite} {domain pattern pattern' : Text}

/-- There is one best pattern at most. -/
theorem Best.unique (h : Best rewrites domain pattern) (h' : Best rewrites domain pattern') :
  pattern = pattern'
  := by
  rcases h.choice with rfl | ⟨hnone, s, rfl, hcovers, hlongest⟩
  · rcases h'.choice with rfl | ⟨hnone', -⟩
    · rfl
    · exact absurd h.live hnone'
  · rcases h'.choice with rfl | ⟨-, s', rfl, hcovers', hlongest'⟩
    · exact absurd h'.live hnone
    · -- both are ends of the domain, of one length
      have hlength : s.length = s'.length :=
        le_antisymm (hlongest' s h.live hcovers) (hlongest s' h'.live hcovers')
      have hsuffix := List.suffix_of_suffix_length_le (suffix_of_covers hcovers)
        (suffix_of_covers hcovers') hlength.le
      rw [hsuffix.eq_of_length hlength]

/-- A pattern that is the domain covers it. -/
theorem patternMatches_self (h : IsPattern domain) :
  patternMatches domain domain = true
  := by
  obtain ⟨-, hexact⟩ | ⟨s, -, rfl⟩ := h.cases
  · exact (patternMatches_exact hexact domain).mpr rfl
  · rw [patternMatches_wild, Domain.covers_iff_suffix]
    right
    apply List.suffix_cons

/-- The best pattern covers the domain. -/
theorem Best.patternMatches (h : Best rewrites domain pattern) (hpattern : IsPattern pattern) :
  patternMatches pattern domain = true
  := by
  rcases h.choice with rfl | ⟨-, s, rfl, hcovers, -⟩
  · apply patternMatches_self hpattern
  · rw [patternMatches_wild, hcovers]

/-- No pattern with a suffix is longer than the domain if it has `*.` in front itself. -/
theorem len_le_of_covers_wild {s h : Text} (hs : HostName s)
    (hcovers : Domain.covers s ('*' :: '.' :: h) = true) :
  Text.len s ≤ Text.len h
  := by
  have hdot : ('.' :: s) <:+ ('.' :: h) := by
    rcases Domain.covers_iff_suffix.mp hcovers with rfl | hsub
    · exact absurd List.mem_cons_self (hs.not_mem (c := '*') rfl)
    · rcases List.suffix_cons_iff.mp hsub with heq | hsub
      · cases heq
      · apply hsub
  obtain ⟨front, hfront⟩ := hdot
  have hlen := congrArg Text.len hfront
  rw [Text.len_append] at hlen
  have hcons (t : Text) : Text.len ('.' :: t) = 1 + Text.len t := Text.len_append ['.'] t
  rw [hcons, hcons] at hlen
  omega

/-- A pattern of the greatest specificity among those that cover the domain is the best. -/
theorem best_of_specificity (hpatterns : ∀ r ∈ rewrites, IsPattern r.domain)
    (hlive : Live rewrites pattern) (hcovers : patternMatches pattern domain = true)
    (hmax : ∀ pattern', Live rewrites pattern' → patternMatches pattern' domain = true →
      patternSpecificity pattern' ≤ patternSpecificity pattern) :
  Best rewrites domain pattern
  := by
  have hnormal {p : Text} (hp : Live rewrites p) : IsPattern p := by
    obtain ⟨r, hr, -, rfl⟩ := hp
    apply hpatterns r hr
  refine ⟨hlive, ?_⟩
  obtain ⟨-, hexact⟩ | ⟨s, hs, rfl⟩ := (hnormal hlive).cases
  · left
    exact ((patternMatches_exact hexact domain).mp hcovers).symm
  · rw [patternMatches_wild] at hcovers
    by_cases hdomain : Live rewrites domain
    · -- the domain itself is there: it is less specific only if it is this pattern
      left
      have hle := hmax domain hdomain (patternMatches_self (hnormal hdomain))
      obtain ⟨-, hexact⟩ | ⟨h, hh, rfl⟩ := (hnormal hdomain).cases
      · exact absurd hle (not_specificity_exact_le_wild hexact)
      · rw [specificity_wild_le] at hle
        have hge := len_le_of_covers_wild hs hcovers
        have hend : s <:+ '*' :: '.' :: h := suffix_of_covers hcovers
        have hend' : h <:+ '*' :: '.' :: h := List.suffix_append ['*', '.'] h
        have heq : s = h := List.IsSuffix.eq_of_length_le
          (Text.suffix_of_len_le hend hend' hge)
          (Text.suffix_of_len_le hend' hend hle).length_le
        rw [heq]
    · right
      refine ⟨hdomain, s, rfl, hcovers, ?_⟩
      intro s' hlive' hcovers'
      have hle := hmax _ hlive' (by rw [patternMatches_wild, hcovers'])
      rw [specificity_wild_le] at hle
      apply List.IsSuffix.length_le
      apply Text.suffix_of_len_le (suffix_of_covers hcovers') (suffix_of_covers hcovers) hle

/-! ### Matching -/

/-- The patterns that are not parked and cover the domain. -/
def covering (rewrites : List Rewrite) (domain : Text) : List Text :=
  ((rewrites.filter (·.enabled)).filter fun r => patternMatches r.domain domain).map (·.domain)

theorem mem_covering :
  pattern ∈ covering rewrites domain
    ↔ Live rewrites pattern ∧ patternMatches pattern domain = true
  := by
  simp only [covering, List.mem_map, List.mem_filter, Live]
  constructor
  · rintro ⟨r, ⟨⟨hr, henabled⟩, hcovers⟩, rfl⟩
    exact ⟨⟨r, hr, henabled, rfl⟩, hcovers⟩
  · rintro ⟨⟨r, hr, henabled, rfl⟩, hcovers⟩
    exact ⟨r, ⟨⟨hr, henabled⟩, hcovers⟩, rfl⟩

/-- The answers of a pattern, in the order of the list. -/
def answersOf (rewrites : List Rewrite) (pattern : Text) : List RewriteAnswer :=
  (rewrites.filter fun r => r.enabled && r.domain == pattern).map (·.answer)

theorem answersOf_ne_nil (h : Live rewrites pattern) :
  answersOf rewrites pattern ≠ []
  := by
  obtain ⟨r, hr, henabled, rfl⟩ := h
  rw [answersOf, Ne, List.map_eq_nil_iff, List.filter_eq_nil_iff]
  intro hnone
  apply hnone r hr
  simp [henabled]

variable {store store' : RewriteStore}

theorem matching_eq (store : RewriteStore) (domain : Text) :
  store.matching domain
    = ((maxByKey patternSpecificity (covering store.entries domain)).map
        (answersOf store.entries)).getD []
  := by
  have hanswers (best : Text) : answersOf store.entries best
      = ((store.entries.filter (·.enabled)).filter (·.domain == best)).map (·.answer) := by
    rw [answersOf, List.filter_filter]
    congr 2
    funext r
    apply Bool.and_comm
  rw [RewriteStore.matching, ← covering]
  cases maxByKey patternSpecificity (covering store.entries domain) with
  | none => rfl
  | some best => exact (hanswers best).symm

/-- Nothing is answered if no pattern covers the domain. -/
theorem matching_eq_nil_iff :
  store.matching domain = []
    ↔ ∀ r ∈ store.entries, r.enabled = true → patternMatches r.domain domain = false
  := by
  have hnone : (∀ r ∈ store.entries, r.enabled = true → patternMatches r.domain domain = false)
      ↔ covering store.entries domain = [] := by
    rw [List.eq_nil_iff_forall_not_mem]
    constructor
    · intro h pattern hmem
      obtain ⟨⟨r, hr, henabled, rfl⟩, hcovers⟩ := mem_covering.mp hmem
      rw [h r hr henabled] at hcovers
      cases hcovers
    · intro h r hr henabled
      rw [← Bool.not_eq_true]
      intro hcovers
      exact h r.domain (mem_covering.mpr ⟨⟨r, hr, henabled, rfl⟩, hcovers⟩)
  rw [hnone, ← maxByKey_eq_none patternSpecificity, matching_eq]
  cases hmax : maxByKey patternSpecificity (covering store.entries domain) with
  | none => simp
  | some best =>
    have hlive := (mem_covering.mp (maxByKey_spec _ hmax).1).1
    simp [answersOf_ne_nil hlive]

/-- If a pattern covers the domain, there is a best one. -/
theorem exists_best (hpatterns : ∀ r ∈ rewrites, IsPattern r.domain)
    (h : covering rewrites domain ≠ []) :
  ∃ best, maxByKey patternSpecificity (covering rewrites domain) = some best
    ∧ Best rewrites domain best
  := by
  cases hmax : maxByKey patternSpecificity (covering rewrites domain) with
  | none => exact absurd ((maxByKey_eq_none _).mp hmax) h
  | some best =>
    obtain ⟨hmem, hle⟩ := maxByKey_spec _ hmax
    obtain ⟨hlive, hcovers⟩ := mem_covering.mp hmem
    use best, rfl
    apply best_of_specificity hpatterns hlive hcovers
    intro pattern' hlive' hcovers'
    apply hle _ (mem_covering.mpr ⟨hlive', hcovers'⟩)

/-- The best pattern answers. -/
theorem matching_of_best (hpatterns : ∀ r ∈ store.entries, IsPattern r.domain)
    (h : Best store.entries domain pattern) :
  store.matching domain = answersOf store.entries pattern
  := by
  have hnormal : IsPattern pattern := by
    obtain ⟨r, hr, -, rfl⟩ := h.live
    apply hpatterns r hr
  have hne : covering store.entries domain ≠ [] :=
    List.ne_nil_of_mem (mem_covering.mpr ⟨h.live, h.patternMatches hnormal⟩)
  obtain ⟨best, hmax, hbest⟩ := exists_best hpatterns hne
  rw [matching_eq, hmax, hbest.unique h]
  rfl

/-- What answers depends only on which patterns are there. -/
theorem best_congr (h : ∀ pattern, Live rewrites' pattern ↔ Live rewrites pattern) :
  Best rewrites' domain pattern ↔ Best rewrites domain pattern
  := by
  have hlongest : Longest rewrites' domain pattern ↔ Longest rewrites domain pattern := by
    simp only [Longest, h]
  constructor
  · intro hbest
    exact ⟨(h _).mp hbest.live, by simpa only [h, hlongest] using hbest.choice⟩
  · intro hbest
    exact ⟨(h _).mpr hbest.live, by simpa only [h, hlongest] using hbest.choice⟩

theorem live_perm (h : rewrites'.Perm rewrites) (pattern : Text) :
  Live rewrites' pattern ↔ Live rewrites pattern
  := by
  simp only [Live, h.mem_iff]

theorem answersOf_perm (h : rewrites'.Perm rewrites) (pattern : Text) :
  (answersOf rewrites' pattern).Perm (answersOf rewrites pattern)
  := (h.filter _).map _

/-! ### Other patterns -/

/-- Entries are parked or deleted, but none of the patterns that are kept. -/
inductive Thinned (kept : Text → Prop) : List Rewrite → List Rewrite → Prop where
  | nil : Thinned kept [] []
  | keep (r : Rewrite) {l l' : List Rewrite} : Thinned kept l l' → Thinned kept (r :: l) (r :: l')
  | park (r : Rewrite) {l l' : List Rewrite} : ¬ kept r.domain → Thinned kept l l' →
      Thinned kept (r :: l) ({ r with enabled := false } :: l')
  | delete (r : Rewrite) {l l' : List Rewrite} : ¬ kept r.domain → Thinned kept l l' →
      Thinned kept (r :: l) l'

namespace Thinned

variable {kept : Text → Prop}

theorem live (h : Thinned kept rewrites rewrites') (hlive : Live rewrites' pattern) :
  Live rewrites pattern
  := by
  obtain ⟨r, hr, henabled, rfl⟩ := hlive
  suffices hmem : r ∈ rewrites by
    use r
  induction h with
  | nil => cases hr
  | keep r' _ ih =>
    rcases List.mem_cons.mp hr with rfl | hr
    · apply List.mem_cons_self
    · apply List.mem_cons_of_mem _ (ih hr)
  | park r' _ _ ih =>
    rcases List.mem_cons.mp hr with rfl | hr
    · cases henabled
    · apply List.mem_cons_of_mem _ (ih hr)
  | delete r' _ _ ih => apply List.mem_cons_of_mem _ (ih hr)

/-- The entries of a pattern that is kept stay, in their order. -/
theorem filter_eq (h : Thinned kept rewrites rewrites') (hkept : kept pattern) :
  rewrites'.filter (fun r => r.enabled && r.domain == pattern)
    = rewrites.filter fun r => r.enabled && r.domain == pattern
  := by
  induction h with
  | nil => rfl
  | keep r _ ih => rw [List.filter_cons, List.filter_cons, ih]
  | park r hr _ ih =>
    have hne : r.domain ≠ pattern := by
      rintro rfl
      exact hr hkept
    rw [List.filter_cons, List.filter_cons, ih]
    simp [hne]
  | delete r hr _ ih =>
    have hne : r.domain ≠ pattern := by
      rintro rfl
      exact hr hkept
    rw [List.filter_cons, ih]
    simp [hne]

theorem answersOf_eq (h : Thinned kept rewrites rewrites') (hkept : kept pattern) :
  answersOf rewrites' pattern = answersOf rewrites pattern
  := by
  rw [answersOf, h.filter_eq hkept, answersOf]

theorem live_of_kept (h : Thinned kept rewrites rewrites') (hkept : kept pattern)
    (hlive : Live rewrites pattern) :
  Live rewrites' pattern
  := by
  obtain ⟨r, hr, henabled, rfl⟩ := hlive
  have hmem : r ∈ rewrites'.filter fun r' => r'.enabled && r'.domain == r.domain := by
    rw [h.filter_eq hkept]
    simp [hr, henabled]
  use r, (List.mem_filter.mp hmem).1, henabled

/-- The best pattern stays the best as long as its own entries are left. -/
theorem best (h : Thinned (Best rewrites domain) rewrites rewrites')
    (hbest : Best rewrites domain pattern) :
  Best rewrites' domain pattern
  := by
  refine ⟨h.live_of_kept hbest hbest.live, ?_⟩
  rcases hbest.choice with hdomain | ⟨hnone, s, rfl, hcovers, hlongest⟩
  · left
    apply hdomain
  · right
    refine ⟨fun hlive => hnone (h.live hlive), s, rfl, hcovers, ?_⟩
    intro s' hlive hcovers'
    apply hlongest s' (h.live hlive) hcovers'

theorem isPattern (h : Thinned kept rewrites rewrites')
    (hpatterns : ∀ r ∈ rewrites, IsPattern r.domain) :
  ∀ r ∈ rewrites', IsPattern r.domain
  := by
  induction h with
  | nil => apply hpatterns
  | keep r _ ih =>
    rw [List.forall_mem_cons] at hpatterns ⊢
    exact ⟨hpatterns.1, ih hpatterns.2⟩
  | park r _ _ ih =>
    rw [List.forall_mem_cons] at hpatterns ⊢
    exact ⟨hpatterns.1, ih hpatterns.2⟩
  | delete r _ _ ih =>
    rw [List.forall_mem_cons] at hpatterns
    apply ih hpatterns.2

theorem matching_eq (h : Thinned (Best store.entries domain) store.entries store'.entries)
    (hpatterns : ∀ r ∈ store.entries, IsPattern r.domain) :
  store'.matching domain = store.matching domain
  := by
  by_cases hcovering : covering store.entries domain = []
  · have hcovering' : covering store'.entries domain = [] := by
      rw [List.eq_nil_iff_forall_not_mem] at hcovering ⊢
      intro pattern hmem
      obtain ⟨hlive, hcovers⟩ := mem_covering.mp hmem
      apply hcovering pattern (mem_covering.mpr ⟨h.live hlive, hcovers⟩)
    rw [Dns.matching_eq, Dns.matching_eq, hcovering, hcovering']
    rfl
  · obtain ⟨best, -, hbest⟩ := exists_best hpatterns hcovering
    rw [matching_of_best hpatterns hbest, matching_of_best (h.isPattern hpatterns) (h.best hbest),
      h.answersOf_eq hbest]

end Thinned

/-- The answers are those of the best pattern, which is the only one, whatever the order of the
list; parking and deleting entries of other patterns changes nothing. -/
theorem matching_mostSpecific (store : RewriteStore) (domain : Text)
    (hnormal : ∀ r ∈ store.entries, ∃ typed, normalizePattern typed = .ok r.domain) :
  (store.matching domain = []
      ↔ ∀ r ∈ store.entries, r.enabled = true → patternMatches r.domain domain = false)
    ∧ ((∃ r ∈ store.entries, r.enabled = true ∧ patternMatches r.domain domain = true) →
      ∃ best, (∀ pattern, Best store.entries domain pattern ↔ pattern = best)
        ∧ store.matching domain
          = (store.entries.filter fun r => r.enabled && r.domain == best).map (·.answer))
    ∧ (∀ store' : RewriteStore, store'.entries.Perm store.entries →
      (∀ pattern, Best store'.entries domain pattern ↔ Best store.entries domain pattern)
        ∧ (store'.matching domain).Perm (store.matching domain))
    ∧ ∀ store' : RewriteStore,
      Thinned (Best store.entries domain) store.entries store'.entries →
      store'.matching domain = store.matching domain
  := by
  have hpatterns : ∀ r ∈ store.entries, IsPattern r.domain := by
    intro r hr
    obtain ⟨typed, htyped⟩ := hnormal r hr
    apply isPattern_of_normalizePattern htyped
  refine ⟨matching_eq_nil_iff, ?_, ?_, ?_⟩
  · rintro ⟨r, hr, henabled, hcovers⟩
    have hne : covering store.entries domain ≠ [] :=
      List.ne_nil_of_mem (mem_covering.mpr ⟨⟨r, hr, henabled, rfl⟩, hcovers⟩)
    obtain ⟨best, -, hbest⟩ := exists_best hpatterns hne
    use best
    constructor
    · intro pattern
      constructor
      · intro hpattern
        apply hpattern.unique hbest
      · rintro rfl
        apply hbest
    · apply matching_of_best hpatterns hbest
  · intro store' hperm
    have hbest (pattern : Text) :
        Best store'.entries domain pattern ↔ Best store.entries domain pattern :=
      best_congr (live_perm hperm)
    use hbest
    have hpatterns' : ∀ r ∈ store'.entries, IsPattern r.domain := by
      intro r hr
      apply hpatterns r (hperm.mem_iff.mp hr)
    by_cases hcovering : covering store.entries domain = []
    · have hcovering' : covering store'.entries domain = [] := by
        rw [← List.perm_nil, ← hcovering]
        apply ((hperm.filter _).filter _).map
      rw [matching_eq, matching_eq, hcovering, hcovering']
      rfl
    · obtain ⟨best, -, h⟩ := exists_best hpatterns hcovering
      rw [matching_of_best hpatterns h, matching_of_best hpatterns' ((hbest best).mpr h)]
      apply answersOf_perm hperm
  · intro store' hthinned
    apply hthinned.matching_eq hpatterns

/-- A pattern, a longer one, and one that is parked. -/
def labStore : RewriteStore where
  entries :=
    [{ domain := "*.example".toList, answer := .v4 ⟨10, 0, 0, 1⟩, enabled := true },
     { domain := "*.lab.example".toList, answer := .v4 ⟨10, 0, 0, 2⟩, enabled := true },
     { domain := "app.lab.example".toList, answer := .v4 ⟨10, 0, 0, 3⟩, enabled := false }]
  file := none

theorem matching_mostSpecific_lab :
  labStore.matching "app.lab.example".toList = [.v4 ⟨10, 0, 0, 2⟩]
    ∧ ∃ best, (∀ pattern, Best labStore.entries "app.lab.example".toList pattern
        ↔ pattern = best)
      ∧ labStore.matching "app.lab.example".toList
        = (labStore.entries.filter fun r => r.enabled && r.domain == best).map (·.answer)
  := by
  constructor
  · decide +kernel
  · apply (matching_mostSpecific labStore "app.lab.example".toList _).2.1
    · refine ⟨_, List.mem_cons_self, rfl, ?_⟩
      decide +kernel
    · intro r hr
      use r.domain
      revert r
      rw [labStore, List.forall_mem_cons, List.forall_mem_cons, List.forall_mem_singleton]
      exact ⟨rfl, rfl, rfl⟩

end Dns
