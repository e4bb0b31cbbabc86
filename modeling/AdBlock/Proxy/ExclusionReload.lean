import AdBlock.Persist.Reload
import AdBlock.Proxy.Exclusions
import AdBlock.Rust.Lower

/-!
# Reloading the domains that are not inspected

The list is written to its file after each change, and is read from it at the next start.  The
domains that callers may add are arbitrary texts, and some of them have what stands for something
else in the file: a comment, the end of a line, the mark of an entry that is parked.  The list is
loaded as it was saved, and each of its domains can be removed, exactly if every entry can be
stored (`exclusions_reload_iff`).
-/

namespace Proxy

namespace Exclusion

/-! ### Domains -/

theorem lowered_normalize (domain : Text) :
  Unicode.Lowered (normalize domain)
  := Unicode.lowered_of_sublist (normalize_sublist_toLowercase domain)

/-- A domain in lower case is only shortened. -/
theorem normalize_sublist {domain : Text} (h : Unicode.Lowered domain) :
  (normalize domain).Sublist domain
  := h.sublist (normalize_sublist_toLowercase domain)

theorem trim_normalize (domain : Text) :
  Text.trim (normalize domain) = normalize domain
  := by
  simp only [normalize]
  generalize Domain.splitWildcard (Unicode.toLowercase (Text.trim domain)) = parts
  split
  · rfl
  · next hne =>
    split
    · apply Text.trim_of_ends
      · intro c hc
        cases hc
        decide
      · intro c hc
        rw [List.getLast?_append_of_ne_nil _ hne] at hc
        exact Text.getLast?_trim hc
    · exact Text.trim_trim _

/-! ### Lines -/

/-- The mark of an entry that is parked. -/
def mark (e : Exclusion) : Text :=
  if e.enabled then [] else ['!']

theorem splitMark_cons (rest : Text) :
  splitMark ('!' :: rest) = (rest, false)
  := by
  have hstrip : Text.stripPrefix ('!' :: rest) ['!'] = some rest := Text.stripPrefix_append ['!'] rest
  rw [splitMark, hstrip]

theorem splitMark_of_head {line : Text} (h : line.head? ≠ some '!') :
  splitMark line = (line, true)
  := by
  have hstrip : Text.stripPrefix line ['!'] = none := by
    rw [Text.stripPrefix_eq_none_iff]
    rintro ⟨rest, rfl⟩
    exact h rfl
  rw [splitMark, hstrip]

theorem splitMark_cases (line : Text) :
  line.head? ≠ some '!' ∧ (splitMark line).1 = line ∨ line = '!' :: (splitMark line).1
  := by
  by_cases hhead : line.head? = some '!'
  · obtain ⟨rest, rfl⟩ := List.head?_eq_some_iff.mp hhead
    right
    rw [splitMark_cons]
  · left
    rw [splitMark_of_head hhead]
    exact ⟨hhead, rfl⟩

theorem splitMark_sublist (line : Text) :
  (splitMark line).1.Sublist line
  := by
  rcases splitMark_cases line with ⟨-, hrest⟩ | hline
  · rw [hrest]
  · nth_rewrite 2 [hline]
    exact List.sublist_cons_self '!' _

/-- The rest of a line that is part of a marked text is part of the text. -/
theorem splitMark_sublist_of_mark {e : Exclusion} {line piece : Text}
    (h : line.Sublist (e.mark ++ piece)) :
  (splitMark line).1.Sublist piece
  := by
  rw [mark] at h
  split at h
  · exact (splitMark_sublist line).trans h
  · rcases splitMark_cases line with ⟨hhead, hrest⟩ | hline
    · rw [hrest]
      rcases List.sublist_cons_iff.mp h with h | ⟨rest, rfl, -⟩
      · exact h
      · exact absurd rfl hhead
    · rw [hline] at h
      exact List.cons_sublist_cons.mp h

/-- The mark is read as such, and nothing else is. -/
theorem splitMark_format {e : Exclusion} (h : e.enabled = true → e.domain.head? ≠ some '!') :
  splitMark (e.mark ++ e.domain) = (e.domain, e.enabled)
  := by
  obtain ⟨domain, enabled⟩ := e
  cases enabled with
  | false => exact splitMark_cons domain
  | true => exact splitMark_of_head (h rfl)

theorem eq_of_parse {line : Text} {e : Exclusion} (h : parse line = some e) :
  normalize (splitMark line).1 = e.domain
  := by
  simp only [parse] at h
  split at h
  · cases h
  · cases h
    rfl

/-- What is read of a line has no more in its domain than the line. -/
theorem domain_sublist_of_readPiece {e b : Exclusion} {piece : Text}
    (hpiece : Unicode.Lowered piece)
    (h : PersistedSet.readPiece lineFormat (e.mark ++ piece) = some b) :
  b.domain.Sublist piece
  := by
  obtain ⟨line, hline, -, hparse⟩ := PersistedSet.exists_of_readPiece h
  have hrest := splitMark_sublist_of_mark hline
  rw [← eq_of_parse hparse]
  apply List.Sublist.trans _ hrest
  exact normalize_sublist fun c hc => hpiece c (hrest.mem hc)

/-- An entry with a domain in lower case. -/
def Normal (e : Exclusion) : Prop :=
  e.domain ≠ [] ∧ Unicode.Lowered e.domain

theorem Normal.marked {e : Exclusion} (h : Normal e) :
  PersistedSet.Marked lineFormat domain mark e where
  format := rfl
  nonempty := h.1
  no_feed := by
    rw [mark]
    split <;> decide
  first piece hpiece b hb :=
    domain_sublist_of_readPiece (fun c hc => h.2 c (hpiece c hc)) hb
  rest piece hpiece b hb :=
    @domain_sublist_of_readPiece { domain := [], enabled := true } b piece
      (fun c hc => h.2 c (hpiece c hc)) hb

/-- An entry that is written as it is read: no comment, end of a line or mark is in its domain, and
the domain is normal. -/
@[mk_iff]
structure Storable (e : Exclusion) : Prop where
  no_comment : '#' ∉ e.domain
  no_feed : '\n' ∉ e.domain
  no_mark : e.enabled = true → e.domain.head? ≠ some '!'
  normal : normalize e.domain = e.domain

instance (e : Exclusion) : Decidable (Storable e) :=
  decidable_of_iff' _ (storable_iff e)

theorem trim_format {e : Exclusion} (hne : e.domain ≠ []) (h : Text.trim e.domain = e.domain) :
  Text.trim (e.mark ++ e.domain) = e.mark ++ e.domain
  := by
  rw [mark]
  split
  · exact h
  · apply Text.trim_of_ends
    · intro c hc
      cases hc
      decide
    · intro c hc
      rw [List.getLast?_append_of_ne_nil _ hne, ← h] at hc
      exact Text.getLast?_trim hc

theorem Storable.readBack {e : Exclusion} (h : Storable e) (hne : e.domain ≠ []) :
  PersistedSet.readBack lineFormat e = [e]
  := by
  have hmark (c : Char) (hc : c ≠ '!') (hdomain : c ∉ e.domain) : c ∉ e.mark ++ e.domain := by
    rw [mark]
    split <;> simp [hc, hdomain]
  have htrim : Text.trim e.domain = e.domain := by
    rw [← h.normal]
    exact trim_normalize e.domain
  apply PersistedSet.readBack_of_line
  · exact hmark '\n' (by decide) h.no_feed
  · show stripComment (e.mark ++ e.domain) = e.mark ++ e.domain
    rw [PersistedSet.stripComment_of_not_mem (hmark '#' (by decide) h.no_comment),
      trim_format hne htrim]
  · exact List.append_ne_nil_of_right_ne_nil _ hne
  · show parse (e.mark ++ e.domain) = some e
    simp only [parse, splitMark_format h.no_mark, h.normal, if_neg hne]

/-- An entry whose domain is read of its line can be stored. -/
theorem storable_of_read {e b : Exclusion} (h : Normal e) (hfeed : '\n' ∉ e.domain)
    (hread : PersistedSet.readPiece lineFormat (e.mark ++ e.domain) = some b)
    (hdomain : b.domain = e.domain) :
  Storable e
  := by
  obtain ⟨line, hline, hcomment, hparse⟩ := PersistedSet.exists_of_readPiece hread
  have hsub := splitMark_sublist_of_mark hline
  have hnormal : normalize (splitMark line).1 = e.domain := (eq_of_parse hparse).trans hdomain
  have hrest : (splitMark line).1 = e.domain := by
    apply hsub.antisymm
    rw [← hnormal]
    exact normalize_sublist fun c hc => h.2 c (hsub.mem hc)
  have hmem : e.domain.Sublist line := by
    rw [← hrest]
    exact splitMark_sublist line
  refine ⟨fun hc => hcomment (hmem.mem hc), hfeed, ?_, ?_⟩
  · intro henabled hhead
    -- the whole line is the domain, and its first character is taken for the mark
    rw [mark, if_pos henabled] at hline
    obtain rfl : line = e.domain := hline.antisymm hmem
    obtain ⟨rest, hcons⟩ := List.head?_eq_some_iff.mp hhead
    rw [hcons, splitMark_cons] at hrest
    exact absurd (congrArg List.length hrest) (by simp)
  · rw [hrest] at hnormal
    exact hnormal

end Exclusion

namespace ExclusionStore

/-! ### Runs -/

theorem isComment_exclusionsHeader :
  PersistedSet.IsComment exclusionsHeader
  := by decide +kernel

/-- The entries have domains in lower case, in order, and are those that were written. -/
abbrev Kept (store : ExclusionStore) : Prop :=
  PersistedSet.Written Exclusion.lineFormat exclusionsHeader Exclusion.domain Exclusion.Normal store

theorem kept_load_none :
  Kept (load none)
  := PersistedSet.written_load_none _ rfl

theorem kept_add {store : ExclusionStore} (h : Kept store) (domain : Text)
    (persisted : Except Text Unit) :
  Kept (add persisted domain store).2
  := by
  simp only [add]
  split
  · exact h
  · next hne =>
    apply PersistedSet.Written.add h (a := ⟨Exclusion.normalize domain, true⟩)
      ⟨hne, Exclusion.lowered_normalize domain⟩
    rw [addEdit]
    simp only [List.any_eq_true, beq_iff_eq, List.mem_map]
    exact apply_ite Prod.snd _ _ _

theorem kept_setEnabled {store : ExclusionStore} (h : Kept store) (domain : Text) (enabled : Bool)
    (persisted : Except Text Unit) :
  Kept (setEnabled persisted domain enabled store).2
  := by
  -- the domains stay, and nothing but those matters
  have hdomains : (PersistedSet.setFlagEdit (·.domain == Exclusion.normalize domain) (·.enabled)
      (fun enabled e => { e with enabled }) enabled store.entries).2.map Exclusion.domain
      = store.entries.map Exclusion.domain :=
    PersistedSet.map_setFlagEdit (fun _ => rfl) _ _ store.entries
  apply PersistedSet.Written.mutate h
  · intro e he
    obtain ⟨e', he', hdomain⟩ := List.mem_map.mp (hdomains ▸ List.mem_map_of_mem he)
    rw [Exclusion.Normal, ← hdomain]
    exact h.entries e' he'
  · have hascending := h.ascending
    rw [PersistedSet.Ascending, ← List.pairwise_map] at hascending ⊢
    rw [hdomains]
    exact hascending

theorem kept_step {store : ExclusionStore} (h : Kept store) (op : Op) :
  Kept (step op store)
  := by
  cases op with
  | add domain persisted => exact kept_add h domain persisted
  | remove domain persisted => exact PersistedSet.Written.remove h _ persisted
  | setEnabled domain enabled persisted => exact kept_setEnabled h domain enabled persisted

theorem kept_run {store : ExclusionStore} (h : Kept store) (ops : List Op) :
  Kept (run ops store)
  := by
  induction ops generalizing store with
  | nil => exact h
  | cons op ops ih => exact ih (kept_step h op)

/-! ### Reloading -/

theorem load_eq (file : Option Text) :
  load file = PersistedSet.load Exclusion.lineFormat (PersistedSet.sortDedup Exclusion.domain) file
  := rfl

theorem load_iff {store : ExclusionStore} (h : Kept store) :
  (load store.file).entries = store.entries ↔ ∀ e ∈ store.entries, e.Storable
  := by
  rw [load_eq]
  apply PersistedSet.Written.load_iff h isComment_exclusionsHeader
  · exact fun e he => he.marked
  · exact fun e he hstorable => hstorable.readBack he.1
  · exact fun e b he hfeed hread hdomain => Exclusion.storable_of_read he hfeed hread hdomain

/-- A listed domain is removed when it is passed back, exactly if it is normal. -/
theorem remove_iff {store : ExclusionStore} {e : Exclusion} (he : e ∈ store.entries) :
  ((remove (.ok ()) e.domain store).1 = .ok true
    ∧ ∀ e' ∈ (remove (.ok ()) e.domain store).2.entries, e'.domain ≠ e.domain)
    ↔ Exclusion.normalize e.domain = e.domain
  := PersistedSet.mutate_removeEdit_iff Exclusion.lineFormat exclusionsHeader Exclusion.domain he _

/-- A call of the administrator. -/
inductive Call where
  | add (domain : Text)
  | remove (domain : Text)
  | setEnabled (domain : Text) (enabled : Bool)

/-- The call when the file can be written. -/
def Call.op : Call → Op
  | .add domain => .add domain (.ok ())
  | .remove domain => .remove domain (.ok ())
  | .setEnabled domain enabled => .setEnabled domain enabled (.ok ())

/-- The store after calls, from a missing file. -/
def after (calls : List Call) : ExclusionStore :=
  run (calls.map Call.op) (load none)

theorem kept_after (calls : List Call) :
  Kept (after calls)
  := kept_run kept_load_none _

/-- The list is loaded as it was saved, and every listed domain can be removed, exactly if every
entry can be stored. -/
theorem exclusions_reload_iff (calls : List Call) :
  ((load (after calls).file).entries = (after calls).entries
    ∧ ∀ e ∈ (after calls).entries,
      (remove (.ok ()) e.domain (after calls)).1 = .ok true
        ∧ ∀ e' ∈ (remove (.ok ()) e.domain (after calls)).2.entries, e'.domain ≠ e.domain)
    ↔ ∀ e ∈ (after calls).entries, e.Storable
  := by
  rw [load_iff (kept_after calls)]
  constructor
  · exact fun h => h.1
  · intro hstorable
    refine ⟨hstorable, ?_⟩
    intro e he
    rw [remove_iff he]
    exact (hstorable e he).normal

theorem entries_after_parked :
  (after [.add "A.com".toList, .setEnabled "a.com".toList false]).entries
    = [{ domain := "a.com".toList, enabled := false }]
  := by decide +kernel

/-- A domain that is parked. -/
theorem exclusions_reload_parked :
  (load (after [.add "A.com".toList, .setEnabled "a.com".toList false]).file).entries
    = [{ domain := "a.com".toList, enabled := false }]
  := by
  rw [← entries_after_parked]
  apply ((exclusions_reload_iff _).mpr _).1
  rw [entries_after_parked]
  decide +kernel

theorem entries_after_comment :
  (after [.add "a#b".toList]).entries = [{ domain := "a#b".toList, enabled := true }]
  := by decide +kernel

/-- What follows the `#` is a comment in the file. -/
theorem exclusions_reload_comment :
  (load (after [.add "a#b".toList]).file).entries = [{ domain := "a".toList, enabled := true }]
    ∧ (after [.add "a#b".toList]).entries = [{ domain := "a#b".toList, enabled := true }]
  := by
  refine ⟨?_, entries_after_comment⟩
  rw [load_eq, (kept_after _).entries_load isComment_exclusionsHeader, entries_after_comment]
  decide +kernel

end ExclusionStore

end Proxy
