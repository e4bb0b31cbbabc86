import AdBlock.Persist.Reload
import AdBlock.Rust.Lower
import AdBlock.Stats.Exclude

/-!
# Reloading the domains kept out of the statistics

The lines of the file are the domains themselves, and are brought to normal form again when they are
read.  A domain that has a comment or the end of a line in it, or a normal form that is not its own
(one `*.` of several is taken off, and points that spaces kept apart), is read as another.  The list
is loaded as it was saved, and each of its domains can be removed, exactly if every domain can be
stored (`domains_reload_iff`).
-/

namespace StatsExclusions

/-! ### Domains -/

theorem lowered_normalize (domain : Text) :
  Unicode.Lowered (normalize domain)
  := Unicode.lowered_of_sublist (normalize_sublist_toLowercase domain)

/-- A domain in lower case is only shortened. -/
theorem normalize_sublist {domain : Text} (h : Unicode.Lowered domain) :
  (normalize domain).Sublist domain
  := h.sublist (normalize_sublist_toLowercase domain)

theorem trim_normalize (domain : Text) :
  Text.trim (normalize domain) = normalize domain
  := by
  rw [normalize]
  exact Text.trim_trim _

/-! ### Lines -/

theorem eq_of_parse {line d : Text} (h : parse line = some d) :
  normalize line = d
  := by
  simp only [parse] at h
  split at h
  · cases h
  · exact Option.some.inj h

/-- A domain in lower case. -/
def Listed (d : Text) : Prop :=
  d ≠ [] ∧ Unicode.Lowered d

theorem Listed.marked {d : Text} (h : Listed d) :
  PersistedSet.Marked lineFormat id (fun _ => []) d := by
  have hread (piece) (hpiece : ∀ c ∈ piece, c ∈ d) (b)
      (hb : PersistedSet.readPiece lineFormat piece = some b) : b.Sublist piece := by
    obtain ⟨line, hline, -, hparse⟩ := PersistedSet.exists_of_readPiece hb
    rw [← eq_of_parse hparse]
    apply List.Sublist.trans _ hline
    exact normalize_sublist fun c hc => h.2 c (hpiece c (hline.mem hc))
  exact ⟨rfl, h.1, List.not_mem_nil, hread, hread⟩

/-- A domain that is written as it is read. -/
@[mk_iff]
structure Storable (d : Text) : Prop where
  no_comment : '#' ∉ d
  no_feed : '\n' ∉ d
  normal : normalize d = d

instance (d : Text) : Decidable (Storable d) :=
  decidable_of_iff' _ (storable_iff d)

theorem Storable.readBack {d : Text} (h : Storable d) (hne : d ≠ []) :
  PersistedSet.readBack lineFormat d = [d]
  := by
  apply PersistedSet.readBack_of_line
  · exact h.no_feed
  · show stripComment d = d
    rw [PersistedSet.stripComment_of_not_mem h.no_comment, ← h.normal, trim_normalize]
  · exact hne
  · show parse d = some d
    simp only [parse, h.normal, if_neg hne]

/-- A domain that is read of its line can be stored. -/
theorem storable_of_read {d : Text} (h : Listed d) (hfeed : '\n' ∉ d)
    (hread : PersistedSet.readPiece lineFormat d = some d) :
  Storable d
  := by
  obtain ⟨line, hline, hcomment, hparse⟩ := PersistedSet.exists_of_readPiece hread
  have hnormal := eq_of_parse hparse
  obtain rfl : line = d := by
    apply hline.antisymm
    rw [← hnormal]
    exact normalize_sublist fun c hc => h.2 c (hline.mem hc)
  exact ⟨hcomment, hfeed, hnormal⟩

/-! ### Runs -/

theorem isComment_header :
  PersistedSet.IsComment header
  := by decide +kernel

/-- The domains are in lower case and in order, and are those that were written. -/
abbrev Kept (store : StatsExclusions) : Prop :=
  PersistedSet.Written lineFormat header id Listed store

theorem kept_load_none :
  Kept (load none)
  := PersistedSet.written_load_none _ rfl

theorem kept_add {store : StatsExclusions} (h : Kept store) (domain : Text)
    (persisted : Except Text Unit) :
  Kept (add persisted domain store).2
  := by
  simp only [add]
  split
  · exact h
  · next hne =>
    apply PersistedSet.Written.add h ⟨hne, lowered_normalize domain⟩
    rw [List.map_id]
    rfl

theorem kept_step {store : StatsExclusions} (h : Kept store) (op : Op) :
  Kept (step op store)
  := by
  cases op with
  | add domain persisted => exact kept_add h domain persisted
  | remove domain persisted => exact PersistedSet.Written.remove h _ persisted

theorem kept_run {store : StatsExclusions} (h : Kept store) (ops : List Op) :
  Kept (run ops store)
  := by
  induction ops generalizing store with
  | nil => exact h
  | cons op ops ih => exact ih (kept_step h op)

/-! ### Reloading -/

theorem load_eq (file : Option Text) :
  load file = PersistedSet.load lineFormat (PersistedSet.sortDedup id) file
  := rfl

theorem load_iff {store : StatsExclusions} (h : Kept store) :
  (load store.file).entries = store.entries ↔ ∀ d ∈ store.entries, Storable d
  := by
  rw [load_eq]
  apply PersistedSet.Written.load_iff h isComment_header
  · exact fun d hd => hd.marked
  · exact fun d hd hstorable => hstorable.readBack hd.1
  · rintro d b hd hfeed hread rfl
    exact storable_of_read hd hfeed hread

/-- A listed domain is removed when it is passed back, exactly if it is normal. -/
theorem remove_iff {store : StatsExclusions} {d : Text} (hd : d ∈ store.entries) :
  ((remove (.ok ()) d store).1 = .ok true ∧ d ∉ (remove (.ok ()) d store).2.entries)
    ↔ normalize d = d
  := by
  rw [← List.forall_mem_ne']
  exact PersistedSet.mutate_removeEdit_iff lineFormat header id hd (normalize d)

/-- A call of the administrator. -/
inductive Call where
  | add (domain : Text)
  | remove (domain : Text)

/-- The call when the file can be written. -/
def Call.op : Call → Op
  | .add domain => .add domain (.ok ())
  | .remove domain => .remove domain (.ok ())

/-- The store after calls, from a missing file. -/
def after (calls : List Call) : StatsExclusions :=
  run (calls.map Call.op) (load none)

theorem kept_after (calls : List Call) :
  Kept (after calls)
  := kept_run kept_load_none _

/-- The list is loaded as it was saved, and every listed domain can be removed, exactly if every
domain can be stored. -/
theorem domains_reload_iff (calls : List Call) :
  ((load (after calls).file).entries = (after calls).entries
    ∧ ∀ d ∈ (after calls).entries,
      (remove (.ok ()) d (after calls)).1 = .ok true
        ∧ d ∉ (remove (.ok ()) d (after calls)).2.entries)
    ↔ ∀ d ∈ (after calls).entries, Storable d
  := by
  rw [load_iff (kept_after calls)]
  constructor
  · exact fun h => h.1
  · intro hstorable
    refine ⟨hstorable, ?_⟩
    intro d hd
    rw [remove_iff hd]
    exact (hstorable d hd).normal

theorem entries_after_subdomains :
  (after [.add "*.A.com".toList, .add "b.com.".toList, .remove "B.com".toList]).entries
    = ["a.com".toList]
  := by decide +kernel

/-- A domain that is left. -/
theorem domains_reload_subdomains :
  (load (after [.add "*.A.com".toList, .add "b.com.".toList, .remove "B.com".toList]).file).entries
    = ["a.com".toList]
  := by
  rw [← entries_after_subdomains]
  apply ((domains_reload_iff _).mpr _).1
  rw [entries_after_subdomains]
  decide +kernel

theorem entries_after_stacked :
  (after [.add "*.*.a".toList]).entries = ["*.a".toList]
  := by decide +kernel

/-- One `*.` of two is left, and is taken off when the domain is read or passed back. -/
theorem domains_reload_stacked :
  (after [.add "*.*.a".toList]).entries = ["*.a".toList]
    ∧ (load (after [.add "*.*.a".toList]).file).entries = ["a".toList]
    ∧ (remove (.ok ()) "*.a".toList (after [.add "*.*.a".toList])).1 = .ok false
  := by
  refine ⟨entries_after_stacked, ?_, by decide +kernel⟩
  rw [load_eq, (kept_after _).entries_load isComment_header, entries_after_stacked]
  decide +kernel

end StatsExclusions
