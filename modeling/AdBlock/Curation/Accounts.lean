import AdBlock.Curation.Backing

/-!
# Accounting for the stored lists

`reconcile` keeps a table of the lists and a table of the ids they came from, and names the files
to remove.  Every stored list, apart from custom rules, either stands behind exactly one entry of
the table or is named for removal, and no file is named twice (`reconcile_accounts`).
-/

namespace Reconciled

/-- A stored list stands behind an entry of the table: the table of ids has it for the name of the
entry, and the entry is what it reads back as. -/
structure Backs (r : Reconciled) (s : StoredList) (e : ListEntry) : Prop where
  mem : e ∈ r.lists
  loaded : r.loadedIds e.name = some s.id
  source : e.source = s.entry.source
  enabled : e.enabled = s.entry.enabled
  text : e.text = s.entry.text

namespace Inv

variable {stored : List StoredList} {acc : Reconciled} {s : StoredList}

/-- A stored list stands behind what it reads back as, if it wins for its name, and behind nothing
else. -/
theorem backs_iff (h : Inv stored acc) (hnodup : (stored.map StoredList.id).Nodup)
    (hs : s ∈ stored) {e : ListEntry} :
  acc.Backs s e ↔ backing stored s.entry.name = some s ∧ e = s.entry
  := by
  constructor
  · intro hbacks
    have hloaded := hbacks.loaded
    rw [h.ids, Option.map_eq_some_iff] at hloaded
    obtain ⟨t, ht, hid⟩ := hloaded
    obtain ⟨htmem, -, htname⟩ := mem_readingAs.mp (mem_readingAs_of_backing ht)
    obtain rfl := eq_of_id_eq hnodup htmem hs hid
    have hfind : findList acc.lists e.name = some e :=
      (findList_eq_some_iff h.nodup).mpr ⟨hbacks.mem, rfl⟩
    rw [h.find, ht, Option.map_some, Option.some.injEq] at hfind
    rw [htname]
    exact ⟨ht, hfind.symm⟩
  · rintro ⟨hback, rfl⟩
    have hfind := h.find s.entry.name
    rw [hback, Option.map_some] at hfind
    refine ⟨(findList_mem hfind).1, ?_, rfl, rfl, rfl⟩
    rw [h.ids, hback, Option.map_some]

/-- A file that is named for removal is not named again. -/
theorem nodup_remove_step (h : Inv stored acc) (hremove : acc.remove.Nodup)
    (hnodup : ((stored ++ [s]).map StoredList.id).Nodup) :
  (reconcileStep acc s).remove.Nodup
  := by
  have hnew {id : ListId} (hid : id ∉ acc.remove) : (acc.remove ++ [id]).Nodup := by
    rw [← List.concat_eq_append]
    apply hremove.concat hid
  have hfresh : s.id ∉ acc.remove := by
    rw [h.removed]
    rintro ⟨t, ht, hid, -⟩
    apply fresh_id hnodup t ht hid
  rw [reconcileStep]
  split
  · dsimp only
    split
    · apply hnew hfresh
    · rw [List.append_nil]
      apply hremove
  · dsimp only
    split
    · split
      · -- the list that won so far is not among those that lost
        rw [h.ids]
        cases hback : backing stored s.entry.name with
        | none =>
          rw [Option.map_none, Option.toList_none, List.append_nil]
          apply hremove
        | some t =>
          obtain ⟨ht, hplain, hname⟩ := mem_readingAs.mp (mem_readingAs_of_backing hback)
          rw [List.map_append] at hnodup
          apply hnew
          rw [h.removed_iff (List.nodup_append.mp hnodup).1 ht hplain, hname, hback, not_not]
      · apply hnew hfresh
    · apply hremove

end Inv

end Reconciled

theorem nodup_remove_reconcile {stored : List StoredList}
    (hnodup : (stored.map StoredList.id).Nodup) :
  (reconcile [] stored).remove.Nodup
  := by
  induction stored using List.reverseRecOn with
  | nil => exact List.nodup_nil
  | append_singleton stored s ih =>
    have hinit : (stored.map StoredList.id).Nodup := by
      rw [List.map_append] at hnodup
      apply (List.nodup_append.mp hnodup).1
    rw [reconcile, List.foldl_concat]
    apply (reconcile_inv hinit).nodup_remove_step (ih hinit) hnodup

/-- Every stored list, apart from custom rules, stands behind exactly one entry or is to be removed,
and no id is to be removed twice.  Every name has one entry, and a stored list whose id belongs to
its name stands behind it. -/
theorem reconcile_accounts {stored : List StoredList}
    (hnodup : (stored.map StoredList.id).Nodup) :
  (∀ s ∈ stored, ¬ s.isCustom →
      ((∃! e, (reconcile [] stored).Backs s e) ∧ s.id ∉ (reconcile [] stored).remove)
        ∨ ((∀ e, ¬ (reconcile [] stored).Backs s e) ∧ s.id ∈ (reconcile [] stored).remove))
    ∧ (reconcile [] stored).remove.Nodup
    ∧ ((reconcile [] stored).lists.map ListEntry.name).Nodup
    ∧ (∀ s ∈ stored, ¬ s.isCustom →
      ∃ e ∈ (reconcile [] stored).lists, e.name = s.entry.name)
    ∧ ∀ s ∈ stored, ¬ s.isCustom → s.id = ListId.of s.entry.name →
      (reconcile [] stored).Backs s s.entry
  := by
  have hinv := reconcile_inv hnodup
  refine ⟨?_, nodup_remove_reconcile hnodup, hinv.nodup, ?_, ?_⟩
  · intro s hs hplain
    have hremoved := hinv.removed_iff hnodup hs hplain
    by_cases hback : backing stored s.entry.name = some s
    · left
      constructor
      · use s.entry, (hinv.backs_iff hnodup hs).mpr ⟨hback, rfl⟩
        intro e he
        apply ((hinv.backs_iff hnodup hs).mp he).2
      · rw [hremoved, not_not]
        apply hback
    · right
      constructor
      · intro e he
        apply hback ((hinv.backs_iff hnodup hs).mp he).1
      · apply hremoved.mpr hback
  · intro s hs hplain
    have hreading : readingAs stored s.entry.name ≠ [] :=
      List.ne_nil_of_mem (mem_readingAs.mpr ⟨hs, hplain, rfl⟩)
    obtain ⟨t, ht⟩ := Option.ne_none_iff_exists'.mp (mt backing_eq_none_iff.mp hreading)
    have hfind := hinv.find s.entry.name
    rw [ht, Option.map_some] at hfind
    use t.entry
    apply findList_mem hfind
  · intro s hs hplain hid
    apply (hinv.backs_iff hnodup hs).mpr
    use backing_of_canonical hnodup (mem_readingAs.mpr ⟨hs, hplain, rfl⟩) hid

def oldFile : StoredList :=
  ⟨⟨"ads".toList⟩, "ads.txt".toList, "! Title: EasyList\n||ads.example^".toList⟩

def titledFile : StoredList :=
  ⟨⟨"easylist".toList⟩, "easylist.txt".toList, "! Title: EasyList\n||ads.test^".toList⟩

/-- Two files of one title, the second under the id that belongs to it, and the older file of custom
rules. -/
def sharedTitle : List StoredList :=
  [oldFile, titledFile, ⟨customWebId, "custom-web.txt".toList, "||web.example^".toList⟩]

/-- The second file stands behind the entry of both, and the first one is to be removed. -/
theorem reconcile_accounts_sharedTitle :
  (∀ e, ¬ (reconcile [] sharedTitle).Backs oldFile e)
    ∧ (∃! e, (reconcile [] sharedTitle).Backs titledFile e)
    ∧ (reconcile [] sharedTitle).remove = [oldFile.id, customWebId]
    ∧ (reconcile [] sharedTitle).remove.Nodup
    ∧ ((reconcile [] sharedTitle).lists.map ListEntry.name).Nodup
    ∧ (∃ e ∈ (reconcile [] sharedTitle).lists, e.name = oldFile.entry.name)
    ∧ (reconcile [] sharedTitle).Backs titledFile titledFile.entry
  := by
  obtain ⟨haccount, hremove, hnames, hentry, hcanonical⟩ :=
    @reconcile_accounts sharedTitle (by decide +kernel)
  have hremoved : (reconcile [] sharedTitle).remove = [oldFile.id, customWebId] := by
    decide +kernel
  refine ⟨?_, ?_, hremoved, hremove, hnames, hentry oldFile (by decide +kernel) (by decide +kernel),
    hcanonical titledFile (by decide +kernel) (by decide +kernel) (by decide +kernel)⟩
  · rcases haccount oldFile (by decide +kernel) (by decide +kernel) with ⟨-, hkept⟩ | ⟨hnone, -⟩
    · exact absurd (hremoved ▸ List.mem_cons_self) hkept
    · exact hnone
  · rcases haccount titledFile (by decide +kernel) (by decide +kernel) with ⟨hone, -⟩ | ⟨-, hgone⟩
    · exact hone
    · rw [hremoved] at hgone
      exact absurd hgone (by decide +kernel)
