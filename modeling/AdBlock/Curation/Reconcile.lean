import AdBlock.Curation.Basic

/-!
# Reconciling the stored lists

At startup the stored lists are read one after the other.  The two files of custom rules are
folded into one list of lines; of the other files that read back under one name, the one whose
id belongs to the name wins, or else the first, and the others are to be removed.

`backing stored name` is the stored list that wins for a name.  The table that `reconcile`
builds holds exactly the winners, every name once, and what it asks to remove is exactly the
rest (`reconcile_inv`).
-/

/-- The id of the older file of custom rules. -/
def customWebId : ListId := ListId.of "custom-web".toList

/-- Whether custom rules are stored under an id. -/
def ListId.isCustom (id : ListId) : Prop :=
  id = ListId.of customList ∨ id = customWebId

instance : DecidablePred ListId.isCustom :=
  fun _ => inferInstanceAs (Decidable (_ ∨ _))

namespace StoredList

/-- Whether a stored list holds custom rules. -/
def isCustom (s : StoredList) : Prop := s.id.isCustom

instance : DecidablePred isCustom :=
  fun s => inferInstanceAs (Decidable s.id.isCustom)

/-- The lines of custom rules in a stored list. -/
def customLines (s : StoredList) : List Text :=
  ((Text.lines (stripSourceHeader s.text)).map Text.trim).filter (· ≠ [])

/-- A stored list, read as a list. -/
def entry (s : StoredList) : ListEntry :=
  entryFromText s.id.key s.origin s.text

end StoredList

/-- What `reconcile` has found so far. -/
structure Reconciled where
  lists : List ListEntry
  customLines : List Text
  remove : List ListId
  loadedIds : Text → Option ListId

/-- Take in one stored list. -/
def reconcileStep (acc : Reconciled) (s : StoredList) : Reconciled :=
  if s.isCustom then
    { acc with
      customLines := acc.customLines ++ s.customLines
      remove := acc.remove ++ (if s.id = customWebId then [s.id] else []) }
  else
    let entry := s.entry
    match acc.lists.findIdx? fun l => l.name = entry.name with
    | some prev =>
        if s.id = ListId.of entry.name then
          { acc with
            lists := acc.lists.set prev entry
            remove := acc.remove ++ (acc.loadedIds entry.name).toList
            loadedIds := Function.update acc.loadedIds entry.name (some s.id) }
        else
          { acc with remove := acc.remove ++ [s.id] }
    | none =>
        { acc with
          lists := acc.lists ++ [entry]
          loadedIds := Function.update acc.loadedIds entry.name (some s.id) }

def reconcile (lists : List ListEntry) (stored : List StoredList) : Reconciled :=
  stored.foldl reconcileStep
    { lists := lists, customLines := [], remove := [], loadedIds := fun _ => none }

/-! ### The stored list that backs a name -/

/-- The stored lists that read back under a name. -/
def readingAs (stored : List StoredList) (name : Text) : List StoredList :=
  stored.filter fun s => ¬ s.isCustom ∧ s.entry.name = name

/-- The stored list that wins for a name: the one whose id belongs to the name, or else the
first of those that read back under it. -/
def backing (stored : List StoredList) (name : Text) : Option StoredList :=
  ((readingAs stored name).find? fun s => s.id = ListId.of name) <|>
    (readingAs stored name).head?

theorem mem_readingAs {stored : List StoredList} {name : Text} {s : StoredList} :
  s ∈ readingAs stored name ↔ s ∈ stored ∧ ¬ s.isCustom ∧ s.entry.name = name
  := by
  simp [readingAs]

theorem mem_readingAs_of_backing {stored : List StoredList} {name : Text} {s : StoredList}
    (h : backing stored name = some s) :
  s ∈ readingAs stored name
  := by
  rw [backing, Option.orElse_eq_some] at h
  rcases h with h | ⟨-, h⟩
  · apply List.mem_of_find?_eq_some h
  · apply List.mem_of_head? h

/-- A name is backed when some stored list reads back under it. -/
theorem backing_eq_none_iff {stored : List StoredList} {name : Text} :
  backing stored name = none ↔ readingAs stored name = []
  := by
  rw [backing, Option.orElse_eq_none]
  simp only [List.head?_eq_none_iff, List.find?_eq_none]
  constructor
  · rintro ⟨-, h⟩
    apply h
  · intro h
    simp [h]

/-- Stored lists that read back under the same name and have the same id are equal. -/
theorem eq_of_id_eq {stored : List StoredList}
    (hnodup : (stored.map StoredList.id).Nodup) {s t : StoredList} (hs : s ∈ stored)
    (ht : t ∈ stored) (h : s.id = t.id) :
  s = t
  := List.inj_on_of_nodup_map hnodup hs ht h

/-- A stored list whose id belongs to the name it reads back under wins for that name. -/
theorem backing_of_canonical {stored : List StoredList}
    (hnodup : (stored.map StoredList.id).Nodup) {name : Text} {s : StoredList}
    (hs : s ∈ readingAs stored name) (hid : s.id = ListId.of name) :
  backing stored name = some s
  := by
  obtain ⟨t, ht⟩ : ∃ t, (readingAs stored name).find? (fun s => s.id = ListId.of name)
      = some t := by
    rw [← Option.isSome_iff_exists, List.find?_isSome]
    use s, hs
    simpa using hid
  have htid : t.id = ListId.of name := by simpa using List.find?_some ht
  obtain rfl : t = s := by
    apply eq_of_id_eq hnodup _ (mem_readingAs.mp hs).1 (htid.trans hid.symm)
    apply (mem_readingAs.mp (List.mem_of_find?_eq_some ht)).1
  rw [backing, ht]
  rfl

/-! ### One more stored list -/

section Concat

variable {stored : List StoredList} {s : StoredList} {name : Text}

theorem readingAs_concat_of_other (h : s.isCustom ∨ s.entry.name ≠ name) :
  readingAs (stored ++ [s]) name = readingAs stored name
  := by
  have hs : ¬ (¬ s.isCustom ∧ s.entry.name = name) := by tauto
  simp [readingAs, hs]

theorem readingAs_concat (hs : ¬ s.isCustom) (hname : s.entry.name = name) :
  readingAs (stored ++ [s]) name = readingAs stored name ++ [s]
  := by
  simp [readingAs, hs, hname]

/-- A stored list with custom rules, or of another name, does not matter to a name. -/
theorem backing_concat_of_other (h : s.isCustom ∨ s.entry.name ≠ name) :
  backing (stored ++ [s]) name = backing stored name
  := by
  rw [backing, readingAs_concat_of_other h, backing]

/-- The first stored list of a name wins for it at first. -/
theorem backing_concat_of_none (hs : ¬ s.isCustom) (hname : s.entry.name = name)
    (h : backing stored name = none) :
  backing (stored ++ [s]) name = some s
  := by
  rw [backing, readingAs_concat hs hname, backing_eq_none_iff.mp h]
  by_cases hid : s.id = ListId.of name
  · simp [hid]
  · simp [hid]

/-- A later stored list of a name wins for it only if its id belongs to the name. -/
theorem backing_concat_of_some {t : StoredList} (hs : ¬ s.isCustom)
    (hname : s.entry.name = name) (h : backing stored name = some t)
    (hid : s.id ≠ ListId.of name) :
  backing (stored ++ [s]) name = some t
  := by
  have hne : readingAs stored name ≠ [] := by
    intro hnil
    rw [backing_eq_none_iff.mpr hnil] at h
    exact absurd h (by simp)
  rw [← h, backing, backing, readingAs_concat hs hname, List.find?_append,
    List.head?_append_of_ne_nil _ hne]
  simp [hid]

end Concat

/-! ### The invariant of the loop -/

/-- Whether a stored list is folded away: it is the older file of custom rules, or another
stored list wins for the name it reads back under. -/
def Lost (stored : List StoredList) (s : StoredList) : Prop :=
  s.id = customWebId ∨ (¬ s.isCustom ∧ backing stored s.entry.name ≠ some s)

/-- What `reconcile` has found after it has taken in the stored lists `stored`. -/
structure Reconciled.Inv (stored : List StoredList) (acc : Reconciled) : Prop where
  nodup : (acc.lists.map ListEntry.name).Nodup
  find : ∀ name, findList acc.lists name = (backing stored name).map StoredList.entry
  ids : ∀ name, acc.loadedIds name = (backing stored name).map StoredList.id
  removed : ∀ id, id ∈ acc.remove ↔ ∃ s ∈ stored, s.id = id ∧ Lost stored s

/-- A list put where the first list of its name was is the one found under that name. -/
theorem findList_set {lists : List ListEntry} {i : Nat} {e : ListEntry}
    (h : lists.findIdx? (fun l => l.name = e.name) = some i) (name : Text) :
  findList (lists.set i e) name = if name = e.name then some e else findList lists name
  := by
  induction lists generalizing i with
  | nil => simp at h
  | cons l lists ih =>
    rw [List.findIdx?_cons] at h
    by_cases hl : l.name = e.name
    · obtain rfl : 0 = i := by simpa [hl] using h
      by_cases hname : name = e.name
      · simp [findList, hname]
      · simp [findList, hl, hname, Ne.symm hname]
    · obtain ⟨j, hj, rfl⟩ : ∃ j, lists.findIdx? (fun l => l.name = e.name) = some j ∧
          j + 1 = i := by simpa [hl] using h
      have hih := ih hj
      simp only [findList] at hih
      rw [findList, List.set_cons_succ, List.find?_cons, hih, findList, List.find?_cons]
      by_cases hname : name = e.name
      · simp [hname, hl]
      · simp [hname]

/-- Putting a list where the first list of its name was keeps the names. -/
theorem map_name_set {lists : List ListEntry} {i : Nat} {e : ListEntry}
    (h : lists.findIdx? (fun l => l.name = e.name) = some i) :
  (lists.set i e).map ListEntry.name = lists.map ListEntry.name
  := by
  obtain ⟨hi, hname, -⟩ := List.findIdx?_eq_some_iff_getElem.mp h
  have hlen : i < (lists.map ListEntry.name).length := by simpa using hi
  have hget : e.name = (lists.map ListEntry.name)[i] := by simpa [eq_comm] using hname
  rw [List.map_set, hget, List.set_getElem_self]

theorem findList_concat (lists : List ListEntry) (e : ListEntry) (name : Text) :
  findList (lists ++ [e]) name
    = (findList lists name).or (if e.name = name then some e else none)
  := by
  rw [findList, List.find?_append, findList]
  by_cases h : e.name = name
  · simp [h]
  · simp [h]

theorem findList_isNone_iff {lists : List ListEntry} {name : Text} :
  findList lists name = none ↔ name ∉ lists.map ListEntry.name
  := by
  simp only [findList, List.find?_eq_none, decide_eq_true_eq, List.mem_map, not_exists,
    not_and]

theorem findIdx_eq_none_iff {lists : List ListEntry} {name : Text} :
  lists.findIdx? (fun l => l.name = name) = none ↔ findList lists name = none
  := by
  rw [List.findIdx?_eq_none_iff, findList, List.find?_eq_none]
  simp

namespace Reconciled.Inv

variable {stored : List StoredList} {acc : Reconciled} {s : StoredList}

theorem nil :
  Inv [] { lists := [], customLines := [], remove := [], loadedIds := fun _ => none }
  where
  nodup := List.nodup_nil
  find _ := rfl
  ids _ := rfl
  removed id := by simp

/-- Stored lists with different ids: the last has an id of its own. -/
theorem fresh_id (hnodup : ((stored ++ [s]).map StoredList.id).Nodup) :
  ∀ t ∈ stored, t.id ≠ s.id
  := by
  rw [List.map_append, List.nodup_append] at hnodup
  intro t ht
  apply hnodup.2.2 _ (List.mem_map_of_mem ht)
  simp

/-- The ids to remove, after one more stored list: those from before, and those that are
dropped for it. -/
theorem removed_concat (h : Inv stored acc) {dropped : List ListId}
    (hold : ∀ t ∈ stored, Lost (stored ++ [s]) t ↔ Lost stored t ∨ t.id ∈ dropped)
    (hnew : Lost (stored ++ [s]) s ↔ s.id ∈ dropped)
    (hdropped : ∀ id ∈ dropped, ∃ t ∈ stored ++ [s], t.id = id) (id : ListId) :
  id ∈ acc.remove ++ dropped ↔ ∃ t ∈ stored ++ [s], t.id = id ∧ Lost (stored ++ [s]) t
  := by
  rw [List.mem_append, h.removed]
  constructor
  · rintro (⟨t, ht, hid, hlost⟩ | hid)
    · use t, List.mem_append_left _ ht, hid
      apply (hold t ht).mpr (Or.inl hlost)
    · obtain ⟨t, ht, rfl⟩ := hdropped id hid
      use t, ht, rfl
      rcases List.mem_append.mp ht with hmem | hmem
      · apply (hold t hmem).mpr (Or.inr hid)
      · obtain rfl := List.mem_singleton.mp hmem
        apply hnew.mpr hid
  · rintro ⟨t, ht, rfl, hlost⟩
    rcases List.mem_append.mp ht with hmem | hmem
    · rcases (hold t hmem).mp hlost with hl | hd
      · exact Or.inl ⟨t, hmem, rfl, hl⟩
      · exact Or.inr hd
    · obtain rfl := List.mem_singleton.mp hmem
      exact Or.inr (hnew.mp hlost)

/-- A stored list that changes no winner loses, if it is not a file of custom rules that
stays. -/
theorem lost_concat_iff (hbacking : ∀ name, backing (stored ++ [s]) name = backing stored name)
    (t : StoredList) :
  Lost (stored ++ [s]) t ↔ Lost stored t
  := by
  rw [Lost, Lost, hbacking]

/-- When one more stored list wins for its name, the list that won so far loses. -/
theorem lost_concat_iff_of_wins (hnodup : ((stored ++ [s]).map StoredList.id).Nodup)
    {t u : StoredList} (hsome : backing stored s.entry.name = some t)
    (hsame : backing (stored ++ [s]) s.entry.name = some s) (hu : u ∈ stored) :
  Lost (stored ++ [s]) u ↔ Lost stored u ∨ u.id ∈ [t.id]
  := by
  obtain ⟨ht, htc, htname⟩ := mem_readingAs.mp (mem_readingAs_of_backing hsome)
  by_cases huc : u.isCustom
  · have hne : u.id ≠ t.id := by
      intro hid
      apply htc
      rw [StoredList.isCustom, ← hid]
      apply huc
    simp [Lost, huc, hne]
  by_cases hname : s.entry.name = u.entry.name
  · have hlost : Lost (stored ++ [s]) u := by
      right
      use huc
      rw [← hname, hsame]
      intro heq
      obtain rfl : s = u := Option.some_injective _ heq
      apply fresh_id hnodup s hu rfl
    simp only [hlost, true_iff]
    by_cases htu : t = u
    · simp [htu]
    · left
      right
      use huc
      rw [← hname, hsome]
      simpa using htu
  · have hne : u.id ≠ t.id := by
      intro heq
      rw [List.map_append] at hnodup
      obtain rfl := eq_of_id_eq (List.nodup_append.mp hnodup).1 hu ht heq
      exact hname htname.symm
    simp [Lost, huc, backing_concat_of_other (Or.inr hname), hne]

/-- A list is found for every name that a stored list has won. -/
theorem exists_findIdx (h : Inv stored acc) {name : Text} {t : StoredList}
    (hsome : backing stored name = some t) :
  ∃ i, acc.lists.findIdx? (fun l => l.name = name) = some i
  := by
  apply Option.ne_none_iff_exists'.mp
  rw [ne_eq, findIdx_eq_none_iff, h.find, hsome]
  simp

theorem step_custom (h : Inv stored acc) (hs : s.isCustom) :
  Inv (stored ++ [s]) (reconcileStep acc s)
  := by
  have hbacking : ∀ name, backing (stored ++ [s]) name = backing stored name :=
    fun name => backing_concat_of_other (Or.inl hs)
  have hdropped : ∀ id, id ∈ (if s.id = customWebId then [s.id] else []) ↔
      id = s.id ∧ id = customWebId := by
    intro id
    split <;> simp_all
  rw [reconcileStep, if_pos hs]
  refine ⟨h.nodup, ?_, ?_, ?_⟩
  · simpa only [hbacking] using h.find
  · simpa only [hbacking] using h.ids
  · apply h.removed_concat
    · intro t _
      rw [lost_concat_iff hbacking, hdropped]
      constructor
      · apply Or.inl
      · rintro (hlost | ⟨-, hid⟩)
        · apply hlost
        · apply Or.inl hid
    · rw [hdropped, Lost]
      simp [hs]
    · intro id hid
      use s, List.mem_concat_self, ((hdropped id).mp hid).1.symm

/-- The ids of the winners, when one more stored list wins for its name. -/
theorem ids_update (h : Inv stored acc)
    (hsame : backing (stored ++ [s]) s.entry.name = some s) (name : Text) :
  Function.update acc.loadedIds s.entry.name (some s.id) name
    = (backing (stored ++ [s]) name).map StoredList.id
  := by
  by_cases hname : s.entry.name = name
  · subst hname
    rw [hsame, Function.update_self]
    rfl
  · rw [backing_concat_of_other (Or.inr hname), Function.update_of_ne (Ne.symm hname), h.ids]

/-- A stored list of a new name. -/
theorem step_new (h : Inv stored acc) (hs : ¬ s.isCustom)
    (hnone : backing stored s.entry.name = none) :
  Inv (stored ++ [s]) (reconcileStep acc s)
  := by
  have hother : ∀ name, s.entry.name ≠ name →
      backing (stored ++ [s]) name = backing stored name :=
    fun name hname => backing_concat_of_other (Or.inr hname)
  have hsame := backing_concat_of_none hs rfl hnone
  have hfind : findList acc.lists s.entry.name = none := by
    rw [h.find, hnone]
    rfl
  have hweb : s.id ≠ customWebId := fun hid => hs (Or.inr hid)
  simp only [reconcileStep, if_neg hs, findIdx_eq_none_iff.mpr hfind]
  refine ⟨?_, ?_, ?_, ?_⟩
  · rw [List.map_append, List.map_singleton, ← List.concat_eq_append]
    apply h.nodup.concat
    apply findList_isNone_iff.mp hfind
  · intro name
    rw [findList_concat]
    by_cases hname : s.entry.name = name
    · subst hname
      rw [hfind, hsame]
      simp
    · rw [hother name hname, h.find]
      simp [hname]
  · apply h.ids_update hsame
  · rw [← List.append_nil acc.remove]
    apply h.removed_concat
    · intro t ht
      have hne : ¬ t.isCustom → s.entry.name ≠ t.entry.name := by
        intro htc hname
        have hmem := mem_readingAs.mpr ⟨ht, htc, hname.symm⟩
        rw [backing_eq_none_iff.mp hnone] at hmem
        exact absurd hmem List.not_mem_nil
      by_cases htc : t.isCustom
      · simp [Lost, htc]
      · simp [Lost, htc, hother _ (hne htc)]
    · simp [Lost, hs, hweb, hsame]
    · simp

/-- A stored list of a name that is taken, but whose id belongs to the name. -/
theorem step_canonical (h : Inv stored acc) (hs : ¬ s.isCustom)
    (hnodup : ((stored ++ [s]).map StoredList.id).Nodup) {t : StoredList}
    (hsome : backing stored s.entry.name = some t) (hid : s.id = ListId.of s.entry.name) :
  Inv (stored ++ [s]) (reconcileStep acc s)
  := by
  have hother : ∀ name, s.entry.name ≠ name →
      backing (stored ++ [s]) name = backing stored name :=
    fun name hname => backing_concat_of_other (Or.inr hname)
  have hmems : s ∈ readingAs (stored ++ [s]) s.entry.name :=
    mem_readingAs.mpr ⟨List.mem_concat_self, hs, rfl⟩
  have hsame := backing_of_canonical hnodup hmems hid
  obtain ⟨ht, -, -⟩ := mem_readingAs.mp (mem_readingAs_of_backing hsome)
  obtain ⟨i, hi⟩ := h.exists_findIdx hsome
  have hweb : s.id ≠ customWebId := fun hid => hs (Or.inr hid)
  simp only [reconcileStep, if_neg hs, hi, if_pos hid, h.ids, hsome, Option.map_some,
    Option.toList_some]
  refine ⟨?_, ?_, ?_, ?_⟩
  · rw [map_name_set hi]
    apply h.nodup
  · intro name
    rw [findList_set hi]
    by_cases hname : s.entry.name = name
    · subst hname
      simp [hsame]
    · rw [hother name hname, h.find]
      simp [Ne.symm hname]
  · apply h.ids_update hsame
  · apply h.removed_concat
    · intro u hu
      apply lost_concat_iff_of_wins hnodup hsome hsame hu
    · have hne := fresh_id hnodup t ht
      simp [Lost, hs, hweb, hsame, Ne.symm hne]
    · intro id hmem
      obtain rfl := List.mem_singleton.mp hmem
      use t, List.mem_append_left _ ht

/-- A stored list of a name that is taken, whose id belongs to another name. -/
theorem step_other (h : Inv stored acc) (hs : ¬ s.isCustom)
    (hnodup : ((stored ++ [s]).map StoredList.id).Nodup) {t : StoredList}
    (hsome : backing stored s.entry.name = some t) (hid : s.id ≠ ListId.of s.entry.name) :
  Inv (stored ++ [s]) (reconcileStep acc s)
  := by
  have hbacking : ∀ name, backing (stored ++ [s]) name = backing stored name := by
    intro name
    by_cases hname : s.entry.name = name
    · subst hname
      rw [backing_concat_of_some hs rfl hsome hid, hsome]
    · apply backing_concat_of_other (Or.inr hname)
  obtain ⟨i, hi⟩ := h.exists_findIdx hsome
  obtain ⟨ht, -, -⟩ := mem_readingAs.mp (mem_readingAs_of_backing hsome)
  have hfresh := fresh_id hnodup
  simp only [reconcileStep, if_neg hs, hi, if_neg hid]
  refine ⟨h.nodup, ?_, ?_, ?_⟩
  · simpa only [hbacking] using h.find
  · simpa only [hbacking] using h.ids
  · apply h.removed_concat
    · intro u hu
      simp [lost_concat_iff hbacking, hfresh u hu]
    · have hne : t ≠ s := fun heq => hfresh t ht (heq ▸ rfl)
      simp [Lost, hs, hbacking, hsome, hne]
    · intro id hmem
      obtain rfl := List.mem_singleton.mp hmem
      use s, List.mem_concat_self

/-- Taking in one more stored list. -/
theorem step (h : Inv stored acc) (hnodup : ((stored ++ [s]).map StoredList.id).Nodup) :
  Inv (stored ++ [s]) (reconcileStep acc s)
  := by
  by_cases hs : s.isCustom
  · apply h.step_custom hs
  cases hback : backing stored s.entry.name with
  | none => apply h.step_new hs hback
  | some t =>
    by_cases hid : s.id = ListId.of s.entry.name
    · apply h.step_canonical hs hnodup hback hid
    · apply h.step_other hs hnodup hback hid

end Reconciled.Inv

/-- The invariant holds of all stored lists at the end of the loop. -/
theorem reconcile_inv {stored : List StoredList}
    (hnodup : (stored.map StoredList.id).Nodup) :
  (reconcile [] stored).Inv stored
  := by
  induction stored using List.reverseRecOn with
  | nil => apply Reconciled.Inv.nil
  | append_singleton stored s ih =>
    rw [reconcile, List.foldl_concat]
    apply Reconciled.Inv.step _ hnodup
    apply ih
    rw [List.map_append] at hnodup
    apply (List.nodup_append.mp hnodup).1
