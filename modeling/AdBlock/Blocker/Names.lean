import AdBlock.Blocker.Rewrite

/-!
# The names of a page

The scan for the class and id names of a page finds each attribute that is written out with quotes,
whatever the case of its name, and nothing else (`htmlClassesAndIds_exact`).  It goes on behind each
copy of the name, and passes over no attribute this way: a name has no white space in it, and an
attribute follows white space.
-/

namespace Rewrite

/-- The text has an attribute: white space, the name in any case, and a value in quotes. -/
def HasAttribute (html attr value : Text) : Prop :=
  ∃ before space name quote after,
    html = before ++ space :: (name ++ '=' :: quote :: (value ++ quote :: after))
      ∧ Text.isAsciiWhitespace space = true ∧ Text.toAsciiLowercase name = attr
      ∧ quote ∈ "\"'".toList ∧ quote ∉ value

/-- A value in quotes, at the start of a text. -/
def StartsWithValue (rest value : Text) : Prop :=
  ∃ quote after, rest = '=' :: quote :: (value ++ quote :: after) ∧ quote ∈ "\"'".toList
    ∧ quote ∉ value

/-- What is read behind a name is a value in quotes. -/
theorem quotedValue_eq_some_iff {rest value : Text} :
  quotedValue rest = some (some value) ↔ StartsWithValue rest value
  := by
  constructor
  · intro h
    rw [quotedValue] at h
    split at h
    · cases h
    · rename_i text hstrip
      split at h
      · cases h
      · rename_i quote hhead
        obtain ⟨hquote, hmem⟩ := Option.filter_eq_some_iff.mp hhead
        obtain ⟨text, rfl⟩ := List.head?_eq_some_iff.mp hquote
        replace hmem := of_decide_eq_true hmem
        rw [sliceFrom_quote hmem, Option.bind_eq_bind, Option.bind_some, Text.findChar] at h
        rcases Text.splitOnce_cases text quote with ⟨-, hnone⟩ | ⟨head, after, hnot, rfl, hsome⟩
        · rw [hnone] at h
          cases h
        · rw [hsome, Option.map_some] at h
          dsimp only at h
          rw [Text.sliceTo_append] at h
          obtain rfl := Option.some_injective _ (Option.some_injective _ h)
          refine ⟨quote, after, ?_, hmem, hnot⟩
          exact Text.eq_append_of_stripPrefix hstrip
  · rintro ⟨quote, after, rfl, hmem, hnot⟩
    have hstrip : Text.stripPrefix ('=' :: quote :: (value ++ quote :: after)) ['=']
        = some (quote :: (value ++ quote :: after)) := Text.stripPrefix_append ['='] _
    have hhead : (quote :: (value ++ quote :: after)).head?.filter (· ∈ "\"'".toList)
        = some quote := by
      rw [List.head?_cons, Option.filter_some, if_pos (decide_eq_true hmem)]
    rw [quotedValue, hstrip]
    dsimp only
    rw [hhead]
    dsimp only
    rw [sliceFrom_quote hmem, Option.bind_eq_bind, Option.bind_some, Text.findChar,
      Text.splitOnce_append hnot, Option.map_some]
    dsimp only
    rw [Text.sliceTo_append]
    rfl

/-! ### Where the name is -/

/-- The name in any case at the end of `front`, behind white space, and a value behind it. -/
def Found (before rest attr value : Text) : Prop :=
  ∃ front name tail, rest = front ++ (name ++ tail)
    ∧ (before ++ front).getLast?.any Text.isAsciiWhitespace = true
    ∧ Text.toAsciiLowercase name = attr ∧ StartsWithValue tail value

theorem isAsciiWhitespace_toLower (c : Char) :
  Text.isAsciiWhitespace c.toLower = Text.isAsciiWhitespace c
  := by
  by_cases hupper : 65 ≤ c.toNat ∧ c.toNat ≤ 90
  · have hrange {d : Char} (hd : 65 ≤ d.toNat) : Text.isAsciiWhitespace d = false := by
      have hspaces : ∀ s ∈ [' ', '\t', '\n', '\x0c', '\r'], s.toNat < 65 := by decide
      rw [Text.isAsciiWhitespace, decide_eq_false_iff_not]
      intro hmem
      exact absurd (hspaces d hmem) (by omega)
    rw [hrange hupper.1, hrange]
    rw [Ascii.toNat_toLower, if_pos hupper]
    omega
  · rw [Ascii.toLower_eq_self_iff.mpr hupper]

theorem any_getLast?_toAsciiLowercase (s : Text) :
  (Text.toAsciiLowercase s).getLast?.any Text.isAsciiWhitespace
    = s.getLast?.any Text.isAsciiWhitespace
  := by
  rw [Text.toAsciiLowercase, List.getLast?_map, Option.any_map]
  congr 1
  funext c
  exact isAsciiWhitespace_toLower c

section Scan

variable {before front name tail attr value : Text}

/-- A place behind white space is not inside a copy of a name that has none. -/
theorem not_inside (hattr : ∀ c ∈ attr, Text.isAsciiWhitespace c = false)
    (hname : Text.toAsciiLowercase name = attr) {part rest : Text} (hpart : part ≠ [])
    (heq : name = part ++ rest) :
  (before ++ part).getLast?.any Text.isAsciiWhitespace = false
  := by
  have hlast : (before ++ part).getLast? = some (part.getLast hpart) := by
    rw [List.getLast?_append_of_ne_nil _ hpart, List.getLast?_eq_some_getLast hpart]
  have hmem : (part.getLast hpart).toLower ∈ attr := by
    rw [← hname, heq, toAsciiLowercase_append]
    apply List.mem_append_left
    exact List.mem_map_of_mem (List.getLast_mem hpart)
  rw [hlast, Option.any_some, ← isAsciiWhitespace_toLower]
  exact hattr _ hmem

/-- What is found from the first copy of the name on: the value behind it, and what is found behind
it. -/
theorem found_iff (hattr : ∀ c ∈ attr, Text.isAsciiWhitespace c = false)
    (hsplit : Text.splitOnceText attr (Text.toAsciiLowercase (front ++ (name ++ tail)))
      = some (Text.toAsciiLowercase front, Text.toAsciiLowercase tail))
    (hname : Text.toAsciiLowercase name = attr) :
  Found before (front ++ (name ++ tail)) attr value
    ↔ ((before ++ front).getLast?.any Text.isAsciiWhitespace = true ∧ StartsWithValue tail value)
      ∨ Found (before ++ front ++ name) tail attr value
  := by
  have hlength {text : Text} (h : Text.toAsciiLowercase text = attr) :
      text.length = name.length := by
    simpa [Text.toAsciiLowercase] using congrArg List.length (h.trans hname.symm)
  constructor
  · rintro ⟨front', name', tail', heq, hspace, hname', hvalue⟩
    -- the first copy is not behind this one
    have hfirst : front.length ≤ front'.length := by
      obtain ⟨head, rest, hsplit', hle⟩ := Text.exists_splitOnceText attr
        (Text.toAsciiLowercase front') (Text.toAsciiLowercase tail')
      rw [heq, toAsciiLowercase_append, toAsciiLowercase_append, hname', hsplit'] at hsplit
      obtain ⟨rfl, -⟩ := Prod.mk.inj (Option.some_injective _ hsplit)
      simpa [Text.toAsciiLowercase] using hle
    obtain ⟨part, rfl⟩ : front <+: front' := by
      apply List.prefix_of_prefix_length_le (List.prefix_append front (name ++ tail)) _ hfirst
      rw [heq]
      apply List.prefix_append
    rw [List.append_assoc] at heq
    replace heq := List.append_cancel_left heq
    rcases List.append_eq_append_iff.mp heq with ⟨rest, rfl, htail⟩ | ⟨rest, hrest, htail⟩
    · right
      refine ⟨rest, name', tail', htail, ?_, hname', hvalue⟩
      rw [← List.append_assoc] at hspace
      rw [List.append_assoc _ name rest]
      exact hspace
    · by_cases hpart : part = []
      · left
        rw [hpart, List.nil_append] at heq
        obtain ⟨-, rfl⟩ := List.append_inj heq (hlength hname').symm
        rw [hpart, List.append_nil] at hspace
        exact ⟨hspace, hvalue⟩
      · rw [← List.append_assoc, not_inside hattr hname hpart hrest] at hspace
        cases hspace
  · rintro (⟨hspace, hvalue⟩ | ⟨front', name', tail', rfl, hspace, hname', hvalue⟩)
    · exact ⟨front, name, tail, rfl, hspace, hname, hvalue⟩
    · refine ⟨front ++ (name ++ front'), name', tail', ?_, ?_, hname', hvalue⟩
      · simp only [List.append_assoc]
      · simpa only [List.append_assoc] using hspace

theorem not_found {rest : Text}
    (hsplit : Text.splitOnceText attr (Text.toAsciiLowercase rest) = none) :
  ¬ Found before rest attr value
  := by
  rintro ⟨front, name, tail, rfl, -, hname, -⟩
  obtain ⟨head, last, hsome, -⟩ := Text.exists_splitOnceText attr (Text.toAsciiLowercase front)
    (Text.toAsciiLowercase tail)
  rw [toAsciiLowercase_append, toAsciiLowercase_append, hname, hsome] at hsplit
  cases hsplit

/-- The scan gives the values that are there. -/
theorem mem_attributeValues_iff (hattr : ∀ c ∈ attr, Text.isAsciiWhitespace c = false)
    (hne : attr ≠ []) {fuel : ℕ} {rest : Text} {values : List Text}
    (h : attributeValues (before ++ rest) attr fuel (Text.len before) = some values)
    (hfuel : rest.length < fuel) :
  value ∈ values ↔ Found before rest attr value
  := by
  induction fuel generalizing before rest values with
  | zero => omega
  | succ fuel ih =>
    cases hsplit : Text.splitOnceText attr (Text.toAsciiLowercase rest) with
    | none =>
      rw [attributeValues_of_none hsplit] at h
      obtain rfl := Option.some_injective _ h
      exact iff_of_false List.not_mem_nil (not_found hsplit)
    | some parts =>
      obtain ⟨front, name, tail, rfl, hname, rfl, hlt⟩ :=
        exists_of_splitOnceText_toAsciiLowercase hne hsplit
      have hshorter : tail.length < fuel := by omega
      obtain ⟨others, hothers⟩ := attributeValues_total hne fuel (before ++ front ++ name) tail hshorter
      obtain ⟨read, hread⟩ := quotedValue_total tail
      rw [attributeValues_of_some hsplit hname hread hothers] at h
      obtain rfl := Option.some_injective _ h
      rw [List.mem_append, ih hothers hshorter, found_iff hattr hsplit hname,
        any_getLast?_toAsciiLowercase, ← quotedValue_eq_some_iff, hread]
      apply or_congr_left
      split
      · next hspace =>
        rw [Option.mem_toList, hspace, and_iff_right rfl, Option.some_inj]
      · next hspace => exact iff_of_false List.not_mem_nil fun h => hspace h.1

end Scan

theorem found_nil_iff {html attr value : Text} :
  Found [] html attr value ↔ HasAttribute html attr value
  := by
  constructor
  · rintro ⟨front, name, tail, rfl, hspace, hname, quote, after, rfl, hquote, hnot⟩
    rw [List.nil_append, Option.any_eq_true] at hspace
    obtain ⟨space, hlast, hspace⟩ := hspace
    obtain ⟨before, rfl⟩ := List.getLast?_eq_some_iff.mp hlast
    refine ⟨before, space, name, quote, after, ?_, hspace, hname, hquote, hnot⟩
    rw [List.append_assoc]
    rfl
  · rintro ⟨before, space, name, quote, after, rfl, hspace, hname, hquote, hnot⟩
    refine ⟨before ++ [space], name, _, ?_, ?_, hname, quote, after, rfl, hquote, hnot⟩
    · rw [List.append_assoc]
      rfl
    · rw [List.nil_append, List.getLast?_concat]
      exact hspace

/-- The scan ends without slicing inside a character; the class names are the words in the values of
the class attributes, and the id names are the values of the id attributes that are not empty. -/
theorem htmlClassesAndIds_exact (html : Text) :
  ∃ classes ids, htmlClassesAndIds html = some (classes, ids)
    ∧ (∀ v, v ∈ classes
      ↔ ∃ value, HasAttribute html "class".toList value ∧ v ∈ Text.splitAsciiWhitespace value)
    ∧ ∀ v, v ∈ ids ↔ v ≠ [] ∧ HasAttribute html "id".toList v
  := by
  have hclassNe : "class".toList ≠ [] := by decide
  have hidNe : "id".toList ≠ [] := by decide
  obtain ⟨classes, hclasses⟩ :=
    attributeValues_total hclassNe (html.length + 1) [] html (Nat.lt_succ_self _)
  obtain ⟨ids, hids⟩ := attributeValues_total hidNe (html.length + 1) [] html (Nat.lt_succ_self _)
  have hclass (v : Text) : v ∈ classes ↔ HasAttribute html "class".toList v := by
    rw [mem_attributeValues_iff (by decide) hclassNe hclasses (Nat.lt_succ_self _), found_nil_iff]
  have hid (v : Text) : v ∈ ids ↔ HasAttribute html "id".toList v := by
    rw [mem_attributeValues_iff (by decide) hidNe hids (Nat.lt_succ_self _), found_nil_iff]
  refine ⟨(classes.flatMap Text.splitAsciiWhitespace).toFinset, (ids.filter (· ≠ [])).toFinset,
    ?_, ?_, ?_⟩
  · have hclasses' : attributeValues html "class".toList (html.length + 1) 0 = some classes :=
      hclasses
    have hids' : attributeValues html "id".toList (html.length + 1) 0 = some ids := hids
    rw [htmlClassesAndIds, hclasses', hids']
    rfl
  · intro v
    simp only [List.mem_toFinset, List.mem_flatMap, hclass]
  · intro v
    rw [List.mem_toFinset, List.mem_filter, hid, decide_eq_true_eq, and_comm]

end Rewrite
