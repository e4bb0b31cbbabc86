import AdBlock.Rust.Text

/-!
# Files of lines

A set of entries is kept in memory and in a file that has one entry in each line, under a header.
What follows a `#` is a comment.  An edit is written to the file first and takes effect in memory
only if that succeeds.
-/

/-- The elements that are not the same as the one before them. -/
def dedupAfter {α : Type} (same : α → α → Bool) (a : α) : List α → List α
  | [] => []
  | b :: as => if same b a then dedupAfter same a as else b :: dedupAfter same b as

/-- `Vec::dedup_by`: the first of each stretch of equal elements. -/
def dedupBy {α : Type} (same : α → α → Bool) : List α → List α
  | [] => []
  | a :: as => a :: dedupAfter same a as

theorem dedupAfter_sublist {α : Type} (same : α → α → Bool) (a : α) (l : List α) :
  (dedupAfter same a l).Sublist l
  := by
  induction l generalizing a with
  | nil => exact .slnil
  | cons b as ih =>
    rw [dedupAfter]
    split
    · exact (ih a).cons b
    · exact (ih b).cons_cons b

theorem dedupBy_sublist {α : Type} (same : α → α → Bool) (l : List α) :
  (dedupBy same l).Sublist l
  := by
  cases l with
  | nil => exact .slnil
  | cons a as => exact (dedupAfter_sublist same a as).cons_cons a

/-- How an entry is written in a line. -/
structure LineFormat (α : Type) where
  parse : Text → Option α
  format : α → Text

/-- The line without its comment. -/
def stripComment (line : Text) : Text :=
  Text.trim (line.takeWhile (· ≠ '#'))

/-- The entries in memory and the file. -/
@[ext]
structure PersistedSet (α : Type) where
  entries : List α
  file : Option Text
  deriving DecidableEq, Repr

namespace PersistedSet

variable {α : Type} (E : LineFormat α)

def parseLines (text : Text) : List α :=
  (((Text.lines text).map stripComment).filter (· ≠ [])).filterMap E.parse

def load (normalize : List α → List α) (file : Option Text) : PersistedSet α where
  entries := normalize ((file.map (parseLines E)).getD [])
  file

/-- What is written to the file. -/
def body (header : Text) (entries : List α) : Text :=
  header ++ '\n' :: (Text.join (entries.map E.format) ['\n'] ++ ['\n'])

/-- Edit the entries.  The edit gives an answer, whether it has changed anything, and the
entries. -/
def mutate {ρ : Type} (header : Text) (persisted : Except Text Unit)
    (edit : List α → (ρ × Bool) × List α) (set : PersistedSet α) :
    Except Text ρ × PersistedSet α :=
  match edit set.entries with
  | ((out, true), next) =>
      match persisted with
      | .ok () => (.ok out, { entries := next, file := some (body E header next) })
      | .error e => (.error e, set)
  | ((out, false), _) => (.ok out, set)

/-- An edit fails, changes nothing, or takes effect in memory and in the file. -/
theorem mutate_cases {ρ : Type} (header : Text) (persisted : Except Text Unit)
    (edit : List α → (ρ × Bool) × List α) (set : PersistedSet α) :
  (∃ e, mutate E header persisted edit set = (.error e, set))
    ∨ (edit set.entries).1.2 = false
      ∧ mutate E header persisted edit set = (.ok (edit set.entries).1.1, set)
    ∨ (edit set.entries).1.2 = true
      ∧ mutate E header persisted edit set
        = (.ok (edit set.entries).1.1,
          { entries := (edit set.entries).2, file := some (body E header (edit set.entries).2) })
  := by
  unfold mutate
  split
  case h_1 out next hedit =>
    rw [hedit]
    cases persisted with
    | error e => exact .inl ⟨e, rfl⟩
    | ok _ => exact .inr (.inr ⟨rfl, rfl⟩)
  case h_2 out next hedit =>
    rw [hedit]
    exact .inr (.inl ⟨rfl, rfl⟩)

theorem mutate_inv {ρ : Type} {P : List α → Prop} {edit : List α → (ρ × Bool) × List α}
    {set : PersistedSet α} (h : P set.entries) (hedit : P (edit set.entries).2) (header : Text)
    (persisted : Except Text Unit) :
  P (mutate E header persisted edit set).2.entries
  := by
  rcases mutate_cases E header persisted edit set with ⟨e, heq⟩ | ⟨-, heq⟩ | ⟨-, heq⟩
  · rw [heq]
    exact h
  · rw [heq]
    exact h
  · rw [heq]
    exact hedit

/-! ### Edits -/

/-- `Vec::retain`, for the entries without a property, and whether there were others. -/
def removeEdit (p : α → Bool) (entries : List α) : (Bool × Bool) × List α :=
  let kept := entries.filter (!p ·)
  ((kept.length != entries.length, kept.length != entries.length), kept)

/-- Change the first entry with a property. -/
def modifyFirst (p : α → Bool) (f : α → α) : List α → List α
  | [] => []
  | a :: as => if p a then f a :: as else a :: modifyFirst p f as

/-- Set a flag of the first entry with a property, and whether there is one. -/
def setFlagEdit (p : α → Bool) (flag : α → Bool) (set : Bool → α → α) (value : Bool)
    (entries : List α) : (Bool × Bool) × List α :=
  match entries.find? p with
  | some a =>
      if flag a ≠ value then ((true, true), modifyFirst p (set value) entries)
      else ((true, false), entries)
  | none => ((false, false), entries)

theorem removeEdit_sublist (p : α → Bool) (entries : List α) :
  (removeEdit p entries).2.Sublist entries
  := List.filter_sublist

theorem removeEdit_ne {p : α → Bool} {entries : List α}
    (hchanged : (removeEdit p entries).1.2 = true) :
  (removeEdit p entries).2 ≠ entries
  := by
  intro heq
  exact bne_iff_ne.mp hchanged (congrArg List.length heq)

theorem map_modifyFirst {β : Type} {g : α → β} {f : α → α} (hg : ∀ a, g (f a) = g a) (p : α → Bool)
    (entries : List α) :
  (modifyFirst p f entries).map g = entries.map g
  := by
  induction entries with
  | nil => rfl
  | cons a as ih =>
    rw [modifyFirst]
    split
    · rw [List.map_cons, List.map_cons, hg]
    · rw [List.map_cons, List.map_cons, ih]

theorem modifyFirst_ne {p : α → Bool} {f : α → α} {entries : List α} {a : α}
    (hfind : entries.find? p = some a) (ha : f a ≠ a) :
  modifyFirst p f entries ≠ entries
  := by
  induction entries with
  | nil => cases hfind
  | cons b as ih =>
    rw [modifyFirst]
    rw [List.find?_cons] at hfind
    cases hb : p b with
    | true =>
      rw [hb] at hfind
      cases hfind
      rw [if_pos rfl]
      exact fun heq => ha (List.cons.inj heq).1
    | false =>
      rw [hb] at hfind
      rw [if_neg Bool.false_ne_true]
      exact fun heq => ih hfind (List.cons.inj heq).2

theorem map_setFlagEdit {β : Type} {g : α → β} {set : Bool → α → α} {value : Bool}
    (hg : ∀ a, g (set value a) = g a) (p flag : α → Bool) (entries : List α) :
  (setFlagEdit p flag set value entries).2.map g = entries.map g
  := by
  unfold setFlagEdit
  split
  · split
    · exact map_modifyFirst hg p entries
    · rfl
  · rfl

/-- A flag that is set changes the list, and nothing of the entries but the flag. -/
theorem setFlagEdit_spec {p flag : α → Bool} {set : Bool → α → α} {value : Bool} {entries : List α}
    (hset : ∀ a, flag (set value a) = value)
    (hchanged : (setFlagEdit p flag set value entries).1.2 = true) :
  (setFlagEdit p flag set value entries).2 = modifyFirst p (set value) entries
    ∧ (setFlagEdit p flag set value entries).2 ≠ entries
  := by
  unfold setFlagEdit at hchanged ⊢
  split
  · next a hfind =>
    rw [hfind] at hchanged
    split
    · next hflag =>
      refine ⟨rfl, modifyFirst_ne hfind ?_⟩
      intro heq
      apply hflag
      rw [← heq, hset]
    · next hflag =>
      simp only [if_neg hflag] at hchanged
      cases hchanged
  · next hfind =>
    rw [hfind] at hchanged
    cases hchanged

/-! ### Reading back -/

theorem forall_parseLines {Q : α → Prop} (hparse : ∀ line a, E.parse line = some a → Q a)
    (text : Text) :
  ∀ a ∈ parseLines E text, Q a
  := by
  intro a ha
  obtain ⟨line, -, hline⟩ := List.mem_filterMap.mp ha
  exact hparse line a hline

/-- A text all of whose lines are comments. -/
def IsComment (header : Text) : Prop :=
  ∀ line ∈ header.splitOn '\n', stripComment (Text.stripCarriageReturn line) = []

instance (header : Text) : Decidable (IsComment header) :=
  inferInstanceAs (Decidable (∀ line ∈ header.splitOn '\n', _))

/-- An entry whose line is read back. -/
structure Readable (a : α) : Prop where
  no_feed : '\n' ∉ E.format a
  no_return : '\r' ∉ E.format a
  stripped : stripComment (E.format a) = E.format a
  nonempty : E.format a ≠ []
  parses : E.parse (E.format a) = some a

variable {E}

theorem stripComment_of_not_mem {line : Text} (h : '#' ∉ line) :
  stripComment line = Text.trim line
  := by
  have hall : ∀ c ∈ line, decide (c ≠ '#') = true := by
    intro c hc
    rw [decide_eq_true_eq]
    rintro rfl
    exact h hc
  rw [stripComment, List.takeWhile_eq_self_iff.mpr hall]

theorem splitOn_join {pieces : List Text} (hne : pieces ≠ []) :
  (Text.join pieces ['\n']).splitOn '\n' = pieces.flatMap (·.splitOn '\n')
  := by
  induction pieces with
  | nil => exact absurd rfl hne
  | cons p pieces ih =>
    cases pieces with
    | nil => simp [Text.join]
    | cons q pieces =>
      have hjoin : Text.join (p :: q :: pieces) ['\n']
          = p ++ '\n' :: Text.join (q :: pieces) ['\n'] := by
        rw [Text.join, List.intercalate_cons_cons, List.append_assoc]
        rfl
      rw [hjoin, List.flatMap_cons, ← ih (List.cons_ne_nil _ _)]
      exact List.splitOnP_append_cons _ _ rfl

/-- What is read of the lines that are written for an entry. -/
def readBack (E : LineFormat α) (a : α) : List α :=
  ((((E.format a).splitOn '\n').map (stripComment ∘ Text.stripCarriageReturn)).filter
    (· ≠ [])).filterMap E.parse

/-- A file is read entry by entry. -/
theorem parseLines_body_flatMap {header : Text} (hheader : IsComment header) (entries : List α) :
  parseLines E (body E header entries) = entries.flatMap (readBack E)
  := by
  have hcomments : ((header.splitOn '\n').map (stripComment ∘ Text.stripCarriageReturn)).filter
      (· ≠ []) = [] := by
    rw [List.filter_eq_nil_iff]
    intro line hline
    obtain ⟨line, hmem, rfl⟩ := List.mem_map.mp hline
    simp only [Function.comp_apply, hheader line hmem]
    exact fun h => absurd h (by decide)
  have hlines : ((Text.lines (body E header entries)).map stripComment).filter (· ≠ [])
      = (((Text.join (entries.map E.format) ['\n']).splitOn '\n').map
        (stripComment ∘ Text.stripCarriageReturn)).filter (· ≠ []) := by
    rw [body, Text.lines_append_feed, Text.lines_append_feed, Text.lines_nil, List.append_nil,
      List.map_append, List.map_map, List.map_map, List.filter_append, hcomments, List.nil_append]
  rw [parseLines, hlines]
  cases entries with
  | nil => rfl
  | cons a as =>
    rw [splitOn_join (by simp), List.flatMap_map, List.map_flatMap, List.filter_flatMap,
      List.filterMap_flatMap]
    rfl

theorem not_return_of_stripped {line : Text} (h : stripComment line = line) :
  line.getLast? ≠ some '\r'
  := by
  intro hlast
  rw [← h] at hlast
  exact absurd (Text.getLast?_trim hlast) (by decide)

/-- An entry in one line without a comment is read back. -/
theorem readBack_of_line {a : α} (hfeed : '\n' ∉ E.format a)
    (hstripped : stripComment (E.format a) = E.format a) (hne : E.format a ≠ [])
    (hparse : E.parse (E.format a) = some a) :
  readBack E a = [a]
  := by
  rw [readBack, List.splitOn_eq_singleton hfeed, List.map_singleton, Function.comp_apply,
    Text.stripCarriageReturn_of_last (not_return_of_stripped hstripped), hstripped,
    List.filter_singleton, decide_eq_true hne]
  simp [hparse]

/-- The entries that were written are read back. -/
theorem parseLines_body {header : Text} {entries : List α} (hheader : IsComment header)
    (h : ∀ a ∈ entries, Readable E a) :
  parseLines E (body E header entries) = entries
  := by
  rw [parseLines_body_flatMap hheader]
  calc entries.flatMap (readBack E)
    _ = entries.flatMap fun a => [a] := by
      apply List.flatMap_congr
      intro a ha
      obtain ⟨hfeed, -, hstripped, hne, hparse⟩ := h a ha
      exact readBack_of_line hfeed hstripped hne hparse
    _ = entries := List.flatMap_singleton' entries

theorem entries_load_body {header : Text} {normalize : List α → List α} {entries : List α}
    (hheader : IsComment header) (h : ∀ a ∈ entries, Readable E a)
    (hnormal : normalize entries = entries) :
  (load E normalize (some (body E header entries))).entries = entries
  := by
  rw [load, Option.map_some, Option.getD_some, parseLines_body hheader h, hnormal]

/-! ### What edits keep -/

/-- The entries have a property and are the ones that are loaded from the file. -/
structure Backed (E : LineFormat α) (normalize : List α → List α) (P : List α → Prop)
    (set : PersistedSet α) : Prop where
  inv : P set.entries
  load : (load E normalize set.file).entries = set.entries

/-- What a call does: nothing, or it succeeds and changes the entries, and the file with them. -/
def Edited {ρ : Type} (E : LineFormat α) (normalize : List α → List α) (P : List α → Prop)
    (set : PersistedSet α) (result : Except Text ρ × PersistedSet α) : Prop :=
  result.2 = set
    ∨ (∃ r, result.1 = .ok r) ∧ result.2.entries ≠ set.entries ∧ Backed E normalize P result.2

variable {ρ : Type} {header : Text} {normalize : List α → List α} {P : List α → Prop}
  {set : PersistedSet α} {result : Except Text ρ × PersistedSet α}

theorem Edited.backed (h : Edited E normalize P set result) (hset : Backed E normalize P set) :
  Backed E normalize P result.2
  := by
  rcases h with heq | ⟨-, -, hbacked⟩
  · rw [heq]
    exact hset
  · exact hbacked

/-- A call that fails or leaves the entries as they are leaves the file as it is too. -/
theorem Edited.eq_self (h : Edited E normalize P set result)
    (hresult : (∃ e, result.1 = .error e) ∨ result.2.entries = set.entries) :
  result.2 = set
  := by
  rcases h with heq | ⟨⟨r, hr⟩, hne, -⟩
  · exact heq
  · rcases hresult with ⟨e, he⟩ | heq
    · rw [hr] at he
      cases he
    · exact absurd heq hne

/-- An edit that gives other entries with the property keeps the file in step, if entries with the
property are read back. -/
theorem mutate_backed {edit : List α → (ρ × Bool) × List α}
    (hheader : IsComment header) (hread : ∀ l, P l → (∀ a ∈ l, Readable E a) ∧ normalize l = l)
    (hedit : (edit set.entries).1.2 = true →
      P (edit set.entries).2 ∧ (edit set.entries).2 ≠ set.entries)
    (persisted : Except Text Unit) :
  (mutate E header persisted edit set).2 = set
    ∨ (edit set.entries).1.2 = true
      ∧ (mutate E header persisted edit set).1 = .ok (edit set.entries).1.1
      ∧ (mutate E header persisted edit set).2.entries ≠ set.entries
      ∧ Backed E normalize P (mutate E header persisted edit set).2
  := by
  rcases mutate_cases E header persisted edit set with ⟨e, heq⟩ | ⟨-, heq⟩ | ⟨hchanged, heq⟩
  · rw [heq]
    exact .inl rfl
  · rw [heq]
    exact .inl rfl
  · rw [heq]
    obtain ⟨hinv, hne⟩ := hedit hchanged
    obtain ⟨hreadable, hnormal⟩ := hread _ hinv
    right
    exact ⟨hchanged, rfl, hne, ⟨hinv, entries_load_body hheader hreadable hnormal⟩⟩

end PersistedSet
