import AdBlock.Persist.Lines
import Mathlib.Algebra.Order.BigOperators.Group.List
import Mathlib.Algebra.Order.Group.Nat
import Mathlib.Data.List.Lex
import Mathlib.Data.List.Perm.Subperm
import Mathlib.Data.List.Sort

/-!
# Reading a file of lines back

An entry is written as a mark and a key.  When no line is read as an entry with more in its key than
the line has, a list that is loaded as it was written has been read back entry by entry: each key is
in one line, and what is read of it is the key (`exists_of_flatMap_readBack`).  The argument counts
the characters of keys, since one entry might be read in the place of another.  So a set is loaded
as it was written exactly if each of its entries can be stored (`Written.load_iff`).
-/

namespace PersistedSet

variable {α : Type} (E : LineFormat α) (key : α → Text)

/-! ### Lines -/

theorem stripComment_sublist (line : Text) :
  (stripComment line).Sublist line
  := (Text.trim_sublist _).trans (List.takeWhile_sublist _)

theorem not_mem_stripComment (line : Text) :
  '#' ∉ stripComment line
  := by
  intro hmem
  have hne := List.mem_takeWhile_imp (Text.mem_of_mem_trim hmem)
  exact of_decide_eq_true hne rfl

/-- The pieces between the ends of lines have all characters but those. -/
theorem sum_splitOn (s : Text) :
  ((s.splitOn '\n').map List.length).sum + (s.splitOn '\n').length = s.length + 1
  := by
  induction s with
  | nil => rfl
  | cons c s ih =>
    unfold List.splitOn at ih ⊢
    rw [List.splitOnP_cons_eq_if_modifyHead]
    split
    · rw [List.map_cons, List.sum_cons, List.length_cons, List.length_nil, List.length_cons]
      omega
    · cases hpieces : s.splitOnP (· == '\n') with
      | nil => exact absurd hpieces (List.splitOnP_ne_nil _ s)
      | cons piece pieces =>
        rw [hpieces, List.map_cons, List.sum_cons, List.length_cons] at ih
        rw [List.modifyHead_cons, List.map_cons, List.sum_cons, List.length_cons, List.length_cons,
          List.length_cons]
        omega

theorem splitOn_append {mark s piece : Text} {pieces : List Text} (hmark : '\n' ∉ mark)
    (hs : s.splitOn '\n' = piece :: pieces) :
  (mark ++ s).splitOn '\n' = (mark ++ piece) :: pieces
  := by
  induction mark with
  | nil => exact hs
  | cons c mark ih =>
    rw [List.mem_cons, not_or] at hmark
    have hc : ¬ (c == '\n') = true := fun heq => hmark.1 (beq_iff_eq.mp heq).symm
    have htail := ih hmark.2
    unfold List.splitOn at htail ⊢
    rw [List.cons_append, List.splitOnP_cons_eq_if_modifyHead, if_neg hc, htail]
    rfl

theorem not_mem_of_splitOn {s piece : Text} (h : s.splitOn '\n' = [piece]) :
  '\n' ∉ s
  := by
  have hs : ['\n'].intercalate (s.splitOn '\n') = s := List.intercalate_splitOn '\n'
  rw [h, List.intercalate_singleton] at hs
  rw [← hs]
  apply Text.not_mem_of_mem_splitOn (s := s)
  rw [h]
  exact List.mem_singleton_self piece

/-! ### What is read of a line -/

/-- What is read of a line. -/
def readPiece (piece : Text) : Option α :=
  let line := stripComment (Text.stripCarriageReturn piece)
  if line = [] then none else E.parse line

variable {E} in
/-- What is read is parsed from a part of the line without a comment. -/
theorem exists_of_readPiece {piece : Text} {a : α} (h : readPiece E piece = some a) :
  ∃ line, line.Sublist piece ∧ '#' ∉ line ∧ E.parse line = some a
  := by
  rw [readPiece] at h
  split at h
  · cases h
  · use stripComment (Text.stripCarriageReturn piece)
    exact ⟨(stripComment_sublist _).trans (Text.stripCarriageReturn_sublist _), not_mem_stripComment _, h⟩

theorem readBack_eq_filterMap (a : α) :
  readBack E a = ((E.format a).splitOn '\n').filterMap (readPiece E)
  := by
  rw [readBack]
  induction (E.format a).splitOn '\n' with
  | nil => rfl
  | cons piece pieces ih =>
    rw [List.map_cons, List.filter_cons, List.filterMap_cons, readPiece, Function.comp_apply]
    by_cases hnil : stripComment (Text.stripCarriageReturn piece) = []
    · simp only [hnil, ne_eq, not_true_eq_false, decide_false, if_true]
      exact ih
    · simp only [hnil, ne_eq, not_false_eq_true, decide_true, if_true, if_false,
        List.filterMap_cons]
      cases E.parse (stripComment (Text.stripCarriageReturn piece)) with
      | none => exact ih
      | some b => exact congrArg (b :: ·) ih

/-- The size of the key that is read of a line. -/
def weight (piece : Text) : ℕ :=
  ((readPiece E piece).map fun a => (key a).length).getD 0

/-- The size of the keys that are read of the lines that are written for an entry. -/
def weigh (a : α) : ℕ :=
  ((readBack E a).map fun a => (key a).length).sum

theorem weigh_eq_sum (a : α) :
  weigh E key a = (((E.format a).splitOn '\n').map (weight E key)).sum
  := by
  rw [weigh, readBack_eq_filterMap]
  induction (E.format a).splitOn '\n' with
  | nil => rfl
  | cons piece pieces ih =>
    rw [List.filterMap_cons, List.map_cons, List.sum_cons, weight, ← ih]
    cases readPiece E piece with
    | none => exact (Nat.zero_add _).symm
    | some b => rfl

variable {E key}

theorem weight_le {s piece : Text} (h : ∀ b, readPiece E s = some b → (key b).Sublist piece) :
  weight E key s ≤ piece.length
  := by
  rw [weight]
  cases hread : readPiece E s with
  | none => exact Nat.zero_le _
  | some b => exact (h b hread).length_le

/-- A key as long as the line that it is read of is that line. -/
theorem exists_of_weight_eq {s piece : Text} (hne : piece ≠ [])
    (h : ∀ b, readPiece E s = some b → (key b).Sublist piece)
    (hweight : weight E key s = piece.length) :
  ∃ b, readPiece E s = some b ∧ key b = piece
  := by
  rw [weight] at hweight
  cases hread : readPiece E s with
  | none =>
    rw [hread] at hweight
    exact absurd (List.eq_nil_of_length_eq_zero hweight.symm) hne
  | some b =>
    rw [hread] at hweight
    exact ⟨b, rfl, (h b hread).eq_of_length hweight⟩

/-- An entry is written as a mark and a key, and no line of the key, with the mark or without it, is
read as an entry with more in its key. -/
structure Marked (E : LineFormat α) (key mark : α → Text) (a : α) : Prop where
  format : E.format a = mark a ++ key a
  nonempty : key a ≠ []
  no_feed : '\n' ∉ mark a
  first : ∀ piece, (∀ c ∈ piece, c ∈ key a) → ∀ b, readPiece E (mark a ++ piece) = some b →
    (key b).Sublist piece
  rest : ∀ piece, (∀ c ∈ piece, c ∈ key a) → ∀ b, readPiece E piece = some b → (key b).Sublist piece

/-- No more is read of the lines of an entry than its key, and as much only in one line. -/
theorem Marked.weigh_le {mark : α → Text} {a : α} (h : Marked E key mark a) :
  weigh E key a ≤ (key a).length
    ∧ (weigh E key a = (key a).length →
      '\n' ∉ key a ∧ weight E key (mark a ++ key a) = (key a).length)
  := by
  obtain ⟨hformat, -, hfeed, hfirst, hrest⟩ := h
  have hsum := sum_splitOn (key a)
  have hmem (piece) (hpiece : piece ∈ (key a).splitOn '\n') : ∀ c ∈ piece, c ∈ key a :=
    fun _ => Text.mem_of_mem_splitOn hpiece
  cases hpieces : (key a).splitOn '\n' with
  | nil => exact absurd hpieces (List.splitOn_ne_nil '\n' (key a))
  | cons piece pieces =>
    rw [hpieces] at hsum hmem
    have hhead : weight E key (mark a ++ piece) ≤ piece.length :=
      weight_le (hfirst piece (hmem piece List.mem_cons_self))
    have htail : (pieces.map (weight E key)).sum ≤ (pieces.map List.length).sum := by
      apply List.sum_le_sum
      intro piece hpiece
      exact weight_le (hrest piece (hmem piece (List.mem_cons_of_mem _ hpiece)))
    rw [List.map_cons, List.sum_cons, List.length_cons] at hsum
    rw [weigh_eq_sum, hformat, splitOn_append hfeed hpieces, List.map_cons, List.sum_cons]
    constructor
    · omega
    · intro heq
      obtain rfl : pieces = [] := List.eq_nil_of_length_eq_zero (by omega)
      have hone := not_mem_of_splitOn hpieces
      rw [List.splitOn_eq_singleton hone, List.singleton_inj] at hpieces
      rw [List.map_nil, List.sum_nil, Nat.add_zero, ← hpieces] at heq
      exact ⟨hone, heq⟩

/-! ### What is read of a file -/

/-- When no term is larger, equal sums have equal terms. -/
theorem eq_of_sum_le {f g : α → ℕ} {l : List α} (hle : ∀ a ∈ l, f a ≤ g a)
    (hsum : (l.map g).sum ≤ (l.map f).sum) :
  ∀ a ∈ l, f a = g a
  := by
  induction l with
  | nil => exact List.forall_mem_nil _
  | cons a l ih =>
    rw [List.forall_mem_cons] at hle
    have htail : (l.map f).sum ≤ (l.map g).sum := List.sum_le_sum hle.2
    rw [List.map_cons, List.map_cons, List.sum_cons, List.sum_cons] at hsum
    rw [List.forall_mem_cons]
    constructor
    · omega
    · apply ih hle.2
      omega

theorem sum_le_of_subperm (size : α → ℕ) {l l' : List α} (h : l.Subperm l') :
  (l.map size).sum ≤ (l'.map size).sum
  := by
  obtain ⟨m, hperm, hsub⟩ := h
  rw [← (hperm.map size).sum_eq]
  exact (hsub.map size).sum_le_sum fun _ _ => Nat.zero_le _

theorem sum_flatMap_readBack (entries : List α) :
  ((entries.flatMap (readBack E)).map fun a => (key a).length).sum
    = (entries.map (weigh E key)).sum
  := by
  induction entries with
  | nil => rfl
  | cons a entries ih =>
    rw [List.flatMap_cons, List.map_append, List.sum_append, ih]
    rfl

/-- When the entries are read back, they have been read back one by one. -/
theorem exists_of_flatMap_readBack {mark : α → Text} {normalize : List α → List α}
    {entries : List α} (hnormalize : ∀ l, (normalize l).Subperm l)
    (hmarked : ∀ a ∈ entries, Marked E key mark a)
    (hread : normalize (entries.flatMap (readBack E)) = entries) :
  ∀ a ∈ entries, '\n' ∉ key a ∧ ∃ b, readPiece E (mark a ++ key a) = some b ∧ key b = key a
  := by
  have hweigh : ∀ a ∈ entries, weigh E key a = (key a).length := by
    apply eq_of_sum_le fun a ha => (hmarked a ha).weigh_le.1
    calc (entries.map fun a => (key a).length).sum
      _ = ((normalize (entries.flatMap (readBack E))).map fun a => (key a).length).sum := by
        rw [hread]
      _ ≤ ((entries.flatMap (readBack E)).map fun a => (key a).length).sum :=
        sum_le_of_subperm _ (hnormalize _)
      _ = (entries.map (weigh E key)).sum := sum_flatMap_readBack entries
  intro a ha
  have h := hmarked a ha
  obtain ⟨hfeed, hweight⟩ := h.weigh_le.2 (hweigh a ha)
  exact ⟨hfeed, exists_of_weight_eq h.nonempty (h.first (key a) fun c hc => hc) hweight⟩

/-! ### Sorted by a key -/

section Sorted

variable {κ : Type} [LinearOrder κ] {order : α → κ}

/-- The entries ascend. -/
def Ascending (order : α → κ) (entries : List α) : Prop :=
  entries.Pairwise fun a b => order a < order b

theorem dedupAfter_of_pairwise {same : α → α → Bool} {a : α} {l : List α}
    (h : (a :: l).Pairwise fun a b => same b a = false) :
  dedupAfter same a l = l
  := by
  induction l generalizing a with
  | nil => rfl
  | cons b l ih =>
    obtain ⟨hhead, htail⟩ := List.pairwise_cons.mp h
    rw [dedupAfter, if_neg (Bool.eq_false_iff.mp (hhead b List.mem_cons_self)), ih htail]

/-- The entries in order, one of each key. -/
def sortDedup (order : α → κ) [BEq κ] [DecidableRel fun a b : α => order a ≤ order b]
    (entries : List α) : List α :=
  dedupBy (fun a b => order a == order b) (entries.insertionSort fun a b => order a ≤ order b)

variable [DecidableRel fun a b : α => order a ≤ order b]

theorem sortDedup_subperm [BEq κ] (entries : List α) :
  (sortDedup order entries).Subperm entries
  := (dedupBy_sublist _ _).subperm.trans (List.perm_insertionSort _ _).subperm

theorem Ascending.sortDedup [BEq κ] [LawfulBEq κ] {entries : List α} (h : Ascending order entries) :
  PersistedSet.sortDedup order entries = entries
  := by
  rw [PersistedSet.sortDedup, List.Pairwise.insertionSort_eq (h.imp fun hlt => le_of_lt hlt)]
  cases entries with
  | nil => rfl
  | cons a entries =>
    rw [dedupBy, dedupAfter_of_pairwise]
    exact h.imp fun hlt => beq_eq_false_iff_ne.mpr (ne_of_gt hlt)

theorem ascending_insertionSort {entries : List α} (h : (entries.map order).Nodup) :
  Ascending order (entries.insertionSort fun a b => order a ≤ order b)
  := by
  have hperm := entries.perm_insertionSort fun a b => order a ≤ order b
  have htotal : Std.Total fun a b : α => order a ≤ order b :=
    ⟨fun a b => le_total (order a) (order b)⟩
  have htrans : IsTrans α fun a b => order a ≤ order b := ⟨fun a b c => le_trans⟩
  have hle := entries.pairwise_insertionSort fun a b => order a ≤ order b
  have hne := List.pairwise_map.mp ((hperm.map order).nodup_iff.mpr h)
  exact (hle.and hne).imp fun hab => lt_of_le_of_ne hab.1 hab.2

/-- An entry with a new key is added in its place. -/
theorem Ascending.insert {entries : List α} {a : α} (h : Ascending order entries)
    (hnew : order a ∉ entries.map order) :
  Ascending order ((entries ++ [a]).insertionSort fun a b => order a ≤ order b)
  := by
  apply ascending_insertionSort
  rw [List.map_append, List.map_singleton, List.nodup_append_comm]
  exact List.nodup_cons.mpr ⟨hnew, List.pairwise_map.mpr (h.imp fun hlt => ne_of_lt hlt)⟩

end Sorted

/-! ### Sets that are in their file -/

section Written

variable {header : Text} {Q : α → Prop} {set : PersistedSet α}

/-- The entries have a property and ascend, and are those that were written to the file.  A file
that is missing stands for no entries. -/
structure Written (E : LineFormat α) (header : Text) (key : α → Text) (Q : α → Prop)
    (set : PersistedSet α) : Prop where
  entries : ∀ a ∈ set.entries, Q a
  ascending : Ascending key set.entries
  file : set.file = some (body E header set.entries) ∨ set.file = none ∧ set.entries = []

theorem written_load_none (normalize : List α → List α) (hnil : normalize [] = []) :
  Written E header key Q (load E normalize none)
  := by
  have hentries : (load E normalize none).entries = [] := hnil
  refine ⟨?_, ?_, .inr ⟨rfl, hentries⟩⟩
  · rw [hentries]
    exact List.forall_mem_nil _
  · rw [hentries]
    exact List.Pairwise.nil

theorem Written.mutate {ρ : Type} {edit : List α → (ρ × Bool) × List α}
    (h : Written E header key Q set) (hentries : ∀ a ∈ (edit set.entries).2, Q a)
    (hascending : Ascending key (edit set.entries).2) (persisted : Except Text Unit) :
  Written E header key Q (mutate E header persisted edit set).2
  := by
  rcases mutate_cases E header persisted edit set with ⟨e, heq⟩ | ⟨-, heq⟩ | ⟨-, heq⟩
  · rw [heq]
    exact h
  · rw [heq]
    exact h
  · rw [heq]
    exact ⟨hentries, hascending, .inl rfl⟩

/-- An entry is added in its place, unless there is one with its key. -/
theorem Written.add {ρ : Type} {edit : List α → (ρ × Bool) × List α} {a : α}
    [DecidableRel fun a b : α => key a ≤ key b] (h : Written E header key Q set) (ha : Q a)
    (hedit : (edit set.entries).2 = if key a ∈ set.entries.map key then set.entries
      else (set.entries ++ [a]).insertionSort fun a b => key a ≤ key b)
    (persisted : Except Text Unit) :
  Written E header key Q (PersistedSet.mutate E header persisted edit set).2
  := by
  apply h.mutate
  · rw [hedit]
    split
    · exact h.entries
    · intro b hb
      have hb := (List.perm_insertionSort _ _).mem_iff.mp hb
      exact List.forall_mem_append.mpr ⟨h.entries, List.forall_mem_singleton.mpr ha⟩ b hb
  · rw [hedit]
    split
    · exact h.ascending
    · next hnew => exact h.ascending.insert hnew

theorem Written.remove (h : Written E header key Q set) (p : α → Bool)
    (persisted : Except Text Unit) :
  Written E header key Q (PersistedSet.mutate E header persisted (removeEdit p) set).2
  := by
  have hsub := removeEdit_sublist p set.entries
  apply h.mutate
  · exact fun a ha => h.entries a (hsub.mem ha)
  · exact List.Pairwise.sublist hsub h.ascending

/-- What is loaded has been read entry by entry. -/
theorem Written.entries_load (h : Written E header key Q set) (hheader : IsComment header) :
  (load E (sortDedup key) set.file).entries = sortDedup key (set.entries.flatMap (readBack E))
  := by
  rcases h.file with hfile | ⟨hfile, hnil⟩
  · rw [hfile, load, Option.map_some, Option.getD_some, parseLines_body_flatMap hheader]
  · rw [hfile, hnil]
    rfl

/-- A set is loaded as it was written exactly if each of its entries can be stored. -/
theorem Written.load_iff {mark : α → Text} {Storable : α → Prop}
    (h : Written E header key Q set) (hheader : IsComment header)
    (hmarked : ∀ a, Q a → Marked E key mark a)
    (hwrite : ∀ a, Q a → Storable a → readBack E a = [a])
    (hread : ∀ a b, Q a → '\n' ∉ key a → readPiece E (mark a ++ key a) = some b → key b = key a →
      Storable a) :
  (load E (sortDedup key) set.file).entries = set.entries ↔ ∀ a ∈ set.entries, Storable a
  := by
  rw [h.entries_load hheader]
  constructor
  · intro hback a ha
    obtain ⟨hfeed, b, hb, hkey⟩ := exists_of_flatMap_readBack sortDedup_subperm
      (fun a ha => hmarked a (h.entries a ha)) hback a ha
    exact hread a b (h.entries a ha) hfeed hb hkey
  · intro hstorable
    rw [List.flatMap_congr fun a ha => hwrite a (h.entries a ha) (hstorable a ha),
      List.flatMap_singleton', h.ascending.sortDedup]

/-! ### Removal -/

variable (E header)

theorem mem_mutate_removeEdit {p : α → Bool} {a : α} (ha : a ∈ set.entries) (hp : p a = false)
    (persisted : Except Text Unit) :
  a ∈ (PersistedSet.mutate E header persisted (removeEdit p) set).2.entries
  := by
  apply mutate_inv E (P := (a ∈ ·)) ha
  exact List.mem_filter.mpr ⟨ha, by rw [hp]; rfl⟩

/-- An entry that is there is removed. -/
theorem mutate_removeEdit_of_mem {p : α → Bool} {a : α} (ha : a ∈ set.entries) (hp : p a = true) :
  (PersistedSet.mutate E header (.ok ()) (removeEdit p) set).1 = .ok true
    ∧ ∀ b ∈ (PersistedSet.mutate E header (.ok ()) (removeEdit p) set).2.entries, p b = false
  := by
  have hlength : ((set.entries.filter (!p ·)).length != set.entries.length) = true := by
    rw [bne_iff_ne]
    apply ne_of_lt
    rw [List.length_filter_lt_length_iff_exists]
    exact ⟨a, ha, by simp [hp]⟩
  simp only [PersistedSet.mutate, removeEdit, hlength, true_and]
  intro b hb
  simpa using (List.mem_filter.mp hb).2

/-- An entry is removed exactly if it is its key that is passed. -/
theorem mutate_removeEdit_iff (key : α → Text) {a : α} (ha : a ∈ set.entries) (k : Text) :
  ((PersistedSet.mutate E header (.ok ()) (removeEdit (key · == k)) set).1 = .ok true
    ∧ ∀ b ∈ (PersistedSet.mutate E header (.ok ()) (removeEdit (key · == k)) set).2.entries,
      key b ≠ key a)
    ↔ k = key a
  := by
  constructor
  · rintro ⟨-, hremoved⟩
    by_contra hne
    apply hremoved a _ rfl
    apply mem_mutate_removeEdit E header ha
    exact beq_eq_false_iff_ne.mpr (Ne.symm hne)
  · rintro rfl
    obtain ⟨hanswer, hremoved⟩ :=
      mutate_removeEdit_of_mem E header (p := (key · == key a)) ha (beq_self_eq_true _)
    exact ⟨hanswer, fun b hb => beq_eq_false_iff_ne.mp (hremoved b hb)⟩

end Written

end PersistedSet
