import AdBlock.Curation.Backing
import AdBlock.Process.System

/-!
# Two appends at once

Two calls of `appendRules` on one list take four atomic steps each: they read the text of the
list, read whether it is switched on, write the file, and change the list table.  As long as no
call starts after the other has returned, both work on the text that the list had at the start
(`Overlapped`), so that the call that changes the table last leaves its own text only.
-/

open ListStore

/-- The two calls. -/
inductive Caller where
  | first
  | second
  deriving DecidableEq, Repr

/-- The other call. -/
def Caller.other : Caller → Caller
  | .first => .second
  | .second => .first

theorem Caller.other_ne (i : Caller) :
  i.other ≠ i
  := by
  cases i with
  | first => decide
  | second => decide

theorem Caller.eq_or_eq_other (i j : Caller) :
  j = i ∨ j = i.other
  := by
  cases i with
  | first => cases j with
    | first => exact Or.inl rfl
    | second => exact Or.inr rfl
  | second => cases j with
    | first => exact Or.inr rfl
    | second => exact Or.inl rfl

/-- The call that is the last to take its `k`-th step.  The steps taken are given with the latest
one first. -/
def lastAt (k : Nat) : List Caller → Option Caller
  | [] => none
  | i :: history => if history.count i + 1 = k then some i else lastAt k history

/-- No call starts after the other has taken its four steps. -/
def Overlap (schedule : List Caller) : Prop :=
  ∀ before i after, schedule = before ++ i :: after →
    before.count i = 0 → before.count i.other < 4

/-- A schedule in which the first four steps are not of one call. -/
theorem overlap_of_not_prefix {schedule : List Caller}
    (h : ¬ ∃ i, List.replicate 4 i <+: schedule) :
  Overlap schedule
  := by
  rintro before i after rfl hi
  by_contra hother
  apply h
  have hall : ∀ j ∈ before, j = i.other := by
    intro j hj
    apply (i.eq_or_eq_other j).resolve_left
    rintro rfl
    apply List.count_eq_zero.mp hi hj
  have hbefore := List.eq_replicate_of_mem hall
  use i.other, List.replicate (before.length - 4) i.other ++ i :: after
  have hlength : 4 + (before.length - 4) = before.length := by
    have hle := List.count_le_length (a := i.other) (l := before)
    omega
  rw [← List.append_assoc, List.replicate_append_replicate, hlength, ← hbefore]

/-- A schedule with steps of one call only. -/
theorem overlap_replicate (n : Nat) (i : Caller) :
  Overlap (List.replicate n i)
  := by
  intro before j after heq hj
  have hall : ∀ k ∈ before ++ j :: after, k = i := by
    rw [← heq]
    intro k
    apply List.eq_of_mem_replicate
  obtain rfl : j = i := hall j (by simp)
  have hnil : before = [] := by
    rw [List.eq_nil_iff_forall_not_mem]
    intro k hk
    rw [hall k (List.mem_append_left _ hk)] at hk
    apply List.count_eq_zero.mp hj hk
  simp [hnil]

namespace ListCuration

variable {A : Library} {σ : Type} [ListStore σ] (s : ListCuration A σ) (name : Text)
  (source rules : Caller → Text)

/-- The two calls, before they have taken a step. -/
def appends : Process.System Caller (ListCuration A σ) (Except Error ListEntry) where
  proc i := appendRules name (source i) (rules i)
  state := s

/-- The text that a call makes of the text the list has at the start. -/
def ownText (i : Caller) : Text :=
  appendedText s.core.lists (sanitizeName name) (rules i)

/-- The list that a call makes of the list there is at the start. -/
def ownEntry (i : Caller) : ListEntry :=
  { name := sanitizeName name
    source := source i
    rules := countRules (s.ownText name rules i)
    enabled := listEnabled s.core.lists (sanitizeName name)
    text := s.ownText name rules i }

/-- The file that a call makes of the list there is at the start. -/
def ownFile (i : Caller) : Text :=
  header (source i) (listEnabled s.core.lists (sanitizeName name)) ++ s.ownText name rules i

/-- What is left of `addList` once it knows the list it puts in: to write its file, and to put
it in the place of the lists of its name. -/
def putEntry (entry : ListEntry) : Process (ListCuration A σ) (Except Error ListEntry) := do
  match ← persist (ListId.of entry.name) (header entry.source entry.enabled ++ entry.text) with
  | .error e => return .error e
  | .ok () =>
    mutate fun lists => ((), retainOthers lists entry.name ++ [entry])
    return .ok entry

/-- What is left of a call that has read the text at the start, after it has taken a number of
steps. -/
def remaining (i : Caller) : Nat → Process (ListCuration A σ) (Except Error ListEntry)
  | 0 => appendRules name (source i) (rules i)
  | 1 => addList name (source i) (s.ownText name rules i)
  | 2 => putEntry (s.ownEntry name source rules i)
  | 3 => do
      mutate fun lists =>
        ((), retainOthers lists (sanitizeName name) ++ [s.ownEntry name source rules i])
      return .ok (s.ownEntry name source rules i)
  | _ => pure (.ok (s.ownEntry name source rules i))

/-- The calls work on the text at the start, and what is in memory and in the store is what the
last of them has put there. -/
structure Overlapped (history : List Caller)
    (c : Process.System Caller (ListCuration A σ) (Except Error ListEntry)) : Prop where
  proc : ∀ i, c.proc i = s.remaining name source rules i (history.count i)
  untouched : lastAt 4 history = none →
    findList c.state.core.lists (sanitizeName name) = findList s.core.lists (sanitizeName name)
  changed : ∀ i, lastAt 4 history = some i →
    findList c.state.core.lists (sanitizeName name) = some (s.ownEntry name source rules i)
  stored : ∀ i, lastAt 3 history = some i →
    get c.state.store (ListId.of (sanitizeName name)) = some (s.ownFile name source rules i)

/-! ### One step -/

section Step

variable {s name source rules} {i : Caller} {t : ListCuration A σ}
  {next : Process (ListCuration A σ) (Except Error ListEntry) × ListCuration A σ}

/-- The first step reads the text. -/
theorem advance_remaining_zero
    (h : (s.remaining name source rules i 0).advance t = some next)
    (hfind : findList t.core.lists (sanitizeName name)
      = findList s.core.lists (sanitizeName name)) :
  next = (s.remaining name source rules i 1, t)
  := by
  have htext : appendedText t.core.lists (sanitizeName name) (rules i)
      = s.ownText name rules i := by
    rw [appendedText, hfind, ownText, appendedText]
  rw [remaining, appendRules, read, Process.advance_atomic_bind, Option.some.injEq] at h
  rw [← h, remaining, ← htext]
  rfl

/-- The second step reads whether the list is switched on. -/
theorem advance_remaining_one
    (h : (s.remaining name source rules i 1).advance t = some next)
    (henabled : listEnabled t.core.lists (sanitizeName name)
      = listEnabled s.core.lists (sanitizeName name)) :
  next = (s.remaining name source rules i 2, t)
  := by
  rw [remaining, addList] at h
  split at h
  · cases h
  · rw [read, Process.advance_atomic_bind, Option.some.injEq, henabled] at h
    rw [← h, remaining, putEntry]
    rfl

/-- The third step writes the file. -/
theorem advance_remaining_two [LawfulListStore σ]
    (h : (s.remaining name source rules i 2).advance t = some next)
    (hok : ∀ e, next.1 ≠ .done (.error e)) :
  next.1 = s.remaining name source rules i 3 ∧ next.2.core = t.core
    ∧ get next.2.store (ListId.of (sanitizeName name)) = some (s.ownFile name source rules i)
  := by
  rw [remaining, putEntry, persist, Process.advance_atomic_bind, Option.some.injEq] at h
  subst h
  obtain ⟨taken, store, hpersist⟩ : ∃ taken store,
      ListStore.persist t.store (ListId.of (s.ownEntry name source rules i).name)
        (header (s.ownEntry name source rules i).source
          (s.ownEntry name source rules i).enabled
          ++ (s.ownEntry name source rules i).text) = (taken, store) := ⟨_, _, rfl⟩
  rw [hpersist] at hok ⊢
  cases taken with
  | error e => exact absurd rfl (hok e)
  | ok =>
    have hget := LawfulListStore.get_persist hpersist (ListId.of (sanitizeName name))
    and_intros
    · rfl
    · rfl
    · rw [hget]
      apply if_pos rfl

/-- The fourth step changes the list table. -/
theorem advance_remaining_three
    (h : (s.remaining name source rules i 3).advance t = some next) :
  next = (s.remaining name source rules i 4,
    t.withEntry t.store (s.ownEntry name source rules i))
  := by
  rw [remaining, mutate, Process.advance_atomic_bind, Option.some.injEq] at h
  rw [← h]
  rfl

end Step

/-! ### The steps of both -/

theorem le_count_of_lastAt {k : Nat} {history : List Caller} {i : Caller}
    (h : lastAt k history = some i) :
  k ≤ history.count i
  := by
  induction history with
  | nil => cases h
  | cons j history ih =>
    rw [lastAt] at h
    split at h
    · obtain rfl := Option.some_injective _ h
      rw [List.count_cons_self]
      omega
    · have hle := ih h
      have hmono := List.count_le_count_cons (a := i) (b := j) (l := history)
      omega

theorem lastAt_eq_none {k : Nat} {history : List Caller} (i : Caller)
    (hi : history.count i < k) (hother : history.count i.other < k) :
  lastAt k history = none
  := by
  rw [Option.eq_none_iff_forall_ne_some]
  intro j hj
  have hle := le_count_of_lastAt hj
  rcases i.eq_or_eq_other j with rfl | rfl
  · omega
  · omega

variable {s name source rules} {i : Caller} {history : List Caller}
  {c c' : Process.System Caller (ListCuration A σ) (Except Error ListEntry)}

namespace Overlapped

variable (h : s.Overlapped name source rules history c)

include h

theorem listEnabled_eq :
  listEnabled c.state.core.lists (sanitizeName name)
    = listEnabled s.core.lists (sanitizeName name)
  := by
  cases hlast : lastAt 4 history with
  | none => rw [listEnabled, h.untouched hlast, listEnabled]
  | some i =>
    rw [listEnabled, h.changed i hlast]
    rfl

/-- What is left of the calls after a step. -/
theorem proc_cons {next : Process (ListCuration A σ) (Except Error ListEntry)} {k : Nat}
    (hk : history.count i = k) (hnext : next = s.remaining name source rules i (k + 1))
    (j : Caller) :
  Function.update c.proc i next j = s.remaining name source rules j ((i :: history).count j)
  := by
  by_cases hj : j = i
  · subst hj
    rw [Function.update_self, hnext, List.count_cons_self, hk]
  · rw [Function.update_of_ne hj, h.proc, List.count_cons_of_ne (Ne.symm hj)]

/-- A step of one of the calls, which does not start after the other has returned and does not
fail. -/
theorem step [LawfulListStore σ]
    (hstart : history.count i = 0 → history.count i.other < 4)
    (hadvance : c.advance i = some c') (hok : ∀ e, c'.proc i ≠ .done (.error e)) :
  s.Overlapped name source rules (i :: history) c'
  := by
  obtain ⟨next, hnext, rfl⟩ := Process.System.advance_inv hadvance
  rw [h.proc i] at hnext
  obtain hk | hk | hk | hk | hk : history.count i = 0 ∨ history.count i = 1 ∨
      history.count i = 2 ∨ history.count i = 3 ∨ 4 ≤ history.count i := by omega
  · rw [hk] at hnext
    have hlast : lastAt 4 history = none := by
      apply lastAt_eq_none i _ (hstart hk)
      omega
    obtain rfl := advance_remaining_zero hnext (h.untouched hlast)
    refine ⟨h.proc_cons hk rfl, ?_, ?_, ?_⟩
    · simpa [lastAt, hk] using h.untouched
    · simpa [lastAt, hk] using h.changed
    · simpa [lastAt, hk] using h.stored
  · rw [hk] at hnext
    obtain rfl := advance_remaining_one hnext h.listEnabled_eq
    refine ⟨h.proc_cons hk rfl, ?_, ?_, ?_⟩
    · simpa [lastAt, hk] using h.untouched
    · simpa [lastAt, hk] using h.changed
    · simpa [lastAt, hk] using h.stored
  · rw [hk] at hnext
    obtain ⟨hrest, hcore, hstore⟩ := advance_remaining_two hnext
      (by simpa using hok)
    refine ⟨h.proc_cons hk hrest, ?_, ?_, ?_⟩
    · simpa [lastAt, hk, hcore] using h.untouched
    · simpa [lastAt, hk, hcore] using h.changed
    · simpa [lastAt, hk] using hstore
  · rw [hk] at hnext
    obtain rfl := advance_remaining_three hnext
    refine ⟨h.proc_cons hk rfl, ?_, ?_, ?_⟩
    · simp [lastAt, hk]
    · intro j hj
      obtain rfl : i = j := by simpa [lastAt, hk] using hj
      apply (findList_withEntry _ _ _).trans
      apply if_pos rfl
    · simpa [lastAt, hk] using h.stored
  · obtain ⟨k, hk⟩ := Nat.exists_eq_add_of_le' hk
    rw [hk] at hnext
    cases hnext

omit h in
/-- The calls before they have taken a step. -/
theorem nil :
  s.Overlapped name source rules [] (s.appends name source rules)
  where
  proc _ := rfl
  untouched _ := rfl
  changed _ h := nomatch h
  stored _ h := nomatch h

/-- The steps of a schedule in which no call starts after the other has returned, and none
fails. -/
theorem exec [LawfulListStore σ] {schedule : List Caller} (hexec : c.exec schedule = some c')
    (hok : ∀ i e, c'.proc i ≠ .done (.error e))
    (hoverlap : Overlap (history.reverse ++ schedule)) :
  s.Overlapped name source rules (schedule.reverse ++ history) c'
  := by
  induction schedule generalizing history c with
  | nil =>
    obtain rfl := Option.some_injective _ hexec
    apply h
  | cons i schedule ih =>
    obtain ⟨c₁, hadvance, hrest⟩ := Option.bind_eq_some_iff.mp hexec
    have hnext : s.Overlapped name source rules (i :: history) c₁ := by
      apply h.step _ hadvance
      · intro e he
        apply hok i e (Process.System.proc_of_done hrest he)
      · have hstart := hoverlap history.reverse i schedule rfl
        simpa [List.count_reverse] using hstart
    have hdone := ih hnext hrest (by simpa using hoverlap)
    simpa using hdone

end Overlapped

/-! ### What both leave -/

/-- The rules of both calls are in the text of the list, and the file of the list is its header
followed by exactly that text. -/
def AppendsKept (t : ListCuration A σ) (name : Text) (rules : Caller → Text) : Prop :=
  ∃ l, findList t.core.lists (sanitizeName name) = some l ∧ (∀ i, rules i <:+: l.text)
    ∧ get t.store (ListId.of (sanitizeName name)) = some (header l.source l.enabled ++ l.text)

omit [ListStore σ] in
theorem infix_ownText (i : Caller) :
  rules i <:+: s.ownText name rules i
  := by
  rw [ownText, appendedText]
  split
  next text _ =>
    apply List.IsSuffix.isInfix
    use text ++ ['\n']
    simp
  next => apply List.infix_refl

/-- A call that has returned a list has taken four steps. -/
theorem le_of_remaining_eq_done {k : Nat} {e : ListEntry}
    (h : s.remaining name source rules i k = .done (.ok e)) :
  4 ≤ k
  := by
  match k with
  | 0 => cases h
  | 1 =>
    rw [remaining, addList] at h
    split at h
    · cases h
    · cases h
  | 2 => cases h
  | 3 => cases h
  | k + 4 => omega

theorem exists_lastAt {k : Nat} (hk : 0 < k) (h : k ≤ history.count i) :
  ∃ j, lastAt k history = some j
  := by
  induction history with
  | nil =>
    rw [List.count_nil] at h
    omega
  | cons j history ih =>
    rw [lastAt]
    split
    next => use j
    next hne =>
      apply ih
      by_cases hj : j = i
      · subst hj
        rw [List.count_cons_self] at h
        omega
      · rw [List.count_cons_of_ne hj] at h
        apply h

/-- When the calls overlap, what is kept is what the last of them leaves. -/
theorem Overlapped.kept_iff (h : s.Overlapped name source rules history c)
    (hok : ∀ i, ∃ e, c.proc i = .done (.ok e)) :
  AppendsKept c.state name rules ↔ ∃ last writer, lastAt 4 history = some last
    ∧ lastAt 3 history = some writer ∧ rules last.other <:+: s.ownText name rules last
    ∧ s.ownFile name source rules writer = s.ownFile name source rules last
  := by
  have hcount : 4 ≤ history.count Caller.first := by
    obtain ⟨e, he⟩ := hok .first
    rw [h.proc] at he
    apply le_of_remaining_eq_done he
  obtain ⟨last, hlast⟩ := exists_lastAt (Nat.zero_lt_succ 3) hcount
  obtain ⟨writer, hwriter⟩ := exists_lastAt (Nat.zero_lt_succ 2) ((Nat.le_succ 3).trans hcount)
  rw [AppendsKept, h.changed last hlast, h.stored writer hwriter, hlast, hwriter]
  constructor
  · rintro ⟨l, hl, hrules, hfile⟩
    obtain rfl := Option.some_injective _ hl
    use last, writer, rfl, rfl, hrules last.other, Option.some_injective _ hfile
  · rintro ⟨_, _, ⟨⟩, ⟨⟩, hrules, hfile⟩
    use s.ownEntry name source rules last, rfl
    constructor
    · intro i
      rcases last.eq_or_eq_other i with rfl | rfl
      · apply infix_ownText
      · apply hrules
    · rw [hfile]
      rfl

/-- A call that is not interrupted puts its rules after the text of the list. -/
theorem appendRules_of_findList [LawfulListStore σ] {t t' : ListCuration A σ} {l e : ListEntry}
    {source rules : Text} (hfind : findList t.core.lists (sanitizeName name) = some l)
    (hrun : (appendRules name source rules).run t = (.ok e, t')) :
  ∃ l', findList t'.core.lists (sanitizeName name) = some l'
    ∧ l'.text = l.text ++ '\n' :: rules
    ∧ get t'.store (ListId.of (sanitizeName name)) = some (header l'.source l'.enabled ++ l'.text)
  := by
  rw [run_appendRules] at hrun
  obtain ⟨store, hpersist, rfl⟩ := run_addList_inv hrun
  have hget := LawfulListStore.get_persist hpersist (ListId.of (sanitizeName name))
  rw [if_pos rfl] at hget
  use t.newEntry name source (appendedText t.core.lists (sanitizeName name) rules)
  and_intros
  · rw [findList_withEntry]
    apply if_pos
    rw [newEntry]
  · rw [newEntry, appendedText, hfind]
    rfl
  · rw [withEntry_store, hget, newEntry]

/-- What a call leaves behind that takes its four steps before the other starts. -/
theorem exec_replicate [LawfulListStore σ]
    (hexec : (s.appends name source rules).exec (List.replicate 4 i) = some c)
    (hok : ∀ j e, c.proc j ≠ .done (.error e)) :
  findList c.state.core.lists (sanitizeName name) = some (s.ownEntry name source rules i)
    ∧ (∀ j, j ≠ i.other → ∃ b, c.proc j = .done b)
    ∧ c.proc i.other = appendRules name (source i.other) (rules i.other)
  := by
  have hmiddle : s.Overlapped name source rules [i, i, i, i] c := by
    apply Overlapped.nil.exec hexec hok
    apply overlap_replicate
  and_intros
  · apply hmiddle.changed i
    simp [lastAt]
  · intro j hj
    obtain rfl := (i.eq_or_eq_other j).resolve_right hj
    rw [hmiddle.proc, List.count_eq_length.mpr (by simp)]
    use .ok (s.ownEntry name source rules j)
    rfl
  · rw [hmiddle.proc, List.count_eq_zero.mpr]
    · rfl
    · simp [i.other_ne]

/-- When one call has returned before the other starts, both are kept. -/
theorem appendsKept_of_sequential [LawfulListStore σ] {schedule : List Caller}
    (hpre : List.replicate 4 i <+: schedule)
    (hexec : (s.appends name source rules).exec schedule = some c)
    (hok : ∀ i, ∃ e, c.proc i = .done (.ok e)) :
  AppendsKept c.state name rules
  := by
  obtain ⟨rest, rfl⟩ := hpre
  rw [Process.System.exec_append] at hexec
  obtain ⟨c₁, hfirst, hrest⟩ := Option.bind_eq_some_iff.mp hexec
  have hok₁ : ∀ j e, c₁.proc j ≠ .done (.error e) := by
    intro j e he
    obtain ⟨e', he'⟩ := hok j
    rw [Process.System.proc_of_done hrest he] at he'
    cases he'
  obtain ⟨hfind, hothers, hstart⟩ := exec_replicate hfirst hok₁
  obtain ⟨e, he⟩ := hok i.other
  have hrun := Process.System.run_of_exec hrest hothers he
  rw [hstart] at hrun
  obtain ⟨l, hl, htext, hfile⟩ := appendRules_of_findList hfind hrun
  refine ⟨l, hl, ?_, hfile⟩
  intro j
  rw [htext]
  rcases i.eq_or_eq_other j with rfl | rfl
  · apply (infix_ownText j).trans
    apply (List.prefix_append _ _).isInfix
  · apply List.IsSuffix.isInfix
    use s.ownText name rules i ++ ['\n']
    simp [ownEntry]

/-- The rules of both calls are kept exactly when one call has returned before the other starts,
or the call that changes the list table last happens to have the rules of the other in its own
text, and the file that is written last happens to be its file. -/
theorem appendsKept_iff [LawfulListStore σ] {schedule : List Caller}
    (hexec : (s.appends name source rules).exec schedule = some c)
    (hok : ∀ i, ∃ e, c.proc i = .done (.ok e)) :
  AppendsKept c.state name rules ↔ (∃ i, List.replicate 4 i <+: schedule) ∨
    ∃ last writer, lastAt 4 schedule.reverse = some last
      ∧ lastAt 3 schedule.reverse = some writer
      ∧ rules last.other <:+: s.ownText name rules last
      ∧ s.ownFile name source rules writer = s.ownFile name source rules last
  := by
  by_cases hsequential : ∃ i, List.replicate 4 i <+: schedule
  · obtain ⟨i, hi⟩ := hsequential
    simp only [appendsKept_of_sequential hi hexec hok, true_iff]
    left
    use i
  · rw [or_iff_right hsequential]
    have hoverlapped : s.Overlapped name source rules (schedule.reverse ++ []) c := by
      apply Overlapped.nil.exec hexec
      · intro i e he
        obtain ⟨e', he'⟩ := hok i
        rw [he] at he'
        cases he'
      · apply overlap_of_not_prefix hsequential
    rw [List.append_nil] at hoverlapped
    apply hoverlapped.kept_iff hok

/-- The rules of two calls. -/
def twoRules : Caller → Text
  | .first => "||a.example^".toList
  | .second => "||b.example^".toList

/-- Two calls on a list that is not there yet. -/
def newAppends :
    Process.System Caller (ListCuration Library.counting MemoryListStore)
      (Except Error ListEntry) :=
  MemoryListStore.new.start.appends "ads".toList (fun _ => "web ui".toList) twoRules

/-- The calls one after the other. -/
theorem appendsKept_one_after_the_other :
  ∃ c, newAppends.exec [.first, .first, .first, .first, .second, .second, .second, .second]
      = some c
    ∧ (∀ i, ∃ e, c.proc i = .done (.ok e)) ∧ AppendsKept c.state "ads".toList twoRules
  := by
  obtain ⟨c, hexec, hok⟩ : ∃ c, newAppends.exec
      [.first, .first, .first, .first, .second, .second, .second, .second] = some c
        ∧ ∀ i, ∃ e, c.proc i = .done (.ok e) := by
    refine ⟨_, rfl, ?_⟩
    rintro (_ | _)
    · exact ⟨_, rfl⟩
    · exact ⟨_, rfl⟩
  use c, hexec, hok
  apply (appendsKept_iff hexec hok).mpr
  left
  use .first
  decide

/-- The second call reads the text before the first one changes the list table: the rules of the
first are lost. -/
theorem appendsKept_lost :
  ∃ c, newAppends.exec [.first, .second, .first, .first, .first, .second, .second, .second]
      = some c
    ∧ (∀ i, ∃ e, c.proc i = .done (.ok e)) ∧ ¬ AppendsKept c.state "ads".toList twoRules
  := by
  refine ⟨_, rfl, ?_, ?_⟩
  · rintro (_ | _)
    · exact ⟨_, rfl⟩
    · exact ⟨_, rfl⟩
  · rintro ⟨l, hl, hrules, -⟩
    have hinfix := hrules .first
    obtain rfl := Option.some_injective _ hl
    revert hinfix
    decide

end ListCuration
