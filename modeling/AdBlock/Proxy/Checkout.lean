import AdBlock.Proxy.Pool
import Mathlib.Data.List.Perm.Subperm

/-!
# Checkouts of idle connections

What a checkout takes from the pool and what it leaves there, whatever the connections answer when
they are asked.  A checkout ends (`take_clock`), and gives a connection only if that was live when
it was asked last (`searched_checkout`).  If the answers do not change during the call, it gives the
newest connection that is asked for and leaves all others as they are (`take_of_steady`).  Over
whole runs, no connection is given more often than it was parked (`subperm_run`).
-/

namespace Proxy

variable {C : Type} {I : Liveness C} {requireEch : Bool} {v rest : List C} {now now' : Nat} {p : C}
  {taken : Option C}

/-! ### Searches -/

/-- A search asks each connection once at most. -/
theorem pick_clock {o : Option (C × List C)} (h : pick I requireEch v now = (o, now')) :
  now ≤ now' ∧ now' ≤ now + v.length
  := by
  induction v generalizing now o with
  | nil =>
    cases h
    exact ⟨Nat.le_refl _, Nat.le_refl _⟩
  | cons q v ih =>
    rw [List.length_cons]
    rw [pick] at h
    split at h
    · cases h
      omega
    · split at h
      case h_1 _ hpick =>
        cases h
        have hclock := ih hpick
        omega
      case h_2 _ hpick =>
        cases h
        have hclock := ih hpick
        omega

/-- What a search picks is taken out of the list. -/
theorem pick_split (h : pick I requireEch v now = (some (p, rest), now')) :
  ∃ front back, v = front ++ p :: back ∧ rest = front ++ back
  := by
  induction v generalizing now rest with
  | nil => cases h
  | cons q v ih =>
    rw [pick] at h
    split at h
    · cases h
      exact ⟨[], v, rfl, rfl⟩
    · split at h
      case h_1 _ hpick =>
        cases h
        obtain ⟨front, back, rfl, rfl⟩ := ih hpick
        exact ⟨q :: front, back, rfl, rfl⟩
      case h_2 => cases h

/-- The answers to the questions of a stretch of time do not change. -/
def Steady (I : Liveness C) (live : C → Bool) (v : List C) (start stop : Nat) : Prop :=
  ∀ t, start ≤ t → t < stop → ∀ c ∈ v, I.isLive t c = live c

theorem Steady.mono {live : C → Bool} {v' : List C} {start stop start' stop' : Nat}
    (h : Steady I live v start stop) (hv : ∀ c ∈ v', c ∈ v) (hstart : start ≤ start')
    (hstop : stop' ≤ stop) :
  Steady I live v' start' stop'
  := by
  intro t ht ht' c hc
  exact h t (hstart.trans ht) (ht'.trans_le hstop) c (hv c hc)

/-- What a search accepts, if the answers do not change. -/
def accepts (I : Liveness C) (live : C → Bool) (requireEch : Bool) (c : C) : Bool :=
  live c && (!requireEch || I.ech c)

/-- With steady answers a search picks the newest connection that it accepts. -/
theorem pick_of_steady {live : C → Bool} {o : Option (C × List C)}
    (h : pick I requireEch v now = (o, now')) (hsteady : Steady I live v now now') :
  o = (v.find? (accepts I live requireEch)).map (·, v.eraseP (accepts I live requireEch))
  := by
  induction v generalizing now o with
  | nil =>
    cases h
    rfl
  | cons q v ih =>
    -- what the first connection answers is what it answers all the time
    have hfirst (hlt : now < now') :
        (I.isLive now q && (!requireEch || I.ech q)) = accepts I live requireEch q := by
      rw [hsteady now (Nat.le_refl _) hlt q List.mem_cons_self, accepts]
    have hlater : Steady I live v (now + 1) now' :=
      hsteady.mono (fun c hc => List.mem_cons_of_mem q hc) (Nat.le_succ _) (Nat.le_refl _)
    rw [pick] at h
    split at h
    case isTrue hq =>
      cases h
      rw [hfirst (Nat.lt_succ_self _)] at hq
      rw [List.find?_cons_of_pos hq, List.eraseP_cons_of_pos hq]
      rfl
    case isFalse hq =>
      split at h
      case h_1 r rest _ hpick =>
        cases h
        rw [hfirst (pick_clock hpick).1] at hq
        rw [List.find?_cons_of_neg hq, List.eraseP_cons_of_neg hq]
        obtain ⟨c, hc, heq⟩ := Option.map_eq_some_iff.mp (ih hpick hlater).symm
        rw [hc]
        cases heq
        rfl
      case h_2 _ hpick =>
        cases h
        rw [hfirst (pick_clock hpick).1] at hq
        rw [List.find?_cons_of_neg hq, Option.map_eq_none_iff.mp (ih hpick hlater).symm]
        rfl

/-- The first element with a property is taken out of a list, if there is one. -/
theorem eraseP_split (accept : C → Bool) (v : List C) :
  ∃ front back, v = front ++ (v.find? accept).toList ++ back ∧ v.eraseP accept = front ++ back
  := by
  induction v with
  | nil => exact ⟨[], [], rfl, rfl⟩
  | cons q v ih =>
    by_cases hq : accept q = true
    · rw [List.find?_cons_of_pos hq, List.eraseP_cons_of_pos hq]
      exact ⟨[], v, rfl, rfl⟩
    · obtain ⟨front, back, hv, hrest⟩ := ih
      rw [List.find?_cons_of_neg hq, List.eraseP_cons_of_neg hq]
      use q :: front, back
      constructor
      · exact congrArg (q :: ·) hv
      · exact congrArg (q :: ·) hrest

/-! ### The loop -/

/-- What a loop of searches gives, whatever the answers. -/
structure Searched (I : Liveness C) (v : List C) (now : Nat) (taken : Option C) (rest : List C)
    (now' : Nat) : Prop where
  clock : now ≤ now'
  sublist : rest.Sublist v
  subperm : (taken.toList ++ rest).Subperm v
  /-- The last question was whether the connection that is given is live. -/
  lastLive : ∀ p, taken = some p → ∃ t, now' = t + 1 ∧ I.isLive t p = true

/-- A loop on what another has left. -/
theorem Searched.trans {rest₁ : List C} {now₁ : Nat} (h₁ : Searched I v now none rest₁ now₁)
    (h₂ : Searched I rest₁ now₁ taken rest now') :
  Searched I v now taken rest now'
  where
  clock := h₁.clock.trans h₂.clock
  sublist := h₂.sublist.trans h₁.sublist
  subperm := h₂.subperm.trans h₁.sublist.subperm
  lastLive := h₂.lastLive

theorem searched_takeLive (I : Liveness C) (requireEch : Bool) (v : List C) (now : Nat) :
  Searched I v now (takeLive I requireEch v now).1 (takeLive I requireEch v now).2.1
    (takeLive I requireEch v now).2.2
  := by
  -- along the rounds of the loop
  fun_induction takeLive I requireEch v now with
  | case1 v now now' hpick => exact ⟨(pick_clock hpick).1, .refl v, .refl v, fun p h => by cases h⟩
  | case2 v now p rest now' hpick hlive =>
    obtain ⟨front, back, rfl, rfl⟩ := pick_split hpick
    constructor
    case clock => exact (pick_clock hpick).1.trans (Nat.le_succ _)
    case sublist => exact (List.sublist_cons_self p back).append_left front
    case subperm => exact (@List.perm_middle _ p front back).symm.subperm
    case lastLive =>
      rintro q ⟨⟩
      exact ⟨now', rfl, hlive⟩
  | case3 v now p rest now' hpick hdead ih =>
    obtain ⟨front, back, rfl, rfl⟩ := pick_split hpick
    have hsublist : (front ++ back).Sublist (front ++ p :: back) :=
      (List.sublist_cons_self p back).append_left front
    apply Searched.trans _ ih
    constructor
    case clock => exact (pick_clock hpick).1.trans (Nat.le_succ _)
    case sublist => exact hsublist
    case subperm => exact hsublist.subperm
    case lastLive =>
      intro q h
      cases h

/-- The loop ends after a number of questions that is bounded by the number of connections. -/
theorem takeLive_clock (I : Liveness C) (requireEch : Bool) (v : List C) (now : Nat) :
  (takeLive I requireEch v now).2.2 ≤ now + v.length * (v.length + 1)
  := by
  fun_induction takeLive I requireEch v now with
  | case1 v now now' hpick =>
    apply (pick_clock hpick).2.trans
    apply Nat.add_le_add_left
    exact Nat.le_mul_of_pos_right _ (Nat.succ_pos _)
  | case2 v now p rest now' hpick hlive =>
    have hclock := (pick_clock hpick).2
    rw [← pick_length hpick] at hclock ⊢
    rw [Nat.mul_succ, Nat.succ_mul]
    dsimp only
    omega
  | case3 v now p rest now' hpick hdead ih =>
    have hclock := (pick_clock hpick).2
    rw [← pick_length hpick] at hclock ⊢
    rw [Nat.mul_succ, Nat.succ_mul]
    omega

/-- With steady answers the first round gives what it picks. -/
theorem takeLive_of_steady {live : C → Bool}
    (h : Steady I live v now (takeLive I requireEch v now).2.2) :
  (takeLive I requireEch v now).1 = v.find? (accepts I live requireEch)
    ∧ (takeLive I requireEch v now).2.1 = v.eraseP (accepts I live requireEch)
  := by
  revert h
  fun_cases takeLive I requireEch v now with
  | case1 now' hpick =>
    intro h
    have hnone := Option.map_eq_none_iff.mp (pick_of_steady hpick h).symm
    use hnone.symm
    exact (List.eraseP_of_forall_not (List.find?_eq_none.mp hnone)).symm
  | case2 p rest now' hpick hlive =>
    intro h
    have hpicked := pick_of_steady hpick (h.mono (fun _ => id) (Nat.le_refl _) (Nat.le_succ _))
    obtain ⟨c, hfind, heq⟩ := Option.map_eq_some_iff.mp hpicked.symm
    cases heq
    exact ⟨hfind.symm, rfl⟩
  | case3 p rest now' hpick hdead =>
    intro h
    have hlt : now' < _ := (searched_takeLive I requireEch rest (now' + 1)).clock
    have hpicked := pick_of_steady hpick (h.mono (fun _ => id) (Nat.le_refl _) hlt.le)
    obtain ⟨c, hfind, heq⟩ := Option.map_eq_some_iff.mp hpicked.symm
    cases heq
    -- it was live when it was picked, so it still is
    have haccepts : accepts I live requireEch p = true := List.find?_some hfind
    rw [h now' (pick_clock hpick).1 hlt p (List.mem_of_find?_eq_some hfind),
      (Bool.and_eq_true_iff.mp haccepts).1] at hdead
    exact absurd rfl hdead

/-! ### Checkouts -/

theorem searched_take (I : Liveness C) (wantEch : Bool) (v : List C) (now : Nat) :
  Searched I v now (take I wantEch v now).1 (take I wantEch v now).2.1 (take I wantEch v now).2.2
  := by
  cases wantEch with
  | false => apply searched_takeLive
  | true =>
    have hfirst := searched_takeLive I true v now
    simp only [take, if_true]
    split
    case h_1 p rest now' htake =>
      rw [htake] at hfirst
      exact hfirst
    case h_2 rest now' htake =>
      rw [htake] at hfirst
      apply hfirst.trans
      apply searched_takeLive

theorem take_clock (I : Liveness C) (wantEch : Bool) (v : List C) (now : Nat) :
  (take I wantEch v now).2.2 ≤ now + 2 * (v.length * (v.length + 1))
  := by
  cases wantEch with
  | false =>
    have hclock := takeLive_clock I false v now
    simp only [take, Bool.false_eq_true, if_false]
    omega
  | true =>
    have hfirst := takeLive_clock I true v now
    simp only [take, if_true]
    split
    case h_1 p rest now' htake =>
      rw [htake] at hfirst
      dsimp only at hfirst ⊢
      omega
    case h_2 rest now' htake =>
      have hlength := (searched_takeLive I true v now).sublist.length_le
      have hsecond := takeLive_clock I false rest now'
      rw [htake] at hfirst hlength
      dsimp only at hfirst hlength
      have hmul := Nat.mul_le_mul hlength (Nat.add_le_add_right hlength 1)
      omega

/-- With steady answers a connection with ECH is given if it is wished for and there is one, and
else any that is live, always the newest.  The others stay where they are. -/
theorem take_of_steady {wantEch : Bool} {live : C → Bool}
    (h : Steady I live v now (take I wantEch v now).2.2) :
  (take I wantEch v now).1
      = (if wantEch then v.find? (fun c => live c && I.ech c) else none).or (v.find? live)
    ∧ ∃ front back, v = front ++ (take I wantEch v now).1.toList ++ back
      ∧ (take I wantEch v now).2.1 = front ++ back
  := by
  have hany : accepts I live false = live := funext fun c => Bool.and_true _
  cases wantEch with
  | false =>
    obtain ⟨htaken, hrest⟩ := takeLive_of_steady h
    have heq : take I false v now = takeLive I false v now := rfl
    rw [heq, htaken, hrest, hany]
    exact ⟨rfl, eraseP_split live v⟩
  | true =>
    have hech : accepts I live true = fun c => live c && I.ech c := rfl
    simp only [take, if_true] at h ⊢
    split
    case h_1 p rest now' htake =>
      rw [htake] at h
      obtain ⟨htaken, hrest⟩ := @takeLive_of_steady C I true v now live (by rw [htake]; exact h)
      rw [htake, hech] at htaken hrest
      have hsplit := eraseP_split (fun c => live c && I.ech c) v
      rw [← htaken, ← hrest] at hsplit
      rw [← htaken]
      exact ⟨rfl, hsplit⟩
    case h_2 rest now' htake =>
      rw [htake] at h
      have hclock := (searched_takeLive I false rest now').clock
      obtain ⟨htaken, hrest⟩ := @takeLive_of_steady C I true v now live (by
        rw [htake]
        exact h.mono (fun _ => id) (Nat.le_refl _) hclock)
      rw [htake, hech] at htaken hrest
      -- nothing was found, so nothing was taken out
      have hrest : rest = v := hrest.trans
        (List.eraseP_of_forall_not (List.find?_eq_none.mp htaken.symm))
      rw [hrest] at h ⊢
      have hstart := (searched_takeLive I true v now).clock
      rw [htake] at hstart
      obtain ⟨htaken', hrest'⟩ := takeLive_of_steady (h.mono (fun _ => id) hstart (Nat.le_refl _))
      rw [htaken', hrest', hany, ← htaken]
      exact ⟨rfl, eraseP_split live v⟩

namespace Pool

variable {pool : Pool C} {key : PoolKey}

theorem checkout_eq (I : Liveness C) (key : PoolKey) (wantEch : Bool) (pool : Pool C) :
  (checkout I key wantEch pool).1 = (take I wantEch (pool.idle key) pool.now).1
    ∧ (checkout I key wantEch pool).2.idle key = (take I wantEch (pool.idle key) pool.now).2.1
    ∧ (checkout I key wantEch pool).2.now = (take I wantEch (pool.idle key) pool.now).2.2
  := by
  rw [checkout]
  exact ⟨rfl, Function.update_self _ _ _, rfl⟩

theorem searched_checkout (I : Liveness C) (key : PoolKey) (wantEch : Bool) (pool : Pool C) :
  Searched I (pool.idle key) pool.now (checkout I key wantEch pool).1
    ((checkout I key wantEch pool).2.idle key) (checkout I key wantEch pool).2.now
  := by
  obtain ⟨htaken, hrest, hnow⟩ := checkout_eq I key wantEch pool
  rw [htaken, hrest, hnow]
  apply searched_take

/-! ### Runs -/

/-- The connections that are parked on a key. -/
def parked (key : PoolKey) : List (Op C) → List C
  | [] => []
  | .park key' entry :: ops => if key' = key then entry :: parked key ops else parked key ops
  | .checkout _ _ :: ops => parked key ops

/-- What one call does to the connections of a key: it takes one out, or one joins them in
front. -/
structure Moved (key : PoolKey) (op : Op C) (idle : List C) (taken : Option C) (idle' : List C) :
    Prop where
  sublist : idle'.Sublist (parked key [op] ++ idle)
  subperm : ((if op.checksOut key then taken.toList else []) ++ idle').Subperm
    (parked key [op] ++ idle)
  cap : idle.length ≤ maxIdlePerHost → idle'.length ≤ maxIdlePerHost

theorem moved_park (I : Liveness C) (key key' : PoolKey) (entry : C) (pool : Pool C) :
  Moved key (.park key' entry) (pool.idle key) (step I (.park key' entry) pool).1
    ((step I (.park key' entry) pool).2.idle key)
  := by
  by_cases hkey : key' = key
  · subst hkey
    have hparked : parked key' [.park key' entry] = [entry] := if_pos rfl
    have hidle : (step I (.park key' entry) pool).2.idle key' = _ := idle_park key' entry pool
    rw [hidle]
    split
    case isTrue hroom =>
      constructor
      case sublist => rw [hparked, List.singleton_append]
      case subperm =>
        rw [hparked]
        exact .refl _
      case cap => exact fun _ => hroom
    case isFalse =>
      constructor
      case sublist =>
        rw [hparked]
        apply List.sublist_cons_self
      case subperm =>
        rw [hparked]
        exact (List.sublist_cons_self entry _).subperm
      case cap => exact id
  · have hparked : parked key [.park key' entry] = [] := if_neg hkey
    have hidle : (step I (.park key' entry) pool).2.idle key = _ :=
      idle_park_of_ne (Ne.symm hkey) entry pool
    rw [hidle]
    exact ⟨by rw [hparked, List.nil_append], by rw [hparked]; exact .refl _, id⟩

theorem moved_checkout (I : Liveness C) (key key' : PoolKey) (wantEch : Bool) (pool : Pool C) :
  Moved key (.checkout key' wantEch) (pool.idle key) (step I (.checkout key' wantEch) pool).1
    ((step I (.checkout key' wantEch) pool).2.idle key)
  := by
  by_cases hkey : key' = key
  · subst hkey
    have hself : (Op.checkout key' wantEch : Op C).checksOut key' = true := decide_eq_true rfl
    have hsearched := searched_checkout I key' wantEch pool
    constructor
    case sublist => exact hsearched.sublist
    case subperm =>
      rw [hself]
      exact hsearched.subperm
    case cap => exact hsearched.sublist.length_le.trans
  · have hother : (Op.checkout key' wantEch : Op C).checksOut key = false :=
      decide_eq_false hkey
    have hidle : (step I (.checkout key' wantEch) pool).2.idle key = _ :=
      idle_checkout_of_ne (Ne.symm hkey) wantEch pool
    rw [hidle]
    constructor
    case sublist => exact .refl _
    case subperm =>
      rw [hother]
      exact .refl _
    case cap => exact id

theorem moved_step (I : Liveness C) (key : PoolKey) (op : Op C) (pool : Pool C) :
  Moved key op (pool.idle key) (step I op pool).1 ((step I op pool).2.idle key)
  := by
  cases op with
  | park key' entry => apply moved_park
  | checkout key' wantEch => apply moved_checkout

theorem parked_cons (key : PoolKey) (op : Op C) (ops : List (Op C)) :
  parked key (op :: ops) = parked key [op] ++ parked key ops
  := by
  cases op with
  | park key' entry =>
    rw [parked, parked]
    split <;> rfl
  | checkout key' wantEch => rfl

/-- What the checkouts on a key have given, and what is idle, was there or was parked. -/
theorem subperm_run (I : Liveness C) (key : PoolKey) (ops : List (Op C)) (pool : Pool C) :
  (returned I key ops pool ++ (run I ops pool).idle key).Subperm
    (pool.idle key ++ parked key ops)
  := by
  induction ops generalizing pool with
  | nil =>
    rw [parked, List.append_nil]
    exact .refl _
  | cons op ops ih =>
    have hmoved := moved_step I key op pool
    rw [returned, run, parked_cons, List.append_assoc]
    apply ((List.subperm_append_left _).mpr (ih (step I op pool).2)).trans
    -- what the call has taken and left came from what was there or was parked
    have hstep := (List.subperm_append_right (parked key ops)).mpr hmoved.subperm
    rw [List.append_assoc] at hstep
    apply hstep.trans
    rw [← List.append_assoc]
    exact (List.perm_append_comm.append_right _).subperm

/-- The idle connections of a key are in the order in which they were parked, newest first. -/
theorem sublist_run (I : Liveness C) (key : PoolKey) (ops : List (Op C)) (pool : Pool C) :
  ((run I ops pool).idle key).Sublist ((parked key ops).reverse ++ pool.idle key)
  := by
  induction ops generalizing pool with
  | nil => exact .refl _
  | cons op ops ih =>
    have hreverse : (parked key [op]).reverse = parked key [op] := by
      cases op with
      | park key' entry =>
        rw [parked]
        split <;> rfl
      | checkout key' wantEch => rfl
    rw [run, parked_cons, List.reverse_append, List.append_assoc, hreverse]
    apply (ih _).trans
    exact (moved_step I key op pool).sublist.append_left _

theorem cap_run (I : Liveness C) (key : PoolKey) (ops : List (Op C)) {pool : Pool C}
    (h : (pool.idle key).length ≤ maxIdlePerHost) :
  ((run I ops pool).idle key).length ≤ maxIdlePerHost
  := by
  induction ops generalizing pool with
  | nil => exact h
  | cons op ops ih => exact ih ((moved_step I key op pool).cap h)

/-- A checkout gives the connection that is asked for, and no other leaves the pool.  If the
answers of the idle connections do not change during the call, it gives the newest live one with
ECH, if that is wished for and there is one, else the newest live one, else none, and all others
stay as they are.  After any run of calls no connection was given more often than it was parked,
counting those that are still idle, and no more than the cap are idle, in the order in which they
were parked.  Whatever the answers, a checkout ends after so many questions, and a connection that
it gives was live when it was asked last, which was the last question. -/
theorem checkout_newest (I : Liveness C) (key : PoolKey) (wantEch : Bool) (pool : Pool C) :
  (∀ live, Steady I live (pool.idle key) pool.now (checkout I key wantEch pool).2.now →
      (checkout I key wantEch pool).1
          = (if wantEch then (pool.idle key).find? (fun c => live c && I.ech c) else none).or
            ((pool.idle key).find? live)
        ∧ (∃ front back,
          pool.idle key = front ++ (checkout I key wantEch pool).1.toList ++ back
            ∧ (checkout I key wantEch pool).2.idle key = front ++ back)
        ∧ ∀ key', key' ≠ key → (checkout I key wantEch pool).2.idle key' = pool.idle key')
    ∧ (∀ ops : List (Op C),
      (returned I key ops .new ++ (run I ops .new).idle key).Subperm (parked key ops)
        ∧ ((run I ops .new).idle key).Sublist (parked key ops).reverse
        ∧ ((run I ops .new).idle key).length ≤ maxIdlePerHost)
    ∧ (checkout I key wantEch pool).2.now
      ≤ pool.now + 2 * ((pool.idle key).length * ((pool.idle key).length + 1))
    ∧ ∀ p, (checkout I key wantEch pool).1 = some p →
      p ∈ pool.idle key
        ∧ ∃ t, (checkout I key wantEch pool).2.now = t + 1 ∧ I.isLive t p = true
  := by
  obtain ⟨htaken, hrest, hnow⟩ := checkout_eq I key wantEch pool
  have hsearched := searched_checkout I key wantEch pool
  refine ⟨?_, ?_, ?_, ?_⟩
  · intro live hsteady
    rw [hnow] at hsteady
    obtain ⟨hnewest, hsplit⟩ := take_of_steady hsteady
    rw [htaken, hrest]
    refine ⟨hnewest, hsplit, ?_⟩
    intro key' hkey
    exact idle_checkout_of_ne hkey wantEch pool
  · intro ops
    have hsublist := sublist_run I key ops .new
    rw [Pool.new, List.append_nil] at hsublist
    refine ⟨subperm_run I key ops .new, hsublist, ?_⟩
    exact cap_run I key ops (Nat.zero_le _)
  · rw [hnow]
    apply take_clock
  · intro p hp
    have hsubset := hsearched.subperm.subset
    rw [hp] at hsubset
    exact ⟨hsubset List.mem_cons_self, hsearched.lastLive p hp⟩

/-- All connections are live, and the second has ECH. -/
def secondEch : Liveness Nat where
  isLive _ _ := true
  ech c := c == 2

/-- Of three connections the one with ECH is given if it is wished for. -/
theorem checkout_newest_ech :
  ∃ pool, pool = run secondEch ([1, 2, 3].map (.park exampleKey)) .new
    ∧ pool.idle exampleKey = [3, 2, 1]
    ∧ (checkout secondEch exampleKey true pool).1 = some 2
    ∧ (checkout secondEch exampleKey false pool).1 = some 3
  := by
  have hsteady (v : List Nat) (start stop : Nat) :
      Steady secondEch (fun _ => true) v start stop := fun _ _ _ _ _ => rfl
  refine ⟨_, rfl, by decide +kernel, ?_, ?_⟩
  · rw [((checkout_newest secondEch exampleKey true _).1 _ (hsteady _ _ _)).1]
    decide +kernel
  · rw [((checkout_newest secondEch exampleKey false _).1 _ (hsteady _ _ _)).1]
    decide +kernel

end Pool

end Proxy
