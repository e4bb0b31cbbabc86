import AdBlock.Rust.Text
import Mathlib.Logic.Function.Basic

/-!
# Idle connections to upstream servers

The pool keeps at most `maxIdlePerHost` connections for each key.  A checkout takes the newest
connection that is live.  Connections die at any moment, also between the search for a live one and
its removal, and those that are dead before a search are passed over and stay in the pool
(`corpses_run`).  They count in the cap, so a key with enough of them keeps no connection any more
(`run_of_corpses`).
-/

namespace Proxy

/-- Host, port, and whether TLS is spoken. -/
abbrev PoolKey := Text × UInt16 × Bool

/-- What a pool asks of its connections.  Whether a connection is live is asked at a moment.
Moments are numbered by the questions and the parked connections of a run, so that the answer may
change between any two of them. -/
structure Liveness (C : Type) where
  isLive : Nat → C → Bool
  ech : C → Bool

/-- Connections that die and do not come back. -/
structure Idle (C : Type) extends Liveness C where
  live_before : ∀ {now later : Nat} {c : C}, now ≤ later → isLive later c = true →
    isLive now c = true

instance {C : Type} : Coe (Idle C) (Liveness C) :=
  ⟨Idle.toLiveness⟩

def maxIdlePerHost : Nat := 8

/-- The idle connections of each key, newest first, and the moment. -/
structure Pool (C : Type) where
  idle : PoolKey → List C
  now : Nat

def Pool.new {C : Type} : Pool C where
  idle := fun _ => []
  now := 0

variable {C : Type} (I : Liveness C)

/-! ### Checkout -/

/-- The newest connection that is live when it is asked, and the others. -/
def pick (requireEch : Bool) : List C → Nat → Option (C × List C) × Nat
  | [], now => (none, now)
  | p :: v, now =>
      if I.isLive now p && (!requireEch || I.ech p) then (some (p, v), now + 1)
      else
        match pick requireEch v (now + 1) with
        | (some (q, rest), now') => (some (q, p :: rest), now')
        | (none, now') => (none, now')

variable {I} in
theorem pick_length {requireEch : Bool} {v : List C} {now now' : Nat} {p : C} {rest : List C}
    (h : pick I requireEch v now = (some (p, rest), now')) :
  rest.length + 1 = v.length
  := by
  induction v generalizing now rest with
  | nil => cases h
  | cons q v ih =>
    rw [pick] at h
    split at h
    · cases h
      rfl
    · split at h
      case h_1 _ hpick =>
        cases h
        rw [List.length_cons, List.length_cons, ih hpick]
      case h_2 => cases h

def takeLive (requireEch : Bool) (v : List C) (now : Nat) : Option C × List C × Nat :=
  match h : pick I requireEch v now with
  | (none, now') => (none, v, now')
  | (some (p, rest), now') =>
      -- the connection may have died since the search
      if I.isLive now' p then (some p, rest, now' + 1)
      else takeLive requireEch rest (now' + 1)
  termination_by v.length
  decreasing_by
    rw [← pick_length h]
    exact Nat.lt_succ_self _

/-- One connection with ECH, if there is a wish for it, and any otherwise. -/
def take (wantEch : Bool) (v : List C) (now : Nat) : Option C × List C × Nat :=
  if wantEch then
    match takeLive I true v now with
    | (some p, rest, now') => (some p, rest, now')
    | (none, rest, now') => takeLive I false rest now'
  else takeLive I false v now

namespace Pool

def checkout (key : PoolKey) (wantEch : Bool) (pool : Pool C) : Option C × Pool C :=
  match take I wantEch (pool.idle key) pool.now with
  | (taken, rest, now) => (taken, { idle := Function.update pool.idle key rest, now })

def park (key : PoolKey) (entry : C) (pool : Pool C) : Pool C where
  idle :=
    if (pool.idle key).length < maxIdlePerHost then
      Function.update pool.idle key (entry :: pool.idle key)
    else pool.idle
  now := pool.now + 1

inductive Op (C : Type) where
  | park (key : PoolKey) (entry : C)
  | checkout (key : PoolKey) (wantEch : Bool)

def step (op : Op C) (pool : Pool C) : Option C × Pool C :=
  match op with
  | .park key entry => (none, park key entry pool)
  | .checkout key wantEch => checkout I key wantEch pool

def run : List (Op C) → Pool C → Pool C
  | [], pool => pool
  | op :: ops, pool => run ops (step I op pool).2

def Op.parksOn (key : PoolKey) : Op C → Bool
  | .park key' _ => key' = key
  | .checkout _ _ => false

def Op.checksOut (key : PoolKey) : Op C → Bool
  | .park _ _ => false
  | .checkout key' _ => key' = key

/-- The connections that the checkouts on a key give. -/
def returned (key : PoolKey) : List (Op C) → Pool C → List C
  | [], _ => []
  | op :: ops, pool =>
      (if op.checksOut key then (step I op pool).1.toList else [])
        ++ returned key ops (step I op pool).2

end Pool

/-! ### What a search takes -/

variable (I : Idle C)

/-- The connections that are dead at a moment. -/
def corpses (now : Nat) (v : List C) : List C :=
  v.filter fun c => !I.isLive now c

/-- A search takes no corpse and loses no live connection.  It takes one if one is live to the end
and is accepted. -/
structure Taken (accepts : C → Bool) (v : List C) (now : Nat) (taken : Option C) (rest : List C)
    (now' : Nat) : Prop where
  clock : now ≤ now'
  kept : ∀ c ∈ v, I.isLive now' c = true → taken = some c ∨ c ∈ rest
  corpses : ∀ t ≤ now, corpses I t rest = corpses I t v
  nothing : taken = none → ∀ c ∈ v, accepts c = true → I.isLive now' c = false
  shorter : rest.length + taken.toList.length ≤ v.length

variable {I} {accepts : C → Bool} {v rest : List C} {now now' : Nat} {taken : Option C}

theorem corpses_cons_of_live {t : Nat} {c : C} (h : I.isLive t c = true) (v : List C) :
  corpses I t (c :: v) = corpses I t v
  := by
  rw [corpses, List.filter_cons, h]
  rfl

/-- A first search that found nothing changes nothing for the next. -/
theorem Taken.trans {accepts₁ : C → Bool} {rest₁ : List C} {now₁ : Nat}
    (h₁ : Taken I accepts₁ v now none rest₁ now₁)
    (h₂ : Taken I accepts rest₁ now₁ taken rest now') :
  Taken I accepts v now taken rest now'
  := by
  have hkept : ∀ c ∈ v, I.isLive now' c = true → c ∈ rest₁ := by
    intro c hc hlive
    rcases h₁.kept c hc (I.live_before h₂.clock hlive) with h | h
    · cases h
    · exact h
  constructor
  case clock => exact h₁.clock.trans h₂.clock
  case kept =>
    intro c hc hlive
    exact h₂.kept c (hkept c hc hlive) hlive
  case corpses =>
    intro t ht
    rw [h₂.corpses t (ht.trans h₁.clock), h₁.corpses t ht]
  case nothing =>
    intro hnone c hc hc'
    by_contra hlive
    rw [Bool.not_eq_false] at hlive
    rw [h₂.nothing hnone c (hkept c hc hlive) hc'] at hlive
    cases hlive
  case shorter => exact h₂.shorter.trans h₁.shorter

theorem pick_none {requireEch : Bool} (h : pick I requireEch v now = (none, now')) :
  Taken I (fun c => !requireEch || I.ech c) v now none v now'
  := by
  have hfound : now ≤ now' ∧ ∀ c ∈ v, (!requireEch || I.ech c) = true →
      I.isLive now' c = false := by
    induction v generalizing now with
    | nil =>
      cases h
      exact ⟨Nat.le_refl _, fun c hc => absurd hc List.not_mem_nil⟩
    | cons p v ih =>
      rw [pick] at h
      split at h
      case isTrue => cases h
      case isFalse hp =>
        split at h
        case h_1 => cases h
        case h_2 _ hpick =>
          cases h
          obtain ⟨hclock, hv⟩ := ih hpick
          constructor
          · omega
          · intro c hc hc'
            rcases List.mem_cons.mp hc with rfl | hc
            · by_contra hlive
              rw [Bool.not_eq_false] at hlive
              apply hp
              rw [I.live_before (by omega) hlive, hc']
              rfl
            · exact hv c hc hc'
  constructor
  case clock => exact hfound.1
  case kept => exact fun c hc _ => .inr hc
  case corpses => exact fun t _ => rfl
  case nothing => exact fun _ => hfound.2
  case shorter => exact Nat.le_refl _

/-- What is picked was live after the search began. -/
theorem pick_some {requireEch : Bool} {p : C}
    (h : pick I requireEch v now = (some (p, rest), now')) :
  now ≤ now' ∧ (∀ c ∈ v, c = p ∨ c ∈ rest) ∧ I.isLive now p = true
    ∧ ∀ t ≤ now, corpses I t rest = corpses I t v
  := by
  induction v generalizing now rest with
  | nil => cases h
  | cons q v ih =>
    rw [pick] at h
    split at h
    case isTrue hq =>
      cases h
      have hlive := (Bool.and_eq_true_iff.mp hq).1
      refine ⟨Nat.le_succ _, fun c hc => List.mem_cons.mp hc, hlive, ?_⟩
      intro t ht
      rw [corpses_cons_of_live (I.live_before ht hlive)]
    case isFalse =>
      split at h
      case h_2 => cases h
      case h_1 rest _ hpick =>
        cases h
        obtain ⟨hclock, hmem, hlive, hcorpses⟩ := ih hpick
        refine ⟨by omega, ?_, I.live_before (Nat.le_succ _) hlive, ?_⟩
        · intro c hc
          rcases List.mem_cons.mp hc with rfl | hc
          · exact .inr List.mem_cons_self
          · exact (hmem c hc).imp_right (List.mem_cons_of_mem _)
        · intro t ht
          have := hcorpses t (by omega)
          rw [corpses, corpses] at this ⊢
          rw [List.filter_cons, List.filter_cons, this]

theorem taken_takeLive (requireEch : Bool) (v : List C) (now : Nat) :
  Taken I (fun c => !requireEch || I.ech c) v now (takeLive I requireEch v now).1
    (takeLive I requireEch v now).2.1 (takeLive I requireEch v now).2.2
  := by
  -- along the recursion of the loop: every round but the last removes one that has just died
  fun_induction takeLive I requireEch v now with
  | case1 v now now' hpick => exact pick_none hpick
  | case2 v now p rest now' hpick hlive =>
    obtain ⟨hclock, hmem, -, hcorpses⟩ := pick_some hpick
    constructor
    case clock => exact hclock.trans (Nat.le_succ _)
    case kept => exact fun c hc _ => (hmem c hc).imp_left fun h => by rw [h]
    case corpses => exact hcorpses
    case nothing =>
      intro h
      cases h
    case shorter => exact Nat.le_of_eq (pick_length hpick)
  | case3 v now p rest now' hpick hdead ih =>
    obtain ⟨hclock, hmem, -, hcorpses⟩ := pick_some hpick
    apply Taken.trans _ ih
    · exact fun _ => false
    constructor
    case clock => omega
    case kept =>
      intro c hc hlive
      rcases hmem c hc with rfl | hc
      · exact absurd (I.live_before (Nat.le_succ _) hlive) hdead
      · exact .inr hc
    case corpses => exact hcorpses
    case nothing =>
      intro _ c _ h
      cases h
    case shorter =>
      have := pick_length hpick
      simp only [Option.toList_none, List.length_nil]
      omega

theorem taken_take (wantEch : Bool) (v : List C) (now : Nat) :
  Taken I (fun _ => true) v now (take I wantEch v now).1 (take I wantEch v now).2.1
    (take I wantEch v now).2.2
  := by
  cases wantEch with
  | false => exact taken_takeLive false v now
  | true =>
    have h₁ := @taken_takeLive C I true v now
    simp only [take, if_true]
    split
    case h_1 p rest now' htake =>
      rw [htake] at h₁
      exact
        { clock := h₁.clock
          kept := h₁.kept
          corpses := h₁.corpses
          nothing := fun h => by cases h
          shorter := h₁.shorter }
    case h_2 rest now' htake =>
      rw [htake] at h₁
      exact h₁.trans (taken_takeLive false rest now')

namespace Pool

variable {pool : Pool C} {key : PoolKey}

theorem taken_checkout (key : PoolKey) (wantEch : Bool) (pool : Pool C) :
  Taken I (fun _ => true) (pool.idle key) pool.now (checkout I key wantEch pool).1
    ((checkout I key wantEch pool).2.idle key) (checkout I key wantEch pool).2.now
  := by
  have hidle : (checkout I key wantEch pool).2.idle key
      = (take I wantEch (pool.idle key) pool.now).2.1 :=
    Function.update_self _ _ _
  rw [hidle]
  exact taken_take wantEch (pool.idle key) pool.now

theorem idle_checkout_of_ne {I : Liveness C} {key' : PoolKey} (h : key ≠ key') (wantEch : Bool)
    (pool : Pool C) :
  (checkout I key' wantEch pool).2.idle key = pool.idle key
  := by
  rw [checkout]
  exact Function.update_of_ne h _ _

theorem idle_park_of_ne {key' : PoolKey} (h : key ≠ key') (entry : C) (pool : Pool C) :
  (park key' entry pool).idle key = pool.idle key
  := by
  rw [park]
  split
  · exact Function.update_of_ne h _ _
  · rfl

theorem idle_park (key : PoolKey) (entry : C) (pool : Pool C) :
  (park key entry pool).idle key
    = if (pool.idle key).length < maxIdlePerHost then entry :: pool.idle key else pool.idle key
  := by
  rw [park]
  split
  · exact Function.update_self _ _ _
  · rfl

/-- A connection that is parked is kept exactly if there is room, for corpses too. -/
theorem idle_park_iff (key : PoolKey) (entry : C) (pool : Pool C) :
  (park key entry pool).idle key = entry :: pool.idle key
    ↔ (pool.idle key).length < maxIdlePerHost
  := by
  rw [idle_park]
  split
  case isTrue h => exact iff_of_true rfl h
  case isFalse h => exact iff_of_false (fun h => List.cons_ne_self _ _ h.symm) h

/-! ### Runs -/

theorem now_le_step (op : Op C) (pool : Pool C) :
  pool.now ≤ (step I op pool).2.now
  := by
  cases op with
  | park key entry => exact Nat.le_succ _
  | checkout key wantEch => exact (taken_checkout key wantEch pool).clock

theorem now_le_run (ops : List (Op C)) (pool : Pool C) :
  pool.now ≤ (run I ops pool).now
  := by
  induction ops generalizing pool with
  | nil => exact Nat.le_refl _
  | cons op ops ih => exact (now_le_step op pool).trans (ih _)

/-- The corpses of a key stay, and only a connection that is parked joins them. -/
theorem corpses_step (op : Op C) (pool : Pool C) (key : PoolKey) {t : Nat} (ht : t ≤ pool.now) :
  (corpses I t (pool.idle key)).Sublist (corpses I t ((step I op pool).2.idle key))
  := by
  cases op with
  | park key' entry =>
    by_cases hkey : key = key'
    · subst hkey
      have hidle := idle_park key entry pool
      rw [step, hidle]
      split
      · exact (List.sublist_cons_self entry _).filter _
      · exact List.Sublist.refl _
    · rw [step, idle_park_of_ne hkey]
  | checkout key' wantEch =>
    by_cases hkey : key = key'
    · subst hkey
      rw [step, (taken_checkout key wantEch pool).corpses t ht]
    · rw [step, idle_checkout_of_ne hkey]

theorem corpses_run (ops : List (Op C)) (pool : Pool C) (key : PoolKey) {t : Nat}
    (ht : t ≤ pool.now) :
  (corpses I t (pool.idle key)).Sublist (corpses I t ((run I ops pool).idle key))
  := by
  induction ops generalizing pool with
  | nil => exact List.Sublist.refl _
  | cons op ops ih =>
    exact (corpses_step op pool key ht).trans (ih _ (ht.trans (now_le_step op pool)))

/-- Once a key has as many corpses as it may have connections, no connection is kept for it,
whatever is done. -/
theorem run_of_corpses (ops : List (Op C)) (pool : Pool C) (key : PoolKey) (entry : C)
    (hcorpses : maxIdlePerHost ≤ (corpses I pool.now (pool.idle key)).length) :
  (park key entry (run I ops pool)).idle key = (run I ops pool).idle key
  := by
  have hlength : maxIdlePerHost ≤ ((run I ops pool).idle key).length :=
    calc maxIdlePerHost
      _ ≤ (corpses I pool.now (pool.idle key)).length := hcorpses
      _ ≤ (corpses I pool.now ((run I ops pool).idle key)).length :=
        (corpses_run ops pool key (Nat.le_refl _)).length_le
      _ ≤ ((run I ops pool).idle key).length := List.length_filter_le _ _
  rw [idle_park, if_neg (Nat.not_lt.mpr hlength)]

/-- A checkout on the key gives the connection or keeps it with fewer others. -/
theorem checkout_of_mem {c : C} (hc : c ∈ pool.idle key) (wantEch : Bool)
    (hlive : I.isLive (checkout I key wantEch pool).2.now c = true) :
  (checkout I key wantEch pool).1 = some c
    ∨ c ∈ (checkout I key wantEch pool).2.idle key
      ∧ ((checkout I key wantEch pool).2.idle key).length < (pool.idle key).length
  := by
  have h := @taken_checkout C I key wantEch pool
  apply (h.kept c hc hlive).imp_right
  intro hmem
  refine ⟨hmem, ?_⟩
  cases htaken : (checkout I key wantEch pool).1 with
  | none =>
    rw [h.nothing htaken c hc rfl] at hlive
    cases hlive
  | some p =>
    have hshorter := h.shorter
    rw [htaken] at hshorter
    exact hshorter

/-- A connection that is idle and stays live is given by one of the checkouts on its key, if there
are as many of them as idle connections and none is parked. -/
theorem mem_returned {c : C} (ops : List (Op C)) (hc : c ∈ pool.idle key)
    (hparks : ∀ op ∈ ops, op.parksOn key = false)
    (hlive : I.isLive (run I ops pool).now c = true)
    (hcount : (pool.idle key).length ≤ ops.countP (·.checksOut key)) :
  c ∈ returned I key ops pool
  := by
  induction ops generalizing pool with
  | nil =>
    rw [List.eq_nil_of_length_eq_zero (Nat.le_zero.mp hcount)] at hc
    cases hc
  | cons op ops ih =>
    have hparks' := List.forall_mem_cons.mp hparks
    rw [returned, List.mem_append]
    cases op with
    | park key' entry =>
      have hkey : key ≠ key' := fun h => by
        rw [h, Op.parksOn, decide_eq_false_iff_not] at hparks'
        exact hparks'.1 rfl
      have hidle : (step I (.park key' entry) pool).2.idle key = pool.idle key :=
        idle_park_of_ne hkey entry pool
      right
      apply ih _ hparks'.2 hlive
      · rw [hidle]
        exact hcount
      · rw [hidle]
        exact hc
    | checkout key' wantEch =>
      by_cases hkey : key = key'
      · subst hkey
        have hself : (Op.checkout key wantEch : Op C).checksOut key = true := decide_eq_true rfl
        have hnow := @now_le_run C I ops (checkout I key wantEch pool).2
        rcases checkout_of_mem hc wantEch (I.live_before hnow hlive) with htaken | ⟨hmem, hshorter⟩
        · left
          rw [step, htaken, hself]
          exact List.mem_singleton_self c
        · right
          apply ih hmem hparks'.2 hlive
          rw [List.countP_cons_of_pos hself] at hcount
          exact Nat.le_of_lt_succ (hshorter.trans_le hcount)
      · have hidle : (step I (.checkout key' wantEch) pool).2.idle key = pool.idle key :=
          idle_checkout_of_ne hkey wantEch pool
        right
        apply ih _ hparks'.2 hlive
        · rw [hidle]
          rw [List.countP_cons_of_neg] at hcount
          · exact hcount
          · rw [Op.checksOut, decide_eq_true_iff]
            exact fun h => hkey h.symm
        · rw [hidle]
          exact hc

/-- A connection that is parked is kept, and given by one of the next `maxIdlePerHost` checkouts
while it stays live and none is parked, exactly if fewer than `maxIdlePerHost` connections are in
the pool, live or dead. -/
theorem park_reused_iff (I : Idle C) (key : PoolKey) (c : C) (pool : Pool C) :
  ((park key c pool).idle key = c :: pool.idle key
      ∧ ∀ ops : List (Op C), (∀ op ∈ ops, op.parksOn key = false) →
        I.isLive (run I ops (park key c pool)).now c = true →
        maxIdlePerHost ≤ ops.countP (·.checksOut key) →
        c ∈ returned I key ops (park key c pool))
    ↔ (pool.idle key).length < maxIdlePerHost
  := by
  rw [idle_park_iff]
  constructor
  · exact And.left
  · intro hroom
    refine ⟨hroom, ?_⟩
    intro ops hparks hlive hcount
    have hidle := (idle_park_iff key c pool).mpr hroom
    apply mem_returned ops _ hparks hlive
    · rw [hidle]
      exact hroom.trans_le hcount
    · rw [hidle]
      exact List.mem_cons_self

/-- Connections `0` to `7` die at moment `8`; the others live on. -/
def dyingAtEight : Idle Nat where
  isLive now c := c ≥ 8 || now < 8
  ech _ := false
  live_before := by
    intro now later c hle hlive
    simp only [Bool.or_eq_true, decide_eq_true_eq] at hlive ⊢
    omega

def exampleKey : PoolKey := ("h.example".toList, 443, true)

/-- Eight connections are parked and die.  None of the idle connections is live, and a live one is
not kept, then or after any further calls. -/
theorem park_reused_corpses :
  ∃ pool, pool = run dyingAtEight ((List.range 8).map (.park exampleKey)) .new
    ∧ (pool.idle exampleKey).filter (dyingAtEight.isLive pool.now) = []
    ∧ dyingAtEight.isLive pool.now 8 = true
    ∧ (park exampleKey 8 pool).idle exampleKey = pool.idle exampleKey
    ∧ ∀ ops entry, (park exampleKey entry (run dyingAtEight ops pool)).idle exampleKey
      = (run dyingAtEight ops pool).idle exampleKey
  := by
  refine ⟨_, rfl, by decide +kernel, by decide +kernel, by decide +kernel, ?_⟩
  intro ops entry
  apply run_of_corpses
  decide +kernel

end Pool

end Proxy
