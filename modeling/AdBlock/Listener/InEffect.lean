import AdBlock.Listener.Runtime

/-!
# Listeners that run

A listener that runs is enabled and bound to the address in memory (`Bound`).  One that is enabled
may not run: the start of the DNS server goes on when its listener cannot be bound.  An update that
asks for what is in memory is skipped and leaves it so.
-/

namespace Listener

namespace Runtime

variable {store : Store} {kind : Kind} {S : SerdeJson} {jsonError : Text → Text}
  {rt rt' : Runtime}

/-- A listener that runs is enabled and bound to the address in memory. -/
def Bound (rt : Runtime) : Prop :=
  ∀ listen, rt.inner.bound = some listen → rt.inner.enabled = true ∧ listen = rt.inner.listen

theorem bound_new {cfg : Config} {control : Bool} {file : Option Text}
    (hnew : new store kind cfg control file = .ok rt) :
  Bound rt
  := by
  simp only [new, parseListen] at hnew
  split at hnew
  · cases hnew
    rintro listen ⟨⟩
  · cases hnew

theorem bound_failed (rt : Runtime) :
  Bound (failed rt)
  := by
  rintro listen ⟨⟩

theorem bound_applied (enabled : Bool) (listen : Net.SocketAddr) (saved : Bool) (rt : Runtime) :
  Bound (applied store enabled listen saved rt)
  := by
  intro a ha
  cases enabled with
  | false => cases ha
  | true =>
    cases ha
    exact ⟨rfl, rfl⟩

theorem bound_step (h : Bound rt) (op : Op) :
  Bound (step store kind S jsonError rt op)
  := by
  cases op with
  | startInitial bound =>
    rw [step]
    rcases startInitial_cases kind bound rt with heq | ⟨henabled, heq⟩
    · rw [heq]
      exact h
    · rw [heq]
      rintro listen ⟨⟩
      exact ⟨henabled, rfl⟩
  | applyRaw body outcomes =>
    rw [step]
    rcases @applyRaw_cases store kind S jsonError body outcomes rt with
      ⟨e, heq⟩ | ⟨-, heq⟩ | ⟨e, heq⟩ | ⟨-, enabled, listen, heq⟩
    · rw [heq]
      exact h
    · rw [heq]
      exact h
    · rw [heq]
      exact bound_failed rt
    · rw [heq]
      exact bound_applied enabled listen outcomes.saved rt

theorem bound_run (h : Bound rt) (ops : List Op) :
  Bound (run store kind S jsonError ops rt)
  := by
  induction ops generalizing rt with
  | nil => exact h
  | cons op ops ih => exact ih (bound_step h op)

/-- The listener runs if it is enabled. -/
def Runs (rt : Runtime) : Prop :=
  rt.inner.enabled = true → rt.inner.bound.isSome = true

theorem runs_applied (enabled : Bool) (listen : Net.SocketAddr) (saved : Bool) (rt : Runtime) :
  Runs (applied store enabled listen saved rt)
  := by
  intro henabled
  obtain rfl : enabled = true := henabled
  rfl

/-- The status says that the listener runs if it is enabled, and where. -/
theorem Bound.status_iff (h : Bound rt) :
  ((statusOf rt.inner).running = (statusOf rt.inner).enabled
      ∧ ((statusOf rt.inner).running = true → ∃ listen, rt.inner.bound = some listen
        ∧ listen.toText = (statusOf rt.inner).listen))
    ↔ Runs rt
  := by
  constructor
  · rintro ⟨hrunning, -⟩ henabled
    exact hrunning.trans henabled
  · intro hruns
    constructor
    · cases hbound : rt.inner.bound with
      | some listen => rw [statusOf, hbound, (h listen hbound).1, Option.isSome_some]
      | none =>
        cases henabled : rt.inner.enabled with
        | false => rw [statusOf, hbound, henabled, Option.isSome_none]
        | true =>
          have hsome := hruns henabled
          rw [hbound] at hsome
          cases hsome
    · intro hrunning
      obtain ⟨listen, hbound⟩ := Option.isSome_iff_exists.mp hrunning
      exact ⟨listen, hbound, congrArg Net.SocketAddr.toText (h listen hbound).2⟩

/-- After an update that succeeds, the DNS listener is as its status says exactly if the update
asked for something else than what was in memory, or the listener was running if it was
enabled. -/
theorem applyRaw_in_effect_iff (store : Store) (S : SerdeJson) (jsonError : Text → Text)
    {cfg : Config} {file : Option Text} {rt₀ : Runtime}
    (hnew : new store .dns cfg true file = .ok rt₀) (start : Except Text Unit)
    (updates : List (Text × Outcomes)) {rt rt' : Runtime}
    (hrun : run store .dns S jsonError
      (.startInitial start :: updates.map fun u => .applyRaw u.1 u.2) rt₀ = rt)
    {body : Text} {outcomes : Outcomes} {status : Status}
    (happly : applyRaw store .dns S jsonError body outcomes rt = (.ok status, rt')) :
  (status.running = status.enabled
      ∧ (status.running = true → ∃ listen, rt'.inner.bound = some listen
        ∧ listen.toText = status.listen))
    ↔ Changes .dns S jsonError body rt
      ∨ (rt.inner.enabled = true → rt.inner.bound.isSome = true)
  := by
  have hbound : Bound rt := by
    rw [← hrun]
    exact bound_run (bound_new hnew) _
  obtain ⟨rfl, ⟨hchanges, rfl⟩ | ⟨hchanges, enabled, listen, rfl⟩⟩ := applyRaw_ok happly
  · rw [hbound.status_iff]
    exact (or_iff_right hchanges).symm
  · rw [(bound_applied enabled listen outcomes.saved rt).status_iff]
    exact iff_of_true (runs_applied enabled listen outcomes.saved rt) (.inl hchanges)

/-- A DNS listener that is enabled. -/
def dnsConfig : Config where
  listen := "0.0.0.0:53".toList
  enabled := true

/-- The DNS server on no settings file. -/
def dnsStarted (codec : Codec ServerOverrides) : Runtime where
  inner :=
    { control := true
      enabled := true
      listen := .v4 ⟨0, 0, 0, 0⟩ 53
      bound := none
      overrides := { enabled := some true, listen := some "0.0.0.0:53".toList } }
  file := OverrideStore.save codec { enabled := some true, listen := some "0.0.0.0:53".toList }

def referenceCodec : Codec ServerOverrides :=
  ServerOverrides.codec .reference SerdeJson.lawful_reference

theorem applyRaw_in_effect_started :
  ∃ status rt', applyRaw (.dns referenceCodec) .dns .reference id "\x7b\x7d".toList
      { bound := .ok (), saved := true }
      (run (.dns referenceCodec) .dns .reference id [.startInitial (.ok ())]
        (dnsStarted referenceCodec)) = (.ok status, rt')
    ∧ status.running = true ∧ status.running = status.enabled
  := by
  have hnew : new (.dns referenceCodec) .dns dnsConfig true none = .ok (dnsStarted referenceCodec) := by
    decide +kernel
  have happly : applyRaw (.dns referenceCodec) .dns .reference id "\x7b\x7d".toList
      { bound := .ok (), saved := true }
      (run (.dns referenceCodec) .dns .reference id [.startInitial (.ok ())]
        (dnsStarted referenceCodec))
      = (.ok { enabled := true, listen := "0.0.0.0:53".toList, running := true },
        run (.dns referenceCodec) .dns .reference id [.startInitial (.ok ())]
          (dnsStarted referenceCodec)) := by
    decide +kernel
  have heffect := (applyRaw_in_effect_iff (.dns referenceCodec) .reference id hnew (.ok ()) [] rfl
    happly).mpr (.inr fun _ => rfl)
  exact ⟨_, _, happly, rfl, heffect.1⟩

/-- The listener could not be bound at the start.  An update that asks for nothing else is
accepted, and the listener does not run. -/
theorem applyRaw_in_effect_unbound :
  ∃ status rt', new (.dns referenceCodec) .dns dnsConfig true none
      = .ok (dnsStarted referenceCodec)
    ∧ applyRaw (.dns referenceCodec) .dns .reference id
      "\x7b\"dns_enabled\": true\x7d".toList { bound := .ok (), saved := true }
      (run (.dns referenceCodec) .dns .reference id
        [.startInitial (.error "address in use".toList)] (dnsStarted referenceCodec))
      = (.ok status, rt')
    ∧ status.enabled = true ∧ status.running = false
  := by
  have happly : applyRaw (.dns referenceCodec) .dns .reference id
      "\x7b\"dns_enabled\": true\x7d".toList { bound := .ok (), saved := true }
      (run (.dns referenceCodec) .dns .reference id
        [.startInitial (.error "address in use".toList)] (dnsStarted referenceCodec))
      = (.ok { enabled := true, listen := "0.0.0.0:53".toList, running := false },
        dnsStarted referenceCodec) := by
    decide +kernel
  exact ⟨_, _, by decide +kernel, happly, rfl, rfl⟩

end Runtime

end Listener
