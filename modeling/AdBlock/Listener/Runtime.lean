import AdBlock.Listener.Overrides
import AdBlock.Rust.NetText

/-!
# Listeners

The DNS server and the proxy each have a listener that settings start, stop and move.  An update
that asks for what is in memory is skipped.  A listener that cannot be bound is turned off in
memory, while the file keeps the settings that were saved last.
-/

namespace Listener

inductive Kind where
  | dns
  | proxy
  deriving DecidableEq, Repr

def Kind.name : Kind → Text
  | .dns => "dns".toList
  | .proxy => "proxy".toList

def Kind.store (kind : Kind) (codec : Codec ServerOverrides) (S : SerdeJson) : Store :=
  match kind with
  | .dns => .dns codec
  | .proxy => .proxy S

theorem Kind.lawful_store (kind : Kind) (codec : Codec ServerOverrides) {S : SerdeJson}
    {isFloat : Text → Prop} (hS : S.Rewrites isFloat) :
  (kind.store codec S).Lawful
  := by
  cases kind with
  | dns => exact Store.lawful_dns codec
  | proxy => exact Store.lawful_proxy hS

/-- The settings of the listener in the configuration. -/
structure Config where
  listen : Text
  enabled : Bool
  deriving DecidableEq, Repr

structure Inner where
  /-- The proxy may have no control over its listener. -/
  control : Bool
  enabled : Bool
  listen : Net.SocketAddr
  /-- What the listener that runs is bound to. -/
  bound : Option Net.SocketAddr
  overrides : ServerOverrides
  deriving DecidableEq, Repr

/-- The settings in memory and the settings file. -/
structure Runtime where
  inner : Inner
  file : Option Text
  deriving DecidableEq, Repr

structure Status where
  enabled : Bool
  listen : Text
  running : Bool
  deriving DecidableEq, Repr

/-- What the network and the disk do during an update. -/
structure Outcomes where
  bound : Except Text Unit
  saved : Bool

def quoted (s : Text) : Text :=
  '\'' :: s ++ ['\'']

/-- The error for an address that cannot be read. -/
def invalidListen (kind : Kind) (s : Text) : Text :=
  "invalid ".toList ++ kind.name ++ " listen ".toList ++ quoted s ++ ": ".toList
    ++ Net.SocketAddr.parseError

def parseListen (kind : Kind) (s : Text) : Except Text Net.SocketAddr :=
  match Net.SocketAddr.parse s with
  | some listen => .ok listen
  | none => .error (invalidListen kind s)

def statusOf (inner : Inner) : Status where
  enabled := inner.enabled
  listen := inner.listen.toText
  running := inner.bound.isSome

section Update

variable (S : SerdeJson) (jsonError : Text → Text) (kind : Kind)

/-- An update from the body of a request, which other listeners share. -/
def ServerOverrides.parse (body : Text) : Except Text ServerOverrides :=
  match S.fromStr body with
  | none => .error (jsonError body)
  | some (.obj fields) =>
      .ok
        { enabled := ((Json.obj fields).get (kind.name ++ "_enabled".toList)).bind Json.asBool
          listen := (((Json.obj fields).get (kind.name ++ "_listen".toList)).bind
            Json.asStr).map Text.trim }
  | some _ => .error "expected a JSON object".toList

/-- What an update asks for. -/
def wanted (body : Text) (inner : Inner) : Except Text (Bool × Net.SocketAddr) := do
  let upd ← ServerOverrides.parse S jsonError kind body
  let newListen ← upd.listen.mapM (parseListen kind)
  .ok (upd.enabled.getD inner.enabled, newListen.getD inner.listen)

end Update

namespace Runtime

variable (store : Store) (kind : Kind)

/-- The runtime on a settings file. -/
def new (cfg : Config) (control : Bool) (file : Option Text) : Except Text Runtime :=
  let file := store.ensure { enabled := some cfg.enabled, listen := some cfg.listen } file
  let overrides := store.load file
  (parseListen kind (overrides.listen.getD cfg.listen)).map fun listen =>
    { inner :=
        { control, enabled := overrides.enabled.getD cfg.enabled, listen, bound := none,
          overrides }
      file }

/-- Start the listener, if it is enabled.  A DNS listener that cannot be bound is only logged. -/
def startInitial (bound : Except Text Unit) (rt : Runtime) : Except Text Unit × Runtime :=
  if rt.inner.enabled && rt.inner.control then
    match bound with
    | .ok () => (.ok (), { rt with inner := { rt.inner with bound := some rt.inner.listen } })
    | .error e =>
        match kind with
        | .dns => (.ok (), rt)
        | .proxy => (.error e, rt)
  else (.ok (), rt)

/-- The settings in memory and in the file after they were put to use. -/
def applied (enabled : Bool) (listen : Net.SocketAddr) (saved : Bool) (rt : Runtime) : Runtime :=
  let overrides : ServerOverrides := { enabled := some enabled, listen := some listen.toText }
  { inner :=
      { rt.inner with
        enabled
        listen
        bound := if enabled then some listen else none
        overrides }
    file := if saved then store.save overrides rt.file else rt.file }

/-- The settings in memory after the listener could not be bound. -/
def failed (rt : Runtime) : Runtime :=
  { rt with
    inner := { rt.inner with enabled := false, bound := none } }

/-- Stop the listener and start it with new settings. -/
def apply (enabled : Bool) (listen : Net.SocketAddr) (outcomes : Outcomes) (rt : Runtime) :
    Except Text Unit × Runtime :=
  if rt.inner.control then
    match enabled, outcomes.bound with
    | true, .error e => (.error e, failed rt)
    | _, _ => (.ok (), applied store enabled listen outcomes.saved rt)
  else (.error "proxy control is unavailable".toList, rt)

variable (S : SerdeJson) (jsonError : Text → Text)

def applyRaw (body : Text) (outcomes : Outcomes) (rt : Runtime) : Except Text Status × Runtime :=
  match wanted S jsonError kind body rt.inner with
  | .error e => (.error e, rt)
  | .ok (enabled, listen) =>
      if enabled ≠ rt.inner.enabled ∨ listen ≠ rt.inner.listen then
        match apply store enabled listen outcomes rt with
        | (.error e, rt') => (.error e, rt')
        | (.ok (), rt') => (.ok (statusOf rt'.inner), rt')
      else (.ok (statusOf rt.inner), rt)

/-- The update asks for something else than what is in memory. -/
def Changes (body : Text) (rt : Runtime) : Prop :=
  ∃ enabled listen, wanted S jsonError kind body rt.inner = .ok (enabled, listen)
    ∧ (enabled ≠ rt.inner.enabled ∨ listen ≠ rt.inner.listen)

/-! ### What an update does -/

variable {store kind S jsonError} {rt rt' : Runtime} {body : Text} {outcomes : Outcomes}

theorem apply_cases (enabled : Bool) (listen : Net.SocketAddr) (outcomes : Outcomes)
    (rt : Runtime) :
  (∃ e, apply store enabled listen outcomes rt = (.error e, rt))
    ∨ (∃ e, apply store enabled listen outcomes rt = (.error e, failed rt))
    ∨ apply store enabled listen outcomes rt
      = (.ok (), applied store enabled listen outcomes.saved rt)
  := by
  unfold apply
  split
  · split
    · exact .inr (.inl ⟨_, rfl⟩)
    · exact .inr (.inr rfl)
  · exact .inl ⟨_, rfl⟩

/-- What an update does: it is rejected, it is skipped, the listener cannot be bound, or it is put
to use. -/
theorem applyRaw_cases (body : Text) (outcomes : Outcomes) (rt : Runtime) :
  (∃ e, applyRaw store kind S jsonError body outcomes rt = (.error e, rt))
    ∨ ¬ Changes kind S jsonError body rt
      ∧ applyRaw store kind S jsonError body outcomes rt = (.ok (statusOf rt.inner), rt)
    ∨ (∃ e, applyRaw store kind S jsonError body outcomes rt = (.error e, failed rt))
    ∨ Changes kind S jsonError body rt
      ∧ ∃ enabled listen, applyRaw store kind S jsonError body outcomes rt
        = (.ok (statusOf (applied store enabled listen outcomes.saved rt).inner),
          applied store enabled listen outcomes.saved rt)
  := by
  cases hwanted : wanted S jsonError kind body rt.inner with
  | error e =>
    left
    use e
    rw [applyRaw, hwanted]
  | ok want =>
    obtain ⟨enabled, listen⟩ := want
    by_cases hchanges : enabled ≠ rt.inner.enabled ∨ listen ≠ rt.inner.listen
    · have happlyRaw : applyRaw store kind S jsonError body outcomes rt
          = match apply store enabled listen outcomes rt with
            | (.error e, rt') => (.error e, rt')
            | (.ok (), rt') => (.ok (statusOf rt'.inner), rt') := by
        rw [applyRaw, hwanted]
        exact if_pos hchanges
      rw [happlyRaw]
      rcases @apply_cases store enabled listen outcomes rt with ⟨e, happly⟩ | ⟨e, happly⟩ | happly
      · left
        use e
        rw [happly]
      · right; right; left
        use e
        rw [happly]
      · right; right; right
        refine ⟨⟨enabled, listen, hwanted, hchanges⟩, enabled, listen, ?_⟩
        rw [happly]
    · right; left
      constructor
      · rintro ⟨enabled', listen', hwanted', hchanges'⟩
        rw [hwanted] at hwanted'
        cases hwanted'
        exact hchanges hchanges'
      · rw [applyRaw, hwanted]
        exact if_neg hchanges

/-- An update that succeeds was skipped or put to use. -/
theorem applyRaw_ok {status : Status}
    (h : applyRaw store kind S jsonError body outcomes rt = (.ok status, rt')) :
  status = statusOf rt'.inner
    ∧ (¬ Changes kind S jsonError body rt ∧ rt' = rt
      ∨ Changes kind S jsonError body rt
        ∧ ∃ enabled listen, rt' = applied store enabled listen outcomes.saved rt)
  := by
  rcases @applyRaw_cases store kind S jsonError body outcomes rt with
    ⟨e, heq⟩ | ⟨hchanges, heq⟩ | ⟨e, heq⟩ | ⟨hchanges, enabled, listen, heq⟩
  · rw [heq] at h
    cases h
  · rw [heq] at h
    cases h
    exact ⟨rfl, .inl ⟨hchanges, rfl⟩⟩
  · rw [heq] at h
    cases h
  · rw [heq] at h
    cases h
    exact ⟨rfl, .inr ⟨hchanges, enabled, listen, rfl⟩⟩

/-! ### Runs -/

inductive Op where
  | startInitial (bound : Except Text Unit)
  | applyRaw (body : Text) (outcomes : Outcomes)

/-- Whether the call saves what it has to save. -/
def Op.saves : Op → Bool
  | .startInitial _ => true
  | .applyRaw _ outcomes => outcomes.saved

def step (store : Store) (kind : Kind) (S : SerdeJson) (jsonError : Text → Text) (rt : Runtime) :
    Op → Runtime
  | .startInitial bound => (startInitial kind bound rt).2
  | .applyRaw body outcomes => (applyRaw store kind S jsonError body outcomes rt).2

def run (store : Store) (kind : Kind) (S : SerdeJson) (jsonError : Text → Text) (ops : List Op)
    (rt : Runtime) : Runtime :=
  ops.foldl (step store kind S jsonError) rt

theorem startInitial_cases (kind : Kind) (bound : Except Text Unit) (rt : Runtime) :
  (startInitial kind bound rt).2 = rt
    ∨ rt.inner.enabled = true
      ∧ (startInitial kind bound rt).2
        = { rt with inner := { rt.inner with bound := some rt.inner.listen } }
  := by
  unfold startInitial
  split
  · next henabled =>
    cases bound with
    | ok _ => exact .inr ⟨(Bool.and_eq_true_iff.mp henabled).1, rfl⟩
    | error e => cases kind <;> exact .inl rfl
  · exact .inl rfl

/-! ### A restart -/

variable {cfg : Config} {control : Bool}

/-- A restart has some settings. -/
def Restarts (store : Store) (kind : Kind) (cfg : Config) (control : Bool) (file : Option Text)
    (enabled : Bool) (listen : Net.SocketAddr) : Prop :=
  ∃ fresh, new store kind cfg control file = .ok fresh ∧ fresh.inner.enabled = enabled
    ∧ fresh.inner.listen = listen

theorem new_eq {file : Option Text} {overrides : ServerOverrides}
    (hload : store.load (store.ensure { enabled := some cfg.enabled, listen := some cfg.listen } file)
      = overrides) {listen : Net.SocketAddr}
    (hlisten : Net.SocketAddr.parse (overrides.listen.getD cfg.listen) = some listen) :
  Restarts store kind cfg control file (overrides.enabled.getD cfg.enabled) listen
  := by
  simp only [Restarts, new, hload, parseListen, hlisten]
  exact ⟨_, rfl, rfl, rfl⟩

/-- Settings that were put to use and saved are there after a restart. -/
theorem restarts_applied (hstore : store.Lawful) (enabled : Bool) (listen : Net.SocketAddr)
    (rt : Runtime) :
  Restarts store kind cfg control (applied store enabled listen true rt).file enabled listen
  := by
  apply new_eq (hstore.load_ensure_save _ _ rt.file)
  exact Net.SocketAddr.parse_toText listen

/-- A restart right after the start has the same settings. -/
theorem restarts_new (hstore : store.Lawful) {file : Option Text}
    (hnew : new store kind cfg control file = .ok rt) :
  Restarts store kind cfg control rt.file rt.inner.enabled rt.inner.listen
  := by
  have hload := hstore.load_ensure_ensure
    { enabled := some cfg.enabled, listen := some cfg.listen } file
  simp only [new, parseListen] at hnew
  split at hnew
  · next hlisten =>
    cases hnew
    exact new_eq hload hlisten
  · cases hnew

/-- A restart has the address that is in memory. -/
def Kept (store : Store) (kind : Kind) (cfg : Config) (control : Bool) (rt : Runtime) : Prop :=
  ∃ enabled, Restarts store kind cfg control rt.file enabled rt.inner.listen

theorem kept_step (hstore : store.Lawful) (h : Kept store kind cfg control rt) {op : Op}
    (hsaves : op.saves = true) :
  Kept store kind cfg control (step store kind S jsonError rt op)
  := by
  cases op with
  | startInitial bound =>
    rw [step]
    rcases startInitial_cases kind bound rt with heq | ⟨-, heq⟩
    · rw [heq]
      exact h
    · rw [heq]
      exact h
  | applyRaw body outcomes =>
    rw [step]
    rcases @applyRaw_cases store kind S jsonError body outcomes rt with
      ⟨e, heq⟩ | ⟨-, heq⟩ | ⟨e, heq⟩ | ⟨-, enabled, listen, heq⟩
    · rw [heq]
      exact h
    · rw [heq]
      exact h
    · rw [heq]
      exact h
    · have hsaved : outcomes.saved = true := hsaves
      rw [heq, hsaved]
      exact ⟨enabled, restarts_applied hstore enabled listen rt⟩

theorem kept_run (hstore : store.Lawful) (h : Kept store kind cfg control rt) {ops : List Op}
    (hsaves : ∀ op ∈ ops, op.saves = true) :
  Kept store kind cfg control (run store kind S jsonError ops rt)
  := by
  induction ops generalizing rt with
  | nil => exact h
  | cons op ops ih =>
    rw [List.forall_mem_cons] at hsaves
    exact ih (kept_step hstore h hsaves.1) hsaves.2

/-- After an update that succeeds, a restart has the settings of its status exactly if the update
asked for something else than what was in memory, or a restart before it had the flag that was in
memory. -/
theorem applyRaw_restart_iff (kind : Kind) (codec : Codec ServerOverrides)
    {S : SerdeJson} {isFloat : Text → Prop} (hS : S.Rewrites isFloat) (jsonError : Text → Text)
    {cfg : Config} {file : Option Text} {rt₀ : Runtime}
    (hnew : new (kind.store codec S) kind cfg true file = .ok rt₀) (ops : List Op)
    (hsaves : ∀ op ∈ ops, op.saves = true) {rt rt' : Runtime}
    (hrun : run (kind.store codec S) kind S jsonError ops rt₀ = rt) {body : Text}
    {bound : Except Text Unit} {status : Status}
    (happly : applyRaw (kind.store codec S) kind S jsonError body { bound, saved := true } rt
      = (.ok status, rt')) :
  (∃ fresh, new (kind.store codec S) kind cfg true rt'.file = .ok fresh
      ∧ fresh.inner.enabled = status.enabled ∧ fresh.inner.listen.toText = status.listen)
    ↔ Changes kind S jsonError body rt
      ∨ ∃ fresh, new (kind.store codec S) kind cfg true rt.file = .ok fresh
        ∧ fresh.inner.enabled = rt.inner.enabled
  := by
  have hstore := kind.lawful_store codec hS
  have hkept : Kept (kind.store codec S) kind cfg true rt := by
    rw [← hrun]
    exact kept_run hstore ⟨_, restarts_new hstore hnew⟩ hsaves
  obtain ⟨rfl, ⟨hchanges, rfl⟩ | ⟨hchanges, enabled, listen, rfl⟩⟩ := applyRaw_ok happly
  · -- the update was skipped: the file and the memory are as they were
    obtain ⟨enabled, fresh, hfresh, -, hlisten⟩ := hkept
    constructor
    · rintro ⟨fresh', hfresh', henabled, -⟩
      exact .inr ⟨fresh', hfresh', henabled⟩
    · rintro (hchanges' | ⟨fresh', hfresh', henabled⟩)
      · exact absurd hchanges' hchanges
      · rw [hfresh] at hfresh'
        cases hfresh'
        exact ⟨fresh, hfresh, henabled, congrArg Net.SocketAddr.toText hlisten⟩
  · have hrestarts := @restarts_applied (kind.store codec S) kind cfg true hstore enabled listen rt
    obtain ⟨fresh, hfresh, henabled, hlisten⟩ := hrestarts
    constructor
    · intro _
      exact .inl hchanges
    · intro _
      exact ⟨fresh, hfresh, henabled, congrArg Net.SocketAddr.toText hlisten⟩

/-- A listener that is not enabled. -/
def localConfig : Config where
  listen := "127.0.0.1:8080".toList
  enabled := false

/-- The proxy on no settings file. -/
def started : Runtime where
  inner :=
    { control := true
      enabled := false
      listen := .v4 ⟨127, 0, 0, 1⟩ 8080
      bound := none
      overrides := { enabled := some false, listen := some "127.0.0.1:8080".toList } }
  file := (Store.proxy .reference).ensure
    { enabled := some false, listen := some "127.0.0.1:8080".toList } none

/-- The listener is enabled. -/
def enable : Op :=
  .applyRaw "\x7b\"proxy_enabled\": true\x7d".toList { bound := .ok (), saved := true }

/-- The listener is moved to an address that cannot be bound. -/
def moveToOccupied : Op :=
  .applyRaw "\x7b\"proxy_listen\": \"127.0.0.1:9090\"\x7d".toList
    { bound := .error "address in use".toList, saved := true }

def disable : Text :=
  "\x7b\"proxy_enabled\": false\x7d".toList

/-- The proxy after some calls. -/
def afterCalls (ops : List Op) : Runtime :=
  run (.proxy .reference) .proxy .reference id ops started

theorem applyRaw_restart_disabled :
  ∃ status rt', new (.proxy .reference) .proxy localConfig true none = .ok started
    ∧ applyRaw (.proxy .reference) .proxy .reference id disable { bound := .ok (), saved := true }
      (afterCalls [enable]) = (.ok status, rt')
    ∧ ∃ fresh, new (.proxy .reference) .proxy localConfig true rt'.file = .ok fresh
      ∧ fresh.inner.enabled = status.enabled ∧ fresh.inner.listen.toText = status.listen
  := by
  have hnew : new (.proxy .reference) .proxy localConfig true none = .ok started := by
    decide +kernel
  have happly : applyRaw (.proxy .reference) .proxy .reference id disable
      { bound := .ok (), saved := true } (afterCalls [enable])
      = (.ok { enabled := false, listen := "127.0.0.1:8080".toList, running := false },
        (applyRaw (.proxy .reference) .proxy .reference id disable
          { bound := .ok (), saved := true } (afterCalls [enable])).2) :=
    Prod.ext (by decide +kernel) rfl
  have hchanges : Changes .proxy .reference id disable (afterCalls [enable]) :=
    ⟨false, .v4 ⟨127, 0, 0, 1⟩ 8080, by decide +kernel, .inl (by decide +kernel)⟩
  refine ⟨_, _, hnew, happly, ?_⟩
  exact (applyRaw_restart_iff .proxy
    (ServerOverrides.codec .reference SerdeJson.lawful_reference) SerdeJson.rewrites_reference id
    hnew [enable] (by decide) rfl happly).mpr (.inl hchanges)

/-- The listener could not be bound and was turned off in memory.  Turning it off is then skipped,
and a restart has it on. -/
theorem applyRaw_restart_skipped :
  ∃ status rt' fresh, new (.proxy .reference) .proxy localConfig true none = .ok started
    ∧ applyRaw (.proxy .reference) .proxy .reference id disable { bound := .ok (), saved := true }
      (afterCalls [enable, moveToOccupied]) = (.ok status, rt')
    ∧ new (.proxy .reference) .proxy localConfig true rt'.file = .ok fresh
    ∧ status.enabled = false ∧ fresh.inner.enabled = true
  := by
  have hskipped : applyRaw (.proxy .reference) .proxy .reference id disable
      { bound := .ok (), saved := true } (afterCalls [enable, moveToOccupied])
      = (.ok { enabled := false, listen := "127.0.0.1:8080".toList, running := false },
        afterCalls [enable, moveToOccupied]) := by
    decide +kernel
  have hfresh : (new (.proxy .reference) .proxy localConfig true
      (afterCalls [enable, moveToOccupied]).file).map (·.inner.enabled) = .ok true := by
    decide +kernel
  cases hnew : new (.proxy .reference) .proxy localConfig true
      (afterCalls [enable, moveToOccupied]).file with
  | error e =>
    rw [hnew] at hfresh
    cases hfresh
  | ok fresh =>
    rw [hnew] at hfresh
    exact ⟨_, _, fresh, by decide +kernel, hskipped, hnew, rfl, Except.ok.inj hfresh⟩

end Runtime

end Listener
