import AdBlock.Dns.Settings
import AdBlock.Process.Fallible

/-!
# The settings of the DNS service

The service keeps its settings in memory and overrides for the configured ones in a file.  Each
call is a process whose atomic steps are the reads and the write of the settings in memory, the
operations on the file, and the points at which it waits for the network.  What the network and
the disk do is given with the call.
-/

namespace Dns

/-- The settings in use and the resolver made from them. -/
structure LiveDns where
  resolver : Resolver
  settings : EffectiveDnsSettings
  deriving DecidableEq, Repr

/-- What the calls share: the settings in use and the settings file, if there is one. -/
structure DnsService where
  live : LiveDns
  file : Option Text
  deriving DecidableEq, Repr

inductive DnsError where
  | config (message : Text)
  deriving DecidableEq, Repr

/-- The resolver for some settings. -/
def EffectiveDnsSettings.resolver (e : EffectiveDnsSettings) : Except Text Resolver :=
  Resolver.new e.upstreams e.upstreamMode e.bootstrap

/-- The settings with the upstreams, the mode and the bootstrap servers of others. -/
def EffectiveDnsSettings.withUpstreamsOf (e base : EffectiveDnsSettings) : EffectiveDnsSettings :=
  { e with
    upstreams := base.upstreams
    upstreamMode := base.upstreamMode
    bootstrap := base.bootstrap }

/-- The steps of a call. -/
abbrev Call :=
  Fallible DnsService Text

/-- An edit of the list of upstream servers. -/
inductive UpstreamCommand where
  | add (name host scheme : Text)
  | delete (spec : Text)
  | setEnabled (spec : Text) (enabled : Bool)
  deriving DecidableEq, Repr

/-- What the network and the disk do while the list of upstream servers is edited. -/
structure EditOutcomes where
  /-- The answer to the look up of a host name. -/
  lookup : Except Text Net.IpAddr
  saved : Except Text Unit
  /-- The new server answers its test query. -/
  answered : Bool
  /-- The save that takes the new server back. -/
  rolledBack : Except Text Unit

/-- An edited list of upstream servers. -/
structure Edited where
  list : List Text
  /-- The spec of a new server and what it is shown as. -/
  added : Option (Text × Text)
  message : Text
  deriving DecidableEq, Repr

/-! ### Edits of the list -/

namespace UpstreamCommand

def find (list : List Text) (spec : Text) : Except Text ℕ :=
  match list.idxOf? spec with
  | some i => .ok i
  | none => .error ("no upstream ".toList ++ quoted spec)

def applyDelete (list : List Text) (spec : Text) : Except Text Edited := do
  let i ← find list spec
  .ok
    { list := list.eraseIdx i
      added := none
      message := "dns upstream removed: ".toList ++ spec }

def applySetEnabled (list : List Text) (spec : Text) (enabled : Bool) : Except Text Edited := do
  let i ← find list spec
  let bare := Text.trimStart (Text.trimStartMatches spec ['!'])
  let next := if enabled then bare else '!' :: bare
  let addr ← UpstreamAddr.parse next
  .ok
    { list := list.set i next
      added := none
      message := "dns upstream ".toList ++ (if enabled then "enabled" else "disabled").toList
        ++ ": ".toList ++ addr.label }

/-- The spec that a new server is stored with: the host name stays and the address it has is
pinned. -/
def specOf (name scheme : Text) (typed : UpstreamAddr) (ip : Net.Ipv4Addr) : Text :=
  let path := if typed.scheme = .https then typed.path else []
  let pin := if typed.hostname = [] then [] else "?ip=".toList ++ ip.toText
  scheme ++ "://".toList ++ typed.host ++ ':' :: Net.decimal typed.port.toNat ++ path ++ pin
    ++ '#' :: name

/-- A server is configured already if its transport, host and port are. -/
def isConfigured (list : List Text) (addr : UpstreamAddr) : Bool :=
  list.any fun s =>
    match UpstreamAddr.parse s with
    | .ok a => a.scheme = addr.scheme ∧ a.host = addr.host ∧ a.port = addr.port
    | .error _ => false

def applyAdd (list : List Text) (name host scheme : Text) (typed : UpstreamAddr) :
    Net.IpAddr → Except Text Edited
  | .v6 _ =>
      .error (quoted host ++ " resolves to IPv6 only; the resolver is IPv4-only".toList)
  | .v4 ip => do
      let spec := specOf name scheme typed ip
      let addr ← UpstreamAddr.parse spec
      if isConfigured list addr then .error (addr.host ++ " is already configured".toList)
      else
        .ok
          { list := list ++ [spec]
            added := some (spec, name ++ " (".toList ++ addr.address ++ ")".toList)
            message := "dns upstream added: ".toList ++ name ++ " (".toList ++ ip.toText
              ++ ")".toList }

end UpstreamCommand

/-- A server is found by its spec, and answers. -/
def Resolver.probeEchSpec (r : Resolver) (spec : Text) (answered : Bool) : Bool :=
  r.upstreams.any (·.spec = spec) && answered

def didNotAnswer (what : Text) : Text :=
  what ++ (" did not answer a test query — check the host, the port, and the transport "
    ++ "(DoH, DoT, or plain DNS)").toList

namespace DnsService

/-! ### Calls -/

def readLive : Call LiveDns :=
  Fallible.atomic fun st => (.ok st.live, st)

theorem run_readLive (st : DnsService) :
  readLive.run st = (.ok st.live, st)
  := by
  rfl

def publish (live : LiveDns) : Call Unit :=
  Fallible.atomic fun st => (.ok (), { st with live })

/-- Wait for the network. -/
def await : Call Unit :=
  Fallible.atomic fun st => (.ok (), st)

/-- Write or remove the file.  If this fails, the file stays as it is. -/
def writeFile (written : Except Text Unit) (file : Option Text) : Call Unit :=
  Fallible.atomic fun st =>
    match written with
    | .ok () => (.ok (), { st with file })
    | .error e => (.error e, st)

section Store

variable (codec : Codec DnsOverrides) (base : DnsConfig)

def loadOverrides : Call DnsOverrides :=
  Fallible.atomic fun st => (.ok (OverrideStore.load codec st.file), st)

/-- The resolver for new settings.  It is made anew if the upstreams, the mode or the bootstrap
servers change. -/
def nextResolver (current : LiveDns) (eff : EffectiveDnsSettings) : Except Text Resolver :=
  if eff.upstreams ≠ current.settings.upstreams
      ∨ eff.upstreamMode ≠ current.settings.upstreamMode
      ∨ eff.bootstrap ≠ current.settings.bootstrap then
    eff.resolver
  else .ok current.resolver

def realize (eff : EffectiveDnsSettings) (persist : Call Unit) : Call Unit := do
  Fallible.ofExcept eff.validate
  let current ← readLive
  let resolver ← Fallible.ofExcept (nextResolver current eff)
  persist
  publish { resolver, settings := eff }

/-- Save the overrides in the file with an update. -/
def saveMerged (upd : DnsOverrides) (saved : Except Text Unit) : Call Unit := do
  let overrides ← loadOverrides codec
  writeFile saved (OverrideStore.save codec (overrides.mergedWith upd))

def applySettings (upd : DnsOverrides) (saved : Except Text Unit) : Call Unit := do
  let live ← readLive
  realize (live.settings.withOverrides upd) (saveMerged codec upd saved)

def resetSettings (removed : Except Text Unit) : Call Unit :=
  realize (.fromConfig base) (writeFile removed none)

def resolveHost (host : Text) (lookup : Except Text Net.IpAddr) : Call Net.IpAddr := do
  -- the resolver in use knows the bootstrap servers
  let _ ← readLive
  await
  match Net.IpAddr.parse host with
  | some ip => pure ip
  | none => Fallible.ofExcept lookup

theorem run_resolveHost_of_some {host : Text} {ip : Net.IpAddr}
    (h : Net.IpAddr.parse host = some ip) (lookup : Except Text Net.IpAddr) (st : DnsService) :
  (resolveHost host lookup).run st = (.ok ip, st)
  := by
  rw [resolveHost, h]
  rfl

theorem run_resolveHost_of_none {host : Text} (h : Net.IpAddr.parse host = none)
    (lookup : Except Text Net.IpAddr) (st : DnsService) :
  (resolveHost host lookup).run st = (lookup, st)
  := by
  rw [resolveHost, h]
  rfl

/-- The edit that a command makes to a list. -/
def edit (list : List Text) (lookup : Except Text Net.IpAddr) : UpstreamCommand → Call Edited
  | .delete spec => Fallible.ofExcept (UpstreamCommand.applyDelete list spec)
  | .setEnabled spec enabled =>
      Fallible.ofExcept (UpstreamCommand.applySetEnabled list spec enabled)
  | .add name host scheme => do
      let typed ← Fallible.ofExcept (UpstreamAddr.parse (scheme ++ "://".toList ++ host))
      let ip ← resolveHost typed.host lookup
      Fallible.ofExcept (UpstreamCommand.applyAdd list name host scheme typed ip)

/-- A new server does not answer its test query. -/
def testFails (spec : Text) (answered : Bool) : Call Bool := do
  let live ← readLive
  if live.settings.echProbeDomain = [] then pure false
  else do
    await
    pure (!live.resolver.probeEchSpec spec answered)

/-- Go back to the previous list. -/
def rollBack (previous : List Text) (what : Text) (rolledBack : Except Text Unit) :
    Call Text := do
  applySettings codec { upstreams := some previous } rolledBack
  throw (didNotAnswer what)

/-- A new server that does not answer its test query is taken back. -/
def testAdded (previous : List Text) (edited : Edited) (outcomes : EditOutcomes) : Call Text :=
  match edited.added with
  | none => pure edited.message
  | some (spec, what) => do
      let fails ← testFails spec outcomes.answered
      if fails then rollBack codec previous what outcomes.rolledBack
      else pure edited.message

def editUpstreams (cmd : UpstreamCommand) (outcomes : EditOutcomes) : Call Text := do
  let live ← readLive
  let edited ← edit live.settings.upstreams outcomes.lookup cmd
  applySettings codec { upstreams := some edited.list } outcomes.saved
  testAdded codec live.settings.upstreams edited outcomes

/-! ### Requests -/

/-- A call with its arguments and with what the network and the disk do. -/
inductive Request where
  | applySettings (upd : DnsOverrides) (saved : Except Text Unit)
  | resetSettings (removed : Except Text Unit)
  | editUpstreams (cmd : UpstreamCommand) (outcomes : EditOutcomes)

/-- The steps of a request.  The message that an edit returns is dropped. -/
def Request.perform : Request → Call Unit
  | .applySettings upd saved => DnsService.applySettings codec upd saved
  | .resetSettings removed => DnsService.resetSettings base removed
  | .editUpstreams cmd outcomes => do
      let _ ← DnsService.editUpstreams codec cmd outcomes
      pure ()

/-- The save with which a request would take its own change back. -/
def Request.rolledBack : Request → Except Text Unit
  | .applySettings _ _ => .ok ()
  | .resetSettings _ => .ok ()
  | .editUpstreams _ outcomes => outcomes.rolledBack

/-- The service after some requests, one after the other. -/
def after (requests : List Request) (st : DnsService) : DnsService :=
  requests.foldl (fun st request => (Fallible.run (request.perform codec base) st).2) st

/-! ### The start of the service -/

/-- The service on a settings file.  A missing file is written with the settings of the
configuration, if it can be. -/
def new (file : Option Text) (written : Bool) : Except DnsError DnsService :=
  match Net.SocketAddr.parse base.listen with
  | none =>
      .error (.config ("invalid dns.listen ".toList ++ quoted base.listen ++ ": ".toList
        ++ Net.SocketAddr.parseError))
  | some _ =>
      let baseEff := EffectiveDnsSettings.fromConfig base
      let file :=
        if written then OverrideStore.ensure codec (DnsOverrides.fromEffective baseEff) file
        else file
      let eff := baseEff.withOverrides (OverrideStore.load codec file)
      match eff.resolver with
      | .ok resolver => .ok { live := { resolver, settings := eff }, file }
      | .error _ =>
          -- overrides that no resolver can be made from give way to the configuration
          let eff := eff.withUpstreamsOf baseEff
          match eff.resolver with
          | .ok resolver => .ok { live := { resolver, settings := eff }, file }
          | .error e => .error (.config e)

end Store

end DnsService

end Dns
