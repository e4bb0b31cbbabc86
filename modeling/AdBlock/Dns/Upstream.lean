import AdBlock.Rust.Net

/-!
# Upstream servers

How the address of an upstream server is written, and which lists of servers a resolver can be
made from.
-/

namespace Dns

/-- The transports of an upstream server. -/
inductive Scheme where
  | udp
  | tcp
  | tls
  | https
  deriving DecidableEq, Repr

def Scheme.asStr : Scheme → Text
  | .udp => "udp".toList
  | .tcp => "tcp".toList
  | .tls => "tls".toList
  | .https => "https".toList

inductive UpstreamMode where
  | failover
  | loadBalance
  | parallel
  deriving DecidableEq, Repr

def UpstreamMode.asStr : UpstreamMode → Text
  | .failover => "failover".toList
  | .loadBalance => "load-balance".toList
  | .parallel => "parallel".toList

structure UpstreamAddr where
  spec : Text
  /-- What follows a `#` in the spec. -/
  name : Text
  /-- There is no `!` in front of the spec. -/
  enabled : Bool
  scheme : Scheme
  host : Text
  /-- The address after `ip=` in the spec. -/
  ip : Option Net.Ipv4Addr
  port : UInt16
  path : Text
  deriving DecidableEq, Repr

/-- A text in single quotes. -/
def quoted (s : Text) : Text :=
  '\'' :: s ++ ['\'']

def badPort (s : Text) : Text :=
  "bad port ".toList ++ quoted s

def parsePort (s : Text) : Except Text UInt16 :=
  match Net.parseU16 s with
  | some port => .ok port
  | none => .error (badPort s)

def splitHostPort (s : Text) (defaultPort : UInt16) : Except Text (Text × UInt16) :=
  match Text.stripPrefix s ['['] with
  | some rest =>
      match Text.splitOnce rest ']' with
      | none => .error "unclosed '[' in address".toList
      | some (host, tail) =>
          match Text.stripPrefix tail [':'] with
          | some p => (parsePort p).map (host, ·)
          | none => .ok (host, defaultPort)
  | none =>
      if (Net.Ipv6Addr.parse s).isSome then .ok (s, defaultPort)
      else
        match Text.rsplitOnce s ':' with
        | some (host, p) => (parsePort p).map (host, ·)
        | none => .ok (s, defaultPort)

/-- The address after `ip=` in the parameters of a spec. -/
def parsePinnedIp (query : Text) : Except Text (Option Net.Ipv4Addr) :=
  match (query.splitOn '&').findSome? fun kv =>
      Text.stripPrefix (Text.trim kv) "ip=".toList with
  | none => .ok none
  | some v =>
      match Net.Ipv4Addr.parse v with
      | some ip => .ok (some ip)
      | none => .error (quoted v ++ " is not an IPv4 address".toList)

namespace UpstreamAddr

def parseScheme (spec addr : Text) : Except Text (Scheme × Text) :=
  match Text.splitOnceText "://".toList addr with
  | none => .ok (.udp, addr)
  | some (s, rest) =>
      if s = "https".toList then .ok (.https, rest)
      else if s = "tls".toList then .ok (.tls, rest)
      else if s = "udp".toList then .ok (.udp, rest)
      else if s = "tcp".toList then .ok (.tcp, rest)
      else .error ("upstream ".toList ++ quoted spec ++ ": unknown scheme ".toList ++ quoted s)

def defaultPort : Scheme → UInt16
  | .https => 443
  | .tls => 853
  | .udp => 53
  | .tcp => 53

/-- An error about a spec. -/
def inSpec {α : Type} (spec : Text) (r : Except Text α) : Except Text α :=
  r.mapError fun e => "upstream ".toList ++ quoted spec ++ ": ".toList ++ e

def parse (spec : Text) : Except Text UpstreamAddr := do
  let spec := Text.trim spec
  -- what follows a `#` is a label
  let (addr, name) := match Text.splitOnce spec '#' with
    | some (a, n) => (Text.trimEnd a, Text.trim n)
    | none => (spec, [])
  -- a `!` in front parks the server
  let (addr, enabled) := match Text.stripPrefix addr ['!'] with
    | some a => (Text.trimStart a, false)
    | none => (addr, true)
  let (scheme, rest) ← parseScheme spec addr
  let (rest, ip) ← match Text.splitOnce rest '?' with
    | some (r, q) => (inSpec spec (parsePinnedIp q)).map (r, ·)
    | none => .ok (rest, none)
  let (authority, path) := match Text.splitOnce rest '/' with
    | some (a, p) => (a, '/' :: p)
    | none => (rest, "/dns-query".toList)
  let (host, port) ← inSpec spec (splitHostPort authority (defaultPort scheme))
  if host = [] then
    .error ("upstream ".toList ++ quoted spec ++ ": empty host".toList)
  else if (Net.Ipv6Addr.parse host).isSome then
    .error ("upstream ".toList ++ quoted spec
      ++ ": IPv6 upstreams are not supported (IPv4-only resolver)".toList)
  else .ok { spec, name, enabled, scheme, host, ip, port, path }

/-- What a server is shown as. -/
def label (addr : UpstreamAddr) : Text :=
  if addr.name = [] then addr.spec else addr.name

/-- The host, unless it is an address. -/
def hostname (addr : UpstreamAddr) : Text :=
  if (Net.Ipv4Addr.parse addr.host).isSome then [] else addr.host

def address (addr : UpstreamAddr) : Text :=
  match addr.ip with
  | some ip => ip.toText ++ ':' :: Net.decimal addr.port.toNat
  | none => addr.host ++ ':' :: Net.decimal addr.port.toNat

end UpstreamAddr

/-- The servers that queries are sent to. -/
structure Resolver where
  upstreams : List UpstreamAddr
  mode : UpstreamMode
  bootstrap : List (Net.Ipv4Addr × UInt16)
  deriving DecidableEq, Repr

namespace Resolver

def parseBootstrap (s : Text) : Except Text (Net.Ipv4Addr × UInt16) := do
  let (host, port) ← splitHostPort (Text.trim s) 53
  match Net.Ipv4Addr.parse host with
  | some ip => .ok (ip, port)
  | none => .error ("bootstrap ".toList ++ quoted s ++ " must be an IPv4 address".toList)

def new (upstreams : List Text) (mode : UpstreamMode) (bootstrap : List Text) :
    Except Text Resolver := do
  let upstreams ← upstreams.mapM UpstreamAddr.parse
  let bootstrap ← bootstrap.mapM parseBootstrap
  .ok { upstreams, mode, bootstrap }

end Resolver

end Dns
