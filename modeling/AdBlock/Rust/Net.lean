import AdBlock.Rust.Text
import Mathlib.Data.UInt

/-!
# Internet addresses

The addresses of the standard library's `core::net` and how they are read from texts.  A reader
takes the text that is left and gives what it has read with the rest.  A reader that fails has
read nothing.
-/

namespace Net

/-- An IPv4 address. -/
structure Ipv4Addr where
  a : UInt8
  b : UInt8
  c : UInt8
  d : UInt8
  deriving DecidableEq, Repr

/-- An IPv6 address. -/
structure Ipv6Addr where
  segments : List UInt16
  length_eq : segments.length = 8
  deriving DecidableEq, Repr

inductive IpAddr where
  | v4 (ip : Ipv4Addr)
  | v6 (ip : Ipv6Addr)
  deriving DecidableEq, Repr

/-- The address of no host: all bits are zero. -/
def IpAddr.isUnspecified : IpAddr → Bool
  | .v4 ip => ip.a = 0 ∧ ip.b = 0 ∧ ip.c = 0 ∧ ip.d = 0
  | .v6 ip => ip.segments.all (· = 0)

/-- An address with a port.  The flow information of an IPv6 address is always zero here, as it
has no form in a text. -/
inductive SocketAddr where
  | v4 (ip : Ipv4Addr) (port : UInt16)
  | v6 (ip : Ipv6Addr) (port : UInt16) (scopeId : UInt32)
  deriving DecidableEq, Repr

namespace SocketAddr

def new (ip : IpAddr) (port : UInt16) : SocketAddr :=
  match ip with
  | .v4 ip => .v4 ip port
  | .v6 ip => .v6 ip port 0

def ip : SocketAddr → IpAddr
  | .v4 ip _ => .v4 ip
  | .v6 ip _ _ => .v6 ip

@[simp]
theorem ip_new (a : IpAddr) (port : UInt16) :
  (new a port).ip = a
  := by
  cases a with
  | v4 ip => rfl
  | v6 ip => rfl

end SocketAddr

/-! ### Numbers -/

/-- `char::to_digit`. -/
def toDigit (radix : ℕ) (c : Char) : Option ℕ :=
  let value :=
    if '0' ≤ c ∧ c ≤ '9' then some (c.toNat - '0'.toNat)
    else if 'a' ≤ c ∧ c ≤ 'z' then some (c.toNat - 'a'.toNat + 10)
    else if 'A' ≤ c ∧ c ≤ 'Z' then some (c.toNat - 'A'.toNat + 10)
    else none
  value.filter (· < radix)

def isDigit (radix : ℕ) (c : Char) : Bool :=
  (toDigit radix c).isSome

/-- The number with some digits. -/
def ofDigits (radix : ℕ) (digits : Text) : ℕ :=
  digits.foldl (fun n c => n * radix + (toDigit radix c).getD 0) 0

/-- The text without its first character, if that is `c`. -/
def readGivenChar (c : Char) : Text → Option Text
  | [] => none
  | c' :: s => if c' = c then some s else none

/-- Read all digits there are as a number below `bound`. -/
def readNumber (radix : ℕ) (maxDigits : Option ℕ) (allowZeroPrefix : Bool) (bound : ℕ)
    (s : Text) : Option (ℕ × Text) :=
  let digits := s.takeWhile (isDigit radix)
  let n := ofDigits radix digits
  if digits = [] then none
  else if maxDigits.any (· < digits.length) then none
  else if !allowZeroPrefix ∧ digits.head? = some '0' ∧ 1 < digits.length then none
  else if n < bound then some (n, s.dropWhile (isDigit radix))
  else none

/-! ### Addresses -/

def readOctet (s : Text) : Option (UInt8 × Text) := do
  let (n, s) ← readNumber 10 (some 3) false 256 s
  some (UInt8.ofNat n, s)

def readIpv4Addr (s : Text) : Option (Ipv4Addr × Text) := do
  let (a, s) ← readOctet s
  let s ← readGivenChar '.' s
  let (b, s) ← readOctet s
  let s ← readGivenChar '.' s
  let (c, s) ← readOctet s
  let s ← readGivenChar '.' s
  let (d, s) ← readOctet s
  some (⟨a, b, c, d⟩, s)

def readGroup (s : Text) : Option (UInt16 × Text) := do
  let (n, s) ← readNumber 16 (some 4) true 65536 s
  some (UInt16.ofNat n, s)

/-- Read with a colon in front, except at the start. -/
def readSeparator {α : Type} (first : Bool) (read : Text → Option (α × Text)) (s : Text) :
    Option (α × Text) :=
  if first then read s else readGivenChar ':' s >>= read

/-- `u16::from_be_bytes`. -/
def ofBytes (high low : UInt8) : UInt16 :=
  UInt16.ofNat (high.toNat * 256 + low.toNat)

/-- Read up to `room` groups, of which the last two can be in the form of an IPv4 address.  The
flag says that they are. -/
def readGroups : (room : ℕ) → (first : Bool) → Text → List UInt16 × Bool × Text
  | 0, _, s => ([], false, s)
  | room + 1, first, s =>
      match if 1 ≤ room then readSeparator first readIpv4Addr s else none with
      | some (ip, s) => ([ofBytes ip.a ip.b, ofBytes ip.c ip.d], true, s)
      | none =>
          match readSeparator first readGroup s with
          | none => ([], false, s)
          | some (group, s) =>
              let (groups, ipv4, s) := readGroups room false s
              (group :: groups, ipv4, s)

/-- The segments of an address, around the zeroes that two colons stand for. -/
def readSegments (s : Text) : Option (List UInt16 × Text) :=
  let (head, ipv4, s) := readGroups 8 true s
  if head.length = 8 then some (head, s)
  else if ipv4 then none
  else do
    let s ← readGivenChar ':' s
    let s ← readGivenChar ':' s
    let (tail, _, s) := readGroups (8 - (head.length + 1)) true s
    some (head ++ List.replicate (8 - head.length - tail.length) 0 ++ tail, s)

def readIpv6Addr (s : Text) : Option (Ipv6Addr × Text) := do
  let (segments, s) ← readSegments s
  if h : segments.length = 8 then some (⟨segments, h⟩, s) else none

def readPort (s : Text) : Option (UInt16 × Text) := do
  let s ← readGivenChar ':' s
  let (n, s) ← readNumber 10 none true 65536 s
  some (UInt16.ofNat n, s)

def readScopeId (s : Text) : Option (UInt32 × Text) := do
  let s ← readGivenChar '%' s
  let (n, s) ← readNumber 10 none true 4294967296 s
  some (UInt32.ofNat n, s)

def readSocketAddrV4 (s : Text) : Option (SocketAddr × Text) := do
  let (ip, s) ← readIpv4Addr s
  let (port, s) ← readPort s
  some (.v4 ip port, s)

def readSocketAddrV6 (s : Text) : Option (SocketAddr × Text) := do
  let s ← readGivenChar '[' s
  let (ip, s) ← readIpv6Addr s
  let (scopeId, s) := (readScopeId s).getD (0, s)
  let s ← readGivenChar ']' s
  let (port, s) ← readPort s
  some (.v6 ip port scopeId, s)

/-- What is read from a whole text. -/
def parseWith {α : Type} (read : Text → Option (α × Text)) (s : Text) : Option α :=
  match read s with
  | some (a, []) => some a
  | _ => none

namespace Ipv4Addr

/-- `str::parse`, as an IPv4 address. -/
def parse (s : Text) : Option Ipv4Addr :=
  parseWith readIpv4Addr s

end Ipv4Addr

namespace Ipv6Addr

/-- `str::parse`, as an IPv6 address. -/
def parse (s : Text) : Option Ipv6Addr :=
  parseWith readIpv6Addr s

end Ipv6Addr

namespace IpAddr

/-- `str::parse`, as an address. -/
def parse (s : Text) : Option IpAddr :=
  parseWith (fun s => (readIpv4Addr s).map (Prod.map .v4 id)
    <|> (readIpv6Addr s).map (Prod.map .v6 id)) s

end IpAddr

namespace SocketAddr

/-- `str::parse`, as an address with a port. -/
def parse (s : Text) : Option SocketAddr :=
  parseWith (fun s => readSocketAddrV4 s <|> readSocketAddrV6 s) s

/-- The text of the error when a text is no address with a port. -/
def parseError : Text :=
  "invalid socket address syntax".toList

end SocketAddr

/-- `str::parse`, as a 16 bit number.  A plus sign in front is allowed. -/
def parseU16 (s : Text) : Option UInt16 :=
  let digits := (Text.stripPrefix s ['+']).getD s
  if digits ≠ [] ∧ digits.all (isDigit 10) ∧ ofDigits 10 digits < 65536 then
    some (UInt16.ofNat (ofDigits 10 digits))
  else none

/-! ### Texts of addresses -/

/-- A number in decimal. -/
def decimal (n : ℕ) : Text :=
  Nat.toDigits 10 n

namespace Ipv4Addr

/-- `to_string`. -/
def toText (ip : Ipv4Addr) : Text :=
  decimal ip.a.toNat ++ '.' :: decimal ip.b.toNat ++ '.' :: decimal ip.c.toNat
    ++ '.' :: decimal ip.d.toNat

end Ipv4Addr

end Net
