import Sylar.ByteArrayCodec
import Sylar.HttpMessage
import Sylar.Lib.BitMask

/-!
# IP addresses

`IPv4Address` and `IPv6Address` in `address.cc`: the addresses a prefix
of `prefix_len` bits gives, and the text of an IPv6 address. The parts
of a `sockaddr` are kept as they are in memory, in the byte order of the
network; `host` is the one of the machine. `sin_zero` is never looked at
and left out.

A shift by the width of the shifted type and an index beyond `s6_addr`
leave no result (`AddressFault`). The `int` in `CreateMask` wraps.
-/

namespace Sylar

inductive AddressFault where
  /-- `1 << n` with `n` not below the width of `int` -/
  | shiftCount
  /-- `s6_addr[i]` with `i` not below 16 -/
  | badIndex
deriving Repr, DecidableEq

/-- `byteswapOnLittleEndian(t)`. -/
def byteswapOnLittleEndian (host : Endian) {n : Nat} (t : BitVec (8 * n)) : BitVec (8 * n) :=
  match host with
  | .little => byteswap t
  | .big => t

section

variable (host : Endian) {n : Nat} (u v : BitVec (8 * n))

@[simp] theorem byteswapOnLittleEndian_self :
    byteswapOnLittleEndian host (byteswapOnLittleEndian host u) = u := by
  cases host with
  | little => exact byteswap_byteswap u
  | big => rfl

theorem byteswapOnLittleEndian_or : byteswapOnLittleEndian host (u ||| v) =
    byteswapOnLittleEndian host u ||| byteswapOnLittleEndian host v := by
  cases host with
  | little => exact byteswap_or u v
  | big => rfl

theorem byteswapOnLittleEndian_and : byteswapOnLittleEndian host (u &&& v) =
    byteswapOnLittleEndian host u &&& byteswapOnLittleEndian host v := by
  cases host with
  | little => exact byteswap_and u v
  | big => rfl

theorem byteswapOnLittleEndian_not :
    byteswapOnLittleEndian host (~~~u) = ~~~byteswapOnLittleEndian host u := by
  cases host with
  | little => exact byteswap_not u
  | big => rfl

end

/-- `CreateMask<T>(bits)` for a type `T` of `w` bits. -/
def createMask (w bits : Nat) : Except AddressFault (BitVec w) :=
  let n := sub64 w bits
  if 32 ≤ n then .error .shiftCount else .ok ((1#32 <<< n - 1#32).setWidth w)

/-- `sockaddr_in`. -/
structure SockaddrIn where
  family : BitVec 16
  port : BitVec 16
  addr : BitVec 32
deriving Repr, DecidableEq

/-- `sockaddr_in6`. -/
structure SockaddrIn6 where
  family : BitVec 16
  port : BitVec 16
  flowinfo : BitVec 32
  addr : Vector UInt8 16
  scopeId : BitVec 32
deriving DecidableEq

/-- `AF_INET`. -/
def afInet : BitVec 16 := 2

/-- `AF_INET6`. -/
def afInet6 : BitVec 16 := 10

/-! ## IPv4 -/

structure IPv4Address where
  addr : SockaddrIn
deriving Repr, DecidableEq

namespace IPv4Address

/-- `IPv4Address::IPv4Address(address, port)`. -/
def new (host : Endian) (address : BitVec 32) (port : BitVec 16) : IPv4Address :=
  ⟨{ family := afInet
     port := byteswapOnLittleEndian host (n := 2) port
     addr := byteswapOnLittleEndian host (n := 4) address }⟩

variable (host : Endian) (a : IPv4Address) (prefixLen : UInt32)

def broadcastAddress : Except AddressFault (Option IPv4Address) :=
  if prefixLen > 32 then .ok none
  else do
    let mask ← createMask 32 prefixLen.toNat
    return some ⟨{ a.addr with addr := a.addr.addr ||| byteswapOnLittleEndian host (n := 4) mask }⟩

def networdAddress : Except AddressFault (Option IPv4Address) :=
  if prefixLen > 32 then .ok none
  else do
    let mask ← createMask 32 prefixLen.toNat
    return some ⟨{ a.addr with addr := a.addr.addr &&& byteswapOnLittleEndian host (n := 4) mask }⟩

def subnetMask (host : Endian) (_ : IPv4Address) (prefixLen : UInt32) :
    Except AddressFault (Option IPv4Address) := do
  let mask ← createMask 32 prefixLen.toNat
  return some ⟨{ family := afInet, port := 0
                 addr := ~~~byteswapOnLittleEndian host (n := 4) mask }⟩

def getPort : BitVec 16 := byteswapOnLittleEndian host (n := 2) a.addr.port

end IPv4Address

/-! ## IPv6 -/

/-- `s6_addr[i] = v`. -/
def storeAt (a : Vector UInt8 16) (i : Nat) (v : UInt8) : Except AddressFault (Vector UInt8 16) :=
  if h : i < 16 then .ok (a.set i v h) else .error .badIndex

/-- `s6_addr[i]`. -/
def loadAt (a : Vector UInt8 16) (i : Nat) : Except AddressFault UInt8 :=
  if h : i < 16 then .ok (a.get ⟨i, h⟩) else .error .badIndex

/-- The loop that stores `v` in `n` elements from `i` on. -/
def storeRange (v : UInt8) : Nat → Nat → Vector UInt8 16 → Except AddressFault (Vector UInt8 16)
  | 0, _, a => .ok a
  | n + 1, i, a => do
      let a ← storeAt a i v
      storeRange v n (i + 1) a

structure IPv6Address where
  addr : SockaddrIn6
deriving DecidableEq

namespace IPv6Address

/-- `IPv6Address::IPv6Address()`. -/
def zero : IPv6Address :=
  ⟨{ family := afInet6, port := 0, flowinfo := 0, addr := Vector.replicate 16 0, scopeId := 0 }⟩

/-- `IPv6Address::IPv6Address(address, port)`. -/
def new (host : Endian) (address : Vector UInt8 16) (port : BitVec 16) : IPv6Address :=
  ⟨{ zero.addr with port := byteswapOnLittleEndian host (n := 2) port, addr := address }⟩

section

variable (a : IPv6Address) (prefixLen : UInt32)

def broadcastAddress : Except AddressFault (Option IPv6Address) := do
  let i := prefixLen.toNat / 8
  let mask ← createMask 8 (prefixLen.toNat % 8)
  let b ← loadAt a.addr.addr i
  let s6 ← storeAt a.addr.addr i (b ||| UInt8.ofBitVec mask)
  let s6 ← storeRange 0xff (16 - (i + 1)) (i + 1) s6
  return some ⟨{ a.addr with addr := s6 }⟩

def networdAddress : Except AddressFault (Option IPv6Address) := do
  let i := prefixLen.toNat / 8
  let mask ← createMask 8 (prefixLen.toNat % 8)
  let b ← loadAt a.addr.addr i
  let s6 ← storeAt a.addr.addr i (b &&& UInt8.ofBitVec mask)
  let s6 ← storeRange 0x00 (16 - (i + 1)) (i + 1) s6
  return some ⟨{ a.addr with addr := s6 }⟩

def subnetMask (_ : IPv6Address) (prefixLen : UInt32) :
    Except AddressFault (Option IPv6Address) := do
  let i := prefixLen.toNat / 8
  let mask ← createMask 8 (prefixLen.toNat % 8)
  let s6 ← storeAt zero.addr.addr i (~~~UInt8.ofBitVec mask)
  let s6 ← storeRange 0xff i 0 s6
  return some ⟨{ zero.addr with addr := s6 }⟩

end

/-! ### Text -/

/-- What `os << std::hex << n` writes. -/
def hexadecimal (n : Nat) : Bytes :=
  if n = 0 then [48]
  else (Nat.digits 16 n).reverse.map fun d => UInt8.ofNat (if d < 10 then 48 + d else 87 + d)

theorem low_lt (i : Fin 8) : 2 * (i : Nat) < 16 := by omega

theorem high_lt (i : Fin 8) : 2 * (i : Nat) + 1 < 16 := by omega

variable (host : Endian) (a : IPv6Address)

/-- `addr[i]`, the bytes seen as a `uint16_t`. -/
def group (i : Fin 8) : BitVec 16 :=
  ByteArray.ofMemory host 2
    [a.addr.addr.get ⟨2 * i, low_lt i⟩, a.addr.addr.get ⟨2 * i + 1, high_lt i⟩]

/-- One turn of the loop of `insert`: `used_zeros`, and what is written. -/
def insertGroup (addr : Fin 8 → BitVec 16) (s : Bool × Bytes) (i : Fin 8) : Bool × Bytes :=
  let (usedZeros, os) := s
  if addr i = 0 ∧ !usedZeros then (usedZeros, os)
  else
    let (usedZeros, os) :=
      if i ≠ 0 ∧ addr (i - 1) = 0 ∧ !usedZeros then (true, os ++ bytes ":") else (usedZeros, os)
    let os := if i ≠ 0 then os ++ bytes ":" else os
    (usedZeros, os ++ hexadecimal (byteswapOnLittleEndian host (n := 2) (addr i)).toNat)

def getPort : BitVec 16 := byteswapOnLittleEndian host (n := 2) a.addr.port

/-- `insert(os)`: what is written. -/
def insert : Bytes :=
  let addr := a.group host
  let (usedZeros, os) := (List.finRange 8).foldl (insertGroup host addr) (false, bytes "[")
  let os := if !usedZeros ∧ addr 7 = 0 then os ++ bytes "::" else os
  os ++ bytes "]:" ++ decimal (a.getPort host).toNat

end IPv6Address

/-! ## Either -/

/-- An `IPAddress`. -/
inductive IPAddress where
  | ipv4 (a : IPv4Address)
  | ipv6 (a : IPv6Address)
deriving DecidableEq

namespace IPAddress

def broadcastAddress (host : Endian) : IPAddress → UInt32 → Except AddressFault (Option IPAddress)
  | .ipv4 a, prefixLen => (a.broadcastAddress host prefixLen).map (Option.map .ipv4)
  | .ipv6 a, prefixLen => (a.broadcastAddress prefixLen).map (Option.map .ipv6)

def networdAddress (host : Endian) : IPAddress → UInt32 → Except AddressFault (Option IPAddress)
  | .ipv4 a, prefixLen => (a.networdAddress host prefixLen).map (Option.map .ipv4)
  | .ipv6 a, prefixLen => (a.networdAddress prefixLen).map (Option.map .ipv6)

def subnetMask (host : Endian) : IPAddress → UInt32 → Except AddressFault (Option IPAddress)
  | .ipv4 a, prefixLen => (a.subnetMask host prefixLen).map (Option.map .ipv4)
  | .ipv6 a, prefixLen => (a.subnetMask prefixLen).map (Option.map .ipv6)

def getPort (host : Endian) : IPAddress → BitVec 16
  | .ipv4 a => a.getPort host
  | .ipv6 a => a.getPort host

def getFamily : IPAddress → BitVec 16
  | .ipv4 a => a.addr.family
  | .ipv6 a => a.addr.family

end IPAddress

end Sylar
