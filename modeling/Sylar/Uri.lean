import Sylar.Address
import Sylar.UriMachine

/-!
# URIs

`uri.rl` and `uri.h` around the machine: what its actions do, `Create`,
the accessors and the text that `dump` writes. All actions share one
pointer `mark`. Some set it to null, some look whether it is null before
they use it and some do not; `std::string(mark, fpc - mark)` and
`atoi(mark)` have no result where `mark` is null or behind `fpc`.
-/

namespace Sylar

/-- What `std::string(mark, fpc - mark)` and `atoi(mark)` leave no result
for. -/
inductive UriFault where
  | nullMark
  /-- a length beyond `max_size()` -/
  | lengthError
deriving Repr, DecidableEq

structure Uri where
  scheme : Bytes
  userinfo : Bytes
  host : Bytes
  path : Bytes
  query : Bytes
  fragment : Bytes
  port : Int
deriving Repr, DecidableEq

namespace Uri

/-- `Uri::Uri()`. -/
def new : Uri := ⟨[], [], [], [], [], [], 0⟩

/-- The state of `Create`: `mark`, as a position, and the URI. -/
structure Scan where
  mark : Option Nat
  uri : Uri
deriving Repr, DecidableEq

/-- `std::string(mark, fpc - mark)`. -/
def marked (buffer : Bytes) (p : Nat) (mark : Option Nat) : Except UriFault Bytes :=
  match mark with
  | none => .error .nullMark
  | some m => if m ≤ p then .ok ((buffer.drop m).take (p - m)) else .error .lengthError

/-- `atoi(mark)`. -/
def atoiMarked (buffer : Bytes) (mark : Option Nat) : Except UriFault Int :=
  match mark with
  | none => .error .nullMark
  | some m => .ok (atoi (cStr (buffer.drop m)))

/-- An action with `fpc` at `p`. -/
def act (buffer : Bytes) (p : Nat) : UriAction → Scan → Except UriFault Scan
  | .marku, s => .ok { s with mark := some p }
  | .markh, s => .ok { s with mark := some p }
  | .saveScheme, s => do
      let v ← marked buffer p s.mark
      return ⟨none, { s.uri with scheme := v }⟩
  | .savePort, s => do
      if s.mark ≠ some p then
        let v ← atoiMarked buffer s.mark
        return ⟨none, { s.uri with port := v }⟩
      else return ⟨none, s.uri⟩
  | .saveUserinfo, s => do
      if s.mark.isSome then
        let v ← marked buffer p s.mark
        return ⟨none, { s.uri with userinfo := v }⟩
      else return ⟨none, s.uri⟩
  | .saveHost, s => do
      if s.mark.isSome then
        let v ← marked buffer p s.mark
        return { s with uri := { s.uri with host := v } }
      else return s
  | .savePath, s => do
      let v ← marked buffer p s.mark
      return ⟨none, { s.uri with path := v }⟩
  | .saveQuery, s => do
      let v ← marked buffer p s.mark
      return ⟨none, { s.uri with query := v }⟩
  | .saveFragment, s => do
      let v ← marked buffer p s.mark
      return ⟨none, { s.uri with fragment := v }⟩

/-- The machine over the whole string, and then what is done at its end. -/
def scan (uristr : Bytes) : Except UriFault (Scanner.Halt Scan) := do
  let r ← Scanner.exec UriMachine.machine (fun _ => false) (act uristr) uristr 0
    UriMachine.start ⟨none, new⟩
  if r.running then
    let s ← Scanner.perform (act uristr r.p) (UriMachine.eofActs r.cs) r.user
    return { r with user := s }
  else return r

/-- `Uri::Create(uristr)`; `none` for a null pointer. -/
def create (uristr : Bytes) : Except UriFault (Option Uri) := do
  let r ← scan uristr
  if r.cs = 0 then return none
  else if r.cs ≥ UriMachine.firstFinal then return some r.user.uri
  else return none

variable (u : Uri)

def isDefaultPort : Bool :=
  if u.port = 0 then true
  else if u.scheme = bytes "http" ∨ u.scheme = bytes "ws" then u.port = 80
  else if u.scheme = bytes "https" ∨ u.scheme = bytes "wss" then u.port = 443
  else false

def getPath : Bytes := if u.path = [] then bytes "/" else u.path

def getPort : Int :=
  if u.port ≠ 0 then u.port
  else if u.scheme = bytes "http" ∨ u.scheme = bytes "ws" then 80
  else if u.scheme = bytes "https" ∨ u.scheme = bytes "wss" then 443
  else u.port

/-- `std::to_string(v)`. -/
def toDecimal (v : Int) : Bytes := if v < 0 then 45 :: decimal v.natAbs else decimal v.natAbs

/-- `dump(os)`: what it appends. -/
def dump : Bytes :=
  u.scheme ++ bytes "://" ++ u.userinfo ++ (if u.userinfo = [] then [] else bytes "@") ++ u.host ++
    (if u.isDefaultPort then [] else bytes ":" ++ toDecimal u.port) ++ u.getPath ++
    (if u.query = [] then [] else bytes "?") ++ u.query ++
    (if u.fragment = [] then [] else bytes "#") ++ u.fragment

/-- `toString()`. -/
def toString : Bytes := u.dump

end Uri

namespace IPAddress

/-- `setPort(v)`. -/
def setPort (host : Endian) (v : BitVec 16) : IPAddress → IPAddress
  | .ipv4 a => .ipv4 ⟨{ a.addr with port := byteswapOnLittleEndian host (n := 2) v }⟩
  | .ipv6 a => .ipv6 ⟨{ a.addr with port := byteswapOnLittleEndian host (n := 2) v }⟩

@[simp] theorem getPort_setPort (host : Endian) (v : BitVec 16) (a : IPAddress) :
    (a.setPort host v).getPort host = v := by
  cases a <;> exact byteswapOnLittleEndian_self host (n := 2) v

end IPAddress

namespace Uri

/-- `createAddress()`; `lookup` is `Address::LookupAnyIPAddress`, which
asks the resolver. `setPort` takes a `uint16_t`. -/
def createAddress (host : Endian) (lookup : Bytes → Option IPAddress) (u : Uri) :
    Option IPAddress :=
  match lookup u.host with
  | some addr => some (addr.setPort host (BitVec.ofInt 16 u.getPort))
  | none => none

end Uri

end Sylar
