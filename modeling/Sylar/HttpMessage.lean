import Mathlib.Data.Nat.Digits.Defs
import Sylar.Lib.BinaryFloat
import Sylar.Lib.Word

/-!
# HTTP messages

`http.h` and `http.cc`: the method table, the header map and the parts
of `HttpRequest` and `HttpResponse` that the parsers write, with the C
library functions behind them. Strings are lists of bytes.

The parameters and cookies are parsed on demand from the parts that are
here; they are left out.
-/

namespace Sylar

abbrev Bytes := List UInt8

/-- The bytes of a literal. -/
def bytes (s : String) : Bytes := s.toList.map fun c => UInt8.ofNat c.toNat

/-! ## The C library -/

/-- `strncmp(a, b, n) == 0`; a list ends where the terminating zero is. -/
def strncmpEq : Bytes → Bytes → Nat → Bool
  | _, _, 0 => true
  | a, b, n + 1 =>
      a.headD 0 == b.headD 0 && (a.headD 0 == 0 || strncmpEq a.tail b.tail n)

def tolower (b : UInt8) : UInt8 := if 65 ≤ b ∧ b ≤ 90 then b + 32 else b

/-- `s.c_str()` up to its terminating zero. -/
def cStr (s : Bytes) : Bytes := s.takeWhile (· ≠ 0)

def strcasecmp : Bytes → Bytes → Ordering
  | [], [] => .eq
  | [], _ :: _ => .lt
  | _ :: _, [] => .gt
  | a :: as, b :: bs =>
      if tolower a < tolower b then .lt
      else if tolower b < tolower a then .gt
      else strcasecmp as bs

def isspace (b : UInt8) : Bool := b == 32 || (9 ≤ b && b ≤ 13)

def isXdigit (b : UInt8) : Bool :=
  48 ≤ b && b ≤ 57 || 65 ≤ b && b ≤ 70 || 97 ≤ b && b ≤ 102

/-- The value of a digit in base 36. -/
def digit (b : UInt8) : Option Nat :=
  if 48 ≤ b ∧ b ≤ 57 then some (b.toNat - 48)
  else if 97 ≤ tolower b ∧ tolower b ≤ 122 then some ((tolower b).toNat - 87)
  else none

/-- The digits of base `base` a string begins with, and what follows. -/
def digits (base : Nat) : Bytes → List Nat × Bytes
  | [] => ([], [])
  | b :: bs =>
      match digit b with
      | none => ([], b :: bs)
      | some d => if d < base then (d :: (digits base bs).1, (digits base bs).2) else ([], b :: bs)

def ofDigits (base : Nat) (ds : List Nat) : Nat := ds.foldl (fun v d => v * base + d) 0

/-- A sign, if there is one. -/
def sign : Bytes → Bool × Bytes
  | [] => (false, [])
  | b :: bs => if b = 45 then (true, bs) else if b = 43 then (false, bs) else (false, b :: bs)

/-- `0x` in front of a hexadecimal digit. -/
def hexPrefix : Bytes → Option Bytes
  | 48 :: x :: d :: bs =>
      if tolower x = 120 ∧ (digits 16 [d]).1 ≠ [] then some (d :: bs) else none
  | _ => none

/-- The same in front of a hexadecimal fraction. -/
def hexFloatPrefix : Bytes → Option Bytes
  | 48 :: x :: 46 :: d :: bs =>
      if tolower x = 120 ∧ (digits 16 [d]).1 ≠ [] then some (46 :: d :: bs) else none
  | s => hexPrefix s

/-- `strtol(s, NULL, base)` for base 10 and 16. -/
def strtol (s : Bytes) (base : Nat) : Int :=
  let (neg, s) := sign (s.dropWhile isspace)
  let s := if base = 16 then (hexPrefix s).getD s else s
  let v : Int := ofDigits base (digits base s).1
  if neg then max (-v) (-2 ^ 63) else min v (2 ^ 63 - 1)

/-- What `os << n` writes. -/
def decimal (n : Nat) : Bytes :=
  if n = 0 then [48] else (Nat.digits 10 n).reverse.map fun d => UInt8.ofNat (48 + d)

/-- `atoi`. -/
def atoi (s : Bytes) : Int := toInt32 (strtol s 10)

inductive LongDouble where
  | finite (q : ℚ)
  | inf
  | nan

/-- The number of a fraction `ds.fs` and its exponent, if the mark and
at least one digit of it are there. -/
def scaled (base radix : Nat) (mark : UInt8) (s : Bytes) : Option ℚ :=
  let (ds, rest) := digits base s
  let (fs, rest) := match rest with
    | 46 :: rest => digits base rest
    | _ => ([], rest)
  if ds = [] ∧ fs = [] then none
  else
    let e : Int := match rest with
      | m :: rest =>
          if tolower m = mark then
            let (neg, rest) := sign rest
            if neg then -(ofDigits 10 (digits 10 rest).1 : Int) else ofDigits 10 (digits 10 rest).1
          else 0
      | [] => 0
    some ((ofDigits base (ds ++ fs) : ℚ) / (base : ℚ) ^ fs.length * (radix : ℚ) ^ e)

/-- `std::stold(s)`: `none` where it throws. A `long double` has a
64-bit significand; a nonzero result beyond its normal range is an
error too. -/
def stold (s : Bytes) : Option LongDouble :=
  let (neg, s) := sign ((cStr s).dropWhile isspace)
  if strncmpEq (s.map tolower) (bytes "inf") 3 then some .inf
  else if strncmpEq (s.map tolower) (bytes "nan") 3 then some .nan
  else
    match (match hexFloatPrefix s with
      | some h => scaled 16 2 112 h
      | none => scaled 10 10 101 s) with
    | none => none
    | some q =>
        let v := BinaryFloat.toBinary 64 q
        if (2 : ℚ) ^ 16384 ≤ v ∨ 0 < q ∧ q < 1 / (2 : ℚ) ^ 16382 then none
        else some (.finite (if neg then -v else v))

/-- What the library or the language leaves no result for. -/
inductive StdFault where
  /-- `std::string(at, length)` with a length beyond `max_size()` -/
  | lengthError
  /-- a member is read that nothing has been assigned to -/
  | indeterminate
  /-- a floating value outside the range of the integer type -/
  | conversion
  /-- bytes outside of a buffer are moved -/
  | outOfRange
  /-- an `assert` fails -/
  | assertion
deriving Repr, DecidableEq

/-- `static_cast<uint64_t>(v)`. -/
def toUInt64 : LongDouble → Except StdFault Nat
  | .finite q => if -1 < q ∧ q < 2 ^ 64 then .ok ⌊q⌋.toNat else .error .conversion
  | _ => .error .conversion

/-! ## Methods -/

inductive HttpMethod where
  | DELETE | GET | HEAD | POST | PUT | CONNECT | OPTIONS | TRACE | COPY | LOCK | MKCOL | MOVE
  | PROPFIND | PROPPATCH | SEARCH | UNLOCK | BIND | REBIND | UNBIND | ACL | REPORT | MKACTIVITY
  | CHECKOUT | MERGE | MSEARCH | NOTIFY | SUBSCRIBE | UNSUBSCRIBE | PATCH | PURGE | MKCALENDAR
  | LINK | UNLINK | SOURCE | INVALID_METHOD
deriving Repr, DecidableEq

/-- `HTTP_METHOD_MAP`. -/
def httpMethodMap : List (HttpMethod × String) :=
  [(.DELETE, "DELETE"), (.GET, "GET"), (.HEAD, "HEAD"), (.POST, "POST"), (.PUT, "PUT"),
    (.CONNECT, "CONNECT"), (.OPTIONS, "OPTIONS"), (.TRACE, "TRACE"), (.COPY, "COPY"),
    (.LOCK, "LOCK"), (.MKCOL, "MKCOL"), (.MOVE, "MOVE"), (.PROPFIND, "PROPFIND"),
    (.PROPPATCH, "PROPPATCH"), (.SEARCH, "SEARCH"), (.UNLOCK, "UNLOCK"), (.BIND, "BIND"),
    (.REBIND, "REBIND"), (.UNBIND, "UNBIND"), (.ACL, "ACL"), (.REPORT, "REPORT"),
    (.MKACTIVITY, "MKACTIVITY"), (.CHECKOUT, "CHECKOUT"), (.MERGE, "MERGE"),
    (.MSEARCH, "M-SEARCH"), (.NOTIFY, "NOTIFY"), (.SUBSCRIBE, "SUBSCRIBE"),
    (.UNSUBSCRIBE, "UNSUBSCRIBE"), (.PATCH, "PATCH"), (.PURGE, "PURGE"),
    (.MKCALENDAR, "MKCALENDAR"), (.LINK, "LINK"), (.UNLINK, "UNLINK"), (.SOURCE, "SOURCE")]

/-- `CharsToHttpMethod(m)`: the first method whose name `m` begins with. -/
def charsToHttpMethod (m : Bytes) : HttpMethod :=
  match httpMethodMap.find? fun e => strncmpEq (bytes e.2) m (bytes e.2).length with
  | some e => e.1
  | none => .INVALID_METHOD

/-- `HttpMethodToString(m)`. -/
def httpMethodToString (m : HttpMethod) : Bytes :=
  match httpMethodMap.find? fun e => e.1 = m with
  | some e => bytes e.2
  | none => bytes "<unknown>"

/-! ## Headers -/

/-- A `std::map` ordered by `CaseInsensitiveLess`. -/
abbrev MapType := List (Bytes × Bytes)

namespace MapType

/-- `m_headers[key] = val`: an equivalent key stays as it is. -/
def set (m : MapType) (key val : Bytes) : MapType :=
  match m with
  | [] => [(key, val)]
  | (k, v) :: rest =>
      match strcasecmp (cStr key) (cStr k) with
      | .lt => (key, val) :: (k, v) :: rest
      | .eq => (k, val) :: rest
      | .gt => (k, v) :: set rest key val

def find (m : MapType) (key : Bytes) : Option Bytes :=
  (m.find? fun e => strcasecmp (cStr key) (cStr e.1) = .eq).map Prod.snd

/-- `getAs<uint64_t>(m, key, 0)`. -/
def getAs (m : MapType) (key : Bytes) : Except StdFault Nat :=
  match m.find key with
  | none => .ok 0
  | some v =>
      match stold v with
      | none => .ok 0
      | some x => toUInt64 x

end MapType

/-! ## Messages -/

structure HttpRequest where
  method : HttpMethod
  version : Nat
  close : Bool
  websocket : Bool
  path : Bytes
  query : Bytes
  fragment : Bytes
  body : Bytes
  headers : MapType
deriving Repr, DecidableEq

namespace HttpRequest

/-- `new HttpRequest`. -/
def new : HttpRequest := ⟨.GET, 0x11, true, false, bytes "/", [], [], [], []⟩

def getHeader (r : HttpRequest) (key : Bytes) (dflt : Bytes) : Bytes :=
  (r.headers.find key).getD dflt

def init (r : HttpRequest) : HttpRequest :=
  let conn := r.getHeader (bytes "connection") []
  if conn = [] then r
  else { r with close := strcasecmp (cStr conn) (bytes "keep-alive") ≠ .eq }

def crlf : Bytes := [13, 10]

/-- One header of `dump`. -/
def dumpHeader (e : Bytes × Bytes) : Bytes := e.1 ++ bytes ": " ++ e.2 ++ crlf

def dump (r : HttpRequest) : Bytes :=
  httpMethodToString r.method ++ bytes " "
    ++ r.path
    ++ (if r.query = [] then [] else bytes "?")
    ++ r.query
    ++ (if r.fragment = [] then [] else bytes "#")
    ++ r.fragment
    ++ bytes " HTTP/"
    ++ decimal (r.version / 16)
    ++ bytes "."
    ++ decimal (r.version % 16)
    ++ crlf
    ++ (if !r.websocket then
        bytes "connection: " ++ (if r.close then bytes "close" else bytes "keep-alive") ++ crlf
      else [])
    ++ (r.headers.flatMap fun i =>
        if !r.websocket ∧ strcasecmp (cStr i.1) (bytes "connection") = .eq then []
        else dumpHeader i)
    ++ (if r.body ≠ [] then
        bytes "content-length: " ++ decimal r.body.length ++ crlf ++ crlf ++ r.body
      else crlf)

end HttpRequest

/-- `status` is the number of the `HttpStatus`. -/
structure HttpResponse where
  status : Int
  version : Nat
  reason : Bytes
  body : Bytes
  headers : MapType
deriving Repr, DecidableEq

namespace HttpResponse

/-- `new HttpResponse`. -/
def new : HttpResponse := ⟨200, 0x11, [], [], []⟩

def getHeader (r : HttpResponse) (key : Bytes) (dflt : Bytes) : Bytes :=
  (r.headers.find key).getD dflt

end HttpResponse

end Sylar
