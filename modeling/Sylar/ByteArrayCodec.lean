import Sylar.ByteArray
import Sylar.Lib.ByteCodec

/-!
# Typed values and strings in a ByteArray

The typed interface of `bytearray.cc`. An integer of a C++ type is a
`BitVec` of its width, a `float` or a `double` its bit pattern. `host`
is the byte order of the machine, `SYLAR_BYTE_ORDER`; it decides both
what `memcpy` sees of an integer and whether its bytes are swapped.

`-v` and `v * 2` in the zigzag encoders are taken modulo `2 ^ 32` and
`2 ^ 64`. Allocations do not fail; for `buff.resize(len)` that means
that a length there are not enough bytes for is left to `read`.
-/

namespace Sylar

namespace ByteArray

/-- An exception ends the caller as well. -/
def Res.bind {α β : Type} (r : Res α) (f : α → ByteArray → Res β) : Res β :=
  match r with
  | (.ok a, ba) => f a ba
  | (.error e, ba) => (.error e, ba)

@[simp] theorem Res.bind_ok {α β : Type} (a : α) (ba : ByteArray) (f : α → ByteArray → Res β) :
    Res.bind (.ok a, ba) f = f a ba := rfl

/-- The bytes of an integer in memory. -/
def memory (host : Endian) {n : Nat} (v : BitVec (8 * n)) : List UInt8 :=
  match host with
  | .little => toLE n v.toNat
  | .big => (toLE n v.toNat).reverse

/-- The integer that has these bytes in memory. -/
def ofMemory (host : Endian) (n : Nat) (bs : List UInt8) : BitVec (8 * n) :=
  BitVec.ofNat _ (ofLE (match host with
    | .little => bs
    | .big => bs.reverse))

section

variable (host : Endian) (heap : Nat → Nat → UInt8) (ba : ByteArray)

/-! ## Fixed width -/

/-- An integer in the byte order of the array. -/
def order {n : Nat} (v : BitVec (8 * n)) : BitVec (8 * n) :=
  if ba.endian ≠ host then byteswap v else v

def writeFixed {n : Nat} (value : BitVec (8 * n)) : Res Unit :=
  ba.write heap (memory host (ba.order host value))

def writeFint8 (value : BitVec 8) : Res Unit := ba.write heap (memory host (n := 1) value)

def writeFuint8 (value : BitVec 8) : Res Unit := ba.write heap (memory host (n := 1) value)

def writeFint16 (value : BitVec 16) : Res Unit := ba.writeFixed host heap (n := 2) value

def writeFuint16 (value : BitVec 16) : Res Unit := ba.writeFixed host heap (n := 2) value

def writeFint32 (value : BitVec 32) : Res Unit := ba.writeFixed host heap (n := 4) value

def writeFuint32 (value : BitVec 32) : Res Unit := ba.writeFixed host heap (n := 4) value

def writeFint64 (value : BitVec 64) : Res Unit := ba.writeFixed host heap (n := 8) value

def writeFuint64 (value : BitVec 64) : Res Unit := ba.writeFixed host heap (n := 8) value

def readFixed (n : Nat) : Res (BitVec (8 * n)) :=
  Res.bind (ba.read n) fun bytes ba => (.ok (ba.order host (ofMemory host n bytes)), ba)

def readFint8 : Res (BitVec 8) :=
  Res.bind (ba.read 1) fun bytes ba => (.ok (ofMemory host 1 bytes), ba)

def readFuint8 : Res (BitVec 8) :=
  Res.bind (ba.read 1) fun bytes ba => (.ok (ofMemory host 1 bytes), ba)

def readFint16 : Res (BitVec 16) := ba.readFixed host 2

def readFuint16 : Res (BitVec 16) := ba.readFixed host 2

def readFint32 : Res (BitVec 32) := ba.readFixed host 4

def readFuint32 : Res (BitVec 32) := ba.readFixed host 4

def readFint64 : Res (BitVec 64) := ba.readFixed host 8

def readFuint64 : Res (BitVec 64) := ba.readFixed host 8

/-! ## Varints -/

def encodeZigzag32 (v : BitVec 32) : BitVec 32 := zigzag v

def encodeZigzag64 (v : BitVec 64) : BitVec 64 := zigzag v

def decodeZigzag32 (v : BitVec 32) : BitVec 32 := unzigzag v

def decodeZigzag64 (v : BitVec 64) : BitVec 64 := unzigzag v

/-- The loop that fills `tmp`, which has room for `room` more bytes. -/
def fillTmp : Nat → Nat → Except Fault (List UInt8)
  | 0, _ => .error .badAccess
  | room + 1, value =>
      if 0x80 ≤ value then do
        let rest ← fillTmp room (value >>> 7)
        return UInt8.ofNat ((value &&& 0x7F) ||| 0x80) :: rest
      else return [UInt8.ofNat value]

def writeVarint (room : Nat) (value : Nat) : Res Unit :=
  match fillTmp room value with
  | .error e => (.error e, ba)
  | .ok tmp => ba.write heap tmp

def writeUint32 (value : BitVec 32) : Res Unit := ba.writeVarint heap 5 value.toNat

def writeInt32 (value : BitVec 32) : Res Unit := ba.writeUint32 heap (encodeZigzag32 value)

def writeUint64 (value : BitVec 64) : Res Unit := ba.writeVarint heap 10 value.toNat

def writeInt64 (value : BitVec 64) : Res Unit := ba.writeUint64 heap (encodeZigzag64 value)

/-- The loop `for(int i = 0; i < w; i += 7)`; `w` bounds its rounds. -/
def readVarint {w : Nat} : Nat → Nat → BitVec w → ByteArray → Res (BitVec w)
  | 0, _, result, ba => (.ok result, ba)
  | rounds + 1, i, result, ba =>
      if i < w then
        Res.bind (ba.readFuint8 host) fun b ba =>
          if b < 0x80 then (.ok (result ||| b.setWidth w <<< i), ba)
          else readVarint rounds (i + 7) (result ||| (b &&& 0x7f).setWidth w <<< i) ba
      else (.ok result, ba)

def readUint32 : Res (BitVec 32) := readVarint host 32 0 0 ba

def readInt32 : Res (BitVec 32) :=
  Res.bind (ba.readUint32 host) fun v ba => (.ok (decodeZigzag32 v), ba)

def readUint64 : Res (BitVec 64) := readVarint host 64 0 0 ba

def readInt64 : Res (BitVec 64) :=
  Res.bind (ba.readUint64 host) fun v ba => (.ok (decodeZigzag64 v), ba)

/-! ## Floating point -/

def writeFloat (value : BitVec 32) : Res Unit := ba.writeFuint32 host heap value

def writeDouble (value : BitVec 64) : Res Unit := ba.writeFuint64 host heap value

def readFloat : Res (BitVec 32) := ba.readFuint32 host

def readDouble : Res (BitVec 64) := ba.readFuint64 host

/-! ## Strings -/

/-- A `std::string` has at most `max_size()` bytes. -/
abbrev StdString := { s : List UInt8 // s.length < 2 ^ 63 }

def writeStringF16 (value : StdString) : Res Unit :=
  Res.bind (ba.writeFuint16 host heap (BitVec.ofNat 16 value.1.length)) fun _ ba =>
    ba.write heap value.1

def writeStringF32 (value : StdString) : Res Unit :=
  Res.bind (ba.writeFuint32 host heap (BitVec.ofNat 32 value.1.length)) fun _ ba =>
    ba.write heap value.1

def writeStringF64 (value : StdString) : Res Unit :=
  Res.bind (ba.writeFuint64 host heap (BitVec.ofNat 64 value.1.length)) fun _ ba =>
    ba.write heap value.1

def writeStringVint (value : StdString) : Res Unit :=
  Res.bind (ba.writeUint64 heap (BitVec.ofNat 64 value.1.length)) fun _ ba =>
    ba.write heap value.1

def readStringF16 : Res (List UInt8) :=
  Res.bind (ba.readFuint16 host) fun len ba => ba.read len.toNat

def readStringF32 : Res (List UInt8) :=
  Res.bind (ba.readFuint32 host) fun len ba => ba.read len.toNat

def readStringF64 : Res (List UInt8) :=
  Res.bind (ba.readFuint64 host) fun len ba => ba.read len.toNat

def readStringVint : Res (List UInt8) :=
  Res.bind (ba.readUint64 host) fun len ba => ba.read len.toNat

end

/-! ## The operations by their type -/

inductive Kind where
  | Fint8 | Fuint8 | Fint16 | Fuint16 | Fint32 | Fuint32 | Fint64 | Fuint64
  | Int32 | Uint32 | Int64 | Uint64
  | Float | Double
deriving Repr, DecidableEq

def Kind.bits : Kind → Nat
  | .Fint8 | .Fuint8 => 8
  | .Fint16 | .Fuint16 => 16
  | .Fint32 | .Fuint32 | .Int32 | .Uint32 | .Float => 32
  | .Fint64 | .Fuint64 | .Int64 | .Uint64 | .Double => 64

def writeKind (host : Endian) (heap : Nat → Nat → UInt8) (ba : ByteArray) :
    (k : Kind) → BitVec k.bits → Res Unit
  | .Fint8, v => ba.writeFint8 host heap v
  | .Fuint8, v => ba.writeFuint8 host heap v
  | .Fint16, v => ba.writeFint16 host heap v
  | .Fuint16, v => ba.writeFuint16 host heap v
  | .Fint32, v => ba.writeFint32 host heap v
  | .Fuint32, v => ba.writeFuint32 host heap v
  | .Fint64, v => ba.writeFint64 host heap v
  | .Fuint64, v => ba.writeFuint64 host heap v
  | .Int32, v => ba.writeInt32 heap v
  | .Uint32, v => ba.writeUint32 heap v
  | .Int64, v => ba.writeInt64 heap v
  | .Uint64, v => ba.writeUint64 heap v
  | .Float, v => ba.writeFloat host heap v
  | .Double, v => ba.writeDouble host heap v

def readKind (host : Endian) (ba : ByteArray) : (k : Kind) → Res (BitVec k.bits)
  | .Fint8 => ba.readFint8 host
  | .Fuint8 => ba.readFuint8 host
  | .Fint16 => ba.readFint16 host
  | .Fuint16 => ba.readFuint16 host
  | .Fint32 => ba.readFint32 host
  | .Fuint32 => ba.readFuint32 host
  | .Fint64 => ba.readFint64 host
  | .Fuint64 => ba.readFuint64 host
  | .Int32 => ba.readInt32 host
  | .Uint32 => ba.readUint32 host
  | .Int64 => ba.readInt64 host
  | .Uint64 => ba.readUint64 host
  | .Float => ba.readFloat host
  | .Double => ba.readDouble host

/-- A value with its type, and the byte order it is written in. -/
structure Item where
  little : Bool
  kind : Kind
  value : BitVec kind.bits

def writeItems (host : Endian) (heap : Nat → Nat → UInt8) : List Item → ByteArray → Res Unit
  | [], ba => (.ok (), ba)
  | x :: xs, ba =>
      Res.bind ((ba.setIsLittleEndian x.little).writeKind host heap x.kind x.value) fun _ ba =>
        writeItems host heap xs ba

def readItems (host : Endian) : List (Bool × Kind) → ByteArray → Res (List Item)
  | [], ba => (.ok [], ba)
  | (little, k) :: ks, ba =>
      Res.bind ((ba.setIsLittleEndian little).readKind host k) fun v ba =>
        Res.bind (readItems host ks ba) fun xs ba => (.ok (⟨little, k, v⟩ :: xs), ba)

/-- The pairs of functions for strings, by the type of the length. -/
inductive StringKind where
  | F16 | F32 | F64 | Vint
deriving Repr, DecidableEq

def writeString (host : Endian) (heap : Nat → Nat → UInt8) (ba : ByteArray) :
    StringKind → StdString → Res Unit
  | .F16, v => ba.writeStringF16 host heap v
  | .F32, v => ba.writeStringF32 host heap v
  | .F64, v => ba.writeStringF64 host heap v
  | .Vint, v => ba.writeStringVint heap v

def readString (host : Endian) (ba : ByteArray) : StringKind → Res (List UInt8)
  | .F16 => ba.readStringF16 host
  | .F32 => ba.readStringF32 host
  | .F64 => ba.readStringF64 host
  | .Vint => ba.readStringVint host

end ByteArray

end Sylar
