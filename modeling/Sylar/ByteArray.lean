import Sylar.Lib.BinaryFloat
import Sylar.Lib.Splice
import Sylar.Lib.System

/-!
# The ByteArray: a chain of memory blocks under one cursor

The untyped core of `bytearray.cc`. A `ByteArray` owns a singly linked
chain of blocks (`m_root`, `next`) of `m_baseSize` bytes each, a cursor
`m_position` and a pointer `m_cur` into the chain that the code keeps
in step with the cursor by hand.

The chain is the list `nodes`, `m_root` first; a `Node*` is an index
into it and `none` is the null pointer, so `p->next` is the next index
while there is one (`nodeAt`). An operation returns its outcome next to
the object it leaves behind, because a C++ exception does not undo what
was assigned before it. Following a null `Node*` and a `memcpy` beyond
a block are outcomes of their own (`Fault`), not assumed away.

`new char[s]` leaves a block with arbitrary bytes in it. They are the
parameter `heap`: `heap k` is what the `k`-th block of the chain holds
when it is allocated.
-/

namespace Sylar

open BinaryFloat

/-- How an operation ends when it does not return. -/
inductive Fault where
  /-- `throw std::out_of_range(what)` -/
  | outOfRange (what : String)
  /-- a member of `*m_cur` is used while `m_cur` is null -/
  | nullDeref
  /-- a `memcpy` reaches beyond the memory of its node -/
  | badAccess
deriving Repr, DecidableEq

inductive Endian where
  | little
  | big
deriving Repr, DecidableEq

/-- A block of memory: the bytes at `ptr`, as many as `size` says. -/
structure Node where
  ptr : List UInt8
deriving Repr, DecidableEq

namespace Node

def size (n : Node) : Nat := n.ptr.length

/-- `new Node(s)`. -/
def new (s : Nat) (heap : Nat → UInt8) : Node := ⟨(List.range s).map heap⟩

/-- `memcpy(ptr + off, bytes, ..)`. -/
def store (n : Node) (off : Nat) (bytes : List UInt8) : Except Fault Node :=
  if off + bytes.length ≤ n.size then .ok ⟨splice n.ptr off bytes⟩ else .error .badAccess

/-- `memcpy(.., ptr + off, len)`. -/
def load (n : Node) (off len : Nat) : Except Fault (List UInt8) :=
  if off + len ≤ n.size then .ok ((n.ptr.drop off).take len) else .error .badAccess

@[simp] theorem size_new (s : Nat) (heap : Nat → UInt8) : (new s heap).size = s := by
  simp [new, size]

end Node

structure ByteArray where
  baseSize : Nat
  position : Nat
  capacity : Nat
  size : Nat
  endian : Endian
  nodes : List Node
  cur : Option Nat
deriving Repr, DecidableEq

namespace ByteArray

/-- An outcome and the object left behind. -/
abbrev Res (α : Type) := Except Fault α × ByteArray

/-- `ByteArray::ByteArray(base_size)`. -/
def new (baseSize : Nat) (heap : Nat → Nat → UInt8) : ByteArray :=
  { baseSize := baseSize
    position := 0
    capacity := baseSize
    size := 0
    endian := .big
    nodes := [Node.new baseSize (heap 0)]
    cur := some 0 }

def isLittleEndian (ba : ByteArray) : Bool := ba.endian = .little

def setIsLittleEndian (ba : ByteArray) (val : Bool) : ByteArray :=
  { ba with endian := if val then .little else .big }

/-- The pointer to the `k`-th node: null past the end of the chain. -/
def nodeAt (ba : ByteArray) (k : Nat) : Option Nat :=
  if k < ba.nodes.length then some k else none

def getReadSize (ba : ByteArray) : Nat := ba.size - ba.position

def getCapacity (ba : ByteArray) : Nat := ba.capacity - ba.position

/-- `clear()`: every node but the root is deleted. -/
def clear (ba : ByteArray) : ByteArray :=
  { ba with
    position := 0
    size := 0
    capacity := ba.baseSize
    nodes := ba.nodes.take 1
    cur := some 0 }

/-! ## Growing -/

/-- `ceil(1.0 * size / m_baseSize)`, computed in `double`. -/
def nodeCount (size baseSize : Nat) : Nat :=
  ⌈toBinary 53 (toBinary 53 size / toBinary 53 baseSize)⌉.toNat

/-- The loop that links `count` new nodes behind the last one. -/
def linkNodes (heap : Nat → Nat → UInt8) : Nat → ByteArray → ByteArray
  | 0, ba => ba
  | count + 1, ba => linkNodes heap count
      { ba with
        nodes := ba.nodes ++ [Node.new ba.baseSize (heap ba.nodes.length)]
        capacity := ba.capacity + ba.baseSize }

/-- `addCapacity(size)`: room for `size` bytes at the cursor. -/
def addCapacity (heap : Nat → Nat → UInt8) (ba : ByteArray) (size : Nat) : ByteArray :=
  if size = 0 then ba
  else if size ≤ ba.getCapacity then ba
  else
    let count := nodeCount (size - ba.getCapacity) ba.baseSize
    let grown := linkNodes heap count ba
    -- with no room left `m_cur` is null and moves to the first new node
    if ba.getCapacity = 0 then
      { grown with cur := if count = 0 then none else some ba.nodes.length }
    else grown

/-! ## Writing and reading

The two copy loops walk the chain from `m_cur`. Each returns how many
times it executed `m_cur = m_cur->next` next to its result; the next
iteration looks at the new `m_cur`, which is where a null pointer would
be followed. -/

/-- The loop of `write`: the nodes from `m_cur` on, the offset in the
first of them and the bytes still to be written. -/
def writeFrom : List Node → Nat → List UInt8 → Except Fault (List Node × Nat)
  | [], _, _ => .error .nullDeref
  | n :: rest, npos, buf =>
      if buf.length = 0 then .ok (n :: rest, 0)
      else if buf.length ≤ n.size - npos then do
        let n' ← n.store npos buf
        return (n' :: rest, if n.size = npos + buf.length then 1 else 0)
      else do
        let ncap := n.size - npos
        let n' ← n.store npos (buf.take ncap)
        let (rest', hops) ← writeFrom rest 0 (buf.drop ncap)
        return (n' :: rest', hops + 1)

/-- `write(buf, size)`. -/
def write (heap : Nat → Nat → UInt8) (ba : ByteArray) (buf : List UInt8) : Res Unit :=
  if buf.length = 0 then (.ok (), ba)
  else
    let ba := ba.addCapacity heap buf.length
    match ba.cur with
    | none => (.error .nullDeref, ba)
    | some i =>
        match writeFrom (ba.nodes.drop i) (ba.position % ba.baseSize) buf with
        | .error e => (.error e, ba)
        | .ok (tail, hops) =>
            let position := ba.position + buf.length
            (.ok (),
              { ba with
                nodes := ba.nodes.take i ++ tail
                cur := ba.nodeAt (i + hops)
                position := position
                size := if position > ba.size then position else ba.size })

/-- The loop of `read`, as `writeFrom`. -/
def readFrom : List Node → Nat → Nat → Except Fault (List UInt8 × Nat)
  | [], _, _ => .error .nullDeref
  | n :: rest, npos, size =>
      if size = 0 then .ok ([], 0)
      else if size ≤ n.size - npos then do
        let bytes ← n.load npos size
        return (bytes, if n.size = npos + size then 1 else 0)
      else do
        let ncap := n.size - npos
        let bytes ← n.load npos ncap
        let (more, hops) ← readFrom rest 0 (size - ncap)
        return (bytes ++ more, hops + 1)

/-- `read(buf, size)`; the bytes are what it leaves in `buf`. -/
def read (ba : ByteArray) (size : Nat) : Res (List UInt8) :=
  if size > ba.getReadSize then (.error (.outOfRange "not enough len"), ba)
  else
    match ba.cur with
    | none => (.error .nullDeref, ba)
    | some i =>
        match readFrom (ba.nodes.drop i) (ba.position % ba.baseSize) size with
        | .error e => (.error e, ba)
        | .ok (bytes, hops) =>
            (.ok bytes, { ba with cur := ba.nodeAt (i + hops), position := ba.position + size })

/-- The search of `setPosition` for the node `v` bytes after the root:
how often it executes `m_cur = m_cur->next`. -/
def seek : List Node → Nat → Except Fault Nat
  | [], _ => .error .nullDeref
  | n :: rest, v =>
      if v > n.size then do
        let hops ← seek rest (v - n.size)
        return hops + 1
      else .ok (if v = n.size then 1 else 0)

/-- `setPosition(v)`. -/
def setPosition (ba : ByteArray) (v : Nat) : Res Unit :=
  if v > ba.capacity then (.error (.outOfRange "set_position out of range"), ba)
  else
    let ba := { ba with position := v, size := if v > ba.size then v else ba.size }
    match seek ba.nodes v with
    | .error e => (.error e, ba)
    | .ok hops => (.ok (), { ba with cur := ba.nodeAt hops })

/-! ## Runs -/

/-- A call on the object, with the memory its allocations would get. -/
inductive Op where
  | write (heap : Nat → Nat → UInt8) (buf : List UInt8)
  | read (n : Nat)
  | setPosition (v : Nat)
  | clear

/-- One call: what it returns (the bytes of a `read`) and the object
after it. -/
def call (ba : ByteArray) : Op → Res (List UInt8)
  | .write heap buf => (ba.write heap buf).map (Except.map fun _ => []) id
  | .read n => ba.read n
  | .setPosition v => (ba.setPosition v).map (Except.map fun _ => []) id
  | .clear => (.ok [], ba.clear)

/-- The argument sizes for which `addCapacity` computes exactly, and
no read of nothing. -/
def Op.Sized : Op → Prop
  | .write _ buf => buf.length < 2 ^ 53
  | .read n => 1 ≤ n ∧ n < 2 ^ 53
  | .setPosition v => v < 2 ^ 53
  | .clear => True

/-- A fresh object and any calls on it; the caller survives an
exception. -/
def system (baseSize : Nat) : System ByteArray Op where
  init ba := ∃ heap, ba = new baseSize heap
  step ba op := some (ba.call op).2

end ByteArray

end Sylar
