import Mathlib.Logic.Function.Basic
import Sylar.HookNonblock

/-!
# The contexts of descriptors

`FdManager` in `fd_manager.cc`, with what `socket`, `accept`, `close`,
`setsockopt`, `fcntl` and `ioctl` do with it, called by any number of
threads. A step is a critical section of the `FdManager`, a use of a
context, or a call of the original function; between two of them other
threads run. `do_io` in front of `accept_f` leaves all this alone.

A `close` in a thread whose hook is disabled does not go to the
`FdManager`. The context stays, and `get(fd, true)` returns it when the
kernel hands out the number again.
-/

namespace Sylar

/-- `setTimeout(type, v)`, where `rcvTimeo` is `type == SO_RCVTIMEO`. -/
def FdCtx.setTimeout (ctx : FdCtx) (rcvTimeo : Bool) (v : Nat) : FdCtx :=
  if rcvTimeo then { ctx with recvTimeout := v } else { ctx with sendTimeout := v }

/-- `m_datas`, of the addresses of the contexts. -/
structure FdManager where
  datas : List (Option Nat)
deriving Repr, DecidableEq

namespace FdManager

def new : FdManager := ⟨List.replicate 64 none⟩

/-- `(int)m_datas.size()`. -/
def size (m : FdManager) : Int := toInt32 m.datas.length

/-- `get(fd)`. -/
def get (m : FdManager) (fd : Nat) : Option Nat :=
  if m.size ≤ fd then none else m.datas[fd]?.join

/-- `m_datas.resize(n)`. -/
def resize (m : FdManager) (n : Nat) : FdManager :=
  ⟨m.datas.take n ++ List.replicate (n - m.datas.length) none⟩

/-- The end of `get(fd, true)`. -/
def put (m : FdManager) (fd addr : Nat) : FdManager :=
  let m := if m.size ≤ fd then m.resize (fd * 3 / 2) else m
  ⟨m.datas.set fd (some addr)⟩

def del (m : FdManager) (fd : Nat) : FdManager :=
  if m.size ≤ fd then m else ⟨m.datas.set fd none⟩

end FdManager

/-- `fcntl(F_SETFL)`, `ioctl(FIONBIO)`, and `setsockopt` for a timeout of
`v` milliseconds. -/
inductive Control where
  | setfl (arg : BitVec 32)
  | fionbio (v : BitVec 32)
  | timeout (rcvTimeo : Bool) (v : Nat)
deriving Repr, DecidableEq

namespace Control

/-- What becomes of the context, and the call that the kernel gets. -/
def onCtx (c : Control) (ctx : FdCtx) : FdCtx × Control :=
  match c with
  | .setfl arg =>
      if ctx.isClosed || !ctx.isSocket then (ctx, c)
      else ({ ctx with userNonblock := isNonblock arg },
        .setfl (if ctx.sysNonblock then arg ||| O_NONBLOCK else arg &&& ~~~O_NONBLOCK))
  | .fionbio v =>
      if ctx.isClosed || !ctx.isSocket then (ctx, c)
      else ({ ctx with userNonblock := v != 0 }, c)
  | .timeout rcvTimeo v => (ctx.setTimeout rcvTimeo v, c)

/-- The original function. -/
def onFile : Control → File → File
  | .setfl arg, file => file.setfl arg
  | .fionbio v, file => file.fionbio v
  | .timeout .., file => file

/-- `setsockopt` looks at `t_hook_enable`, the others do not. -/
def hooked : Control → Bool → Bool
  | .timeout .., hookEnable => hookEnable
  | _, _ => true

end Control

namespace Process

/-- Where a caller is. -/
inductive Place where
  | idle
  /-- before `socket_f` or `accept_f`; `manage` is whether `get(fd, true)` comes after it -/
  | kernel (manage : Bool)
  /-- before the read lock of `get(fd, true)` -/
  | find (fd : Nat)
  /-- before its write lock -/
  | make (fd : Nat)
  /-- `socket` or `accept` has returned `fd` -/
  | opened (fd : Nat)
  | del (fd : Nat)
  /-- before `close_f` -/
  | close (fd : Nat)
  /-- `ctx` is what `get(fd)` has returned -/
  | control (fd : Nat) (ctx : Option Nat) (c : Control)
  /-- before the original function -/
  | original (fd : Nat) (c : Control)
deriving Repr, DecidableEq

end Process

/-- The process: of each open descriptor whether it is a socket, and its
file; the contexts ever made; and where the callers are. -/
structure Process where
  files : Nat → Option (Bool × File)
  heap : List FdCtx
  manager : FdManager
  callers : Nat → Process.Place

namespace Process

/-- Before the first of the calls, `files` being open. -/
def new (files : Nat → Option (Bool × File)) : Process := ⟨files, [], .new, fun _ => .idle⟩

def move (s : Process) (t : Nat) (p : Place) : Process :=
  { s with callers := Function.update s.callers t p }

def setFile (s : Process) (fd : Nat) (file : Option (Bool × File)) : Process :=
  { s with files := Function.update s.files fd file }

inductive Action where
  | socket (t : Nat) (hookEnable : Bool)
  | accept (t : Nat)
  /-- `socket_f` or `accept_f`, and its result -/
  | kernel (t : Nat) (r : Option (Nat × File))
  | find (t : Nat)
  | make (t : Nat)
  | done (t : Nat)
  | close (t fd : Nat) (hookEnable : Bool)
  | del (t : Nat)
  | closeFd (t : Nat)
  | control (t fd : Nat) (c : Control) (hookEnable : Bool)
  | use (t : Nat)
  | original (t : Nat) (ok : Bool)
  /-- the kernel hands a number out for something else -/
  | other (fd : Nat) (isSocket : Bool) (file : File)

/-- `socket_f` and `accept_f`: a number that is free, for a file whose
mode can be changed. -/
def kernel (s : Process) (t : Nat) (r : Option (Nat × File)) : Option Process :=
  match s.callers t, r with
  | .kernel _, none => some (s.move t .idle)
  | .kernel manage, some (fd, file) =>
      if s.files fd = none ∧ isNonblock file.settable = true then
        some ((s.setFile fd (some (true, file))).move t (if manage then .find fd else .idle))
      else none
  | _, _ => none

/-- `get(fd, true)` under the read lock. -/
def find (s : Process) (t : Nat) : Option Process :=
  match s.callers t with
  | .find fd => some (s.move t (if (s.manager.get fd).isSome then .opened fd else .make fd))
  | _ => none

/-- `get(fd, true)` under the write lock, with the constructor. -/
def make (s : Process) (t : Nat) : Option Process :=
  match s.callers t with
  | .make fd =>
      let r := FdCtx.init ((s.files fd).map Prod.fst) ((s.files fd).elim ⟨0, 0⟩ Prod.snd)
      let s := s.setFile fd ((s.files fd).map fun f => (f.1, r.2))
      some ({ s with
        heap := s.heap ++ [r.1]
        manager := s.manager.put fd s.heap.length }.move t (.opened fd))
  | _ => none

/-- The call of `get(fd)`, where there is one. -/
def control (s : Process) (t fd : Nat) (c : Control) (hookEnable : Bool) : Option Process :=
  if s.callers t = .idle then
    some (s.move t (if c.hooked hookEnable then .control fd (s.manager.get fd) c
      else .original fd c))
  else none

/-- What is done with the context. -/
def use (s : Process) (t : Nat) : Option Process :=
  match s.callers t with
  | .control fd none c => some (s.move t (.original fd c))
  | .control fd (some addr) c =>
      (s.heap[addr]?).map fun ctx =>
        { s with heap := s.heap.set addr (c.onCtx ctx).1 }.move t (.original fd (c.onCtx ctx).2)
  | _ => none

def original (s : Process) (t : Nat) (ok : Bool) : Option Process :=
  match s.callers t with
  | .original fd c =>
      let file := (s.files fd).map fun f => (f.1, if ok then c.onFile f.2 else f.2)
      some ((s.setFile fd file).move t .idle)
  | _ => none

def step (s : Process) : Action → Option Process
  | .socket t hookEnable =>
      if s.callers t = .idle then some (s.move t (.kernel hookEnable)) else none
  | .accept t => if s.callers t = .idle then some (s.move t (.kernel true)) else none
  | .kernel t r => s.kernel t r
  | .find t => s.find t
  | .make t => s.make t
  | .done t =>
      match s.callers t with
      | .opened _ => some (s.move t .idle)
      | _ => none
  | .close t fd hookEnable =>
      if s.callers t = .idle then
        some (s.move t (if hookEnable && (s.manager.get fd).isSome then .del fd else .close fd))
      else none
  | .del t =>
      match s.callers t with
      | .del fd => some ({ s with manager := s.manager.del fd }.move t (.close fd))
      | _ => none
  | .closeFd t =>
      match s.callers t with
      | .close fd => some ((s.setFile fd none).move t .idle)
      | _ => none
  | .control t fd c hookEnable => s.control t fd c hookEnable
  | .use t => s.use t
  | .original t ok => s.original t ok
  | .other fd isSocket file =>
      if s.files fd = none then some (s.setFile fd (some (isSocket, file))) else none

def system : System Process Action where
  init s := ∃ files, s = new files
  step := step

/-- `get(fd)` gives a context that remembers nothing, and the file is in
non-blocking mode. -/
def Fresh (s : Process) (fd : Nat) : Prop :=
  ∃ addr ctx file, s.manager.get fd = some addr ∧ s.heap[addr]? = some ctx ∧
    ctx.recvTimeout = noTimeout ∧ ctx.sendTimeout = noTimeout ∧ ctx.userNonblock = false ∧
    ctx.isSocket = true ∧ s.files fd = some (true, file) ∧ isNonblock file.flags = true

/-- `get(fd, true)` is in progress. -/
def Opening (p : Place) (fd : Nat) : Prop := p = .find fd ∨ p = .make fd

/-- A number is given back to the kernel without a context, and not before
the call that made it has returned. The kernel's numbers are small enough
for the size of `m_datas` to be an `int`. -/
def Clean (s : Process) : Action → Prop
  | .kernel _ (some (fd, _)) => fd * 3 / 2 < 2 ^ 31
  | .closeFd t => ∀ fd, s.callers t = .close fd → s.files fd ≠ none →
      s.manager.get fd = none ∧ ∀ t', ¬Opening (s.callers t') fd
  | _ => True

end Process

/-! ## The table -/

namespace FdManager

variable {m : FdManager} {fd fd' addr : Nat}

/-- The size is an `int`, and a table that has to grow does. -/
structure Sized (m : FdManager) : Prop where
  low : 64 ≤ m.datas.length
  high : m.datas.length < 2 ^ 31

theorem new_sized : Sized new := ⟨by simp [new], by simp [new]⟩

theorem Sized.get_eq (h : m.Sized) (fd : Nat) : m.get fd = m.datas[fd]?.join := by
  rw [get, size, toInt32_eq h.high]
  split
  · rename_i hle
    rw [List.getElem?_eq_none (by omega)]
    rfl
  · rfl

theorem Sized.del (h : m.Sized) (fd : Nat) : (m.del fd).Sized := by
  rw [FdManager.del]
  split
  · exact h
  · exact ⟨by rw [List.length_set]; exact h.low, by rw [List.length_set]; exact h.high⟩

theorem Sized.get_del (h : m.Sized) (hnone : m.get fd' = none) : (m.del fd).get fd' = none := by
  rw [h.get_eq] at hnone
  rw [(h.del fd).get_eq, FdManager.del]
  split
  · exact hnone
  · rw [List.getElem?_set]
    split
    · split <;> rfl
    · exact hnone

/-- The table that `put` writes into. -/
theorem put_eq (m : FdManager) (fd addr : Nat) : m.put fd addr =
    ⟨(if m.size ≤ fd then m.resize (fd * 3 / 2) else m).datas.set fd (some addr)⟩ := rfl

theorem Sized.grown (h : m.Sized) (hfd : fd * 3 / 2 < 2 ^ 31) :
    ∃ m', (if m.size ≤ fd then m.resize (fd * 3 / 2) else m) = m' ∧ m'.Sized ∧
      fd < m'.datas.length ∧ ∀ fd' : Nat, m'.datas[fd']?.join = m.datas[fd']?.join := by
  have hlow := h.low
  rw [size, toInt32_eq h.high]
  by_cases hle : (m.datas.length : Int) ≤ fd
  · have hlength : (m.resize (fd * 3 / 2)).datas.length = fd * 3 / 2 := by
      rw [resize, List.length_append, List.length_take, List.length_replicate]
      omega
    refine ⟨_, if_pos hle, ⟨by omega, by omega⟩, by omega, fun fd' => ?_⟩
    rw [resize, List.take_of_length_le (by omega), List.getElem?_append]
    split
    · rfl
    · rename_i hge
      rw [List.getElem?_eq_none (Nat.le_of_not_lt hge), List.getElem?_replicate]
      split <;> rfl
  · exact ⟨_, if_neg hle, h, by omega, fun _ => rfl⟩

theorem Sized.put (h : m.Sized) (hfd : fd * 3 / 2 < 2 ^ 31) : (m.put fd addr).Sized := by
  obtain ⟨m', hm', hsized, -, -⟩ := h.grown hfd
  rw [put_eq, hm']
  exact ⟨by rw [List.length_set]; exact hsized.low, by rw [List.length_set]; exact hsized.high⟩

theorem Sized.get_put (h : m.Sized) (hfd : fd * 3 / 2 < 2 ^ 31) (fd' : Nat) :
    (m.put fd addr).get fd' = if fd' = fd then some addr else m.get fd' := by
  rw [(h.put hfd).get_eq, h.get_eq]
  obtain ⟨m', hm', -, hlt, hsame⟩ := h.grown hfd
  rw [put_eq, hm', List.getElem?_set]
  by_cases heq : fd = fd'
  · rw [if_pos heq, if_pos hlt, if_pos heq.symm]
    rfl
  · rw [if_neg heq, if_neg (Ne.symm heq), hsame]

end FdManager

end Sylar
