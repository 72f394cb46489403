import Sylar.FdManager
import Sylar.Lib.Ownership
import Sylar.TcpServer

/-!
# The descriptors of the sockets

The life of the `Socket`s of `socket.cc`: made, bound, connected,
accepted, closed and destroyed, in threads with and without hook, in a
process in which others have descriptors too. What the system calls
answer comes with each operation; the kernel hands out the lowest free
number.

A connection that `accept` has been given but `init` refuses would be
nobody's. `init` refuses what has no context in the `FdManager`, or one
of something else than a socket; but the hooks make contexts of sockets
alone, also those that a `close` without hook has left behind
(`Managed`). So every descriptor has one owner, all along (`Inv`).

Of `connect`, `accept` and `close` as hooks there is here what they do
with the `FdManager`; no event is registered for the descriptors.
-/

namespace Sylar

/-- The descriptors of the process, and their contexts. -/
structure Descriptors (α : Type) where
  kernel : Kernel α
  manager : FdManager
  heap : List FdCtx
deriving Repr, DecidableEq

namespace Descriptors

variable {α : Type}

/-- `FdMgr::GetInstance()->get(fd)`. -/
def context (d : Descriptors α) (fd : Nat) : Option FdCtx :=
  (d.manager.get fd).bind fun addr => d.heap[addr]?

/-- `FdMgr::GetInstance()->get(fd, true)`, of a socket. -/
def manage (d : Descriptors α) (fd : Nat) : Descriptors α :=
  if (d.manager.get fd).isSome then d
  else
    { d with
      heap := d.heap ++ [(FdCtx.init (some true) ⟨0, O_NONBLOCK⟩).1]
      manager := d.manager.put fd d.heap.length }

/-- `socket()`, which the kernel grants. -/
def socket (d : Descriptors α) (hook : Bool) : Nat × Descriptors α :=
  let fd := d.kernel.free
  let d := { d with kernel := d.kernel.put fd (some ⟨none, false⟩) }
  (fd, if hook then d.manage fd else d)

/-- `accept()` of a connection to `addr`. -/
def accept (d : Descriptors α) (addr : Option α) : Nat × Descriptors α :=
  let fd := d.kernel.free
  (fd, { d with kernel := d.kernel.put fd (some ⟨addr, false⟩) }.manage fd)

/-- `close()`. -/
def close (d : Descriptors α) (hook : Bool) (fd : Nat) : Descriptors α :=
  { d with
    kernel := d.kernel.put fd none
    manager := if hook && (d.context fd).isSome then d.manager.del fd else d.manager }

end Descriptors

/-- What the system calls of one operation answer. -/
structure SystemCalls (α : Type) extends Answers α where
  connect : Bool
  accept : Bool
  /-- what `getpeername` says -/
  peername : Option α
deriving Repr, DecidableEq

/-- A `Socket`, with its remote address. -/
structure Endpoint (α : Type) extends Socket α where
  remoteAddress : Option α
deriving Repr, DecidableEq

namespace Endpoint

variable {α : Type}

/-- `Socket::Socket`. -/
def new (family type protocol : Int) : Endpoint α :=
  ⟨⟨none, family, type, protocol, false, none⟩, none⟩

def isValid (s : Endpoint α) : Bool := s.sock.isSome

def withSock (s : Endpoint α) (sock : Option Nat) : Endpoint α :=
  { s with toSocket := { s.toSocket with sock } }

def connected (s : Endpoint α) (isConnected : Bool) : Endpoint α :=
  { s with toSocket := { s.toSocket with isConnected } }

def getLocalAddress (s : Endpoint α) (ans : SystemCalls α) : Endpoint α :=
  { s with toSocket := s.toSocket.getLocalAddress ans.toAnswers }

def getRemoteAddress (s : Endpoint α) (ans : SystemCalls α) : Endpoint α :=
  if s.remoteAddress.isSome then s else { s with remoteAddress := ans.peername }

/-- What `initSock` sets changes nothing here. -/
def newSock (s : Endpoint α) (ans : SystemCalls α) (hook : Bool) (d : Descriptors α) :
    Endpoint α × Descriptors α :=
  if ans.socket then
    match d.socket hook with
    | (fd, d) => (s.withSock (some fd), d)
  else (s.withSock none, d)

/-- `if(!isValid()) newSock();` -/
def ensure (s : Endpoint α) (ans : SystemCalls α) (hook : Bool) (d : Descriptors α) :
    Endpoint α × Descriptors α :=
  if s.isValid then (s, d) else s.newSock ans hook d

def close (s : Endpoint α) (hook : Bool) (d : Descriptors α) :
    Bool × Endpoint α × Descriptors α :=
  if !s.isConnected && s.sock.isNone then (true, s, d)
  else
    match s.sock with
    | none => (false, s.connected false, d)
    | some fd => (false, (s.connected false).withSock none, d.close hook fd)

section

variable (getFamily : α → Int)

def bind (s : Endpoint α) (addr : α) (ans : SystemCalls α) (hook : Bool) (d : Descriptors α) :
    Bool × Endpoint α × Descriptors α :=
  match s.ensure ans hook d with
  | (s, d) =>
      match s.sock with
      | none => (false, s, d)
      | some fd =>
          if getFamily addr ≠ s.family then (false, s, d)
          else if !ans.bind then (false, s, d)
          else
            let listening := ((d.kernel.at? fd).map KernelSocket.listening).getD false
            (true, s.getLocalAddress ans,
              { d with kernel := d.kernel.put fd (some ⟨some addr, listening⟩) })

def listen (s : Endpoint α) (ans : SystemCalls α) (d : Descriptors α) : Bool × Descriptors α :=
  match s.sock with
  | none => (false, d)
  | some fd =>
      if !ans.listen then (false, d)
      else
        let addr := (d.kernel.at? fd).bind KernelSocket.addr
        (true, { d with kernel := d.kernel.put fd (some ⟨addr, true⟩) })

/-- `connect`, with a timeout or without: `ans.connect` is what `connect`
or `connect_with_timeout` says. -/
def connect (s : Endpoint α) (addr : α) (ans : SystemCalls α) (hook : Bool) (d : Descriptors α) :
    Bool × Endpoint α × Descriptors α :=
  match { s with remoteAddress := some addr }.ensure ans hook d with
  | (s, d) =>
      if !s.isValid then (false, s, d)
      else if getFamily addr ≠ s.family then (false, s, d)
      else if !ans.connect then
        match s.close hook d with
        | (_, s, d) => (false, s, d)
      else (true, ((s.connected true).getRemoteAddress ans).getLocalAddress ans, d)

def reconnect (s : Endpoint α) (ans : SystemCalls α) (hook : Bool) (d : Descriptors α) :
    Bool × Endpoint α × Descriptors α :=
  match s.remoteAddress with
  | none => (false, s, d)
  | some addr =>
      connect getFamily { s with toSocket := { s.toSocket with localAddress := none } } addr ans
        hook d

end

/-- `init(sock)` of a new object; `ctx` is what the `FdManager` has for it. -/
def init (s : Endpoint α) (sock : Nat) (ans : SystemCalls α) (ctx : Option FdCtx) :
    Option (Endpoint α) :=
  match ctx with
  | some ctx =>
      if ctx.isSocket && !ctx.isClosed then
        some ((((s.withSock (some sock)).connected true).getLocalAddress ans).getRemoteAddress ans)
      else none
  | none => none

/-- `accept`; `none` is the null pointer. -/
def accept (s : Endpoint α) (ans : SystemCalls α) (d : Descriptors α) :
    Option (Endpoint α) × Descriptors α :=
  match s.sock with
  | none => (none, d)
  | some fd =>
      if !ans.accept then (none, d)
      else
        match d.accept ((d.kernel.at? fd).bind KernelSocket.addr) with
        | (newsock, d) =>
            ((new s.family s.type s.protocol).init newsock ans (d.context newsock), d)

/-- `SOCK_DGRAM` -/
def UDP : Int := 2

/-- `AF_INET` -/
def IPv4 : Int := 2

/-- `AF_INET6` -/
def IPv6 : Int := 10

/-- `AF_UNIX` -/
def UNIX : Int := 1

/-- The functions that make a socket. -/
inductive Maker (α : Type) where
  | CreateTCP (address : α)
  | CreateUDP (address : α)
  | CreateTCPSocket | CreateUDPSocket
  | CreateTCPSocket6 | CreateUDPSocket6
  | CreateUnixTCPSocket | CreateUnixUDPSocket
deriving Repr, DecidableEq

/-- A datagram socket is opened at once, and counts as connected. -/
def opened (s : Endpoint α) (ans : SystemCalls α) (hook : Bool) (d : Descriptors α) :
    Endpoint α × Descriptors α :=
  match s.newSock ans hook d with
  | (s, d) => (s.connected true, d)

def make (getFamily : α → Int) (ans : SystemCalls α) (hook : Bool) (d : Descriptors α) :
    Maker α → Endpoint α × Descriptors α
  | .CreateTCP address => (new (getFamily address) Socket.TCP 0, d)
  | .CreateUDP address => (new (getFamily address) UDP 0).opened ans hook d
  | .CreateTCPSocket => (new IPv4 Socket.TCP 0, d)
  | .CreateUDPSocket => (new IPv4 UDP 0).opened ans hook d
  | .CreateTCPSocket6 => (new IPv6 Socket.TCP 0, d)
  | .CreateUDPSocket6 => (new IPv6 UDP 0).opened ans hook d
  | .CreateUnixTCPSocket => (new UNIX Socket.TCP 0, d)
  | .CreateUnixUDPSocket => (new UNIX UDP 0, d)

end Endpoint

/-! ## All the sockets -/

/-- The descriptors, the objects by their addresses, and the descriptors
of others. -/
structure Sockets (α : Type) where
  descriptors : Descriptors α
  objects : Nat → Option (Endpoint α)
  others : List Nat

inductive SocketOp (α : Type) where
  | make (m : Endpoint.Maker α)
  | bind (addr : α)
  | listen
  | connect (addr : α)
  | reconnect
  /-- `client` is the address of the object for the connection -/
  | accept (client : Nat)
  | close
  /-- the last pointer to it goes -/
  | destroy
deriving Repr, DecidableEq

inductive SocketEvent (α : Type) where
  | op (id : Nat) (op : SocketOp α) (ans : SystemCalls α) (hook : Bool)
  /-- something else in the process opens a descriptor, a socket or not -/
  | openOther (isSocket hook : Bool)
  | closeOther (fd : Nat) (hook : Bool)
deriving Repr, DecidableEq

namespace Sockets

variable {α : Type} (getFamily : α → Int)

/-- `others` being open. -/
def new (kernel : Kernel α) (others : List Nat) : Sockets α :=
  ⟨⟨kernel, .new, []⟩, fun _ => none, others⟩

/-- The kernel has descriptors left: their numbers are below 2^30. -/
def room (w : Sockets α) : Bool := decide (w.descriptors.kernel.free < 2 ^ 30)

/-- The object becomes `r.1`, and the descriptors `r.2`. -/
def put (w : Sockets α) (id : Nat) (r : Option (Endpoint α) × Descriptors α) : Sockets α :=
  { w with descriptors := r.2, objects := Function.update w.objects id r.1 }

/-- An operation on an object, with its answer left out. -/
def onObject (w : Sockets α) (id : Nat) (s : Endpoint α) (ans : SystemCalls α) (hook : Bool) :
    SocketOp α → Option (Sockets α)
  | .make _ => none
  | .bind addr =>
      match s.bind getFamily addr ans hook w.descriptors with
      | (_, s, d) => some (w.put id (some s, d))
  | .listen => some { w with descriptors := (s.listen ans w.descriptors).2 }
  | .connect addr =>
      match s.connect getFamily addr ans hook w.descriptors with
      | (_, s, d) => some (w.put id (some s, d))
  | .reconnect =>
      match s.reconnect getFamily ans hook w.descriptors with
      | (_, s, d) => some (w.put id (some s, d))
  | .accept client =>
      if (w.objects client).isSome then none
      else some (w.put client (s.accept ans w.descriptors))
  | .close =>
      match s.close hook w.descriptors with
      | (_, s, d) => some (w.put id (some s, d))
  | .destroy => some (w.put id (none, (s.close hook w.descriptors).2.2))

def step (w : Sockets α) : SocketEvent α → Option (Sockets α)
  | .op id op ans hook =>
      if (ans.socket || ans.accept) && !w.room then none
      else
        match w.objects id, op with
        | none, .make m =>
            match Endpoint.make getFamily ans hook w.descriptors m with
            | (s, d) => some (w.put id (some s, d))
        | none, _ => none
        | some s, op => w.onObject getFamily id s ans hook op
  | .openOther isSocket hook =>
      if !w.room then none
      else
        match w.descriptors.socket (isSocket && hook) with
        | (fd, d) => some { w with descriptors := d, others := fd :: w.others }
  | .closeOther fd hook =>
      if fd ∈ w.others then
        some { w with descriptors := w.descriptors.close hook fd, others := w.others.erase fd }
      else none

def system : System (Sockets α) (SocketEvent α) where
  init w := ∃ kernel others, w = .new kernel others ∧ others.Nodup ∧
    ∀ fd, (kernel.at? fd).isSome ↔ fd ∈ others
  step := step getFamily

end Sockets

/-! ## What is open -/

namespace Descriptors

variable {α : Type} {d : Descriptors α} {fd : Nat}

/-- The descriptor is open. -/
def Live (d : Descriptors α) (fd : Nat) : Prop := (d.kernel.at? fd).isSome

theorem live_put_some {k : Kernel α} (hfd : fd ≤ k.length) (x : KernelSocket α) (n : Nat) :
    ((k.put fd (some x)).at? n).isSome ↔ n = fd ∨ (k.at? n).isSome := by
  rw [Kernel.at?_put hfd]
  by_cases hn : n = fd
  · simp [hn]
  · simp [hn]

theorem live_put_none {k : Kernel α} (hfd : fd ≤ k.length) (n : Nat) :
    ((k.put fd none).at? n).isSome ↔ n ≠ fd ∧ (k.at? n).isSome := by
  rw [Kernel.at?_put hfd]
  by_cases hn : n = fd
  · simp [hn]
  · simp [hn]

theorem Live.le (h : d.Live fd) : fd ≤ d.kernel.length := by
  obtain ⟨x, hx⟩ := Option.isSome_iff_exists.mp h
  exact Nat.le_of_lt (Kernel.lt_length_of_at? hx)

theorem not_live_free (d : Descriptors α) : ¬d.Live d.kernel.free := by
  rw [Live, Kernel.at?_free]
  exact Bool.false_ne_true

/-- The contexts are those of sockets, and none is closed. -/
structure Managed (d : Descriptors α) : Prop where
  sized : d.manager.Sized
  sockets : ∀ ctx ∈ d.heap, ctx.isSocket = true ∧ ctx.isClosed = false
  known : ∀ fd addr, d.manager.get fd = some addr → addr < d.heap.length

@[simp] theorem manage_kernel (d : Descriptors α) (fd : Nat) : (d.manage fd).kernel = d.kernel := by
  rw [manage]
  split <;> rfl

theorem Managed.manage (h : d.Managed) (hfd : fd < 2 ^ 30) : (d.manage fd).Managed := by
  rw [Descriptors.manage]
  split
  · exact h
  · have hsmall : fd * 3 / 2 < 2 ^ 31 := by omega
    refine ⟨h.sized.put hsmall, fun ctx hctx => ?_, fun fd' addr hget => ?_⟩
    · obtain hctx | hctx := List.mem_append.mp hctx
      · exact h.sockets ctx hctx
      · obtain rfl := List.mem_singleton.mp hctx
        exact ⟨rfl, rfl⟩
    · have hlength : (d.heap ++ [(FdCtx.init (some true) ⟨0, O_NONBLOCK⟩).1]).length =
          d.heap.length + 1 := List.length_append
      rw [h.sized.get_put hsmall] at hget
      rw [hlength]
      split at hget
      · obtain rfl := Option.some.inj hget
        exact Nat.lt_succ_self _
      · exact Nat.lt_succ_of_lt (h.known fd' addr hget)

/-- After `get(fd, true)` there is the context of a socket. -/
theorem Managed.context_manage (h : d.Managed) (hfd : fd < 2 ^ 30) :
    ∃ ctx, (d.manage fd).context fd = some ctx ∧ ctx.isSocket = true ∧ ctx.isClosed = false := by
  obtain ⟨addr, haddr⟩ : ∃ addr, (d.manage fd).manager.get fd = some addr := by
    rw [Descriptors.manage]
    split
    · exact Option.isSome_iff_exists.mp ‹_›
    · exact ⟨_, (h.sized.get_put (by omega) fd).trans (if_pos rfl)⟩
  have hlt := (h.manage hfd).known fd addr haddr
  refine ⟨(d.manage fd).heap[addr], ?_, (h.manage hfd).sockets _ (List.getElem_mem hlt)⟩
  rw [context, haddr, Option.bind_some, List.getElem?_eq_getElem hlt]

/-- With another kernel, and fewer contexts. -/
theorem Managed.fewer (h : d.Managed) (kernel : Kernel α) {m : FdManager} (hm : m.Sized)
    (hknown : ∀ fd addr, m.get fd = some addr → d.manager.get fd = some addr) :
    { d with kernel := kernel, manager := m }.Managed :=
  ⟨hm, h.sockets, fun fd addr hget => h.known fd addr (hknown fd addr hget)⟩

theorem Managed.withKernel (h : d.Managed) (kernel : Kernel α) :
    { d with kernel := kernel }.Managed :=
  h.fewer kernel h.sized fun _ _ hget => hget

theorem socket_snd (d : Descriptors α) (hook : Bool) : (d.socket hook).2 =
    if hook then
      { d with kernel := d.kernel.put d.kernel.free (some ⟨none, false⟩) }.manage d.kernel.free
    else { d with kernel := d.kernel.put d.kernel.free (some ⟨none, false⟩) } := rfl

theorem Managed.socket (h : d.Managed) (hroom : d.kernel.free < 2 ^ 30) (hook : Bool) :
    (d.socket hook).2.Managed := by
  rw [socket_snd]
  split
  · exact (h.withKernel _).manage hroom
  · exact h.withKernel _

theorem socket_kernel (d : Descriptors α) (hook : Bool) :
    (d.socket hook).2.kernel = d.kernel.put d.kernel.free (some ⟨none, false⟩) := by
  rw [socket_snd]
  split
  · rw [manage_kernel]
  · rfl

theorem live_socket (d : Descriptors α) (hook : Bool) (n : Nat) :
    (d.socket hook).2.Live n ↔ n = d.kernel.free ∨ d.Live n := by
  rw [Live, socket_kernel]
  exact live_put_some d.kernel.free_le _ n

theorem get_of_del {m : FdManager} (h : m.Sized) {fd' addr : Nat}
    (hget : (m.del fd).get fd' = some addr) : m.get fd' = some addr := by
  rw [(h.del fd).get_eq, FdManager.del] at hget
  rw [h.get_eq]
  split at hget
  · exact hget
  · rw [List.getElem?_set] at hget
    split at hget
    · split at hget <;> cases hget
    · exact hget

theorem Managed.close (h : d.Managed) (hook : Bool) (fd : Nat) : (d.close hook fd).Managed := by
  rw [Descriptors.close]
  split
  · exact h.fewer _ (h.sized.del fd) fun _ _ hget => get_of_del h.sized hget
  · exact h.withKernel _

theorem live_close (hfd : d.Live fd) (hook : Bool) (n : Nat) :
    (d.close hook fd).Live n ↔ n ≠ fd ∧ d.Live n :=
  live_put_none hfd.le n

end Descriptors

/-! ## What an operation does -/

namespace Endpoint

variable {α : Type} {getFamily : α → Int} {s s' s'' : Endpoint α} {d d' d'' : Descriptors α}
  {ans : SystemCalls α} {hook : Bool} {addr : α}

/-- It is the `bind` that a server calls, with the contexts. -/
theorem bind_toSocket (s : Endpoint α) (addr : α) (ans : SystemCalls α) (hook : Bool)
    (d : Descriptors α) :
    ((s.bind getFamily addr ans hook d).1, (s.bind getFamily addr ans hook d).2.1.toSocket,
      (s.bind getFamily addr ans hook d).2.2.kernel) =
        s.toSocket.bind getFamily addr ans.toAnswers d.kernel := by
  have hensure : ((s.ensure ans hook d).1.toSocket, (s.ensure ans hook d).2.kernel) =
      if s.toSocket.isValid then (s.toSocket, d.kernel)
      else s.toSocket.newSock ans.toAnswers d.kernel := by
    rw [ensure, isValid, Socket.isValid]
    split
    · rfl
    · rw [newSock, Socket.newSock]
      split
      · rw [← Descriptors.socket_kernel d hook]
        rfl
      · rfl
  rw [bind, Socket.bind, ← hensure]
  generalize s.ensure ans hook d = r
  obtain ⟨t, d'⟩ := r
  dsimp only
  cases hsock : t.sock with
  | none => rfl
  | some fd =>
      dsimp only
      split
      · rfl
      split
      · rfl
      · rfl

theorem getLocalAddress_fields (s : Endpoint α) (ans : SystemCalls α) :
    (s.getLocalAddress ans).sock = s.sock ∧ (s.getLocalAddress ans).type = s.type ∧
      (s.getLocalAddress ans).isConnected = s.isConnected := by
  simp only [getLocalAddress, Socket.getLocalAddress]
  split <;> exact ⟨rfl, rfl, rfl⟩

theorem getRemoteAddress_fields (s : Endpoint α) (ans : SystemCalls α) :
    (s.getRemoteAddress ans).sock = s.sock ∧ (s.getRemoteAddress ans).type = s.type ∧
      (s.getRemoteAddress ans).isConnected = s.isConnected := by
  rw [getRemoteAddress]
  split <;> exact ⟨rfl, rfl, rfl⟩

/-- What is connected has a descriptor, a datagram socket apart. -/
def Sane (s : Endpoint α) : Prop := s.isConnected = true → s.sock = none → s.type = UDP

/-- The descriptor that an object has been left with is its own. -/
structure Effect (s : Endpoint α) (d : Descriptors α) (s' : Endpoint α) (d' : Descriptors α) :
    Prop where
  transfer : Transfer d.Live s.sock s'.sock d'.Live
  managed : d.Managed → d'.Managed
  sane : s.Sane → s'.Sane
  type : s'.type = s.type

theorem Effect.stay (hlive : ∀ fd, d'.Live fd ↔ d.Live fd) (hmanaged : d.Managed → d'.Managed)
    (hsock : s'.sock = s.sock) (hsane : s.Sane → s'.Sane) (htype : s'.type = s.type) :
    Effect s d s' d' :=
  ⟨hsock ▸ .stay hlive, hmanaged, hsane, htype⟩

theorem Effect.refl (s : Endpoint α) (d : Descriptors α) : Effect s d s d :=
  .stay (fun _ => Iff.rfl) id rfl id rfl

theorem Effect.trans (h : Effect s d s' d') (h' : Effect s' d' s'' d'') : Effect s d s'' d'' :=
  ⟨h.transfer.trans h'.transfer, fun hd => h'.managed (h.managed hd),
    fun hs => h'.sane (h.sane hs), h'.type.trans h.type⟩

/-- The addresses are no part of it. -/
theorem Effect.of_fields (h : Effect s d s' d') {t : Endpoint α} (hsock : t.sock = s'.sock)
    (hconn : t.isConnected = s'.isConnected) (htype : t.type = s'.type) : Effect s d t d' :=
  ⟨hsock ▸ h.transfer, h.managed, fun hs ht hnone => by
    rw [htype]
    exact h.sane hs (hconn ▸ ht) (hsock ▸ hnone), htype.trans h.type⟩

theorem newSock_effect (hnone : s.sock = none)
    (hroom : ans.socket = true → d.kernel.free < 2 ^ 30) :
    Effect s d (s.newSock ans hook d).1 (s.newSock ans hook d).2 := by
  rw [newSock]
  split
  · rename_i hgranted
    refine ⟨?_, fun hd => hd.socket (hroom hgranted) hook,
      (fun _ _ hsock => nomatch hsock), rfl⟩
    rw [hnone]
    exact .take d.not_live_free fun n => d.live_socket hook n
  · exact .of_fields (.refl s d) hnone.symm rfl rfl

theorem ensure_effect (hroom : ans.socket = true → d.kernel.free < 2 ^ 30) :
    Effect s d (s.ensure ans hook d).1 (s.ensure ans hook d).2 := by
  rw [ensure]
  split
  · exact .refl s d
  · rename_i hvalid
    exact newSock_effect (Option.not_isSome_iff_eq_none.mp hvalid) hroom

theorem close_effect (hheld : ∀ fd, s.sock = some fd → d.Live fd) :
    Effect s d (s.close hook d).2.1 (s.close hook d).2.2 ∧ (s.close hook d).2.1.sock = none := by
  rw [close]
  split
  · rename_i hclosed
    simp only [Bool.and_eq_true, Option.isNone_iff_eq_none] at hclosed
    exact ⟨.refl s d, hclosed.2⟩
  · split
    · rename_i hnone
      exact ⟨.stay (fun _ => Iff.rfl) id rfl (fun _ h => nomatch h) rfl, hnone⟩
    · rename_i fd hfd
      refine ⟨⟨?_, fun hd => hd.close hook fd, (fun _ h => nomatch h), rfl⟩, rfl⟩
      rw [hfd]
      exact .release fun n => Descriptors.live_close (hheld fd hfd) hook n

/-- An entry of the kernel is written again. -/
theorem rewrite_effect {fd : Nat} (hlive : d.Live fd) (x : KernelSocket α) :
    Effect s d s { d with kernel := d.kernel.put fd (some x) } := by
  refine .stay (fun n => ?_) (fun hd => hd.withKernel _) rfl id rfl
  refine (Descriptors.live_put_some hlive.le x n).trans (or_iff_right_of_imp ?_)
  rintro rfl
  exact hlive

theorem bind_effect (hheld : ∀ fd, s.sock = some fd → d.Live fd)
    (hroom : ans.socket = true → d.kernel.free < 2 ^ 30) :
    Effect s d (s.bind getFamily addr ans hook d).2.1 (s.bind getFamily addr ans hook d).2.2 := by
  have hensure : Effect s d (s.ensure ans hook d).1 (s.ensure ans hook d).2 := ensure_effect hroom
  have hheld' := hensure.transfer.alive hheld
  rw [bind]
  generalize s.ensure ans hook d = r at hensure hheld'
  obtain ⟨s', d'⟩ := r
  dsimp only at hensure hheld' ⊢
  split
  · exact hensure
  · rename_i fd hfd
    split
    · exact hensure
    split
    · exact hensure
    · obtain ⟨hsock, htype, hconn⟩ := getLocalAddress_fields s' ans
      exact (hensure.trans (rewrite_effect (hheld' fd hfd) _)).of_fields hsock hconn htype

theorem listen_effect (hheld : ∀ fd, s.sock = some fd → d.Live fd) :
    Effect s d s (s.listen ans d).2 := by
  rw [listen]
  split
  · exact .refl s d
  · rename_i fd hfd
    split
    · exact .refl s d
    · exact rewrite_effect (hheld fd hfd) _

theorem connect_effect (hheld : ∀ fd, s.sock = some fd → d.Live fd)
    (hroom : ans.socket = true → d.kernel.free < 2 ^ 30) :
    Effect s d (s.connect getFamily addr ans hook d).2.1
      (s.connect getFamily addr ans hook d).2.2 := by
  obtain ⟨r, hr⟩ : ∃ r, r = ensure { s with remoteAddress := some addr } ans hook d := ⟨_, rfl⟩
  have hensure : Effect { s with remoteAddress := some addr } d r.1 r.2 := by
    rw [hr]
    exact ensure_effect hroom
  have hheld' := hensure.transfer.alive hheld
  rw [connect, ← hr]
  obtain ⟨s', d'⟩ := r
  have hstart : Effect s d s' d' := ⟨hensure.transfer, hensure.managed, hensure.sane, hensure.type⟩
  dsimp only at hheld' ⊢
  split
  · exact hstart
  split
  · exact hstart
  split
  · exact hstart.trans (close_effect hheld').1
  · rename_i hvalid _ _
    obtain ⟨hsock, htype, -⟩ := getLocalAddress_fields
      ((s'.connected true).getRemoteAddress ans) ans
    obtain ⟨hsock', htype', -⟩ := getRemoteAddress_fields (s'.connected true) ans
    have hsame := hsock.trans hsock'
    refine ⟨hsame ▸ hstart.transfer, hstart.managed, fun _ _ hnone => ?_,
      (htype.trans htype').trans hstart.type⟩
    have hsock'' : s'.sock = none := hsame.symm.trans hnone
    simp [isValid, hsock''] at hvalid

theorem reconnect_effect (hheld : ∀ fd, s.sock = some fd → d.Live fd)
    (hroom : ans.socket = true → d.kernel.free < 2 ^ 30) :
    Effect s d (s.reconnect getFamily ans hook d).2.1
      (s.reconnect getFamily ans hook d).2.2 := by
  rw [reconnect]
  split
  · exact .refl s d
  · have hstart : Effect s d { s with toSocket := { s.toSocket with localAddress := none } } d :=
      (Effect.refl s d).of_fields rfl rfl rfl
    exact hstart.trans (connect_effect hheld hroom)

/-- An object that has just been made. -/
theorem make_effect (hroom : ans.socket = true → d.kernel.free < 2 ^ 30) (m : Maker α) :
    ∃ s₀ : Endpoint α, s₀.sock = none ∧ s₀.Sane ∧
      Effect s₀ d (make getFamily ans hook d m).1 (make getFamily ans hook d m).2 := by
  have hnew (family type : Int) : ∃ s₀ : Endpoint α, s₀.sock = none ∧ s₀.Sane ∧
      Effect s₀ d (new family type 0) d :=
    ⟨_, rfl, fun h => absurd h Bool.false_ne_true, .refl _ d⟩
  have hopened (family : Int) : ∃ s₀ : Endpoint α, s₀.sock = none ∧ s₀.Sane ∧
      Effect s₀ d ((new family UDP 0).opened ans hook d).1
        ((new family UDP 0).opened ans hook d).2 := by
    have heffect : Effect (new family UDP 0) d ((new family UDP 0).newSock ans hook d).1
        ((new family UDP 0).newSock ans hook d).2 := newSock_effect rfl hroom
    exact ⟨_, rfl, fun h => absurd h Bool.false_ne_true, heffect.transfer, heffect.managed,
      fun _ _ _ => heffect.type, heffect.type⟩
  cases m with
  | CreateTCP | CreateTCPSocket | CreateTCPSocket6 | CreateUnixTCPSocket | CreateUnixUDPSocket =>
      exact hnew _ _
  | CreateUDP | CreateUDPSocket | CreateUDPSocket6 => exact hopened _

theorem init_some (s : Endpoint α) (ans : SystemCalls α) (fd : Nat) {ctx : FdCtx}
    (hsocket : ctx.isSocket = true) (hopen : ctx.isClosed = false) :
    ∃ client, s.init fd ans (some ctx) = some client ∧ client.sock = some fd := by
  have hlocal := getLocalAddress_fields ((s.withSock (some fd)).connected true) ans
  have hremote := getRemoteAddress_fields
    (((s.withSock (some fd)).connected true).getLocalAddress ans) ans
  refine ⟨_, if_pos ?_, hremote.1.trans hlocal.1⟩
  rw [hsocket, hopen]
  rfl

/-- `init` accepts whatever the kernel has given. -/
theorem accept_effect (hd : d.Managed) (hroom : ans.accept = true → d.kernel.free < 2 ^ 30) :
    (s.accept ans d).2.Managed ∧ ((s.accept ans d).1 = none ∧ (s.accept ans d).2 = d ∧
        (s.sock = none ∨ ans.accept = false) ∨
      ∃ client, (s.accept ans d).1 = some client ∧ client.sock = some d.kernel.free ∧
        ∀ n, (s.accept ans d).2.Live n ↔ n = d.kernel.free ∨ d.Live n) := by
  rw [accept]
  split
  · rename_i hnone
    exact ⟨hd, .inl ⟨rfl, rfl, .inl hnone⟩⟩
  split
  · rename_i hrefused
    exact ⟨hd, .inl ⟨rfl, rfl, .inr (by simpa using hrefused)⟩⟩
  · rename_i fd _ hgranted
    have hroom := hroom (by simpa using hgranted)
    obtain ⟨addr, haddr⟩ : ∃ addr, addr = (d.kernel.at? fd).bind KernelSocket.addr := ⟨_, rfl⟩
    have hput := hd.withKernel (d.kernel.put d.kernel.free (some ⟨addr, false⟩))
    obtain ⟨ctx, hctx, hsocket, hopen⟩ := hput.context_manage hroom
    obtain ⟨client, hclient, hsock⟩ :=
      init_some (new s.family s.type s.protocol) ans d.kernel.free hsocket hopen
    rw [← haddr, Descriptors.accept]
    dsimp only
    rw [hctx]
    refine ⟨hput.manage hroom, .inr ⟨client, hclient, hsock, fun n => ?_⟩⟩
    rw [Descriptors.Live, Descriptors.manage_kernel]
    exact Descriptors.live_put_some d.kernel.free_le _ n

end Endpoint

/-! ## Whose the descriptors are -/

namespace Sockets

variable {α : Type} {getFamily : α → Int} {w w' : Sockets α} {e : SocketEvent α}

/-- The owner of a descriptor: an object, or somebody else. -/
inductive Owner where
  | object (id : Nat)
  | other (fd : Nat)
deriving DecidableEq

/-- What an owner has. -/
def holds (w : Sockets α) : Owner → Option Nat
  | .object id => (w.objects id).bind fun s => s.sock
  | .other fd => if fd ∈ w.others then some fd else none

structure Inv (w : Sockets α) : Prop where
  exact : Exact w.holds w.descriptors.Live
  managed : w.descriptors.Managed
  sane : ∀ id s, w.objects id = some s → s.Sane
  nodup : w.others.Nodup

@[simp] theorem objects_put_self (w : Sockets α) (id : Nat)
    (r : Option (Endpoint α) × Descriptors α) : (w.put id r).objects id = r.1 :=
  Function.update_self ..

theorem objects_put_other (w : Sockets α) (r : Option (Endpoint α) × Descriptors α) {id id' : Nat}
    (hid : id' ≠ id) : (w.put id r).objects id' = w.objects id' :=
  Function.update_of_ne hid ..

theorem holds_put_self (w : Sockets α) (id : Nat) (r : Option (Endpoint α) × Descriptors α) :
    (w.put id r).holds (.object id) = r.1.bind fun s => s.sock := by
  rw [holds, objects_put_self]

theorem holds_put_other (r : Option (Endpoint α) × Descriptors α) {id : Nat} {o : Owner}
    (ho : o ≠ .object id) : (w.put id r).holds o = w.holds o := by
  cases o with
  | object id' =>
      have hid : id' ≠ id := by
        rintro rfl
        exact ho rfl
      rw [holds, objects_put_other w r hid]
      rfl
  | other fd => rfl

/-- One object goes from what it holds to `x`. -/
theorem Inv.put (h : Inv w) {id : Nat} {r : Option (Endpoint α) × Descriptors α}
    (ht : Transfer w.descriptors.Live (w.holds (.object id)) (r.1.bind fun s => s.sock) r.2.Live)
    (hmanaged : r.2.Managed) (hsane : ∀ s, r.1 = some s → s.Sane) : Inv (w.put id r) := by
  refine ⟨?_, hmanaged, fun id' s hs => ?_, h.nodup⟩
  · exact Exact.transfer ht h.exact rfl (holds_put_self w id r) fun o ho => holds_put_other r ho
  · by_cases hid : id' = id
    · rw [hid, objects_put_self] at hs
      exact hsane s hs
    · rw [objects_put_other w r hid] at hs
      exact h.sane id' s hs

theorem Inv.effect (h : Inv w) {id : Nat} {s s' : Endpoint α} {d : Descriptors α}
    (hs : w.objects id = some s) (heffect : Endpoint.Effect s w.descriptors s' d) :
    Inv (w.put id (some s', d)) := by
  refine h.put ?_ (heffect.managed h.managed) fun t ht => ?_
  · rw [holds, hs]
    exact heffect.transfer
  · obtain rfl := Option.some.inj ht
    exact heffect.sane (h.sane id s hs)

theorem Inv.held (h : Inv w) {id : Nat} {s : Endpoint α} (hs : w.objects id = some s) :
    ∀ fd, s.sock = some fd → w.descriptors.Live fd := by
  intro fd hfd
  refine h.exact.alive (o := .object id) ?_
  rw [holds, hs]
  exact hfd

theorem Inv.make (h : Inv w) {id : Nat} (hnone : w.objects id = none) {ans : SystemCalls α}
    {hook : Bool} (hroom : ans.socket = true → w.descriptors.kernel.free < 2 ^ 30)
    (m : Endpoint.Maker α) {s : Endpoint α} {d : Descriptors α}
    (hmake : Endpoint.make getFamily ans hook w.descriptors m = (s, d)) :
    Inv (w.put id (some s, d)) := by
  obtain ⟨s₀, hsock, hsane, heffect⟩ : ∃ s₀ : Endpoint α, s₀.sock = none ∧ s₀.Sane ∧
      Endpoint.Effect s₀ w.descriptors (Endpoint.make getFamily ans hook w.descriptors m).1
        (Endpoint.make getFamily ans hook w.descriptors m).2 := Endpoint.make_effect hroom m
  rw [hmake] at heffect
  refine h.put ?_ (heffect.managed h.managed) fun t ht => ?_
  · have ht := heffect.transfer
    rw [hsock] at ht
    rw [holds, hnone]
    exact ht
  · obtain rfl := Option.some.inj ht
    exact heffect.sane hsane

theorem Inv.accept (h : Inv w) {client : Nat} (hnone : w.objects client = none)
    (s : Endpoint α) {ans : SystemCalls α}
    (hroom : ans.accept = true → w.descriptors.kernel.free < 2 ^ 30) :
    Inv (w.put client (s.accept ans w.descriptors)) := by
  obtain ⟨hmanaged, ⟨hnull, hsame, -⟩ | ⟨c, hc, hsock, hlive⟩⟩ :=
    Endpoint.accept_effect (s := s) h.managed hroom
  · refine h.put ?_ hmanaged fun t ht => ?_
    · rw [holds, hnone, hnull, hsame]
      exact .stay fun _ => Iff.rfl
    · cases hnull.symm.trans ht
  · refine h.put ?_ hmanaged fun t ht => ?_
    · rw [holds, hnone, hc]
      show Transfer _ none c.sock _
      rw [hsock]
      exact .take w.descriptors.not_live_free hlive
    · obtain rfl := Option.some.inj (hc.symm.trans ht)
      intro _ hno
      cases hsock.symm.trans hno

theorem Inv.onObject (h : Inv w) {id : Nat} {s : Endpoint α} (hs : w.objects id = some s)
    {ans : SystemCalls α} {hook : Bool}
    (hroom : ans.socket = true ∨ ans.accept = true → w.descriptors.kernel.free < 2 ^ 30)
    {op : SocketOp α} (hstep : w.onObject getFamily id s ans hook op = some w') : Inv w' := by
  have hheld := h.held hs
  have hsocket (hans : ans.socket = true) := hroom (.inl hans)
  cases op with
  | make m => cases hstep
  | bind addr =>
      obtain rfl := Option.some.inj hstep
      exact h.effect hs (Endpoint.bind_effect hheld hsocket)
  | listen =>
      obtain rfl := Option.some.inj hstep
      have heffect : Endpoint.Effect s w.descriptors s (s.listen ans w.descriptors).2 :=
        Endpoint.listen_effect hheld
      have hput := h.effect hs heffect
      rwa [Sockets.put, ← hs, Function.update_eq_self] at hput
  | connect addr =>
      obtain rfl := Option.some.inj hstep
      exact h.effect hs (Endpoint.connect_effect hheld hsocket)
  | reconnect =>
      obtain rfl := Option.some.inj hstep
      exact h.effect hs (Endpoint.reconnect_effect hheld hsocket)
  | accept client =>
      rw [Sockets.onObject] at hstep
      split at hstep
      · cases hstep
      · rename_i hfree
        obtain rfl := Option.some.inj hstep
        exact h.accept (Option.not_isSome_iff_eq_none.mp hfree) s fun hans => hroom (.inr hans)
  | close =>
      obtain rfl := Option.some.inj hstep
      exact h.effect hs (Endpoint.close_effect hheld).1
  | destroy =>
      obtain rfl := Option.some.inj hstep
      obtain ⟨heffect, hnone⟩ : Endpoint.Effect s w.descriptors
          (s.close hook w.descriptors).2.1 (s.close hook w.descriptors).2.2 ∧
            (s.close hook w.descriptors).2.1.sock = none := Endpoint.close_effect hheld
      refine h.put ?_ (heffect.managed h.managed) fun t ht => nomatch ht
      have ht := heffect.transfer
      rw [hnone] at ht
      rw [holds, hs]
      exact ht

theorem Inv.openOther (h : Inv w) (hroom : w.descriptors.kernel.free < 2 ^ 30) (hook : Bool) :
    Inv { w with
      descriptors := (w.descriptors.socket hook).2
      others := w.descriptors.kernel.free :: w.others } := by
  have hfresh : w.descriptors.kernel.free ∉ w.others := fun hmem =>
    w.descriptors.not_live_free (h.exact.alive (o := .other _) (if_pos hmem))
  refine ⟨h.exact.take (o := .other w.descriptors.kernel.free) (if_neg hfresh)
    w.descriptors.not_live_free (w.descriptors.live_socket hook)
    (if_pos (List.mem_cons_self ..)) fun o ho => ?_, h.managed.socket hroom hook, h.sane,
    List.nodup_cons.mpr ⟨hfresh, h.nodup⟩⟩
  cases o with
  | object id => rfl
  | other fd =>
      have hne : fd ≠ w.descriptors.kernel.free := fun heq => ho (heq ▸ rfl)
      rw [holds, holds]
      simp [hne]

theorem Inv.closeOther (h : Inv w) {fd : Nat} (hmem : fd ∈ w.others) (hook : Bool) :
    Inv { w with
      descriptors := w.descriptors.close hook fd
      others := w.others.erase fd } := by
  have hheld : w.holds (.other fd) = some fd := if_pos hmem
  refine ⟨h.exact.release hheld (Descriptors.live_close (h.exact.alive hheld) hook)
    (if_neg h.nodup.not_mem_erase) fun o ho => ?_, h.managed.close hook fd, h.sane,
    h.nodup.erase fd⟩
  cases o with
  | object id => rfl
  | other fd' =>
      have hne : fd' ≠ fd := fun heq => ho (heq ▸ rfl)
      rw [holds, holds]
      simp [List.mem_erase_of_ne hne]

theorem Inv.step (h : Inv w) (hstep : w.step getFamily e = some w') : Inv w' := by
  cases e with
  | op id op ans hook =>
      unfold Sockets.step at hstep
      dsimp only at hstep
      split at hstep
      · cases hstep
      rename_i hguard
      have hroom : ans.socket = true ∨ ans.accept = true →
          w.descriptors.kernel.free < 2 ^ 30 := by
        intro hans
        simpa [room, hans] using hguard
      split at hstep
      · rename_i m hnone
        obtain rfl := Option.some.inj hstep
        exact h.make hnone (fun hans => hroom (.inl hans)) m rfl
      · cases hstep
      · rename_i s hs
        exact h.onObject hs hroom hstep
  | openOther isSocket hook =>
      rw [Sockets.step] at hstep
      split at hstep
      · cases hstep
      · rename_i hroom
        obtain rfl := Option.some.inj hstep
        exact h.openOther (by simpa [room] using hroom) _
  | closeOther fd hook =>
      rw [Sockets.step] at hstep
      split at hstep
      · rename_i hmem
        obtain rfl := Option.some.inj hstep
        exact h.closeOther hmem hook
      · cases hstep

theorem new_inv {kernel : Kernel α} {others : List Nat} (hnodup : others.Nodup)
    (hopen : ∀ fd, (kernel.at? fd).isSome ↔ fd ∈ others) : Inv (new kernel others) := by
  have hholds {o : Owner} {fd : Nat} (h : (new kernel others).holds o = some fd) :
      o = .other fd ∧ fd ∈ others := by
    cases o with
    | object id => cases h
    | other fd' =>
        rw [holds] at h
        split at h
        · obtain rfl := Option.some.inj h
          exact ⟨rfl, ‹_›⟩
        · cases h
  refine ⟨⟨fun h => (hopen _).mpr (hholds h).2, fun h h' => (hholds h).1.trans (hholds h').1.symm,
    fun {fd} h => ⟨.other fd, if_pos ((hopen fd).mp h)⟩⟩,
    ⟨FdManager.new_sized, fun ctx h => (nomatch h), fun fd addr h => ?_⟩,
    fun id s h => (nomatch h), hnodup⟩
  have hget : FdManager.new.get fd = some addr := h
  rw [FdManager.new_sized.get_eq, FdManager.new, List.getElem?_replicate] at hget
  split at hget <;> cases hget

/-- **Every descriptor has one owner.** In any run, an open descriptor
belongs to one object or to somebody else, what an object has is open, and
what is connected has one, a datagram socket that could not be opened
apart. So no descriptor is leaked or closed twice; in particular `accept`
makes an object of every connection it is given. -/
theorem owned (h : (system getFamily).Reachable w) :
    (∀ fd, w.descriptors.Live fd → ∃! o, w.holds o = some fd) ∧
      (∀ o fd, w.holds o = some fd → w.descriptors.Live fd) ∧
      (∀ id s, w.objects id = some s → s.Sane) ∧
      ∀ (s : Endpoint α) (ans : SystemCalls α), s.isValid = true → ans.accept = true →
        w.room = true → (s.accept ans w.descriptors).1 ≠ none := by
  have hinv : Inv w := by
    refine h.invariant ?_ fun _ _ _ hw _ hstep => hw.step hstep
    rintro _ ⟨kernel, others, rfl, hnodup, hopen⟩
    exact new_inv hnodup hopen
  refine ⟨fun fd hfd => hinv.exact.existsUnique hfd, fun o fd ho => hinv.exact.alive ho,
    hinv.sane, fun s ans hvalid hans hroom hnull => ?_⟩
  have hfree : w.descriptors.kernel.free < 2 ^ 30 := of_decide_eq_true hroom
  obtain ⟨-, ⟨-, -, hnone | hrefused⟩ | ⟨c, hc, -⟩⟩ :=
    Endpoint.accept_effect (s := s) hinv.managed fun _ : ans.accept = true => hfree
  · rw [Endpoint.isValid, hnone] at hvalid
    cases hvalid
  · cases hrefused.symm.trans hans
  · cases hc.symm.trans hnull

/-- What the calls answer in a run without failures. -/
def granted : SystemCalls Nat := ⟨⟨true, true, some 7, true⟩, true, true, some 8⟩

/-- A server takes a connection; without hook the listening socket goes, and
its number comes back to somebody else. -/
def sampleEvents : List (SocketEvent Nat) :=
  [.op 0 (.make (.CreateTCP 7)) granted true, .op 0 (.bind 7) granted true,
    .op 0 .listen granted true, .op 0 (.accept 1) granted true, .op 0 .close granted false,
    .openOther false false]

theorem owned_sample : ∃ w,
    (system fun _ : Nat => 2).replay (new [some ⟨none, false⟩] [0]) sampleEvents = some w ∧
      w.others = [1, 0] ∧ ∃! o, w.holds o = some 2 := by
  have hinit : (system fun _ : Nat => 2).init (new [some ⟨none, false⟩] [0]) := by
    refine ⟨_, _, rfl, by decide, fun fd => ?_⟩
    cases fd <;> simp [Kernel.at?]
  obtain ⟨w, hw⟩ : ∃ w, (system fun _ : Nat => 2).replay (new [some ⟨none, false⟩] [0])
      sampleEvents = some w := ⟨_, rfl⟩
  have hlive : w.descriptors.Live 2 ∧ w.others = [1, 0] := by
    obtain rfl := Option.some.inj hw
    exact ⟨rfl, rfl⟩
  exact ⟨w, hw, hlive.2, (owned (System.replay_reachable (.init hinit) hw)).1 2 hlive.1⟩

end Sockets

end Sylar
