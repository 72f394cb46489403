import Mathlib.Data.List.Forall2
import Mathlib.Tactic.Common

/-!
# Binding a server to several addresses

`TcpServer::bind` in `tcp_server.cc`, with the parts of `Socket` that it
uses. What the system calls answer is given with each address; the kernel
is the table of the descriptors of the process.

After a failure the whole of `m_socks` is cleared, not only what the call
has added to it (`bind_iff`).
-/

namespace Sylar

/-! ## The kernel -/

structure KernelSocket (α : Type) where
  addr : Option α
  listening : Bool
deriving Repr, DecidableEq

/-- The descriptors of the process, by their numbers. -/
abbrev Kernel (α : Type) := List (Option (KernelSocket α))

namespace Kernel

variable {α : Type}

def at? (k : Kernel α) (fd : Nat) : Option (KernelSocket α) := k[fd]?.join

/-- `socket()` takes the lowest free descriptor. -/
def free (k : Kernel α) : Nat := k.findIdx Option.isNone

def put (k : Kernel α) (fd : Nat) (x : Option (KernelSocket α)) : Kernel α :=
  if fd < k.length then k.set fd x else k ++ [x]

theorem free_le (k : Kernel α) : k.free ≤ k.length := List.findIdx_le_length

theorem at?_free (k : Kernel α) : k.at? k.free = none := by
  rw [at?]
  by_cases h : k.free < k.length
  · have hnone := List.findIdx_getElem (w := h)
    rw [List.getElem?_eq_getElem h, Option.join_some]
    exact Option.isNone_iff_eq_none.mp hnone
  · rw [List.getElem?_eq_none (Nat.le_of_not_lt h), Option.join_none]

theorem at?_put {k : Kernel α} {fd : Nat} (hfd : fd ≤ k.length) (x : Option (KernelSocket α))
    (n : Nat) : (k.put fd x).at? n = if n = fd then x else k.at? n := by
  rw [put]
  split
  · rename_i hlt
    rw [at?, List.getElem?_set]
    by_cases hn : n = fd
    · subst hn
      simp [hlt]
    · rw [if_neg (Ne.symm hn), if_neg hn, at?]
  · rename_i hge
    obtain rfl : fd = k.length := by omega
    rw [at?, List.getElem?_append]
    by_cases hn : n = k.length
    · subst hn
      simp
    · rw [if_neg hn, at?]
      split
      · rfl
      · rw [List.getElem?_eq_none (l := k) (by omega), List.getElem?_eq_none]
        rw [List.length_singleton]
        omega

theorem length_put_le {k : Kernel α} {fd : Nat} (x : Option (KernelSocket α)) :
    k.length ≤ (k.put fd x).length := by
  rw [put]
  split <;> simp

theorem lt_length_of_at? {k : Kernel α} {fd : Nat} {x : KernelSocket α}
    (h : k.at? fd = some x) : fd < k.length := by
  by_contra hge
  rw [at?, List.getElem?_eq_none (Nat.le_of_not_lt hge)] at h
  cases h

end Kernel

/-! ## Sockets -/

/-- What the system calls answer for one address. -/
structure Answers (α : Type) where
  socket : Bool
  bind : Bool
  /-- what `getsockname` says -/
  sockname : Option α
  listen : Bool
deriving Repr, DecidableEq

/-- `sock` is `none` for -1. -/
structure Socket (α : Type) where
  sock : Option Nat
  family : Int
  type : Int
  protocol : Int
  isConnected : Bool
  localAddress : Option α
deriving Repr, DecidableEq

namespace Socket

variable {α : Type} (getFamily : α → Int)

/-- `SOCK_STREAM` -/
def TCP : Int := 1

def CreateTCP (address : α) : Socket α := ⟨none, getFamily address, TCP, 0, false, none⟩

def isValid (s : Socket α) : Bool := s.sock.isSome

/-- What `initSock` sets changes nothing here. -/
def newSock (s : Socket α) (ans : Answers α) (k : Kernel α) : Socket α × Kernel α :=
  if ans.socket then
    ({ s with sock := some k.free }, k.put k.free (some ⟨none, false⟩))
  else ({ s with sock := none }, k)

def getLocalAddress (s : Socket α) (ans : Answers α) : Socket α :=
  if s.localAddress.isSome then s else { s with localAddress := ans.sockname }

def bind (s : Socket α) (addr : α) (ans : Answers α) (k : Kernel α) :
    Bool × Socket α × Kernel α :=
  let (s, k) := if s.isValid then (s, k) else s.newSock ans k
  match s.sock with
  | none => (false, s, k)
  | some fd =>
      if getFamily addr ≠ s.family then (false, s, k)
      else if !ans.bind then (false, s, k)
      else
        let listening := ((k.at? fd).map KernelSocket.listening).getD false
        (true, s.getLocalAddress ans, k.put fd (some ⟨some addr, listening⟩))

def listen (s : Socket α) (ans : Answers α) (k : Kernel α) : Bool × Kernel α :=
  match s.sock with
  | none => (false, k)
  | some fd =>
      if !ans.listen then (false, k)
      else (true, k.put fd (some ⟨(k.at? fd).bind KernelSocket.addr, true⟩))

/-- `close()`, also of the destructor. -/
def close (s : Socket α) (k : Kernel α) : Kernel α :=
  match s.sock with
  | none => k
  | some fd => k.put fd none

end Socket

/-! ## The server -/

structure TcpServer (α : Type) where
  socks : List (Socket α)
deriving Repr, DecidableEq

namespace TcpServer

variable {α : Type} (getFamily : α → Int)

/-- What the loop of `bind` changes. -/
structure Bound (α : Type) where
  socks : List (Socket α)
  fails : List α
  kernel : Kernel α
deriving Repr, DecidableEq

/-- The body of the loop. A socket that is not kept is destroyed. -/
def bindAddr (b : Bound α) (call : α × Answers α) : Bound α :=
  let (addr, ans) := call
  let (ok, sock, k) := (Socket.CreateTCP getFamily addr).bind getFamily addr ans b.kernel
  if !ok then { b with fails := b.fails ++ [addr], kernel := sock.close k }
  else
    let (ok, k) := sock.listen ans k
    if !ok then { b with fails := b.fails ++ [addr], kernel := sock.close k }
    else { b with socks := b.socks ++ [sock], kernel := k }

structure BindResult (α : Type) where
  ok : Bool
  server : TcpServer α
  fails : List α
  kernel : Kernel α
deriving Repr, DecidableEq

/-- `held` are the sockets that the accept loop has as well, and so are not
destroyed with `m_socks`. -/
def bind (held : Socket α → Bool) (server : TcpServer α) (calls : List (α × Answers α))
    (fails : List α) (k : Kernel α) : BindResult α :=
  let b := calls.foldl (bindAddr getFamily) ⟨server.socks, fails, k⟩
  if !b.fails.isEmpty then
    ⟨false, ⟨[]⟩, b.fails, (b.socks.filter fun s => !held s).foldl (fun k s => s.close k) b.kernel⟩
  else ⟨true, ⟨b.socks⟩, b.fails, b.kernel⟩

/-- The overload for one address. -/
def bindOne (held : Socket α → Bool) (server : TcpServer α) (addr : α) (ans : Answers α)
    (k : Kernel α) : BindResult α :=
  bind getFamily held server [(addr, ans)] [] k

/-! ## One address -/

/-- The address can be bound and listened on. -/
def granted (ans : Answers α) : Bool := ans.socket && ans.bind && ans.listen

variable {getFamily} {b : Bound α} {addr : α} {ans : Answers α}

/-- Later writes to the free descriptor are all that is left of it. -/
theorem at?_put_free {k k' : Kernel α} {x y : Option (KernelSocket α)}
    (hk : k.free ≤ k'.length ∧ ∀ n, k'.at? n = if n = k.free then x else k.at? n) :
    k.free ≤ (k'.put k.free y).length ∧
      ∀ n, (k'.put k.free y).at? n = if n = k.free then y else k.at? n := by
  refine ⟨Nat.le_trans hk.1 (Kernel.length_put_le y), fun n => ?_⟩
  rw [Kernel.at?_put hk.1]
  split
  · rfl
  · rename_i hn
    rw [hk.2, if_neg hn]

theorem at?_free_self (k : Kernel α) :
    k.free ≤ k.length ∧ ∀ n, k.at? n = if n = k.free then none else k.at? n := by
  refine ⟨k.free_le, fun n => ?_⟩
  split
  · rename_i hn
    rw [hn, k.at?_free]
  · rfl

theorem bindAddr_granted (h : granted ans = true) :
    ∃ s, s.sock = some b.kernel.free ∧
      (bindAddr getFamily b (addr, ans)).socks = b.socks ++ [s] ∧
      (bindAddr getFamily b (addr, ans)).fails = b.fails ∧
      ∀ n, (bindAddr getFamily b (addr, ans)).kernel.at? n =
        if n = b.kernel.free then some ⟨some addr, true⟩ else b.kernel.at? n := by
  obtain ⟨⟨hsocket, hbind⟩, hlisten⟩ : (ans.socket = true ∧ ans.bind = true) ∧
      ans.listen = true := by simpa [granted] using h
  have hone := at?_put_free (y := some ⟨none, false⟩) (at?_free_self b.kernel)
  have htwo := at?_put_free (y := some ⟨some addr, false⟩) hone
  have hthree := at?_put_free (y := some ⟨some addr, true⟩) htwo
  simp [bindAddr, Socket.bind, Socket.CreateTCP, Socket.isValid, Socket.newSock,
    Socket.getLocalAddress, Socket.listen, hsocket, hbind, hlisten, hone.2, htwo.2, hthree.2]

theorem bindAddr_refused (h : granted ans = false) :
    (bindAddr getFamily b (addr, ans)).socks = b.socks ∧
      (bindAddr getFamily b (addr, ans)).fails = b.fails ++ [addr] ∧
      ∀ n, (bindAddr getFamily b (addr, ans)).kernel.at? n = b.kernel.at? n := by
  have hone := at?_put_free (y := some ⟨none, false⟩) (at?_free_self b.kernel)
  have htwo := at?_put_free (y := some ⟨some addr, false⟩) hone
  have hclosed (n : Nat) : (if n = b.kernel.free then none else b.kernel.at? n) = b.kernel.at? n :=
    ((at?_free_self b.kernel).2 n).symm
  cases hsocket : ans.socket with
  | false =>
      simp [bindAddr, Socket.bind, Socket.CreateTCP, Socket.isValid, Socket.newSock, Socket.close,
        hsocket]
  | true =>
      cases hbind : ans.bind with
      | false =>
          simp [bindAddr, Socket.bind, Socket.CreateTCP, Socket.isValid, Socket.newSock,
            Socket.close, hsocket, hbind, (at?_put_free hone).2, hclosed]
      | true =>
          have hlisten : ans.listen = false := by simpa [granted, hsocket, hbind] using h
          simp [bindAddr, Socket.bind, Socket.CreateTCP, Socket.isValid, Socket.newSock,
            Socket.getLocalAddress, Socket.listen, Socket.close, hsocket, hbind, hlisten, hone.2,
            (at?_put_free htwo).2, hclosed]

/-! ## The loop -/

/-- The socket listens on the address. -/
def Serves (k : Kernel α) (addr : α) (s : Socket α) : Prop :=
  ∃ fd, s.sock = some fd ∧ k.at? fd = some ⟨some addr, true⟩

/-- Each address has a socket of its own that was not there before, and all
that was open before still is. -/
structure Served (k k' : Kernel α) (addrs : List α) (news : List (Socket α)) : Prop where
  serves : List.Forall₂ (Serves k') addrs news
  fresh : ∀ s ∈ news, ∀ fd ∈ s.sock, k.at? fd = none
  nodup : (news.map Socket.sock).Nodup
  kept : ∀ fd x, k.at? fd = some x → k'.at? fd = some x

theorem Served.refl (k : Kernel α) : Served k k [] [] where
  serves := .nil
  fresh _ hs := nomatch hs
  nodup := .nil
  kept _ _ h := h

/-- One more socket, before the others. -/
theorem Served.cons {k k₁ k' : Kernel α} {addrs : List α} {news : List (Socket α)}
    {s : Socket α} (hsock : s.sock = some k.free)
    (hkernel : ∀ n, k₁.at? n = if n = k.free then some ⟨some addr, true⟩ else k.at? n)
    (h : Served k₁ k' addrs news) : Served k k' (addr :: addrs) (s :: news) := by
  have hopen : k₁.at? k.free = some ⟨some addr, true⟩ := by rw [hkernel, if_pos rfl]
  have hother {fd : Nat} (hfd : fd ≠ k.free) : k₁.at? fd = k.at? fd := by rw [hkernel, if_neg hfd]
  have hfree {t : Socket α} (ht : t ∈ news) {fd : Nat} (hfd : fd ∈ t.sock) : fd ≠ k.free := by
    rintro rfl
    have hnone := h.fresh t ht _ hfd
    rw [hopen] at hnone
    cases hnone
  refine ⟨.cons ⟨k.free, hsock, h.kept _ _ hopen⟩ h.serves, ?_, ?_, ?_⟩
  · intro t ht fd hfd
    rcases List.mem_cons.mp ht with rfl | ht
    · rw [hsock, Option.mem_some_iff] at hfd
      rw [← hfd, k.at?_free]
    · rw [← hother (hfree ht hfd)]
      exact h.fresh t ht fd hfd
  · rw [List.map_cons, List.nodup_cons]
    refine ⟨fun hmem => ?_, h.nodup⟩
    obtain ⟨t, ht, heq⟩ := List.mem_map.mp hmem
    exact hfree ht (heq.trans hsock) rfl
  · intro fd x hx
    have hfd : fd ≠ k.free := by
      rintro rfl
      rw [k.at?_free] at hx
      cases hx
    exact h.kept fd x ((hother hfd).trans hx)

/-- The loop serves the addresses that are granted and lists the others. -/
theorem loop_spec (calls : List (α × Answers α)) (b : Bound α) : ∃ news,
    (calls.foldl (bindAddr getFamily) b).socks = b.socks ++ news ∧
    (calls.foldl (bindAddr getFamily) b).fails =
      b.fails ++ (calls.filter fun c => !granted c.2).map (·.1) ∧
    Served b.kernel (calls.foldl (bindAddr getFamily) b).kernel
      ((calls.filter fun c => granted c.2).map (·.1)) news := by
  induction calls generalizing b with
  | nil => exact ⟨[], (List.append_nil _).symm, (List.append_nil _).symm, .refl _⟩
  | cons call calls ih =>
      obtain ⟨addr, ans⟩ := call
      rw [List.foldl_cons]
      obtain ⟨news, hsocks, hfails, hserved⟩ := ih (bindAddr getFamily b (addr, ans))
      cases hgranted : granted ans with
      | true =>
          obtain ⟨s, hsock, hsocks₁, hfails₁, hkernel⟩ := bindAddr_granted (b := b) hgranted
          refine ⟨s :: news, ?_, ?_, ?_⟩
          · rw [hsocks, hsocks₁, List.append_assoc, List.singleton_append]
          · rw [hfails, hfails₁, List.filter_cons_of_neg (by simp [hgranted])]
          · have hfilter : ((addr, ans) :: calls).filter (fun c => granted c.2) =
                (addr, ans) :: calls.filter fun c => granted c.2 := List.filter_cons_of_pos hgranted
            rw [hfilter]
            exact .cons hsock hkernel hserved
      | false =>
          obtain ⟨hsocks₁, hfails₁, hkernel⟩ :=
            @bindAddr_refused α getFamily b addr ans hgranted
          refine ⟨news, ?_, ?_, ?_⟩
          · rw [hsocks, hsocks₁]
          · rw [hfails, hfails₁, List.filter_cons_of_pos (by simp [hgranted]), List.map_cons,
              List.append_assoc, List.singleton_append]
          · rw [List.filter_cons_of_neg (by simp [hgranted])]
            refine ⟨hserved.serves, fun t ht fd hfd => ?_, hserved.nodup, fun fd x hx => ?_⟩
            · rw [← hkernel]
              exact hserved.fresh t ht fd hfd
            · exact hserved.kept fd x ((hkernel fd).trans hx)

/-! ## The call -/

/-- A call that fails changes no socket and lists the addresses that could
not be bound or listened on; one that succeeds adds a listening socket for
each address. -/
structure AllOrNothing (server : TcpServer α) (calls : List (α × Answers α)) (k : Kernel α)
    (r : BindResult α) : Prop where
  undone : r.ok = false → r.server = server ∧
    r.fails = (calls.filter fun c => !granted c.2).map (·.1)
  done : r.ok = true → r.fails = [] ∧ ∃ news, r.server.socks = server.socks ++ news ∧
    Served k r.kernel (calls.map (·.1)) news

/-- **All or nothing.** A call is so exactly when nothing fails or there are
no sockets from before. -/
theorem bind_iff (held : Socket α → Bool) (server : TcpServer α) (calls : List (α × Answers α))
    (k : Kernel α) : AllOrNothing server calls k (bind getFamily held server calls [] k) ↔
      server.socks = [] ∨ ∀ c ∈ calls, granted c.2 = true := by
  obtain ⟨news, hsocks, hfails, hserved⟩ :=
    @loop_spec α getFamily calls ⟨server.socks, [], k⟩
  rw [List.nil_append] at hfails
  by_cases hall : ∀ c ∈ calls, granted c.2 = true
  · have hnone : (calls.filter fun c => !granted c.2) = [] := by
      rw [List.filter_eq_nil_iff]
      intro c hc
      simp [hall c hc]
    rw [hnone, List.map_nil] at hfails
    rw [List.filter_eq_self.mpr hall] at hserved
    rw [bind]
    simp only [hfails, List.isEmpty_nil, Bool.not_true, Bool.false_eq_true, if_false]
    refine iff_of_true ⟨?_, fun _ => ⟨rfl, news, hsocks, hserved⟩⟩ (.inr hall)
    intro h
    cases h
  · obtain ⟨c, hc, hrefused⟩ : ∃ c ∈ calls, granted c.2 = false := by simpa using hall
    have hsome : ((calls.filter fun c => !granted c.2).map (·.1)).isEmpty = false := by
      rw [List.isEmpty_eq_false_iff_exists_mem]
      exact ⟨c.1, List.mem_map_of_mem (List.mem_filter.mpr ⟨hc, by simp [hrefused]⟩)⟩
    rw [bind]
    simp only [hfails, hsome, Bool.not_false, if_true]
    constructor
    · intro h
      exact .inl (congrArg TcpServer.socks (h.undone rfl).1).symm
    · rintro (hnil | h)
      · refine ⟨fun _ => ⟨congrArg TcpServer.mk hnil.symm, rfl⟩, fun h => ?_⟩
        cases h
      · exact absurd h hall

/-- The socket of an earlier call goes with the address that fails. -/
theorem earlier_dropped : ¬∀ (held : Socket Nat → Bool) (server : TcpServer Nat)
    (calls : List (Nat × Answers Nat)) (k : Kernel Nat),
    AllOrNothing server calls k (bind (fun _ => 2) held server calls [] k) := by
  intro hall
  let first := bindOne (fun _ => 2) (fun _ => false) ⟨[]⟩ 8020 ⟨true, true, some 8020, true⟩ []
  have hundone := (hall (fun _ => false) first.server [(8021, ⟨true, false, none, true⟩)]
    first.kernel).undone rfl
  exact absurd hundone.1 (by decide)

end TcpServer

end Sylar
