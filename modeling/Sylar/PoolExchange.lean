import Sylar.HttpConnectionClose
import Sylar.HttpConnectionPool

/-!
# Requests over the connections of a pool

`HttpConnectionPool::doRequest` on any number of threads: take a
connection, send the request, receive the response, give the connection
back. Whether it goes to the idle list is up to `ReleasePtr`, which only
sees whether the socket is connected. `recvResponse` has closed it when
there is no response; nothing closes it when the request could not be
sent, or when `recvResponse` throws. So a failed connection stays out of
the pool if those are retired anyway (`failed_not_reused`).

What arrives on a connection, when the clock says what and what `send`
answers is part of the steps. The texts of the results are left out, and
the timeout, which is one more reason for a `recv` to fail.
-/

namespace Sylar

namespace HttpResult

/-- `HttpResult::Error`. -/
inductive Error where
  | OK | INVALID_URL | INVALID_HOST | CONNECT_FAIL | SEND_CLOSE_BY_PEER | SEND_SOCKET_ERROR
  | TIMEOUT | CREATE_SOCKET_ERROR | POOL_GET_CONNECTION | POOL_INVALID_CONNECTION
deriving Repr, DecidableEq

end HttpResult

structure HttpResult where
  result : HttpResult.Error
  response : Option HttpResponse
deriving Repr, DecidableEq

namespace HttpConnection

/-- The loop of `writeFixSize`, given the results of its calls to `send`:
the one that is not positive. Calls beyond the list take all there is. -/
def sendLeft : List Int → Nat → Option Int
  | _, 0 => none
  | [], _ => none
  | k :: ks, left => if k ≤ 0 then some k else sendLeft ks (left - k.toNat)

/-- `writeFixSize(buffer, length)`. -/
def writeFixSize (connected : Bool) (answers : List Int) (length : Nat) : Int :=
  match sendLeft (if connected then answers else [-1]) length with
  | some rt => rt
  | none => toInt32 length

def sendRequest (connected : Bool) (answers : List Int) (req : HttpRequest) : Int :=
  writeFixSize connected answers req.dump.length

end HttpConnection

/-- Where a thread is in `doRequest`; `returning` with no result when an
exception has been thrown. -/
inductive RequestStage where
  | idle
  | sending (ptr : Nat)
  | receiving (ptr : Nat)
  | returning (ptr : Nat) (result : Option HttpResult)
deriving Repr, DecidableEq

namespace RequestStage

/-- The connection of the request. -/
def conn : RequestStage → Option Nat
  | .idle => none
  | .sending ptr | .receiving ptr | .returning ptr _ => some ptr

/-- `doRequest` does not return `Error::OK`. -/
def failed : RequestStage → Bool
  | .returning _ (some r) => r.result ≠ .OK
  | .returning _ none => true
  | _ => false

/-- It does not, for another reason than that no response was received. -/
def leavesOpen : RequestStage → Bool
  | .returning _ (some r) => r.result ≠ .OK && r.result ≠ .TIMEOUT
  | .returning _ none => true
  | _ => false

end RequestStage

structure PoolExchange where
  pool : HttpConnectionPool
  /-- `m_isConnected` of the sockets -/
  connected : List Bool
  stages : List RequestStage
  /-- the connections whose last `doRequest` did not return `Error::OK` -/
  failed : List Nat
deriving Repr, DecidableEq

namespace PoolExchange

open HttpConnectionPool (PoolAction)

inductive ExchangeAction where
  /-- `getConnection` up to `lock.unlock()` -/
  | getConnection (t now : Nat)
  /-- another step in `getConnection` or in `ReleasePtr` -/
  | work (a : PoolAction)
  /-- `sendRequest` -/
  | send (t : Nat) (req : HttpRequest) (answers : List Int)
  /-- `recvResponse` -/
  | recv (t : Nat) (incoming : Bytes) (sizes : List Nat)
  /-- `ReleasePtr` up to its decision -/
  | release (t now : Nat)
deriving Repr, DecidableEq

def isConnected (x : PoolExchange) (ptr : Nat) : Bool := x.connected[ptr]?.getD false

/-- The connections for which `isConnected` holds. -/
def connectedConns (x : PoolExchange) : List Nat :=
  (List.range x.connected.length).filter x.isConnected

def setStage (x : PoolExchange) (t : Nat) (stage : RequestStage) : PoolExchange :=
  { x with stages := x.stages.set t stage }

/-- The request of thread `t` comes to its end. -/
def finish (x : PoolExchange) (t ptr : Nat) (result : Option HttpResult) : PoolExchange :=
  { x with
    stages := x.stages.set t (.returning ptr result)
    failed := if (RequestStage.returning ptr result).failed then ptr :: x.failed
      else x.failed.filter (· ≠ ptr) }

/-- `getConnection` returns. -/
def stagesAfter (x : PoolExchange) : PoolAction → List RequestStage
  | .subtract t =>
      match x.pool.tasks[t]? with
      | some (.purge _ _ (some ptr)) => x.stages.set t (.sending ptr)
      | _ => x.stages
  | .count t =>
      match x.pool.tasks[t]? with
      | some (.created ptr) => x.stages.set t (.sending ptr)
      | _ => x.stages
  | _ => x.stages

def connectedAfter (x : PoolExchange) : PoolAction → List Bool
  | .create _ => x.connected ++ [true]
  | _ => x.connected

/-- The steps of the pool that are not the beginning of an operation. -/
def within : PoolAction → Bool
  | .getConnection .. | .release .. => false
  | _ => true

def step (inflate : ZlibFormat → Bytes → Bytes) (x : PoolExchange) :
    ExchangeAction → Option PoolExchange
  | .getConnection t now =>
      if x.stages[t]? = some .idle then
        (x.pool.step (.getConnection t x.connectedConns now)).map fun pool => { x with pool }
      else none
  | .work a =>
      if within a then
        (x.pool.step a).map fun pool =>
          { x with pool, connected := x.connectedAfter a, stages := x.stagesAfter a }
      else none
  | .send t req answers =>
      match x.stages[t]? with
      | some (.sending ptr) =>
          let rt := HttpConnection.sendRequest (x.isConnected ptr) answers req
          if rt = 0 then some (x.finish t ptr (some ⟨.SEND_CLOSE_BY_PEER, none⟩))
          else if rt < 0 then some (x.finish t ptr (some ⟨.SEND_SOCKET_ERROR, none⟩))
          else some (x.setStage t (.receiving ptr))
      | _ => none
  | .recv t incoming sizes =>
      match x.stages[t]? with
      | some (.receiving ptr) =>
          match HttpConnection.recvResponse inflate ⟨incoming, sizes, x.isConnected ptr⟩ with
          | .error _ => some (x.finish t ptr none)
          | .ok (none, s) =>
              some ({ x with connected := x.connected.set ptr s.connected }.finish t ptr
                (some ⟨.TIMEOUT, none⟩))
          | .ok (some rsp, s) =>
              some ({ x with connected := x.connected.set ptr s.connected }.finish t ptr
                (some ⟨.OK, some rsp⟩))
      | _ => none
  | .release t now =>
      match x.stages[t]? with
      | some (.returning ptr _) =>
          (x.pool.step (.release t t ptr (x.isConnected ptr) now)).map fun pool =>
            { x.setStage t .idle with pool }
      | _ => none

/-- Any pool and any number of threads. -/
def system (inflate : ZlibFormat → Bytes → Bytes) : System PoolExchange ExchangeAction where
  init x := ∃ maxSize maxAliveTime maxRequest threads,
    x = ⟨.new maxSize maxAliveTime maxRequest threads, [], List.replicate threads .idle, []⟩
  step := step inflate

/-- A connection that a failed request leaves open is deleted when it is
given back. -/
def Retired (x : PoolExchange) : ExchangeAction → Prop
  | .release t now => ∀ stage ∈ x.stages[t]?, stage.leavesOpen = true →
      ∀ ptr ∈ stage.conn, x.pool.retires ptr (x.isConnected ptr) now = true
  | _ => True

instance (x : PoolExchange) : (a : ExchangeAction) → Decidable (x.Retired a)
  | .release t now => inferInstanceAs (Decidable (∀ stage ∈ x.stages[t]?, stage.leavesOpen = true →
      ∀ ptr ∈ stage.conn, x.pool.retires ptr (x.isConnected ptr) now = true))
  | .getConnection .. | .work _ | .send .. | .recv .. => inferInstanceAs (Decidable True)

end PoolExchange

/-! ## What a step of the pool leaves alone -/

namespace HttpConnectionPool

variable {p q : HttpConnectionPool} {a : PoolAction} {conn user t : Nat} {new : PoolTask}

theorem Away.set (h : p.Away conn) {conns : List Nat} (hconns : conn ∉ conns)
    (hnew : conn ∉ new.kept) : { p with conns }.setTask t new |>.Away conn := by
  refine ⟨hconns, fun task htask => ?_⟩
  obtain htask | rfl := List.mem_or_eq_of_mem_set htask
  · exact h.2 task htask
  · exact hnew

/-- A connection that is away stays so, unless it is given back and
kept. -/
theorem Away.step (h : p.Away conn) (hlt : conn < p.connections.length) (hmoved : Moved p a q)
    (hkeep : ∀ t user connected now, a = .release t user conn connected now →
      p.retires conn connected now = true) : q.Away conn := by
  cases hmoved with
  | @getConnection t connected now invalid rest ptr ht hscan =>
      have hperm := scan_perm p (· ∈ connected) now p.conns
      rw [hscan] at hperm
      have hnot : conn ∉ invalid ++ (ptr.toList ++ rest) := hperm ▸ h.1
      simp only [List.mem_append, not_or] at hnot
      exact h.set hnot.2.2 hnot.2.1
  | purge ht => exact h.set h.1 fun hmem => h.2 _ (List.mem_of_getElem? ht) hmem
  | discard ht | lend ht | connect ht | fail ht | count ht | retire ht | uncount ht =>
      exact h.set h.1 (Multiset.notMem_zero conn)
  | create ht => exact h.set h.1 (Multiset.mem_singleton.not.mpr (Nat.ne_of_lt hlt))
  | @keep t user ptr now connected ht hlent hretires =>
      refine h.set h.1 (Multiset.mem_singleton.not.mpr ?_)
      rintro rfl
      rw [hkeep t user connected now rfl] at hretires
      cases hretires
  | @recycle t ptr ht =>
      have hne : conn ≠ ptr := Multiset.mem_singleton.not.mp (h.2 _ (List.mem_of_getElem? ht))
      refine h.set ?_ (Multiset.notMem_zero conn)
      rw [List.mem_append, List.mem_singleton]
      exact not_or.mpr ⟨h.1, hne⟩

theorem lent_step (hlent : (user, conn) ∈ p.lent) (hmoved : Moved p a q)
    (hrelease : ∀ t connected now, a ≠ .release t user conn connected now) :
    (user, conn) ∈ q.lent := by
  cases hmoved with
  | lend ht | count ht => exact List.mem_append_left _ hlent
  | @retire t user' ptr now connected ht _ _ | @keep t user' ptr now connected ht _ _ =>
      have hne : (user, conn) ≠ (user', ptr) := by
        rintro heq
        obtain ⟨rfl, rfl⟩ := Prod.mk.inj heq
        exact hrelease t connected now rfl
      exact (List.mem_erase_of_ne hne).mpr hlent
  | _ => exact hlent

theorem connections_step (hmoved : Moved p a q) :
    p.connections.length ≤ q.connections.length := by
  cases hmoved with
  | create ht =>
      simp only [setTask, List.length_append]
      omega
  | retire ht | keep ht => exact le_of_eq (List.length_modify ..).symm
  | _ => exact le_rfl

end HttpConnectionPool

namespace PoolExchange

open HttpConnectionPool (PoolAction)

/-! ## The invariant -/

variable {x x' : PoolExchange} {t ptr : Nat} {stage : RequestStage}
  {inflate : ZlibFormat → Bytes → Bytes}

structure Inv (x : PoolExchange) : Prop where
  accounted : x.pool.Accounted
  length : x.connected.length = x.pool.connections.length
  held : ∀ (t : Nat) (stage : RequestStage), x.stages[t]? = some stage →
    ∀ ptr ∈ stage.conn, (t, ptr) ∈ x.pool.lent
  clean : ∀ (t : Nat) (stage : RequestStage), x.stages[t]? = some stage →
    stage.failed = false → ∀ ptr ∈ stage.conn, ptr ∉ x.failed
  closed : ∀ (t : Nat) (stage : RequestStage), x.stages[t]? = some stage →
    stage.failed = true → stage.leavesOpen = false → ∀ ptr ∈ stage.conn, x.isConnected ptr = false
  away : ∀ conn ∈ x.failed, conn < x.pool.connections.length ∧ x.pool.Away conn

theorem init_inv (hinit : (system inflate).init x) : x.Inv := by
  obtain ⟨maxSize, maxAliveTime, maxRequest, threads, rfl⟩ := hinit
  have hidle : ∀ (t : Nat) (stage : RequestStage), (List.replicate threads RequestStage.idle)[t]? = some stage →
      stage.conn = none := by
    intro t stage hstage
    obtain rfl := (List.mem_replicate.mp (List.mem_of_getElem? hstage)).2
    rfl
  refine ⟨HttpConnectionPool.new_accounted .., rfl, ?_, ?_, ?_, fun _ hconn => nomatch hconn⟩
  · intro t stage hstage ptr hptr
    rw [hidle t stage hstage] at hptr
    cases hptr
  · intro t stage hstage _ ptr hptr
    rw [hidle t stage hstage] at hptr
    cases hptr
  · intro t stage hstage _ _ ptr hptr
    rw [hidle t stage hstage] at hptr
    cases hptr

/-- Two threads do not have the same connection. -/
theorem Inv.holder (h : x.Inv) {s : Nat} {other : RequestStage}
    (ht : x.stages[t]? = some stage) (hs : x.stages[s]? = some other) (hptr : ptr ∈ stage.conn)
    (hother : ptr ∈ other.conn) : s = t :=
  h.accounted.lent_unique (h.held s other hs ptr hother) (h.held t stage ht ptr hptr)

theorem getElem?_setStage {s : Nat} {other : RequestStage}
    (hs : (x.stages.set t stage)[s]? = some other) :
    s = t ∧ other = stage ∨ s ≠ t ∧ x.stages[s]? = some other := by
  rw [List.getElem?_set] at hs
  split at hs
  · rename_i heq
    split at hs
    · exact .inl ⟨heq.symm, (Option.some.inj hs).symm⟩
    · cases hs
  · rename_i hne
    exact .inr ⟨Ne.symm hne, hs⟩

theorem Inv.setStage (h : x.Inv) (hheld : ∀ ptr ∈ stage.conn, (t, ptr) ∈ x.pool.lent)
    (hclean : stage.failed = false → ∀ ptr ∈ stage.conn, ptr ∉ x.failed)
    (hclosed : stage.failed = true → stage.leavesOpen = false →
      ∀ ptr ∈ stage.conn, x.isConnected ptr = false) : (x.setStage t stage).Inv := by
  refine ⟨h.accounted, h.length, ?_, ?_, ?_, h.away⟩
  · intro s other hs
    obtain ⟨rfl, rfl⟩ | ⟨-, hs⟩ := getElem?_setStage hs
    · exact hheld
    · exact h.held s other hs
  · intro s other hs
    obtain ⟨rfl, rfl⟩ | ⟨-, hs⟩ := getElem?_setStage hs
    · exact hclean
    · exact h.clean s other hs
  · intro s other hs
    obtain ⟨rfl, rfl⟩ | ⟨-, hs⟩ := getElem?_setStage hs
    · exact hclosed
    · exact h.closed s other hs

/-- The end of a request; one that fails for want of a response has
closed the connection. -/
theorem Inv.finish (h : x.Inv) (ht : x.stages[t]? = some stage) (hptr : ptr ∈ stage.conn)
    {result : Option HttpResult}
    (hclosed : (RequestStage.returning ptr result).failed = true →
      (RequestStage.returning ptr result).leavesOpen = false → x.isConnected ptr = false) :
    (x.finish t ptr result).Inv := by
  have hlent := h.held t stage ht ptr hptr
  refine ⟨h.accounted, h.length, ?_, ?_, ?_, ?_⟩
  · intro s other hs conn hconn
    obtain ⟨rfl, rfl⟩ | ⟨-, hs⟩ := getElem?_setStage hs
    · obtain rfl := Option.some.inj hconn
      exact hlent
    · exact h.held s other hs conn hconn
  · intro s other hs hok conn hconn
    obtain ⟨rfl, rfl⟩ | ⟨hne, hs⟩ := getElem?_setStage hs
    · obtain rfl := Option.some.inj hconn
      rw [PoolExchange.finish, if_neg (by rw [hok]; decide)]
      simp
    · have hother := h.clean s other hs hok conn hconn
      rw [PoolExchange.finish]
      split
      · refine List.mem_cons.not.mpr (not_or.mpr ⟨fun heq => ?_, hother⟩)
        exact hne (h.holder ht hs hptr (heq ▸ hconn))
      · exact fun hmem => hother (List.mem_of_mem_filter hmem)
  · intro s other hs hfailed hleaves conn hconn
    obtain ⟨rfl, rfl⟩ | ⟨-, hs⟩ := getElem?_setStage hs
    · obtain rfl := Option.some.inj hconn
      exact hclosed hfailed hleaves
    · exact h.closed s other hs hfailed hleaves conn hconn
  · intro conn hconn
    rw [PoolExchange.finish] at hconn
    split at hconn
    · obtain rfl | hconn := List.mem_cons.mp hconn
      · exact h.accounted.lent_away hlent
      · exact h.away conn hconn
    · exact h.away conn (List.mem_of_mem_filter hconn)

/-- The thread that has a connection may close it. -/
theorem Inv.setConnected (h : x.Inv) (ht : x.stages[t]? = some stage) (hptr : ptr ∈ stage.conn)
    (hok : stage.failed = false) (b : Bool) :
    { x with connected := x.connected.set ptr b }.Inv := by
  refine ⟨h.accounted, by simp [h.length], h.held, h.clean, ?_, h.away⟩
  intro s other hs hfailed hleaves conn hconn
  have hne : ptr ≠ conn := by
    rintro rfl
    obtain rfl := h.holder ht hs hptr hconn
    obtain rfl := Option.some.inj (ht.symm.trans hs)
    rw [hok] at hfailed
    cases hfailed
  rw [isConnected, List.getElem?_set_ne hne]
  exact h.closed s other hs hfailed hleaves conn hconn

/-- A step of the pool that gives nothing back, as far as it concerns the
pool. -/
theorem Inv.pool (h : x.Inv) {a : PoolAction} {pool : HttpConnectionPool}
    (hmoved : HttpConnectionPool.Moved x.pool a pool) (haccounted : pool.Accounted)
    (ha : ∀ t user conn connected now, a ≠ .release t user conn connected now) :
    { x with pool, connected := x.connectedAfter a }.Inv := by
  have hlent : ∀ user conn, (user, conn) ∈ x.pool.lent → (user, conn) ∈ pool.lent :=
    fun user conn hmem => HttpConnectionPool.lent_step hmem hmoved fun t => ha t user conn
  have hsame : ∀ conn < x.pool.connections.length,
      (x.connectedAfter a)[conn]? = x.connected[conn]? := by
    intro conn hlt
    cases a with
    | create t => exact List.getElem?_append_left (h.length ▸ hlt)
    | _ => rfl
  refine ⟨haccounted, ?_, fun s other hs conn hconn => hlent _ _ (h.held s other hs conn hconn),
    h.clean, ?_, ?_⟩
  · cases hmoved with
    | create ht =>
        simp only [connectedAfter, HttpConnectionPool.setTask, List.length_append, h.length]
        rfl
    | retire ht | keep ht => exact (ha _ _ _ _ _ rfl).elim
    | _ => exact h.length
  · intro s other hs hfailed hleaves conn hconn
    obtain ⟨hlt, -⟩ := h.accounted.lent_away (h.held s other hs conn hconn)
    rw [isConnected, hsame conn hlt]
    exact h.closed s other hs hfailed hleaves conn hconn
  · intro conn hconn
    obtain ⟨hlt, haway⟩ := h.away conn hconn
    exact ⟨hlt.trans_le (HttpConnectionPool.connections_step hmoved),
      haway.step hlt hmoved fun t user connected now heq => (ha _ _ _ _ _ heq).elim⟩

/-- A connection that `getConnection` returns has been in the hands of
the thread. -/
theorem Inv.take (h : x.Inv) {pool : HttpConnectionPool} {task : PoolTask}
    (hx : { x with pool }.Inv) (htask : task ∈ x.pool.tasks) (hkept : ptr ∈ task.kept)
    (hlent : (t, ptr) ∈ pool.lent) : ({ x with pool }.setStage t (.sending ptr)).Inv := by
  refine hx.setStage ?_ ?_ (fun hfailed => nomatch hfailed)
  · intro conn hconn
    obtain rfl := Option.some.inj hconn
    exact hlent
  · intro _ conn hconn hfailed
    obtain rfl := Option.some.inj hconn
    exact (h.away ptr hfailed).2.2 task htask hkept

theorem Inv.work (h : x.Inv) {a : PoolAction} {pool : HttpConnectionPool}
    (hwithin : within a = true) (hstep : x.pool.step a = some pool) :
    { x with pool, connected := x.connectedAfter a, stages := x.stagesAfter a }.Inv := by
  have hmoved := HttpConnectionPool.step_moved hstep
  have hx := h.pool hmoved (HttpConnectionPool.step_accounted h.accounted hstep) (by
    rintro t user conn connected now rfl
    cases hwithin)
  cases hmoved with
  | @lend t size ptr ht =>
      have htake := h.take hx (List.mem_of_getElem? ht) (by simp [PoolTask.kept])
        (List.mem_append_right _ (List.mem_singleton_self (t, ptr)))
      rw [stagesAfter, ht]
      exact htake
  | @count t ptr ht =>
      have htake := h.take hx (List.mem_of_getElem? ht) (Multiset.mem_singleton_self ptr)
        (List.mem_append_right _ (List.mem_singleton_self (t, ptr)))
      rw [stagesAfter, ht]
      exact htake
  | connect ht =>
      rw [stagesAfter, ht]
      exact hx
  | _ => exact hx

/-- A connection on which a request has failed is retired. -/
theorem Inv.release (h : x.Inv) {now : Nat} {pool : HttpConnectionPool}
    {result : Option HttpResult} (hretired : x.Retired (.release t now))
    (ht : x.stages[t]? = some (.returning ptr result))
    (hstep : x.pool.step (.release t t ptr (x.isConnected ptr) now) = some pool) :
    { x.setStage t .idle with pool }.Inv := by
  have hmoved := HttpConnectionPool.step_moved hstep
  have hkeep : ptr ∈ x.failed → x.pool.retires ptr (x.isConnected ptr) now = true := by
    intro hfailed
    cases hleaves : (RequestStage.returning ptr result).leavesOpen with
    | true => exact hretired _ ht hleaves ptr rfl
    | false =>
        cases hresult : (RequestStage.returning ptr result).failed with
        | true =>
            rw [HttpConnectionPool.retires, h.closed t _ ht hresult hleaves ptr rfl]
            rfl
        | false => exact absurd hfailed (h.clean t _ ht hresult ptr rfl)
  have hstages : ∀ {s other}, (x.setStage t .idle).stages[s]? = some other →
      ∀ conn ∈ other.conn, s ≠ t ∧ x.stages[s]? = some other := by
    intro s other hs conn hconn
    obtain ⟨-, rfl⟩ | hs := getElem?_setStage hs
    · cases hconn
    · exact hs
  refine ⟨HttpConnectionPool.step_accounted h.accounted hstep, ?_, ?_, ?_, ?_, ?_⟩
  · cases hmoved with
    | retire | keep => exact h.length.trans (List.length_modify ..).symm
  · intro s other hs conn hconn
    obtain ⟨hne, hs⟩ := hstages hs conn hconn
    refine HttpConnectionPool.lent_step (h.held s other hs conn hconn) hmoved ?_
    rintro t' connected now' heq
    obtain ⟨-, rfl, -⟩ := PoolAction.release.inj heq
    exact hne rfl
  · intro s other hs hok conn hconn
    exact h.clean s other (hstages hs conn hconn).2 hok conn hconn
  · intro s other hs hfailed hleaves conn hconn
    exact h.closed s other (hstages hs conn hconn).2 hfailed hleaves conn hconn
  · intro conn hconn
    obtain ⟨hlt, haway⟩ := h.away conn hconn
    refine ⟨hlt.trans_le (HttpConnectionPool.connections_step hmoved), haway.step hlt hmoved ?_⟩
    rintro t' user connected now' heq
    obtain ⟨-, -, rfl, rfl, rfl⟩ := PoolAction.release.inj heq
    exact hkeep hconn

theorem step_inv (h : x.Inv) {a : ExchangeAction} (hretired : x.Retired a)
    (hstep : step inflate x a = some x') : x'.Inv := by
  cases a with
  | getConnection t now =>
      simp only [step, Option.ite_none_right_eq_some, Option.map_eq_some_iff] at hstep
      obtain ⟨-, pool, hpool, rfl⟩ := hstep
      exact h.pool (HttpConnectionPool.step_moved hpool)
        (HttpConnectionPool.step_accounted h.accounted hpool) fun _ _ _ _ _ heq => nomatch heq
  | work a =>
      simp only [step, Option.ite_none_right_eq_some, Option.map_eq_some_iff] at hstep
      obtain ⟨hwithin, pool, hpool, rfl⟩ := hstep
      exact h.work hwithin hpool
  | send t req answers =>
      simp only [step] at hstep
      split at hstep
      · rename_i ptr ht
        split at hstep
        · obtain rfl := Option.some.inj hstep
          exact h.finish ht rfl fun _ hleaves => nomatch hleaves
        split at hstep
        · obtain rfl := Option.some.inj hstep
          exact h.finish ht rfl fun _ hleaves => nomatch hleaves
        · obtain rfl := Option.some.inj hstep
          have hlent := h.held t (.sending ptr) ht
          have hclean := h.clean t (.sending ptr) ht rfl
          exact h.setStage hlent (fun _ => hclean) fun hfailed => nomatch hfailed
      · cases hstep
  | recv t incoming sizes =>
      simp only [step] at hstep
      split at hstep
      · rename_i ptr ht
        have hlt : ptr < x.connected.length :=
          h.length ▸ (h.accounted.lent_away (h.held t _ ht ptr rfl)).1
        split at hstep
        · obtain rfl := Option.some.inj hstep
          exact h.finish ht rfl fun _ hleaves => nomatch hleaves
        · rename_i s hrecv
          obtain rfl := Option.some.inj hstep
          refine (h.setConnected ht rfl rfl s.connected).finish ht rfl fun _ _ => ?_
          rw [isConnected, List.getElem?_set_self hlt, HttpConnection.recvResponse_closed hrecv]
          rfl
        · rename_i rsp s hrecv
          obtain rfl := Option.some.inj hstep
          exact (h.setConnected ht rfl rfl s.connected).finish ht rfl fun hfailed => nomatch hfailed
      · cases hstep
  | release t now =>
      simp only [step] at hstep
      split at hstep
      · rename_i ptr result ht
        obtain ⟨pool, hpool, rfl⟩ := Option.map_eq_some_iff.mp hstep
        exact h.release hretired ht hpool
      · cases hstep

theorem reachable_inv (h : (system inflate).ReachableBy Retired x) : x.Inv := by
  refine h.invariant (P := Inv) (fun _ => init_inv) ?_
  intro x a x' hx hretired hstep
  exact step_inv hx hretired hstep

/-- **A connection that has failed is not lent again** in a run in which
those that are left open are retired. -/
theorem failed_not_reused (h : (system inflate).ReachableBy Retired x)
    (ht : x.stages[t]? = some (.sending ptr)) : ptr ∉ x.failed :=
  (reachable_inv h).clean t _ ht rfl ptr rfl

/-! ## Two requests of one thread -/

def one : PoolExchange := ⟨.new 1 10 5 1, [], [.idle], []⟩

theorem one_init (inflate : ZlibFormat → Bytes → Bytes) : (system inflate).init one :=
  ⟨1, 10, 5, 1, rfl⟩

/-- A new connection for thread 0. -/
def dial : List ExchangeAction :=
  [.getConnection 0 100, .work (.subtract 0), .work (.create 0), .work (.count 0)]

/-- The peer closes without an answer: the next request has a connection
of its own. -/
theorem failed_not_reused_closed : ∃ x, (system fun _ body => body).ReachableBy Retired x ∧
    x.stages = [.sending 1] ∧ x.failed = [0] ∧ 1 ∉ x.failed := by
  have hrun : (system fun _ body => body).replayBy Retired one (dial ++ [.send 0 .new [],
      .recv 0 [] [], .release 0 200, .work (.delete 0), .work (.uncount 0)] ++ dial) =
      some ⟨⟨1, 10, 5, [], 1, [⟨0, 1⟩, ⟨0, 0⟩], [.none], [(0, 1)], [0]⟩, [false, true],
        [.sending 1], [0]⟩ := by decide
  have hreach := System.replayBy_reachable (.init (one_init _)) hrun
  exact ⟨_, hreach, rfl, rfl, failed_not_reused hreach (t := 0) rfl⟩

/-- The request cannot be sent: the next one has the same connection. -/
theorem unsent_reused : ¬∀ (x : PoolExchange) (t ptr : Nat),
    (system fun _ body => body).Reachable x → x.stages[t]? = some (.sending ptr) →
    ptr ∉ x.failed := by
  have hrun : (system fun _ body => body).replay one (dial ++ [.send 0 .new [-1],
      .release 0 200, .work (.recycle 0), .getConnection 0 300, .work (.subtract 0)]) =
      some ⟨⟨1, 10, 5, [], 1, [⟨0, 1⟩], [.none], [(0, 0)], []⟩, [true], [.sending 0], [0]⟩ := by
    decide
  intro hall
  exact hall _ 0 0 (System.replay_reachable (.init (one_init _)) hrun) rfl (by decide)

end PoolExchange

end Sylar
