import Mathlib.Algebra.Order.BigOperators.Group.List
import Mathlib.Algebra.Order.Group.Multiset
import Mathlib.Algebra.Order.Ring.Nat
import Mathlib.Data.Multiset.Range
import Mathlib.Tactic.Abel
import Sylar.Lib.System
import Sylar.Lib.Word

/-!
# The connection pool

`HttpConnectionPool::getConnection` and `ReleasePtr` in
`http_connection.cc`, as the steps that a thread takes in them; steps of
different threads interleave. A connection is the number of its `new`.
`lent` are the connections that users have, each with its user; the last
reference that goes runs `ReleasePtr`, on any thread. `deleted` are the
`delete`s that have been executed.

Whether a connection is connected, and what the clock says, are
arguments of the steps. Host, port and scheme only matter to the connect
and are left out. Nothing reads `maxSize`.
-/

namespace Sylar

structure HttpConnection where
  createTime : Nat
  request : Nat
deriving Repr, DecidableEq

/-- What a thread is doing in the pool. -/
inductive PoolTask where
  | none
  /-- `getConnection` with `invalid_conns`, of which `size` were there -/
  | purge (invalid : List Nat) (size : Nat) (ptr : Option Nat)
  /-- before `new HttpConnection` -/
  | connect
  /-- before `++m_total` -/
  | created (ptr : Nat)
  /-- `ReleasePtr` before `delete ptr` -/
  | discard (ptr : Nat)
  /-- before `--pool->m_total` -/
  | discarded
  /-- before `m_conns.push_back(ptr)` -/
  | recycle (ptr : Nat)
deriving Repr, DecidableEq

structure HttpConnectionPool where
  maxSize : Nat
  maxAliveTime : Nat
  maxRequest : Nat
  conns : List Nat
  total : Int
  connections : List HttpConnection
  tasks : List PoolTask
  lent : List (Nat × Nat)
  deleted : List Nat
deriving Repr, DecidableEq

namespace HttpConnectionPool

/-- A pool that `threads` threads use. -/
def new (maxSize maxAliveTime maxRequest threads : Nat) : HttpConnectionPool :=
  ⟨maxSize, maxAliveTime, maxRequest, [], 0, [], List.replicate threads .none, [], []⟩

/-- `conn->m_createTime + m_maxAliveTime`. -/
def deadline (p : HttpConnectionPool) (conn : Nat) : Nat :=
  add64 (p.connections[conn]?.elim 0 HttpConnection.createTime) p.maxAliveTime

/-- The loop over `m_conns`: the invalid connections, the one to lend and
the rest. -/
def scan (p : HttpConnectionPool) (connected : Nat → Bool) (now : Nat) :
    List Nat → List Nat × Option Nat × List Nat
  | [] => ([], none, [])
  | conn :: rest =>
      if !connected conn || p.deadline conn > now then
        let r := p.scan connected now rest
        (conn :: r.1, r.2)
      else ([], some conn, rest)

def setTask (p : HttpConnectionPool) (t : Nat) (task : PoolTask) : HttpConnectionPool :=
  { p with tasks := p.tasks.set t task }

/-- `m_total += n`. -/
def addTotal (p : HttpConnectionPool) (n : Int) : HttpConnectionPool :=
  { p with total := toInt32 (p.total + n) }

inductive PoolAction where
  /-- `getConnection` up to `lock.unlock()` -/
  | getConnection (t : Nat) (connected : List Nat) (now : Nat)
  /-- a `delete` -/
  | delete (t : Nat)
  /-- `m_total -= invalid_conns.size()` -/
  | subtract (t : Nat)
  /-- no address, no socket or no connection -/
  | fail (t : Nat)
  /-- `ptr = new HttpConnection(sock)` -/
  | create (t : Nat)
  /-- `++m_total` -/
  | count (t : Nat)
  /-- `ReleasePtr` up to its decision, for a connection of `user` -/
  | release (t user ptr : Nat) (connected : Bool) (now : Nat)
  /-- `--pool->m_total` -/
  | uncount (t : Nat)
  /-- `pool->m_conns.push_back(ptr)` -/
  | recycle (t : Nat)
deriving Repr, DecidableEq

def step (p : HttpConnectionPool) : PoolAction → Option HttpConnectionPool
  | .getConnection t connected now =>
      if p.tasks[t]? = some .none then
        let r := p.scan (· ∈ connected) now p.conns
        some ({ p with conns := r.2.2 }.setTask t (.purge r.1 r.1.length r.2.1))
      else none
  | .delete t =>
      match p.tasks[t]? with
      | some (.purge (conn :: rest) size ptr) =>
          some ({ p with deleted := p.deleted ++ [conn] }.setTask t (.purge rest size ptr))
      | some (.discard ptr) => some ({ p with deleted := p.deleted ++ [ptr] }.setTask t .discarded)
      | _ => none
  | .subtract t =>
      match p.tasks[t]? with
      | some (.purge [] size (some ptr)) =>
          some ({ p with lent := p.lent ++ [(t, ptr)] }.addTotal (-size) |>.setTask t .none)
      | some (.purge [] size none) => some (p.addTotal (-size) |>.setTask t .connect)
      | _ => none
  | .fail t => if p.tasks[t]? = some .connect then some (p.setTask t .none) else none
  | .create t =>
      if p.tasks[t]? = some .connect then
        some ({ p with connections := p.connections ++ [HttpConnection.mk 0 0] }.setTask t
          (.created p.connections.length))
      else none
  | .count t =>
      match p.tasks[t]? with
      | some (.created ptr) =>
          some ({ p with lent := p.lent ++ [(t, ptr)] }.addTotal 1 |>.setTask t .none)
      | _ => none
  | .release t user ptr connected now =>
      if p.tasks[t]? = some .none ∧ (user, ptr) ∈ p.lent then
        let request := p.connections[ptr]?.elim 0 HttpConnection.request + 1
        let p' := { p with
          lent := p.lent.erase (user, ptr)
          connections := p.connections.modify ptr fun c => { c with request := request } }
        some (p'.setTask t
          (if !connected || p.deadline ptr ≥ now || request ≥ p.maxRequest then .discard ptr
          else .recycle ptr))
      else none
  | .uncount t =>
      if p.tasks[t]? = some .discarded then some (p.addTotal (-1) |>.setTask t .none) else none
  | .recycle t =>
      match p.tasks[t]? with
      | some (.recycle ptr) => some ({ p with conns := p.conns ++ [ptr] }.setTask t .none)
      | _ => none

/-- Any pool and any number of threads. -/
def system : System HttpConnectionPool PoolAction where
  init p := ∃ maxSize maxAliveTime maxRequest threads,
    p = new maxSize maxAliveTime maxRequest threads
  step := step

/-! ## What a step does -/

variable {p p' : HttpConnectionPool} {t : Nat}

/-- Whether `ReleasePtr` deletes the connection. -/
def retires (p : HttpConnectionPool) (ptr : Nat) (connected : Bool) (now : Nat) : Bool :=
  !connected || p.deadline ptr ≥ now ||
    p.connections[ptr]?.elim 0 HttpConnection.request + 1 ≥ p.maxRequest

/-- The pool after `++ptr->m_request`. -/
def served (p : HttpConnectionPool) (user ptr : Nat) : HttpConnectionPool :=
  { p with
    lent := p.lent.erase (user, ptr)
    connections := p.connections.modify ptr fun c =>
      { c with request := p.connections[ptr]?.elim 0 HttpConnection.request + 1 } }

inductive Moved (p : HttpConnectionPool) : PoolAction → HttpConnectionPool → Prop
  | getConnection {t : Nat} {connected : List Nat} {now : Nat} {invalid rest : List Nat}
      {ptr : Option Nat} : p.tasks[t]? = some .none →
      p.scan (· ∈ connected) now p.conns = (invalid, ptr, rest) →
      Moved p (.getConnection t connected now)
        ({ p with conns := rest }.setTask t (.purge invalid invalid.length ptr))
  | purge {t conn size : Nat} {rest : List Nat} {ptr : Option Nat} :
      p.tasks[t]? = some (.purge (conn :: rest) size ptr) →
      Moved p (.delete t)
        ({ p with deleted := p.deleted ++ [conn] }.setTask t (.purge rest size ptr))
  | discard {t ptr : Nat} : p.tasks[t]? = some (.discard ptr) →
      Moved p (.delete t) ({ p with deleted := p.deleted ++ [ptr] }.setTask t .discarded)
  | lend {t size ptr : Nat} : p.tasks[t]? = some (.purge [] size (some ptr)) →
      Moved p (.subtract t)
        ({ p with lent := p.lent ++ [(t, ptr)] }.addTotal (-size) |>.setTask t .none)
  | connect {t size : Nat} : p.tasks[t]? = some (.purge [] size none) →
      Moved p (.subtract t) (p.addTotal (-size) |>.setTask t .connect)
  | fail {t : Nat} : p.tasks[t]? = some .connect → Moved p (.fail t) (p.setTask t .none)
  | create {t : Nat} : p.tasks[t]? = some .connect →
      Moved p (.create t)
        ({ p with connections := p.connections ++ [HttpConnection.mk 0 0] }.setTask t
          (.created p.connections.length))
  | count {t ptr : Nat} : p.tasks[t]? = some (.created ptr) →
      Moved p (.count t) ({ p with lent := p.lent ++ [(t, ptr)] }.addTotal 1 |>.setTask t .none)
  | retire {t user ptr now : Nat} {connected : Bool} : p.tasks[t]? = some .none →
      (user, ptr) ∈ p.lent → p.retires ptr connected now = true →
      Moved p (.release t user ptr connected now) ((p.served user ptr).setTask t (.discard ptr))
  | keep {t user ptr now : Nat} {connected : Bool} : p.tasks[t]? = some .none →
      (user, ptr) ∈ p.lent → p.retires ptr connected now = false →
      Moved p (.release t user ptr connected now) ((p.served user ptr).setTask t (.recycle ptr))
  | uncount {t : Nat} : p.tasks[t]? = some .discarded →
      Moved p (.uncount t) (p.addTotal (-1) |>.setTask t .none)
  | recycle {t ptr : Nat} : p.tasks[t]? = some (.recycle ptr) →
      Moved p (.recycle t) ({ p with conns := p.conns ++ [ptr] }.setTask t .none)

theorem step_moved {a : PoolAction} (hstep : p.step a = some p') : Moved p a p' := by
  cases a with
  | getConnection t connected now =>
      simp only [step, Option.ite_none_right_eq_some, Option.some.injEq] at hstep
      obtain ⟨ht, rfl⟩ := hstep
      exact .getConnection ht rfl
  | delete t =>
      simp only [step] at hstep
      split at hstep
      · rename_i conn rest size ptr ht
        obtain rfl := Option.some.inj hstep
        exact .purge ht
      · rename_i ptr ht
        obtain rfl := Option.some.inj hstep
        exact .discard ht
      · cases hstep
  | subtract t =>
      simp only [step] at hstep
      split at hstep
      · rename_i size ptr ht
        obtain rfl := Option.some.inj hstep
        exact .lend ht
      · rename_i size ht
        obtain rfl := Option.some.inj hstep
        exact .connect ht
      · cases hstep
  | fail t =>
      simp only [step, Option.ite_none_right_eq_some, Option.some.injEq] at hstep
      obtain ⟨ht, rfl⟩ := hstep
      exact .fail ht
  | create t =>
      simp only [step, Option.ite_none_right_eq_some, Option.some.injEq] at hstep
      obtain ⟨ht, rfl⟩ := hstep
      exact .create ht
  | count t =>
      simp only [step] at hstep
      split at hstep
      · rename_i ptr ht
        obtain rfl := Option.some.inj hstep
        exact .count ht
      · cases hstep
  | release t user ptr connected now =>
      simp only [step, Option.ite_none_right_eq_some, Option.some.injEq] at hstep
      obtain ⟨⟨ht, hlent⟩, rfl⟩ := hstep
      cases hretires : p.retires ptr connected now with
      | true =>
          rw [if_pos (by simpa [retires] using hretires)]
          exact .retire ht hlent hretires
      | false =>
          rw [if_neg (by simpa [retires] using hretires)]
          exact .keep ht hlent hretires
  | uncount t =>
      simp only [step, Option.ite_none_right_eq_some, Option.some.injEq] at hstep
      obtain ⟨ht, rfl⟩ := hstep
      exact .uncount ht
  | recycle t =>
      simp only [step] at hstep
      split at hstep
      · rename_i ptr ht
        obtain rfl := Option.some.inj hstep
        exact .recycle ht
      · cases hstep

/-! ## Where the connections are -/

end HttpConnectionPool

/-- The connections that a thread has in its hands. -/
def PoolTask.conns : PoolTask → Multiset Nat
  | .purge invalid _ ptr => (invalid ++ ptr.toList : List Nat)
  | .created ptr | .discard ptr | .recycle ptr => {ptr}
  | .none | .connect | .discarded => 0

/-- Those of them that are about to be deleted. -/
def PoolTask.doomed : PoolTask → Multiset Nat
  | .purge invalid _ _ => (invalid : List Nat)
  | .discard ptr => {ptr}
  | _ => 0

/-- The one that is on its way to a user, or back from one. -/
def PoolTask.kept : PoolTask → Multiset Nat
  | .purge _ _ ptr => (ptr.toList : List Nat)
  | .created ptr | .recycle ptr => {ptr}
  | _ => 0

theorem PoolTask.conns_eq (task : PoolTask) : task.conns = task.kept + task.doomed := by
  cases task with
  | purge invalid size ptr =>
      rw [kept, doomed, add_comm]
      rfl
  | _ => simp [conns, kept, doomed]

/-- How much of `m_total` is the thread's. -/
def PoolTask.owed : PoolTask → Int
  | .purge _ size ptr => size + ptr.toList.length
  | .discard _ | .discarded | .recycle _ => 1
  | .none | .connect | .created _ => 0

namespace HttpConnectionPool

variable {p p' : HttpConnectionPool} {t : Nat} {old new : PoolTask}

/-- The connections that are in no thread's hands. -/
def parked (p : HttpConnectionPool) : Multiset Nat :=
  (p.conns : Multiset Nat) + (p.lent.map Prod.snd : List Nat) + (p.deleted : Multiset Nat)

/-- The idle and the lent ones. -/
def usable (p : HttpConnectionPool) : Int := p.conns.length + p.lent.length

/-- Each connection is in one place, and the counter is right up to what
the threads have not counted yet. -/
structure Accounted (p : HttpConnectionPool) : Prop where
  places : p.parked + (p.tasks.map PoolTask.conns).sum = Multiset.range p.connections.length
  total : p.total = toInt32 (p.usable + (p.tasks.map PoolTask.owed).sum)

theorem new_accounted (maxSize maxAliveTime maxRequest threads : Nat) :
    (HttpConnectionPool.new maxSize maxAliveTime maxRequest threads).Accounted where
  places := by
    simp [HttpConnectionPool.new, parked, PoolTask.conns]
  total := by
    simp [HttpConnectionPool.new, usable, PoolTask.owed, toInt32]

/-- A step of thread `t` that takes as much as it puts down. -/
theorem Accounted.move (h : p.Accounted) (ht : p.tasks[t]? = some old)
    (htasks : p'.tasks = p.tasks.set t new) {d : Int}
    (hplaces : p'.parked + new.conns + Multiset.range p.connections.length =
      p.parked + old.conns + Multiset.range p'.connections.length)
    (htotal : p'.total = toInt32 (p.total + d))
    (howed : p'.usable + new.owed = p.usable + old.owed + d) : p'.Accounted where
  places := by
    have hsum := sum_map_set PoolTask.conns new ht
    have hold := h.places
    rw [htasks]
    set S' := ((p.tasks.set t new).map PoolTask.conns).sum
    set S := (p.tasks.map PoolTask.conns).sum
    set R := Multiset.range p.connections.length
    set R' := Multiset.range p'.connections.length
    refine add_left_cancel (a := old.conns + R) ?_
    calc old.conns + R + (p'.parked + S') = p'.parked + (S' + old.conns) + R := by abel
      _ = p'.parked + new.conns + R + S := by
          rw [hsum]
          abel
      _ = p.parked + old.conns + R' + S := by rw [hplaces]
      _ = old.conns + (p.parked + S) + R' := by abel
      _ = old.conns + R + R' := by rw [hold]
  total := by
    have hsum := sum_map_set PoolTask.owed new ht
    rw [htotal, h.total, toInt32_add, htasks]
    congr 1
    omega

/-- What the scan sorts out is what was there. -/
theorem scan_perm (p : HttpConnectionPool) (connected : Nat → Bool) (now : Nat) :
    ∀ conns : List Nat, conns = (p.scan connected now conns).1 ++
      ((p.scan connected now conns).2.1.toList ++ (p.scan connected now conns).2.2)
  | [] => rfl
  | conn :: rest => by
      rw [scan]
      split
      · show conn :: rest = conn :: (_ ++ _)
        rw [← scan_perm p connected now rest]
      · rfl

theorem Accounted.total_same (h : p.Accounted) : p.total = toInt32 (p.total + 0) := by
  rw [h.total, toInt32_add, Int.add_zero]

theorem coe_cons (x : Nat) (l : List Nat) : ((x :: l : List Nat) : Multiset Nat) = {x} + l := rfl

theorem lent_perm {user ptr : Nat} (hlent : (user, ptr) ∈ p.lent) :
    ((p.lent.map Prod.snd : List Nat) : Multiset Nat) =
        {ptr} + ((p.lent.erase (user, ptr)).map Prod.snd : List Nat) ∧
      p.lent.length = (p.lent.erase (user, ptr)).length + 1 := by
  have hperm := List.perm_cons_erase hlent
  exact ⟨Multiset.coe_eq_coe.mpr (hperm.map Prod.snd), hperm.length_eq⟩

theorem step_accounted (h : p.Accounted) {a : PoolAction} (hstep : p.step a = some p') :
    p'.Accounted := by
  cases step_moved hstep with
  | @getConnection t connected now invalid rest ptr ht hscan =>
      have hperm := scan_perm p (· ∈ connected) now p.conns
      rw [hscan] at hperm
      have hplaces : (p.conns : Multiset Nat) = (invalid : Multiset Nat) + (ptr.toList + rest) := by
        rw [Multiset.coe_add, Multiset.coe_add, ← hperm]
      have hlen := congrArg List.length hperm
      refine h.move ht rfl ?_ h.total_same ?_
      · simp only [setTask, parked, hplaces, PoolTask.conns, ← Multiset.coe_add]
        abel
      · simp only [List.length_append] at hlen
        simp only [setTask, usable, PoolTask.owed]
        omega
  | purge ht =>
      refine h.move ht rfl ?_ h.total_same ?_
      · simp only [setTask, parked, PoolTask.conns, ← Multiset.coe_add, coe_cons, List.cons_append]
        abel
      · simp only [setTask, usable, PoolTask.owed]
        omega
  | discard ht =>
      refine h.move ht rfl ?_ h.total_same ?_
      · simp only [setTask, parked, PoolTask.conns, ← Multiset.coe_add, coe_cons]
        abel
      · simp only [setTask, usable, PoolTask.owed]
        omega
  | lend ht =>
      refine h.move ht rfl ?_ rfl ?_
      · simp only [setTask, addTotal, parked, PoolTask.conns, ← Multiset.coe_add, coe_cons,
          List.map_append, List.map_cons, List.map_nil, List.nil_append, Option.toList_some]
        abel
      · simp only [setTask, addTotal, usable, PoolTask.owed, List.length_append,
          List.length_singleton, Option.toList_some]
        omega
  | connect ht =>
      refine h.move ht rfl ?_ rfl ?_
      · simp only [setTask, addTotal, parked, PoolTask.conns, List.nil_append, Option.toList_none,
          Multiset.coe_nil]
      · simp only [setTask, addTotal, usable, PoolTask.owed, Option.toList_none, List.length_nil]
        omega
  | fail ht => exact h.move ht rfl rfl h.total_same rfl
  | create ht =>
      refine h.move ht rfl ?_ h.total_same rfl
      simp only [setTask, parked, PoolTask.conns, List.length_append, List.length_singleton,
        Multiset.range_succ, ← Multiset.singleton_add]
      abel
  | count ht =>
      refine h.move ht rfl ?_ rfl ?_
      · simp only [setTask, addTotal, parked, PoolTask.conns, ← Multiset.coe_add, coe_cons,
          List.map_append, List.map_cons, List.map_nil]
        abel
      · simp only [setTask, addTotal, usable, PoolTask.owed, List.length_append,
          List.length_singleton]
        omega
  | retire ht hlent _ =>
      obtain ⟨hplaces, hlen⟩ := lent_perm hlent
      refine h.move ht rfl ?_ h.total_same ?_
      · simp only [setTask, served, parked, hplaces, PoolTask.conns, List.length_modify]
        abel
      · simp only [setTask, served, usable, PoolTask.owed]
        omega
  | keep ht hlent _ =>
      obtain ⟨hplaces, hlen⟩ := lent_perm hlent
      refine h.move ht rfl ?_ h.total_same ?_
      · simp only [setTask, served, parked, hplaces, PoolTask.conns, List.length_modify]
        abel
      · simp only [setTask, served, usable, PoolTask.owed]
        omega
  | uncount ht =>
      refine h.move ht rfl rfl rfl ?_
      simp only [setTask, addTotal, usable, PoolTask.owed]
      omega
  | recycle ht =>
      refine h.move ht rfl ?_ h.total_same ?_
      · simp only [setTask, parked, PoolTask.conns, ← Multiset.coe_add, coe_cons]
        abel
      · simp only [setTask, usable, PoolTask.owed, List.length_append, List.length_singleton]
        omega

/-- The operations in progress do not lose sight of a connection either. -/
theorem Accounted.count_eq (h : p.Accounted) {conn : Nat} (hconn : conn < p.connections.length) :
    p.conns.count conn +
      ((p.lent.map Prod.snd).count conn + (p.tasks.map fun task => task.kept.count conn).sum) +
      (p.deleted.count conn + (p.tasks.map fun task => task.doomed.count conn).sum) = 1 := by
  have hone : (Multiset.range p.connections.length).count conn = 1 :=
    Multiset.count_eq_one_of_mem (Multiset.nodup_range _) (Multiset.mem_range.mpr hconn)
  have htasks : ((p.tasks.map PoolTask.conns).sum).count conn =
      (p.tasks.map fun task => task.kept.count conn).sum +
        (p.tasks.map fun task => task.doomed.count conn).sum := by
    rw [← Multiset.coe_countAddMonoidHom, map_list_sum, List.map_map, ← List.sum_map_add]
    congr 1
    refine List.map_congr_left fun task _ => ?_
    rw [Function.comp_apply, Multiset.coe_countAddMonoidHom, task.conns_eq, Multiset.count_add]
  rw [← h.places, Multiset.count_add, htasks, parked, Multiset.count_add, Multiset.count_add,
    Multiset.coe_count, Multiset.coe_count, Multiset.coe_count] at hone
  omega

/-- The connection is not idle and not on its way to a user or to the
idle list. -/
def Away (p : HttpConnectionPool) (conn : Nat) : Prop :=
  conn ∉ p.conns ∧ ∀ task ∈ p.tasks, conn ∉ task.kept

/-- A connection that is lent is nowhere else. -/
theorem Accounted.lent_away (h : p.Accounted) {user ptr : Nat} (hlent : (user, ptr) ∈ p.lent) :
    ptr < p.connections.length ∧ p.Away ptr := by
  have hmem : ptr ∈ p.lent.map Prod.snd := List.mem_map_of_mem (f := Prod.snd) hlent
  have hlt : ptr < p.connections.length := by
    rw [← Multiset.mem_range, ← h.places, parked]
    simp only [Multiset.mem_add, Multiset.mem_coe]
    exact .inl (.inl (.inr hmem))
  have hcount := h.count_eq hlt
  have hpos : 0 < (p.lent.map Prod.snd).count ptr := List.count_pos_iff.mpr hmem
  refine ⟨hlt, fun hconns => ?_, fun task htask hkept => ?_⟩
  · have hidle : 0 < p.conns.count ptr := List.count_pos_iff.mpr hconns
    omega
  · have hle := List.single_le_sum (fun _ _ => Nat.zero_le _) _ (List.mem_map_of_mem
      (f := fun task : PoolTask => task.kept.count ptr) htask)
    have hone : 0 < task.kept.count ptr := Multiset.count_pos.mpr hkept
    omega

/-- It has one user. -/
theorem Accounted.lent_unique (h : p.Accounted) {user user' conn : Nat}
    (hu : (user, conn) ∈ p.lent) (hu' : (user', conn) ∈ p.lent) : user = user' := by
  have hnodup : (p.lent.map Prod.snd).Nodup := by
    have hrange := Multiset.nodup_range p.connections.length
    rw [← h.places, parked] at hrange
    have hle : ((p.lent.map Prod.snd : List Nat) : Multiset Nat) ≤
        p.conns + (p.lent.map Prod.snd : List Nat) + p.deleted +
          (p.tasks.map PoolTask.conns).sum :=
      (Multiset.le_add_left _ _).trans ((Multiset.le_add_right _ _).trans
        (Multiset.le_add_right _ _))
    exact Multiset.coe_nodup.mp (Multiset.nodup_of_le hle hrange)
  exact congrArg Prod.fst (List.inj_on_of_nodup_map hnodup hu hu' rfl)

theorem reachable_accounted (h : system.Reachable p) : p.Accounted := by
  refine h.invariant (P := Accounted) ?_ ?_
  · rintro p ⟨maxSize, maxAliveTime, maxRequest, threads, rfl⟩
    exact new_accounted ..
  · intro p a p' hp _ hstep
    exact step_accounted hp hstep

/-- **Every connection is in one place**: idle, with a user (or on its
way to or from one), or deleted (or about to be); and when no operation
is in progress `m_total`, an `int32_t`, is the number of the idle and
the lent ones. -/
theorem pool_accounting (h : system.Reachable p) :
    (∀ conn < p.connections.length, p.conns.count conn +
      ((p.lent.map Prod.snd).count conn + (p.tasks.map fun task => task.kept.count conn).sum) +
      (p.deleted.count conn + (p.tasks.map fun task => task.doomed.count conn).sum) = 1) ∧
    (∀ user user' conn, (user, conn) ∈ p.lent → (user', conn) ∈ p.lent → user = user') ∧
    ((∀ task ∈ p.tasks, task = .none) →
      p.total = toInt32 (p.conns.length + p.lent.length) ∧
      (p.conns.length + p.lent.length < 2 ^ 31 → p.total = p.conns.length + p.lent.length)) := by
  have hp := reachable_accounted h
  refine ⟨fun conn hconn => hp.count_eq hconn, fun _ _ _ => hp.lent_unique, fun hnone => ?_⟩
  · have howed : (p.tasks.map PoolTask.owed).sum = 0 := by
      refine List.sum_eq_zero fun n hn => ?_
      obtain ⟨task, htask, rfl⟩ := List.mem_map.mp hn
      rw [hnone task htask]
      rfl
    have htotal := hp.total
    rw [howed, Int.add_zero, usable] at htotal
    refine ⟨htotal, fun hlt => ?_⟩
    rw [htotal]
    exact_mod_cast toInt32_eq hlt

/-- A connection that is created, given back after one request and lent
again. -/
theorem pool_accounting_reused :
    ∃ p, system.Reachable p ∧ p.connections = [⟨0, 1⟩] ∧ p.lent = [(0, 0)] ∧ p.conns = [] ∧
      p.total = 1 := by
  have hrun : system.replay (HttpConnectionPool.new 2 10 5 1)
      [.getConnection 0 [] 100, .subtract 0, .create 0, .count 0, .release 0 0 0 true 100,
        .recycle 0, .getConnection 0 [0] 100, .subtract 0] =
      some ⟨2, 10, 5, [], 1, [⟨0, 1⟩], [.none], [(0, 0)], []⟩ := by decide
  have hinit : system.Reachable (HttpConnectionPool.new 2 10 5 1) := .init ⟨2, 10, 5, 1, rfl⟩
  have hreach := System.replay_reachable hinit hrun
  obtain ⟨-, -, htotal⟩ := pool_accounting hreach
  exact ⟨_, hreach, rfl, rfl, rfl, (htotal (by decide)).2 (by decide)⟩

end HttpConnectionPool

end Sylar
