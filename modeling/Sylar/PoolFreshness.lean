import Mathlib.Data.List.TakeWhile
import Sylar.HttpConnectionPool

/-!
# How old the connections are that a pool lends

`getConnection` and `ReleasePtr` look at `m_createTime`, which is never
assigned and stays 0, and `getConnection` throws out what expires after
`now_ms` rather than before. So their choices are right only by luck
(`fresh_iff`): a connection that has been idle for any time is lent
again, except in the first `m_maxAliveTime` milliseconds after the
epoch, when nothing is.

`Watch` notes when each connection was made and every choice.
-/

namespace Sylar

namespace HttpConnectionPool

/-- A connection that was lent from the idle list, or discarded, and
what it was like at the time. -/
structure Verdict where
  lent : Bool
  connected : Bool
  born : Nat
  now : Nat
  request : Nat
deriving Repr, DecidableEq

/-- Only fresh connections are lent, and those that are younger than
`m_maxAliveTime` are not discarded. -/
def Verdict.Fresh (p : HttpConnectionPool) (v : Verdict) : Prop :=
  if v.lent then
    v.connected = true ∧ v.now ≤ v.born + p.maxAliveTime ∧ v.request < p.maxRequest
  else ¬(v.connected = true ∧ v.now < v.born + p.maxAliveTime ∧ v.request < p.maxRequest)

instance (p : HttpConnectionPool) (v : Verdict) : Decidable (v.Fresh p) :=
  inferInstanceAs (Decidable (if v.lent then _ else _))

/-- A pool, the times at which its connections were made, and its
choices so far. -/
structure Watch where
  pool : HttpConnectionPool
  born : List Nat
  verdicts : List Verdict
deriving Repr, DecidableEq

/-- `ptr->m_request`. -/
def requests (p : HttpConnectionPool) (conn : Nat) : Nat :=
  p.connections[conn]?.elim 0 HttpConnection.request

namespace Watch

def bornAt (w : Watch) (conn : Nat) : Nat := w.born[conn]?.getD 0

def verdict (w : Watch) (lent connected : Bool) (now request conn : Nat) : Verdict :=
  ⟨lent, connected, w.bornAt conn, now, request⟩

/-- The choices of a step. -/
def judged (w : Watch) : PoolAction → List Verdict
  | .getConnection _ connected now =>
      let r := w.pool.scan (· ∈ connected) now w.pool.conns
      r.1.map (fun conn => w.verdict false (conn ∈ connected) now (w.pool.requests conn) conn) ++
        r.2.1.toList.map fun conn =>
          w.verdict true (conn ∈ connected) now (w.pool.requests conn) conn
  | .release _ _ ptr connected now =>
      if w.pool.retires ptr connected now then
        [w.verdict false connected now (w.pool.requests ptr + 1) ptr]
      else []
  | _ => []

def bornAfter (w : Watch) (clock : Nat) : PoolAction → List Nat
  | .create _ => w.born ++ [clock]
  | _ => w.born

/-- The steps with the time by the clock; any pool whose `max_alive_time`
is a `uint32_t`. -/
def system : System Watch (PoolAction × Nat) where
  init w := (∃ maxSize maxAliveTime maxRequest threads, maxAliveTime < 2 ^ 32 ∧
      w.pool = HttpConnectionPool.new maxSize maxAliveTime maxRequest threads) ∧
    w.born = [] ∧ w.verdicts = []
  step w e := (w.pool.step e.1).map fun pool =>
    ⟨pool, w.bornAfter e.2 e.1, w.verdicts ++ w.judged e.1⟩

/-- Whether the choice of a step is right. In `getConnection` it depends
on the first connection that is connected. -/
def Timely (w : Watch) : PoolAction × Nat → Prop
  | (.getConnection _ connected now, _) =>
      if now < w.pool.maxAliveTime then ∀ conn ∈ w.pool.conns, conn ∉ connected
      else ∀ conn ∈ w.pool.conns.find? (· ∈ connected), now ≤ w.bornAt conn + w.pool.maxAliveTime
  | (.release _ _ ptr connected now, _) =>
      ¬(connected = true ∧ now ≤ w.pool.maxAliveTime ∧
        now < w.bornAt ptr + w.pool.maxAliveTime ∧ w.pool.requests ptr + 1 < w.pool.maxRequest)
  | _ => True

instance (w : Watch) : (e : PoolAction × Nat) → Decidable (w.Timely e)
  | (.getConnection _ connected now, _) =>
      inferInstanceAs (Decidable (if now < w.pool.maxAliveTime then
        ∀ conn ∈ w.pool.conns, conn ∉ connected
      else ∀ conn ∈ w.pool.conns.find? (· ∈ connected), now ≤ _))
  | (.release .., _) => inferInstanceAs (Decidable (¬(_ ∧ _ ∧ _ ∧ _)))
  | (.create _, _) | (.delete _, _) | (.subtract _, _) | (.fail _, _) | (.count _, _)
  | (.uncount _, _) | (.recycle _, _) => inferInstanceAs (Decidable True)

end Watch

/-! ## The invariant -/

variable {p q : HttpConnectionPool} {a : PoolAction} {conn user ptr now : Nat}
  {connected : Nat → Bool}

theorem requests_create : requests { p with
    connections := p.connections ++ [HttpConnection.mk 0 0] } conn = p.requests conn := by
  rw [requests, requests, List.getElem?_append]
  split
  · rfl
  · rename_i hge
    rw [List.getElem?_eq_none (Nat.le_of_not_lt hge), List.getElem?_singleton]
    split <;> rfl

theorem requests_served (hne : conn ≠ ptr) : (p.served user ptr).requests conn =
    p.requests conn := by
  simp only [requests, served, List.getElem?_modify, if_neg (Ne.symm hne), id_map']

theorem requests_served_self (hlt : ptr < p.connections.length) :
    (p.served user ptr).requests ptr = p.requests ptr + 1 := by
  simp only [requests, served, List.getElem?_modify, if_true, List.getElem?_eq_getElem hlt,
    Option.map_eq_map, Option.map_some, Option.elim_some]

/-- No connection has a time of creation, and those on the idle list may
serve another request. -/
structure Unset (p : HttpConnectionPool) : Prop where
  accounted : p.Accounted
  small : p.maxAliveTime < 2 ^ 32
  createTime : ∀ c ∈ p.connections, c.createTime = 0
  idle : ∀ conn ∈ p.conns, p.requests conn < p.maxRequest
  recycling : ∀ conn, PoolTask.recycle conn ∈ p.tasks → p.requests conn < p.maxRequest

theorem Unset.deadline (h : p.Unset) (conn : Nat) : p.deadline conn = p.maxAliveTime := by
  have hsmall := h.small
  have htime : p.connections[conn]?.elim 0 HttpConnection.createTime = 0 := by
    cases hconn : p.connections[conn]? with
    | none => rfl
    | some c => exact h.createTime c (List.mem_of_getElem? hconn)
  rw [HttpConnectionPool.deadline, htime, add64_eq (by omega), Nat.zero_add]

/-- A release only changes the connection that is given back. -/
theorem Unset.served (h : p.Unset) (hlent : (user, ptr) ∈ p.lent) :
    (∀ c ∈ (p.served user ptr).connections, c.createTime = 0) ∧
    (∀ conn ∈ p.conns, (p.served user ptr).requests conn < p.maxRequest) ∧
    ∀ conn, PoolTask.recycle conn ∈ p.tasks → (p.served user ptr).requests conn < p.maxRequest := by
  obtain ⟨hlt, hconns, htasks⟩ := h.accounted.lent_away hlent
  refine ⟨fun c hc => ?_, fun conn hconn => ?_, fun conn htask => ?_⟩
  · obtain ⟨i, hi⟩ := List.mem_iff_getElem?.mp hc
    simp only [HttpConnectionPool.served, List.getElem?_modify, Option.map_eq_map,
      Option.map_eq_some_iff] at hi
    obtain ⟨c', hc', rfl⟩ := hi
    have htime := h.createTime c' (List.mem_of_getElem? hc')
    split
    · exact htime
    · exact htime
  · have hne : conn ≠ ptr := fun heq => hconns (heq ▸ hconn)
    exact (requests_served hne).trans_lt (h.idle conn hconn)
  · have hne : conn ≠ ptr := by
      rintro rfl
      exact htasks _ htask (Multiset.mem_singleton_self conn)
    exact (requests_served hne).trans_lt (h.recycling conn htask)

theorem Unset.step (h : p.Unset) (hstep : p.step a = some q) : q.Unset := by
  have haccounted := step_accounted h.accounted hstep
  cases step_moved hstep with
  | @getConnection t connected now invalid rest ptr ht hscan =>
      have hperm := scan_perm p (· ∈ connected) now p.conns
      rw [hscan] at hperm
      refine ⟨haccounted, h.small, h.createTime, fun conn hconn => h.idle conn ?_,
        fun conn htask => h.recycling conn ?_⟩
      · rw [hperm]
        exact List.mem_append_right _ (List.mem_append_right _ hconn)
      · exact (List.mem_or_eq_of_mem_set htask).resolve_right (by simp)
  | purge ht | discard ht | connect ht | fail ht | uncount ht | lend ht | count ht =>
      refine ⟨haccounted, h.small, h.createTime, h.idle, fun conn htask => h.recycling conn ?_⟩
      exact (List.mem_or_eq_of_mem_set htask).resolve_right (by simp)
  | create ht =>
      refine ⟨haccounted, h.small, fun c hc => ?_, fun conn hconn => ?_, fun conn htask => ?_⟩
      · obtain hc | hc := List.mem_append.mp hc
        · exact h.createTime c hc
        · rw [List.mem_singleton.mp hc]
      · exact requests_create.trans_lt (h.idle conn hconn)
      · refine requests_create.trans_lt (h.recycling conn ?_)
        exact (List.mem_or_eq_of_mem_set htask).resolve_right (by simp)
  | @retire t user ptr now connected ht hlent hretires =>
      obtain ⟨htime, hidle, hrecycling⟩ := h.served hlent
      refine ⟨haccounted, h.small, htime, hidle, fun conn htask => hrecycling conn ?_⟩
      exact (List.mem_or_eq_of_mem_set htask).resolve_right (by simp)
  | @keep t user ptr now connected ht hlent hretires =>
      obtain ⟨htime, hidle, hrecycling⟩ := h.served hlent
      refine ⟨haccounted, h.small, htime, hidle, fun conn htask => ?_⟩
      obtain htask | heq := List.mem_or_eq_of_mem_set htask
      · exact hrecycling conn htask
      · obtain rfl := PoolTask.recycle.inj heq
        obtain ⟨hlt, -⟩ := h.accounted.lent_away hlent
        have hrequest : p.requests conn + 1 < p.maxRequest := by
          simp only [retires, Bool.or_eq_false_iff, decide_eq_false_iff_not] at hretires
          exact Nat.lt_of_not_ge hretires.2
        have hserved : (p.served user conn).requests conn = p.requests conn + 1 :=
          requests_served_self hlt
        exact hserved.trans_lt hrequest
  | @recycle t ptr ht =>
      refine ⟨haccounted, h.small, h.createTime, fun conn hconn => ?_,
        fun conn htask => h.recycling conn ?_⟩
      · obtain hconn | hconn := List.mem_append.mp hconn
        · exact h.idle conn hconn
        · rw [List.mem_singleton.mp hconn]
          exact h.recycling ptr (List.mem_of_getElem? ht)
      · exact (List.mem_or_eq_of_mem_set htask).resolve_right (by simp)

/-! ## What the two functions choose -/

/-- With the same deadline for all connections the scan throws out
either every one or those that are not connected. -/
theorem scan_eq {time : Nat} (hdeadline : ∀ conn, p.deadline conn = time) : ∀ conns : List Nat,
    p.scan connected now conns = if now < time then (conns, none, [])
      else (conns.takeWhile (!connected ·), conns.find? connected,
        (conns.dropWhile (!connected ·)).tail)
  | [] => by
      rw [scan]
      split <;> rfl
  | conn :: rest => by
      rw [scan, hdeadline, scan_eq hdeadline rest]
      by_cases hlt : now < time
      · simp [hlt]
      · cases hconn : connected conn with
        | true => simp [hlt, hconn]
        | false => simp [hlt, hconn]

namespace Watch

variable {w w' : Watch} {e : PoolAction × Nat} {h₀ h : Watch}

theorem fresh_lent {connected : Bool} {request : Nat} :
    (w.verdict true connected now request conn).Fresh p ↔
      connected = true ∧ now ≤ w.bornAt conn + p.maxAliveTime ∧ request < p.maxRequest := Iff.rfl

theorem fresh_discarded {connected : Bool} {request : Nat} :
    (w.verdict false connected now request conn).Fresh p ↔
      ¬(connected = true ∧ now < w.bornAt conn + p.maxAliveTime ∧ request < p.maxRequest) := Iff.rfl

/-- The choices of a step are right exactly under `Timely`. -/
theorem judged_iff (hw : w.pool.Unset) (e : PoolAction × Nat) :
    (∀ v ∈ w.judged e.1, v.Fresh w.pool) ↔ w.Timely e := by
  obtain ⟨a, clock⟩ := e
  cases a with
  | getConnection t connected now =>
      simp only [Timely, judged, scan_eq hw.deadline]
      by_cases hlt : now < w.pool.maxAliveTime
      · simp only [if_pos hlt, Option.toList_none, List.map_nil, List.append_nil,
          List.forall_mem_map, fresh_discarded]
        refine forall₂_congr fun conn hconn => ?_
        have hyoung : now < w.bornAt conn + w.pool.maxAliveTime := by omega
        simp [hyoung, hw.idle conn hconn]
      · simp only [if_neg hlt, List.forall_mem_append, List.forall_mem_map, fresh_discarded,
          fresh_lent, Option.mem_toList, Option.mem_def]
        constructor
        · rintro ⟨-, hlent⟩ conn hconn
          exact (hlent conn hconn).2.1
        · intro hold
          refine ⟨fun conn hconn => ?_, fun conn hconn => ⟨?_, hold conn hconn, ?_⟩⟩
          · have hoff := List.mem_takeWhile_imp hconn
            simp only [Bool.not_eq_true'] at hoff
            simp [hoff]
          · have hon := List.find?_some hconn
            exact hon
          · exact hw.idle conn (List.mem_of_find?_eq_some hconn)
  | release t user ptr connected now =>
      simp only [Timely, judged, retires, hw.deadline]
      split
      · rename_i hretires
        simp only [List.forall_mem_singleton, fresh_discarded]
        refine not_congr (and_congr_right fun hconnected => ?_)
        rw [hconnected] at hretires
        constructor
        · rintro ⟨hyoung, hrequest⟩
          have hmay : ¬w.pool.maxRequest ≤
              w.pool.connections[ptr]?.elim 0 HttpConnection.request + 1 := Nat.not_le.mpr hrequest
          exact ⟨by simpa [hmay] using hretires, hyoung, hrequest⟩
        · exact fun hall => hall.2
      · rename_i hretires
        refine ⟨?_, fun _ v hv => by cases hv⟩
        rintro - ⟨hconnected, hearly, -, -⟩
        exact hretires (by simp [hearly])
  | _ => simp [Timely, judged]

theorem system_step (hstep : system.step w e = some w') :
    ∃ q, w.pool.step e.1 = some q ∧ w' = ⟨q, w.bornAfter e.2 e.1, w.verdicts ++ w.judged e.1⟩ := by
  obtain ⟨q, hq, rfl⟩ := Option.map_eq_some_iff.mp hstep
  exact ⟨q, hq, rfl⟩

theorem limits_step (hmoved : Moved p a q) :
    q.maxAliveTime = p.maxAliveTime ∧ q.maxRequest = p.maxRequest := by
  cases hmoved <;> exact ⟨rfl, rfl⟩

theorem init_unset (hinit : system.init w) : w.pool.Unset := by
  obtain ⟨⟨maxSize, maxAliveTime, maxRequest, threads, hsmall, hpool⟩, -, -⟩ := hinit
  rw [hpool]
  exact ⟨new_accounted .., hsmall, by simp [HttpConnectionPool.new],
    by simp [HttpConnectionPool.new], by simp [HttpConnectionPool.new]⟩

/-- **A pool's choices are right exactly in the runs that keep to
`Timely`.** -/
theorem fresh_iff {es : List (PoolAction × Nat)} (hinit : system.init w)
    (hrun : system.replay w es = some w') :
    (∀ v ∈ w'.verdicts, v.Fresh w'.pool) ↔ system.replayBy Timely w es = some w' := by
  have hnone : ∀ v ∈ w.verdicts, v.Fresh w.pool := by
    rw [hinit.2.2]
    exact fun v hv => nomatch hv
  have hiff : (∀ v ∈ w'.verdicts, v.Fresh w'.pool) ↔
      (∀ v ∈ w.verdicts, v.Fresh w.pool) ∧ system.replayBy Timely w es = some w' := by
    refine @System.replay_iff _ _ system Timely _ (fun w => w.pool.Unset)
      (fun w => ∀ v ∈ w.verdicts, v.Fresh w.pool) ?_ ?_ es w w' (init_unset hinit) hrun
    · intro w e w' hw hstep
      obtain ⟨q, hq, rfl⟩ := system_step hstep
      exact hw.step hq
    · intro w e w' hw hstep
      obtain ⟨q, hq, rfl⟩ := system_step hstep
      obtain ⟨halive, hrequest⟩ := limits_step (step_moved hq)
      have hsame : ∀ v : Verdict, v.Fresh q ↔ v.Fresh w.pool := by
        intro v
        rw [Verdict.Fresh, Verdict.Fresh, halive, hrequest]
      simp only [hsame, List.forall_mem_append, judged_iff hw e]
  rw [hiff]
  exact and_iff_right hnone

/-- A new pool that nobody has looked at. -/
def fresh (maxAliveTime : Nat) : Watch :=
  ⟨HttpConnectionPool.new 1 maxAliveTime 5 1, [], []⟩

theorem fresh_init {maxAliveTime : Nat} (hsmall : maxAliveTime < 2 ^ 32) :
    system.init (fresh maxAliveTime) :=
  ⟨⟨1, maxAliveTime, 5, 1, hsmall, rfl⟩, rfl, rfl⟩

/-- Thread 0 makes a connection at `made`, gives it back after a
millisecond and asks for one at `asked`. -/
def reuse (made asked : Nat) : List (PoolAction × Nat) :=
  [(.getConnection 0 [] made, made), (.subtract 0, made), (.create 0, made), (.count 0, made),
    (.release 0 0 0 true (made + 1), made + 1), (.recycle 0, made + 1),
    (.getConnection 0 [0] asked, asked)]

/-- A connection of 200 milliseconds is lent again. -/
theorem fresh_iff_reused : ∃ w : Watch, w.verdicts = [⟨true, true, 90000, 90200, 1⟩] ∧
    ∀ v ∈ w.verdicts, v.Fresh w.pool := by
  have hrun : system.replay (fresh 60000) (reuse 90000 90200) =
      some ⟨⟨1, 60000, 5, [], 1, [⟨0, 1⟩], [.purge [] 0 (some 0)], [], []⟩, [90000],
        [⟨true, true, 90000, 90200, 1⟩]⟩ := by decide
  exact ⟨_, rfl, (fresh_iff (fresh_init (by decide)) hrun).mpr (by decide)⟩

/-- One of four seconds too, when it may only be ten milliseconds old. -/
theorem stale_lent : ¬∀ w es w', system.init w → system.replay w es = some w' →
    ∀ v ∈ w'.verdicts, v.Fresh w'.pool := by
  intro hall
  have hrun : system.replay (fresh 10) (reuse 1000 5000) =
      some ⟨⟨1, 10, 5, [], 1, [⟨0, 1⟩], [.purge [] 0 (some 0)], [], []⟩, [1000],
        [⟨true, true, 1000, 5000, 1⟩]⟩ := by decide
  exact absurd (hall _ _ _ (fresh_init (by decide)) hrun) (by decide)

end Watch

end HttpConnectionPool

end Sylar
