import Mathlib.Algebra.Order.BigOperators.Group.List
import Mathlib.Algebra.Order.Ring.Nat
import Sylar.HttpConnectionPool

/-!
# How many connections a pool has

The constructor takes a `max_size` that nothing looks at again: a thread
in `getConnection` that has found no idle connection makes a new one,
whatever `m_total` is. So the pool stays within `m_maxSize` as long as
there is room whenever a connection is made (`capacity_kept`). There is
if no more than `m_maxSize` threads ask for connections or have them at
a time (`room_of_modest`): one is made only when the idle list has been
emptied.
-/

namespace Sylar

/-- What the thread may yet add to the pool, in `getConnection` with
nothing found. -/
def PoolTask.wanted : PoolTask → Nat
  | .purge _ _ Option.none | .connect => 1
  | _ => 0

def PoolTask.busy : PoolTask → Nat
  | .none => 0
  | _ => 1

/-- The room that the thread takes or is about to take. -/
def PoolTask.reserved (task : PoolTask) : Nat := task.kept.card + task.wanted

theorem PoolTask.reserved_le_busy (task : PoolTask) : task.reserved ≤ task.busy := by
  cases task with
  | purge invalid size ptr =>
      cases ptr <;> simp [reserved, kept, wanted, busy]
  | _ => simp [reserved, kept, wanted, busy]

namespace HttpConnectionPool

variable {p q : HttpConnectionPool} {t n : Nat} {old new : PoolTask} {a : PoolAction}

/-- The connections that are idle, lent out or on their way. -/
def live (p : HttpConnectionPool) : Nat :=
  p.conns.length + p.lent.length + (p.tasks.map fun task => task.kept.card).sum

/-- The same with those that may be made. -/
def reserve (p : HttpConnectionPool) : Nat :=
  p.conns.length + p.lent.length + (p.tasks.map PoolTask.reserved).sum

/-- The users' connections and the threads that are in the pool. -/
def demand (p : HttpConnectionPool) : Nat :=
  p.lent.length + (p.tasks.map PoolTask.busy).sum

/-- A thread makes a connection only when there is room for it. -/
def Room (p : HttpConnectionPool) : PoolAction → Prop
  | .create _ => p.live < p.maxSize
  | _ => True

/-- A thread asks for a connection only when fewer than `m_maxSize` are
in use or asked for. -/
def Modest (p : HttpConnectionPool) : PoolAction → Prop
  | .getConnection .. => p.demand < p.maxSize
  | _ => True

instance (p : HttpConnectionPool) : (a : PoolAction) → Decidable (p.Room a)
  | .create _ => inferInstanceAs (Decidable (_ < _))
  | .getConnection .. | .delete _ | .subtract _ | .fail _ | .count _ | .release .. | .uncount _
  | .recycle _ => inferInstanceAs (Decidable True)

def PoolAction.creates : PoolAction → Bool
  | .create _ => true
  | _ => false

def PoolAction.asks : PoolAction → Bool
  | .getConnection .. => true
  | _ => false

theorem maxSize_step (hmoved : Moved p a q) : q.maxSize = p.maxSize := by
  cases hmoved <;> rfl

theorem scan_none {connected : Nat → Bool} {now : Nat} : ∀ {conns invalid rest : List Nat},
    p.scan connected now conns = (invalid, none, rest) → rest = []
  | [], invalid, rest, hscan => by
      cases hscan
      rfl
  | conn :: conns, invalid, rest, hscan => by
      rw [scan] at hscan
      split at hscan
      · have hrest : (p.scan connected now conns).2 = (none, rest) := congrArg Prod.snd hscan
        exact scan_none (Prod.ext rfl hrest : p.scan connected now conns = (_, none, rest))
      · cases hscan

/-- Only a creation adds to the connections; only a thread that has
emptied the idle list adds to those that may come. -/
theorem step_counts (hmoved : Moved p a q) : ∃ t old new, p.tasks[t]? = some old ∧
    q.tasks = p.tasks.set t new ∧
    q.conns.length + q.lent.length + new.kept.card ≤
      p.conns.length + p.lent.length + old.kept.card + (if a.creates then 1 else 0) ∧
    (q.conns.length + q.lent.length + new.reserved ≤
        p.conns.length + p.lent.length + old.reserved ∨
      a.asks = true ∧ q.conns = [] ∧ q.lent = p.lent) := by
  cases hmoved with
  | @getConnection t connected now invalid rest ptr ht hscan =>
      have hperm := scan_perm p (· ∈ connected) now p.conns
      rw [hscan] at hperm
      have hlen := congrArg List.length hperm
      refine ⟨t, _, _, ht, rfl, ?_, ?_⟩
      · simp only [setTask, PoolTask.kept, Multiset.coe_card, List.length_append] at hlen ⊢
        omega
      · cases ptr with
        | none =>
            obtain rfl := scan_none hscan
            exact .inr ⟨rfl, rfl, rfl⟩
        | some ptr =>
            left
            simp only [setTask, PoolTask.reserved, PoolTask.kept, PoolTask.wanted,
              Option.toList_some, Multiset.coe_card, List.length_append,
              List.length_singleton] at hlen ⊢
            omega
  | purge ht =>
      refine ⟨_, _, _, ht, rfl, le_rfl, .inl (le_of_eq ?_)⟩
      rename_i ptr
      cases ptr <;> rfl
  | discard ht => exact ⟨_, _, _, ht, rfl, le_rfl, .inl le_rfl⟩
  | lend ht =>
      refine ⟨_, _, _, ht, rfl, ?_, .inl ?_⟩ <;>
        simp [setTask, addTotal, PoolTask.reserved, PoolTask.kept, PoolTask.wanted, Nat.add_assoc]
  | connect ht => exact ⟨_, _, _, ht, rfl, le_rfl, .inl le_rfl⟩
  | fail ht =>
      refine ⟨_, _, _, ht, rfl, le_rfl, .inl ?_⟩
      simp [setTask, PoolTask.reserved, PoolTask.kept, PoolTask.wanted]
  | create ht =>
      refine ⟨_, _, _, ht, rfl, ?_, .inl le_rfl⟩
      simp [setTask, PoolTask.kept, PoolAction.creates]
  | count ht =>
      refine ⟨_, _, _, ht, rfl, ?_, .inl ?_⟩ <;>
        simp [setTask, addTotal, PoolTask.reserved, PoolTask.kept, PoolTask.wanted, Nat.add_assoc]
  | retire ht hlent _ =>
      obtain ⟨-, hlen⟩ := lent_perm hlent
      refine ⟨_, _, _, ht, rfl, ?_, .inl ?_⟩
      · simp only [setTask, served, PoolTask.kept]
        omega
      · simp only [setTask, served, PoolTask.reserved, PoolTask.kept, PoolTask.wanted]
        omega
  | keep ht hlent _ =>
      obtain ⟨-, hlen⟩ := lent_perm hlent
      refine ⟨_, _, _, ht, rfl, ?_, .inl ?_⟩
      · simp only [setTask, served, PoolTask.kept, Multiset.card_singleton]
        omega
      · simp only [setTask, served, PoolTask.reserved, PoolTask.kept, PoolTask.wanted,
          Multiset.card_singleton]
        omega
  | uncount ht => exact ⟨_, _, _, ht, rfl, le_rfl, .inl le_rfl⟩
  | recycle ht =>
      refine ⟨_, _, _, ht, rfl, ?_, .inl ?_⟩ <;>
        · simp only [setTask, PoolTask.reserved, PoolTask.kept, PoolTask.wanted,
            List.length_append, List.length_singleton, Multiset.card_singleton, Multiset.card_zero]
          omega

theorem live_step (hmoved : Moved p a q) :
    q.live ≤ p.live + (if a.creates then 1 else 0) := by
  obtain ⟨t, old, new, ht, htasks, hcount, -⟩ := step_counts hmoved
  have hsum := sum_map_set (fun task : PoolTask => task.kept.card) new ht
  rw [live, live, htasks]
  omega

theorem live_le_maxSize (h : system.ReachableBy Room p) : p.live ≤ p.maxSize := by
  refine h.invariant (P := fun p => p.live ≤ p.maxSize) ?_ ?_
  · rintro p ⟨maxSize, maxAliveTime, maxRequest, threads, rfl⟩
    simp [HttpConnectionPool.new, live, PoolTask.kept]
  · intro p a q hp hroom hstep
    have hlive := live_step (step_moved hstep)
    rw [maxSize_step (step_moved hstep)]
    cases a with
    | create t =>
        have hlt : p.live < p.maxSize := hroom
        simp only [PoolAction.creates, if_true] at hlive
        omega
    | _ =>
        simp only [PoolAction.creates, Bool.false_eq_true, if_false] at hlive
        omega

/-- **The capacity is kept** in every run that makes connections only
when there is room. -/
theorem capacity_kept (h : system.ReachableBy Room p) :
    p.conns.length + p.lent.length ≤ p.maxSize :=
  (Nat.le_add_right _ _).trans (live_le_maxSize h)

/-- A pool for one connection, which is given back and lent again. -/
theorem capacity_kept_reused :
    ∃ p, system.ReachableBy Room p ∧ p.lent = [(0, 0)] ∧ 0 + 1 ≤ p.maxSize := by
  have hrun : system.replayBy Room (HttpConnectionPool.new 1 10 5 1)
      [.getConnection 0 [] 100, .subtract 0, .create 0, .count 0, .release 0 0 0 true 100,
        .recycle 0, .getConnection 0 [0] 100, .subtract 0] =
      some ⟨1, 10, 5, [], 1, [⟨0, 1⟩], [.none], [(0, 0)], []⟩ := by decide
  have hinit : system.ReachableBy Room (HttpConnectionPool.new 1 10 5 1) := .init ⟨1, 10, 5, 1, rfl⟩
  have hreach := System.replayBy_reachable hinit hrun
  exact ⟨_, hreach, rfl, capacity_kept hreach⟩

/-- Two threads of a pool that was made for one connection. -/
theorem capacity_exceeded : ∃ p, system.Reachable p ∧ p.maxSize = 1 ∧
    ¬ p.conns.length + p.lent.length ≤ p.maxSize := by
  have hrun : system.replay (HttpConnectionPool.new 1 10 5 2)
      [.getConnection 0 [] 100, .subtract 0, .create 0, .count 0,
        .getConnection 1 [] 100, .subtract 1, .create 1, .count 1] =
      some ⟨1, 10, 5, [], 2, [⟨0, 0⟩, ⟨0, 0⟩], [.none, .none], [(0, 0), (1, 1)], []⟩ := by decide
  exact ⟨_, System.replay_reachable (.init ⟨1, 10, 5, 2, rfl⟩) hrun, rfl, by decide⟩

/-! ## Users that do not ask for too much -/

theorem reserve_step (hmodest : p.Modest a) (hp : p.reserve ≤ p.maxSize) (hmoved : Moved p a q) :
    q.reserve ≤ p.maxSize := by
  obtain ⟨t, old, new, ht, htasks, -, hcount⟩ := step_counts hmoved
  have hsum := sum_map_set PoolTask.reserved new ht
  obtain hcount | ⟨hasks, hconns, hlent⟩ := hcount
  · rw [reserve, htasks]
    rw [reserve] at hp
    omega
  · cases a with
    | getConnection s connected now =>
        have hlt : p.demand < p.maxSize := hmodest
        have hbusy : (p.tasks.map PoolTask.reserved).sum ≤ (p.tasks.map PoolTask.busy).sum :=
          List.sum_le_sum fun task _ => task.reserved_le_busy
        have hnew : new.reserved ≤ 1 := by
          refine new.reserved_le_busy.trans ?_
          cases new <;> simp [PoolTask.busy]
        rw [demand] at hlt
        rw [reserve, htasks, hconns, hlent, List.length_nil]
        omega
    | _ => cases hasks

/-- **It is enough not to ask for more**: as long as no more than
`m_maxSize` connections are in use or asked for at a time, there is room
for each one that is made. -/
theorem room_of_modest (h : system.ReachableBy Modest p) : system.ReachableBy Room p := by
  have hreserve : p.reserve ≤ p.maxSize ∧ system.ReachableBy Room p := by
    induction h with
    | init hinit =>
        refine ⟨?_, .init hinit⟩
        obtain ⟨maxSize, maxAliveTime, maxRequest, threads, rfl⟩ := hinit
        simp [HttpConnectionPool.new, reserve, PoolTask.reserved, PoolTask.kept, PoolTask.wanted]
    | @step p q a h hmodest hstep ih =>
        obtain ⟨hp, hreach⟩ := ih
        have hmoved := step_moved hstep
        refine ⟨?_, hreach.step ?_ hstep⟩
        · rw [maxSize_step hmoved]
          exact reserve_step hmodest hp hmoved
        · cases hmoved with
          | @create t ht =>
              have hlt : (p.tasks.map fun task => task.kept.card).sum <
                  (p.tasks.map PoolTask.reserved).sum :=
                List.sum_lt_sum _ _ (fun task _ => Nat.le_add_right _ _)
                  ⟨_, List.mem_of_getElem? ht, Nat.lt_succ_self _⟩
              rw [reserve] at hp
              rw [Room, live]
              omega
          | _ => exact trivial
  exact hreserve.2

end HttpConnectionPool

end Sylar
