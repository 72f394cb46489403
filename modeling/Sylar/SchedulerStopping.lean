import Sylar.SchedulerQueue

/-!
# When the scheduler may stop

`Scheduler::stopping()`: both flags are set, the queue is empty and the
counter of active workers is zero. A worker that gets a fiber back
decrements the counter first and then, if the fiber is `READY`, puts it
into the queue again. In between the fiber is neither counted nor
queued; a worker in that place with a `READY` fiber is `Waiting`.

`Idle` is what `stopping()` is to mean. It does in runs that keep out of
the way of such a worker once `stop()` has set the flags (`Orderly`):
between its decrement and its `schedule` nobody else makes the decrement,
nor is the last flag written, and it makes its own decrement only while
something else is left to do. Without the latter it ends with
`stopping()` at once (`stopping_of_leave`).
-/

namespace Sylar

/-- The flags are `m_autoStop` and `m_stopping`. -/
structure Shutdown where
  journal : Journal
  autoStop : Bool
  stopFlag : Bool

namespace Shutdown

/-- `m_fibers.empty() && m_activeThreadCount == count`. -/
def quiet (s : Shutdown) (count : Nat) : Bool :=
  s.journal.scheduler.queue.isEmpty && s.journal.scheduler.activeThreadCount == count

/-- `Scheduler::stopping()`. -/
def stopping (s : Shutdown) : Bool :=
  s.autoStop && s.stopFlag && s.quiet 0

/-- `IOManager::stopping(timeout)`. -/
def ioStopping (s : Shutdown) (nextTimer pendingEventCount : Nat) : Bool :=
  nextTimer == 2 ^ 64 - 1 && pendingEventCount == 0 && s.stopping

inductive Action where
  /-- `m_stopping = false` in `start()` -/
  | start
  /-- `m_autoStop = true` in `stop()` -/
  | setAutoStop
  /-- `m_stopping = true` in `stop()` -/
  | setStopping
  | run (a : Journal.Action)
deriving Repr, DecidableEq

def step (s : Shutdown) : Action → Option Shutdown
  | .start => some { s with stopFlag := false }
  | .setAutoStop => some { s with autoStop := true }
  | .setStopping => some { s with stopFlag := true }
  | .run a => (s.journal.step a).map fun j => { s with journal := j }

/-- The flags as the constructor leaves them. -/
def new : Shutdown := ⟨⟨.new, []⟩, false, true⟩

def system : System Shutdown Action where
  init s := s = new
  step := step

end Shutdown

/-- Before the state decides. -/
def Pc.decided : Pc → Bool
  | .returned .. => true
  | _ => false

namespace Scheduler

/-- A worker has a `READY` fiber that it no longer counts and has not
yet put back. -/
def Waiting (s : Scheduler) : Prop :=
  ∃ t f cb, (s.workers t).pc = .returned f cb ∧ s.stateOf f = some .READY

/-- Nothing is left to do. -/
structure Idle (s : Scheduler) : Prop where
  queue : s.queue = []
  workers : ∀ t, (s.workers t).pc.active = false
  waiting : ¬s.Waiting

variable {s s' : Scheduler} {t : Nat} {pc : Pc}

/-- Only a worker that has just made its decrement can begin to wait. -/
theorem Waiting.of_moves (hm : Moves s s' t pc) (hpc : ∀ f cb, pc ≠ .returned f cb)
    (hready : ReadiesNone s s') (h : s'.Waiting) : s.Waiting := by
  obtain ⟨u, f, cb, hu, hf⟩ := h
  have hut : u ≠ t := by
    rintro rfl
    exact hpc f cb (hm.here.symm.trans hu)
  exact ⟨u, f, cb, (hm.others u hut).symm.trans hu, hready f hf⟩

theorem not_waiting (h : ∀ t, (s.workers t).pc.decided = false) : ¬s.Waiting := by
  rintro ⟨t, f, cb, ht, -⟩
  have hfalse := h t
  rw [ht] at hfalse
  cases hfalse

theorem not_waiting_of_first (hfirst : (s.workers 0).pc.decided = false)
    (hrest : ∀ t, (s.workers (t + 1)).pc.decided = false) : ¬s.Waiting := by
  refine not_waiting fun t => ?_
  cases t with
  | zero => exact hfirst
  | succ t => exact hrest t

theorem Waiting.of_same (hworkers : s'.workers = s.workers) (hready : ReadiesNone s s')
    (h : s'.Waiting) : s.Waiting := by
  obtain ⟨u, f, cb, hu, hf⟩ := h
  exact ⟨u, f, cb, hworkers ▸ hu, hready f hf⟩

end Scheduler

namespace Shutdown

open Scheduler (Waiting)

variable {s s' : Shutdown}

/-- `stop()` has set both flags. -/
def stopped (s : Shutdown) : Bool := s.autoStop && s.stopFlag

/-- Something is left to do besides what worker `t` is at. -/
def Elsewhere (s : Shutdown) (t : Nat) : Prop :=
  s.journal.scheduler.queue ≠ [] ∨ ∃ u, u ≠ t ∧ (s.journal.scheduler.workers u).pc.active = true

/-- While a worker waits with a `READY` fiber, the last flag is not
written and, from then on, no other worker makes its decrement. A worker
that has a `READY` fiber makes it while something else is left to do. -/
def Orderly (s : Shutdown) : Action → Prop
  | .start => True
  | .setAutoStop => s.stopFlag = true → ¬s.journal.scheduler.Waiting
  | .setStopping => s.autoStop = true → ¬s.journal.scheduler.Waiting
  | .run (.worker (.check t)) => s.stopped = true →
      (∀ f, (s.journal.scheduler.workers t).pc = .picked f →
        s.journal.scheduler.stateOf f = some .TERM ∨ s.journal.scheduler.stateOf f = some .EXCEPT) →
      ¬s.journal.scheduler.Waiting
  | .run (.worker (.leave t)) => s.stopped = true →
      ¬s.journal.scheduler.Waiting ∧ ∀ f cb, (s.journal.scheduler.workers t).pc = .back f cb →
        s.journal.scheduler.stateOf f = some .READY → s.Elsewhere t
  | .run _ => True

theorem quiet_eq_true {n : Nat} : s.quiet n = true ↔
    s.journal.scheduler.queue = [] ∧ s.journal.scheduler.activeThreadCount = n := by
  simp [quiet]

theorem stopping_iff : s.stopping = true ↔
    s.autoStop = true ∧ s.stopFlag = true ∧ s.quiet 0 = true := by
  simp [stopping, and_assoc]

theorem stopped_iff : s.stopped = true ↔ s.autoStop = true ∧ s.stopFlag = true := by
  simp [stopped]

end Shutdown

namespace Journal

open Scheduler (Moves)

variable {j j' : Journal} {t : Nat} {pc : Pc}

theorem pc_active_of_pending (h : pc.pending = true) : pc.active = true := by
  cases pc with
  | picked | pickedCb | entering => rfl
  | _ => cases h

theorem Inv.not_active (h : Inv j) (hzero : j.scheduler.activeThreadCount = 0) :
    (j.scheduler.workers t).pc.active = false := by
  by_contra hactive
  have := h.counted.pos (Bool.not_eq_false _ ▸ hactive)
  omega

/-- Nobody but `t` is active when the counter is at one. -/
theorem Inv.alone (h : Inv j) (hone : j.scheduler.activeThreadCount = 1)
    (ht : (j.scheduler.workers t).pc.active = true) {u : Nat} (hut : u ≠ t) :
    (j.scheduler.workers u).pc.active = false := by
  obtain ⟨workers, hmem, hcard⟩ := h.counted
  by_contra hu
  have htwo := Finset.one_lt_card.mpr
    ⟨u, (hmem u).mpr (Bool.not_eq_false _ ▸ hu), t, (hmem t).mpr ht, hut⟩
  omega

/-- The counter is at one if nobody but `t` is active. -/
theorem Inv.count_eq_one (h : Inv j) (ht : (j.scheduler.workers t).pc.active = true)
    (halone : ∀ u, u ≠ t → (j.scheduler.workers u).pc.active = false) :
    j.scheduler.activeThreadCount = 1 := by
  obtain ⟨workers, hmem, hcard⟩ := h.counted
  have hsingle : workers = {t} := by
    ext u
    rw [hmem, Finset.mem_singleton]
    refine ⟨fun hu => ?_, fun hu => hu ▸ ht⟩
    by_contra hut
    rw [halone u hut] at hu
    cases hu
  rw [hcard, hsingle, Finset.card_singleton]

/-- The move of a worker past the decrement that leaves the counter at
zero. -/
theorem Inv.last (h : Inv j) (hm : Moves j.scheduler j'.scheduler t pc)
    (hold : (j.scheduler.workers t).pc.active = true) (hnew : pc.active = false)
    (hzero : j'.scheduler.activeThreadCount = 0) : j.scheduler.activeThreadCount = 1 := by
  have hcount := hm.count
  simp only [hold, hnew] at hcount
  have hdec := dec64_add_one (h.counted.pos hold)
  omega

/-- Where a step that ends with an empty queue, a zero counter and a
waiting worker comes from. -/
theorem waiting_cases (h : Inv j) {a : Action} (hstep : j.step a = some j')
    (hempty : j'.scheduler.queue = []) (hzero : j'.scheduler.activeThreadCount = 0)
    (hwait : j'.scheduler.Waiting) : j.scheduler.queue = [] ∧
      (j.scheduler.activeThreadCount = 0 ∧ j.scheduler.Waiting ∨
      j.scheduler.activeThreadCount = 1 ∧
        ((∃ t f, a = .worker (.check t) ∧ (j.scheduler.workers t).pc = .picked f ∧
            (j.scheduler.stateOf f = some .TERM ∨ j.scheduler.stateOf f = some .EXCEPT) ∧
            j.scheduler.Waiting) ∨
          ∃ t f cb, a = .worker (.leave t) ∧ (j.scheduler.workers t).pc = .back f cb ∧
            (j.scheduler.Waiting ∨ j.scheduler.stateOf f = some .READY))) := by
  have hidle (t : Nat) := (step_inv h hstep).1.not_active (t := t) hzero
  -- a worker that is active afterwards is counted
  have hactive {t : Nat} {pc : Pc} (hm : Moves j.scheduler j'.scheduler t pc)
      (hpc : pc.active = true) : False := by
    have hfalse := hidle t
    rw [hm.here, hpc] at hfalse
    cases hfalse
  cases a with
  | schedule fc thread =>
      obtain rfl := Option.some.inj hstep
      cases fc with
      | none => exact ⟨hempty, .inl ⟨hzero, hwait⟩⟩
      | some work => exact absurd hempty (by simp [Scheduler.scheduleNoLock, Scheduler.schedule])
  | scheduleAll fcs =>
      obtain rfl := Option.some.inj hstep
      rw [Scheduler.scheduleAll_eq] at hempty hzero hwait
      exact ⟨(List.append_eq_nil_iff.mp hempty).1, .inl ⟨hzero, hwait.of_same rfl fun _ hf => hf⟩⟩
  | worker a =>
      cases a with
      | create f =>
          obtain ⟨s, hs, rfl⟩ := Option.map_eq_some_iff.mp hstep
          simp only [Scheduler.step, Option.ite_none_right_eq_some, Option.some.injEq] at hs
          obtain ⟨-, rfl⟩ := hs
          have hready := @Scheduler.readiesNone_putFiber j.scheduler f ⟨.INIT, true, none⟩
            (by decide)
          exact ⟨hempty, .inl ⟨hzero, Scheduler.Waiting.of_same (by rfl) hready hwait⟩⟩
      | schedule ft => cases hstep
      | pick t =>
          obtain ⟨s, hs, rfl⟩ := Option.map_eq_some_iff.mp hstep
          obtain ⟨-, -, pc, -, hm, hpending, -⟩ := Scheduler.pick_spec hs
          exact (hactive hm (pc_active_of_pending hpending)).elim
      | check t =>
          obtain ⟨s, hs, rfl⟩ := Option.map_eq_some_iff.mp hstep
          obtain ⟨f, hpc, hqueue, hready, hm | ⟨hm, hdone⟩⟩ := Scheduler.check_spec hs
          · exact (hactive hm rfl).elim
          · exact ⟨hqueue.symm.trans hempty, .inr ⟨h.last hm (by rw [hpc]; rfl) rfl hzero, .inl
              ⟨t, f, rfl, hpc, hdone, hwait.of_moves hm (fun _ _ hp => by cases hp) hready⟩⟩⟩
      | prepare t g =>
          obtain ⟨s, hs, rfl⟩ := Option.map_eq_some_iff.mp hstep
          obtain ⟨-, -, f, hm⟩ := Scheduler.prepare_spec hs
          exact (hactive hm rfl).elim
      | swapIn t =>
          obtain ⟨s, hs, rfl⟩ := Option.map_eq_some_iff.mp hstep
          obtain ⟨f, cb, -, -, hm⟩ := Scheduler.swapIn_spec hs
          exact (hactive hm rfl).elim
      | register t =>
          obtain ⟨s, hs, rfl⟩ := Option.map_eq_some_iff.mp hstep
          obtain ⟨f, cb, hpc⟩ : ∃ f cb, (j.scheduler.workers t).pc = .running f cb := by
            simp only [Scheduler.step, Scheduler.register] at hs
            split at hs
            · exact ⟨_, _, ‹_›⟩
            · cases hs
          have hfalse := hidle t
          rw [(Scheduler.register_spec hs).1, hpc] at hfalse
          cases hfalse
      | yield t st =>
          obtain ⟨s, hs, rfl⟩ := Option.map_eq_some_iff.mp hstep
          obtain ⟨f, cb, -, -, hm⟩ := Scheduler.yield_spec hs
          exact (hactive hm rfl).elim
      | save t =>
          obtain ⟨s, hs, rfl⟩ := Option.map_eq_some_iff.mp hstep
          obtain ⟨f, cb, -, -, hm⟩ := Scheduler.save_spec hs
          exact (hactive hm rfl).elim
      | leave t =>
          obtain ⟨s, hs, rfl⟩ := Option.map_eq_some_iff.mp hstep
          obtain ⟨f, cb, hpc, hqueue, hready, hm⟩ := Scheduler.leave_spec hs
          refine ⟨hqueue.symm.trans hempty, .inr ⟨h.last hm (by rw [hpc]; rfl) rfl hzero, .inr
            ⟨t, f, cb, rfl, hpc, ?_⟩⟩⟩
          obtain ⟨u, g, gcb, hu, hg⟩ := hwait
          by_cases hut : u = t
          · subst hut
            obtain ⟨rfl, -⟩ := Pc.returned.inj (hm.here.symm.trans hu)
            exact .inr (hready _ hg)
          · exact .inl ⟨u, g, gcb, (hm.others u hut).symm.trans hu, hready g hg⟩
      | after t =>
          obtain ⟨s, hs, rfl⟩ := Option.map_eq_some_iff.mp hstep
          obtain ⟨f, cb, hpc, ⟨-, hqueue, -⟩ | ⟨-, hqueue, hready, hm⟩⟩ := Scheduler.after_spec hs
          · exact absurd (hqueue.symm.trans hempty) (by simp)
          · refine ⟨hqueue.symm.trans hempty, .inl ?_⟩
            rcases hm with hm | hm
            · have hcount := hm.count
              rw [hpc] at hcount
              exact ⟨hcount.symm.trans hzero, hwait.of_moves hm (fun _ _ hp => by cases hp) hready⟩
            · have hcount := hm.count
              rw [hpc] at hcount
              exact ⟨hcount.symm.trans hzero, hwait.of_moves hm (fun _ _ hp => by cases hp) hready⟩
      | hold t =>
          obtain ⟨s, hs, rfl⟩ := Option.map_eq_some_iff.mp hstep
          obtain ⟨f, cb, hpc, hqueue, hready, hm⟩ := Scheduler.hold_spec hs
          have hcount := hm.count
          rw [hpc] at hcount
          exact ⟨hqueue.symm.trans hempty, .inl ⟨hcount.symm.trans hzero,
            hwait.of_moves hm (fun _ _ hp => by cases hp) hready⟩⟩

end Journal

namespace Shutdown

variable {s s' : Shutdown}

structure Safe (s : Shutdown) : Prop where
  inv : s.journal.Inv
  waiting : s.stopping = true → ¬s.journal.scheduler.Waiting

theorem step_safe (h : s.Safe) {a : Action} (ha : s.Orderly a) (hstep : s.step a = some s') :
    s'.Safe := by
  cases a with
  | start =>
      obtain rfl := Option.some.inj hstep
      refine ⟨h.inv, fun hstop => ?_⟩
      cases (stopping_iff.mp hstop).2.1
  | setAutoStop =>
      obtain rfl := Option.some.inj hstep
      refine ⟨h.inv, fun hstop => ?_⟩
      exact ha (stopping_iff.mp hstop).2.1
  | setStopping =>
      obtain rfl := Option.some.inj hstep
      refine ⟨h.inv, fun hstop => ?_⟩
      exact ha (stopping_iff.mp hstop).1
  | run a =>
      obtain ⟨j, hj, rfl⟩ := Option.map_eq_some_iff.mp hstep
      refine ⟨(Journal.step_inv h.inv hj).1, fun hstop hwait => ?_⟩
      obtain ⟨hauto, hflag, hquiet⟩ := stopping_iff.mp hstop
      obtain ⟨hempty, hzero⟩ := quiet_eq_true.mp hquiet
      obtain ⟨hq, hcases⟩ := Journal.waiting_cases h.inv hj hempty hzero hwait
      rcases hcases with ⟨hc, hw⟩ | ⟨hc, ⟨t, f, rfl, hpc, hdone, hw⟩ | ⟨t, f, cb, rfl, hpc, hw⟩⟩
      · exact h.waiting (stopping_iff.mpr ⟨hauto, hflag, quiet_eq_true.mpr ⟨hq, hc⟩⟩) hw
      · refine ha (stopped_iff.mpr ⟨hauto, hflag⟩) (fun g hg => ?_) hw
        rwa [← Pc.picked.inj (hpc.symm.trans hg)]
      · obtain ⟨hnone, hback⟩ := ha (stopped_iff.mpr ⟨hauto, hflag⟩)
        rcases hw with hw | hready
        · exact hnone hw
        · obtain hne | ⟨u, hut, hu⟩ := hback f cb hpc hready
          · exact hne hq
          · rw [h.inv.alone hc (by rw [hpc]; rfl) hut] at hu
            cases hu

theorem new_safe : new.Safe := ⟨Journal.new_inv, fun hstop => by cases hstop⟩

/-- `stopping()` of either class is true only when nothing is left to
do, in every run whose steps are `Orderly`. -/
theorem stopping_idle (h : system.ReachableBy Orderly s)
    (hstop : s.stopping = true ∨ ∃ nextTimer pending, s.ioStopping nextTimer pending = true) :
    s.journal.scheduler.Idle := by
  have hs : s.Safe := h.invariant (P := Safe) (by rintro s rfl; exact new_safe)
    fun _ _ _ hs ha hstep => step_safe hs ha hstep
  have hstop' : s.stopping = true := by
    rcases hstop with hstop | ⟨nextTimer, pending, hio⟩
    · exact hstop
    · simp only [ioStopping, Bool.and_eq_true] at hio
      exact hio.2
  obtain ⟨-, -, hquiet⟩ := stopping_iff.mp hstop'
  obtain ⟨hempty, hzero⟩ := quiet_eq_true.mp hquiet
  exact ⟨hempty, fun t => hs.inv.not_active hzero, hs.waiting hstop'⟩

/-- A fiber that is in the queue twice yields with `READY` after `stop()`,
and comes to its end. -/
theorem stopping_idle_done :
    ∃ s, system.ReachableBy Orderly s ∧ s.stopping = true ∧ s.journal.scheduler.Idle := by
  have hinit : system.ReachableBy Orderly new := .init rfl
  have hqueue := hinit.step (e := .run (.worker (.create 0))) (by exact trivial) rfl
    |>.step (e := .run (.schedule (some (.fiber 0)) none)) (by exact trivial) rfl
    |>.step (e := .run (.schedule (some (.fiber 0)) none)) (by exact trivial) rfl
  have hstop := hqueue.step (e := .setAutoStop)
    (by exact fun _ => Scheduler.not_waiting fun _ => rfl) rfl
  -- the other element of the queue is left
  have hready := hstop.step (e := .run (.worker (.pick 0))) (by exact trivial) rfl
    |>.step (e := .run (.worker (.check 0)))
      (by exact fun _ _ => Scheduler.not_waiting_of_first rfl fun _ => rfl) rfl
    |>.step (e := .run (.worker (.swapIn 0))) (by exact trivial) rfl
    |>.step (e := .run (.worker (.yield 0 .READY))) (by exact trivial) rfl
    |>.step (e := .run (.worker (.save 0))) (by exact trivial) rfl
    |>.step (e := .run (.worker (.leave 0)))
      (by exact fun _ => ⟨Scheduler.not_waiting_of_first rfl fun _ => rfl,
        fun _ _ _ _ => .inl (List.cons_ne_nil _ _)⟩) rfl
    |>.step (e := .run (.worker (.after 0))) (by exact trivial) rfl
  have hend := hready.step (e := .run (.worker (.pick 0))) (by exact trivial) rfl
    |>.step (e := .run (.worker (.check 0)))
      (by exact fun _ _ => Scheduler.not_waiting_of_first rfl fun _ => rfl) rfl
    |>.step (e := .run (.worker (.swapIn 0))) (by exact trivial) rfl
    |>.step (e := .run (.worker (.yield 0 .TERM))) (by exact trivial) rfl
    |>.step (e := .run (.worker (.save 0))) (by exact trivial) rfl
    |>.step (e := .run (.worker (.leave 0)))
      (by exact fun _ => ⟨Scheduler.not_waiting_of_first rfl fun _ => rfl,
        fun _ _ _ _ => .inl (List.cons_ne_nil _ _)⟩) rfl
    |>.step (e := .run (.worker (.after 0))) (by exact trivial) rfl
  -- the element of a fiber in `TERM` is dropped
  have hdropped := hend.step (e := .run (.worker (.pick 0))) (by exact trivial) rfl
    |>.step (e := .run (.worker (.check 0)))
      (by exact fun _ _ => Scheduler.not_waiting_of_first rfl fun _ => rfl) rfl
  exact ⟨_, hdropped, rfl, stopping_idle hdropped (.inl rfl)⟩

/-- Outside the condition one decrement is enough: a worker that has the
only work left makes it with a `READY` fiber. -/
theorem stopping_of_leave (h : s.journal.Inv) (hstopped : s.stopped = true) {t f : Nat} {cb : Bool}
    (hpc : (s.journal.scheduler.workers t).pc = .back f cb)
    (hready : s.journal.scheduler.stateOf f = some .READY) (hleft : ¬s.Elsewhere t) :
    ∃ s', s.step (.run (.worker (.leave t))) = some s' ∧ s'.stopping = true ∧
      s'.journal.scheduler.Waiting := by
  rw [Elsewhere, not_or, not_not] at hleft
  obtain ⟨hempty, halone⟩ := hleft
  have hone := h.count_eq_one (t := t) (by rw [hpc]; rfl) fun u hut => by
    by_contra hu
    exact halone ⟨u, hut, Bool.not_eq_false _ ▸ hu⟩
  obtain ⟨hauto, hflag⟩ := stopped_iff.mp hstopped
  refine ⟨_, by simp only [step, Journal.step, Scheduler.step, Scheduler.leave, hpc]; rfl, ?_, ?_⟩
  · refine stopping_iff.mpr ⟨hauto, hflag, quiet_eq_true.mpr ⟨hempty, ?_⟩⟩
    show dec64 s.journal.scheduler.activeThreadCount = 0
    rw [hone]
    rfl
  · refine ⟨t, f, cb, ?_, hready⟩
    simp [Scheduler.goto, Scheduler.putWorker]

/-- **The scheduler can be stopped with work left**: a fiber has yielded
with `READY`, its worker has made the decrement and not yet scheduled it
again. -/
theorem stopping_with_work :
    ∃ s, system.Reachable s ∧ s.stopping = true ∧ s.journal.scheduler.Waiting := by
  have hrun : system.replay new
      [.run (.worker (.create 0)), .run (.schedule (some (.fiber 0)) none), .setAutoStop,
        .run (.worker (.pick 0)), .run (.worker (.check 0)), .run (.worker (.swapIn 0)),
        .run (.worker (.yield 0 .READY)), .run (.worker (.save 0)), .run (.worker (.leave 0))] =
      some { journal := ⟨_, _⟩, autoStop := true, stopFlag := true } := rfl
  exact ⟨_, System.replay_reachable (.init rfl) hrun, rfl, 0, 0, false, rfl, rfl⟩

end Shutdown

end Sylar
