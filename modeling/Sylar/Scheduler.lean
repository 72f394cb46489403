import Sylar.Lib.System
import Sylar.Lib.Word

/-!
# Workers of the Scheduler

`Scheduler::run` and the fiber switches it makes, as the steps a worker
thread takes one at a time: it picks an element of `m_fibers` under the
mutex, looks at the state of the fiber, swaps it in; the fiber runs,
writes its new state, saves its context; the worker is back in `run`,
reads the state again and schedules the fiber once more, lets it go, or
writes `HOLD`. Steps of different workers interleave as they like, and
so do calls of `schedule`.

A worker is its place in `run` (`Pc`) and its local `cb_fiber`. A fiber
has its `m_state`; `shared` says that a pointer to it exists outside
`run` (whoever created it has one, and a running fiber hands one out
when it registers itself with `addEvent`, a timer or `switchTo`), so
that others may schedule it. `execBy` is not in the source: it is the
worker that last set the state to `EXEC`.

The idle fiber belongs to one worker and is never queued; the steps
leave it out, and with it `tickle`.
-/

namespace Sylar

inductive FiberState where
  | INIT
  | HOLD
  | EXEC
  | TERM
  | READY
  | EXCEPT
deriving Repr, DecidableEq

structure Fiber where
  state : FiberState
  shared : Bool
  execBy : Option Nat
deriving Repr, DecidableEq

/-- What a queue element is for: a fiber or a function. -/
inductive FiberOrCb where
  | fiber (f : Nat)
  | cb (c : Nat)
deriving Repr, DecidableEq

/-- `thread` is `none` for -1. -/
structure FiberAndThread where
  work : FiberOrCb
  thread : Option Nat
deriving Repr, DecidableEq

/-- Where a worker is in `run`; `cb` marks the branch of `cb_fiber`. -/
inductive Pc where
  /-- at the top of the loop -/
  | pick
  /-- took a fiber from the queue -/
  | picked (f : Nat)
  /-- took a function from the queue -/
  | pickedCb (c : Nat)
  /-- before `swapIn` -/
  | entering (f : Nat) (cb : Bool)
  /-- in the fiber -/
  | running (f : Nat) (cb : Bool)
  /-- in `swapOut`: the state is written, the context is not saved -/
  | yielded (f : Nat) (cb : Bool)
  /-- after `swapIn` -/
  | back (f : Nat) (cb : Bool)
  /-- before the state decides -/
  | returned (f : Nat) (cb : Bool)
  /-- before `m_state = Fiber::HOLD` -/
  | holding (f : Nat) (cb : Bool)
deriving Repr, DecidableEq

structure Worker where
  pc : Pc
  cbFiber : Option Nat
deriving Repr, DecidableEq

structure Scheduler where
  fibers : Nat → Option Fiber
  queue : List FiberAndThread
  activeThreadCount : Nat
  workers : Nat → Worker

namespace Scheduler

def new : Scheduler := ⟨fun _ => none, [], 0, fun _ => ⟨.pick, none⟩⟩

def putFiber (s : Scheduler) (f : Nat) (fb : Fiber) : Scheduler :=
  { s with fibers := fun g => if g = f then some fb else s.fibers g }

def putWorker (s : Scheduler) (t : Nat) (w : Worker) : Scheduler :=
  { s with workers := fun u => if u = t then w else s.workers u }

/-- Worker `t` moves on. -/
def goto (s : Scheduler) (t : Nat) (pc : Pc) : Scheduler :=
  s.putWorker t { s.workers t with pc := pc }

def stateOf (s : Scheduler) (f : Nat) : Option FiberState := (s.fibers f).map Fiber.state

/-- `m_state = st`. -/
def setState (s : Scheduler) (f : Nat) (st : FiberState) : Scheduler :=
  match s.fibers f with
  | none => s
  | some fb => s.putFiber f { fb with state := st }

/-- `schedule(fc, thread)`. -/
def schedule (s : Scheduler) (ft : FiberAndThread) : Scheduler :=
  { s with queue := s.queue ++ [ft] }

/-- The scan of `m_fibers` by thread `t`: elements for another thread
and fibers in `EXEC` are passed over. -/
def pickFrom (s : Scheduler) (t : Nat) :
    List FiberAndThread → Option (FiberAndThread × List FiberAndThread)
  | [] => none
  | ft :: rest =>
      let skip := (pickFrom s t rest).map fun r => (r.1, ft :: r.2)
      if ft.thread ≠ none ∧ ft.thread ≠ some t then skip
      else
        match ft.work with
        | .fiber f => if s.stateOf f = some .EXEC then skip else some (ft, rest)
        | .cb _ => some (ft, rest)

/-! ## The steps of a worker -/

def pick (s : Scheduler) (t : Nat) : Option Scheduler :=
  if (s.workers t).pc = .pick then
    (s.pickFrom t s.queue).map fun r =>
      let s := { s with queue := r.2, activeThreadCount := s.activeThreadCount + 1 }
      match r.1.work with
      | .fiber f => s.goto t (.picked f)
      | .cb c => s.goto t (.pickedCb c)
  else none

/-- The state of a picked fiber is looked at: a finished one is
dropped. -/
def check (s : Scheduler) (t : Nat) : Option Scheduler :=
  match (s.workers t).pc with
  | .picked f =>
      if s.stateOf f ≠ some .TERM ∧ s.stateOf f ≠ some .EXCEPT then
        some (s.goto t (.entering f false))
      else some { s.goto t .pick with activeThreadCount := dec64 s.activeThreadCount }
  | _ => none

/-- A picked function gets `cb_fiber`, reset, or a new fiber `g`. -/
def prepare (s : Scheduler) (t g : Nat) : Option Scheduler :=
  match (s.workers t).pc with
  | .pickedCb _ =>
      match (s.workers t).cbFiber with
      | some f =>
          if s.stateOf f = some .TERM ∨ s.stateOf f = some .EXCEPT ∨ s.stateOf f = some .INIT then
            some ((s.setState f .INIT).goto t (.entering f true))
          else none
      | none =>
          if s.fibers g = none then
            some ((s.putFiber g ⟨.INIT, false, none⟩).putWorker t ⟨.entering g true, some g⟩)
          else none
  | _ => none

/-- `swapIn()`; its assertion keeps out a fiber in `EXEC`. -/
def swapIn (s : Scheduler) (t : Nat) : Option Scheduler :=
  match (s.workers t).pc with
  | .entering f cb =>
      match s.fibers f with
      | none => none
      | some fb =>
          if fb.state = .EXEC then none
          else some ((s.putFiber f { fb with state := .EXEC, execBy := some t }).goto t
            (.running f cb))
  | _ => none

/-- The running fiber hands out a pointer to itself. -/
def register (s : Scheduler) (t : Nat) : Option Scheduler :=
  match (s.workers t).pc with
  | .running f _ =>
      match s.fibers f with
      | none => none
      | some fb => some (s.putFiber f { fb with shared := true })
  | _ => none

/-- The state write of `YieldToHold`, `YieldToReady` (both assert that
the state is `EXEC`) and of the end of `MainFunc`. -/
def yield (s : Scheduler) (t : Nat) (st : FiberState) : Option Scheduler :=
  match (s.workers t).pc with
  | .running f cb =>
      match st with
      | .HOLD | .READY =>
          if s.stateOf f = some .EXEC then some ((s.setState f st).goto t (.yielded f cb))
          else none
      | .TERM | .EXCEPT => some ((s.setState f st).goto t (.yielded f cb))
      | _ => none
  | _ => none

/-- `swapcontext` in `swapOut`: the context is saved and the worker is
back in `run`. -/
def save (s : Scheduler) (t : Nat) : Option Scheduler :=
  match (s.workers t).pc with
  | .yielded f cb => some (s.goto t (.back f cb))
  | _ => none

/-- `--m_activeThreadCount`. -/
def leave (s : Scheduler) (t : Nat) : Option Scheduler :=
  match (s.workers t).pc with
  | .back f cb =>
      some { s.goto t (.returned f cb) with activeThreadCount := dec64 s.activeThreadCount }
  | _ => none

/-- The state decides: the fiber is scheduled again, or is finished, or
is to be held. -/
def after (s : Scheduler) (t : Nat) : Option Scheduler :=
  match (s.workers t).pc with
  | .returned f cb =>
      if s.stateOf f = some .READY then
        some ((s.schedule ⟨.fiber f, none⟩).putWorker t
          ⟨.pick, if cb then none else (s.workers t).cbFiber⟩)
      else if s.stateOf f = some .TERM ∨ s.stateOf f = some .EXCEPT then
        some ((if cb then s.setState f .INIT else s).goto t .pick)
      else some (s.goto t (.holding f cb))
  | _ => none

/-- `m_state = Fiber::HOLD`. -/
def hold (s : Scheduler) (t : Nat) : Option Scheduler :=
  match (s.workers t).pc with
  | .holding f cb =>
      some ((s.setState f .HOLD).putWorker t
        ⟨.pick, if cb then none else (s.workers t).cbFiber⟩)
  | _ => none

/-! ## Runs -/

inductive Action where
  | create (f : Nat)
  | schedule (ft : FiberAndThread)
  | pick (t : Nat)
  | check (t : Nat)
  | prepare (t g : Nat)
  | swapIn (t : Nat)
  | register (t : Nat)
  | yield (t : Nat) (st : FiberState)
  | save (t : Nat)
  | leave (t : Nat)
  | after (t : Nat)
  | hold (t : Nat)
deriving Repr, DecidableEq

/-- A fiber may be scheduled by whoever has a pointer to it. -/
def MaySchedule (s : Scheduler) (ft : FiberAndThread) : Prop :=
  match ft.work with
  | .fiber f => (s.fibers f).map Fiber.shared = some true
  | .cb _ => True

instance (s : Scheduler) (ft : FiberAndThread) : Decidable (s.MaySchedule ft) := by
  unfold MaySchedule
  split <;> infer_instance

def step (s : Scheduler) : Action → Option Scheduler
  | .create f => if s.fibers f = none then some (s.putFiber f ⟨.INIT, true, none⟩) else none
  | .schedule ft => if s.MaySchedule ft then some (s.schedule ft) else none
  | .pick t => s.pick t
  | .check t => s.check t
  | .prepare t g => s.prepare t g
  | .swapIn t => s.swapIn t
  | .register t => s.register t
  | .yield t st => s.yield t st
  | .save t => s.save t
  | .leave t => s.leave t
  | .after t => s.after t
  | .hold t => s.hold t

/-- Any number of workers, and anyone who schedules. -/
def system : System Scheduler Action where
  init s := s = new
  step := step

end Scheduler

end Sylar
