import Mathlib.Algebra.BigOperators.Group.List.Basic
import Mathlib.Algebra.Order.Group.Multiset
import Mathlib.Data.Multiset.Range
import Sylar.Lib.System
import Sylar.Lib.Word

/-!
# Event registration in the IOManager

`iomanager.cc`: for each descriptor an `FdContext` with the bits that
are registered and, for `READ` and for `WRITE`, who is to be scheduled
when the event comes. `m_pendingEventCount` counts the bits over all
descriptors.

Each operation is one critical section of the descriptor's mutex. What
`epoll_ctl` answers is an argument (`ctl`), and so are the events that
`epoll_wait` returned to `idle`. `schedule()` puts its argument into the
scheduler's queue; here it goes to the list `scheduled`. A failed
assertion ends the process; the operations return it as an `Abort`.

A `Handle` is one reference to a fiber or one function object. The
field `id` is not in the source: it tells the handles of different
`addEvent` calls apart.
-/

namespace Sylar

/-- A value of `IOManager::Event`: a set of the bits `READ` (0x1) and
`WRITE` (0x4). -/
structure Event where
  read : Bool
  write : Bool
deriving Repr, DecidableEq

namespace Event

def NONE : Event := ⟨false, false⟩
def READ : Event := ⟨true, false⟩
def WRITE : Event := ⟨false, true⟩

instance : AndOp Event := ⟨fun a b => ⟨a.read && b.read, a.write && b.write⟩⟩
instance : OrOp Event := ⟨fun a b => ⟨a.read || b.read, a.write || b.write⟩⟩
instance : Complement Event := ⟨fun a => ⟨!a.read, !a.write⟩⟩

/-- The value as a condition. -/
def nonzero (e : Event) : Bool := e.read || e.write

/-- How many bits are set. -/
def bits (e : Event) : Nat := e.read.toNat + e.write.toNat

end Event

structure Handle where
  id : Nat
  target : Nat
deriving Repr, DecidableEq

inductive Task where
  | fiber (h : Handle)
  | cb (h : Handle)
deriving Repr, DecidableEq

def Task.id : Task → Nat
  | .fiber h => h.id
  | .cb h => h.id

/-- A call of `scheduler->schedule(task)`. -/
structure Scheduled where
  scheduler : Nat
  task : Task
deriving Repr, DecidableEq

/-- The checks that end the process. -/
inductive Abort where
  /-- `m_fdContexts[fd]` out of range -/
  | badIndex
  /-- `SYLAR_ASSERT(!(fd_ctx->events & event))` in `addEvent` -/
  | eventRegistered
  /-- `SYLAR_ASSERT(!event_ctx.scheduler && !event_ctx.fiber && !event_ctx.cb)` -/
  | contextInUse
  /-- `SYLAR_ASSERT2(event_ctx.fiber->getState() == Fiber::EXEC, ..)` -/
  | fiberState
  /-- `SYLAR_ASSERT2(false, "getContext")` -/
  | getContext
  /-- `SYLAR_ASSERT(events & event)` in `triggerEvent` -/
  | eventNotSet
  /-- `ctx.scheduler->schedule(..)` with a null scheduler -/
  | nullScheduler
  /-- `SYLAR_ASSERT(fd_ctx->events == 0)` in `cancelAll` -/
  | eventsLeft
deriving Repr, DecidableEq

structure EventContext where
  scheduler : Option Nat
  fiber : Option Handle
  cb : Option Handle
deriving Repr, DecidableEq

/-- A context after `resetContext`. -/
def EventContext.empty : EventContext := ⟨none, none, none⟩

structure FdContext where
  read : EventContext
  write : EventContext
  events : Event
deriving Repr, DecidableEq

namespace FdContext

/-- `new FdContext`. -/
def new : FdContext := ⟨.empty, .empty, .NONE⟩

def getContext (c : FdContext) (event : Event) : Except Abort EventContext :=
  if event = .READ then .ok c.read
  else if event = .WRITE then .ok c.write
  else .error .getContext

/-- Assign to the context `getContext` refers to. -/
def setContext (c : FdContext) (event : Event) (ctx : EventContext) : FdContext :=
  if event = .READ then { c with read := ctx }
  else if event = .WRITE then { c with write := ctx }
  else c

/-- `triggerEvent(event)`. `schedule` is given a pointer and swaps the
function or the fiber out of the context. -/
def triggerEvent (c : FdContext) (event : Event) : Except Abort (FdContext × Option Scheduled) :=
  if !(c.events &&& event).nonzero then .error .eventNotSet
  else do
    let c := { c with events := c.events &&& ~~~event }
    let ctx ← c.getContext event
    match ctx.scheduler with
    | none => .error .nullScheduler
    | some s =>
        if ctx.cb.isSome then
          return (c.setContext event { ctx with cb := none, scheduler := none },
            ctx.cb.map fun h => ⟨s, .cb h⟩)
        else
          return (c.setContext event { ctx with fiber := none, scheduler := none },
            ctx.fiber.map fun h => ⟨s, .fiber h⟩)

end FdContext

structure IOManager where
  fdContexts : List FdContext
  pendingEventCount : Nat
  scheduled : List Scheduled
deriving Repr, DecidableEq

/-- The thread that calls `addEvent`: `Scheduler::GetThis()`, and
`Fiber::GetThis()` with whether its state is `EXEC`. -/
structure Caller where
  scheduler : Option Nat
  fiber : Nat
  exec : Bool
deriving Repr, DecidableEq

/-- The events of an `epoll_event`. -/
structure EpollEvents where
  epollIn : Bool
  epollOut : Bool
  epollErr : Bool
  epollHup : Bool
deriving Repr, DecidableEq

namespace IOManager

/-- After the constructor: room for 32 descriptors. -/
def new : IOManager := ⟨List.replicate 32 .new, 0, []⟩

def contextResize (m : IOManager) (size : Nat) : IOManager :=
  { m with fdContexts := m.fdContexts.take size ++
      List.replicate (size - m.fdContexts.length) .new }

/-- `m_fdContexts[fd]`. -/
def fdContext (m : IOManager) (fd : Int) : Except Abort FdContext :=
  match if 0 ≤ fd then m.fdContexts[fd.toNat]? else none with
  | none => .error .badIndex
  | some c => .ok c

def put (m : IOManager) (fd : Int) (c : FdContext) : IOManager :=
  { m with fdContexts := m.fdContexts.set fd.toNat c }

/-- Filling a context: with the function, or else with the fiber that
calls. -/
def register (caller : Caller) (id : Nat) (cb : Option Nat) (ctx : EventContext) :
    Except Abort EventContext :=
  match cb with
  | some f => .ok { ctx with scheduler := caller.scheduler, cb := some ⟨id, f⟩ }
  | none =>
      if caller.exec then
        .ok { ctx with scheduler := caller.scheduler, fiber := some ⟨id, caller.fiber⟩ }
      else .error .fiberState

/-- The part of `addEvent` under the mutex of the descriptor. -/
def addEventLocked (m : IOManager) (caller : Caller) (id : Nat) (fd : Int) (event : Event)
    (cb : Option Nat) (ctl : Bool) : Except Abort (Int × IOManager) := do
  let c ← m.fdContext fd
  if (c.events &&& event).nonzero then .error .eventRegistered
  else if !ctl then return (-1, m)
  else do
    let c := { c with events := c.events ||| event }
    let ctx ← c.getContext event
    if ctx.scheduler.isSome || ctx.fiber.isSome || ctx.cb.isSome then .error .contextInUse
    else do
      let ctx ← register caller id cb ctx
      return (0, { m.put fd (c.setContext event ctx) with
        pendingEventCount := m.pendingEventCount + 1 })

/-- `addEvent(fd, event, cb)`; `id` names the handle it registers. The
source compares with `(int)m_fdContexts.size()`, which is the size as long as
there are fewer than 2^31 contexts; so in the functions below. -/
def addEvent (m : IOManager) (caller : Caller) (id : Nat) (fd : Int) (event : Event)
    (cb : Option Nat) (ctl : Bool) : Except Abort (Int × IOManager) :=
  if fd < m.fdContexts.length then m.addEventLocked caller id fd event cb ctl
  else (m.contextResize (fd.toNat * 3 / 2)).addEventLocked caller id fd event cb ctl

def delEvent (m : IOManager) (fd : Int) (event : Event) (ctl : Bool) :
    Except Abort (Bool × IOManager) :=
  if (m.fdContexts.length : Int) ≤ fd then return (false, m)
  else do
    let c ← m.fdContext fd
    if !(c.events &&& event).nonzero then return (false, m)
    else if !ctl then return (false, m)
    else do
      let c := { c with events := c.events &&& ~~~event }
      let _ ← c.getContext event
      return (true, { m.put fd (c.setContext event .empty) with
        pendingEventCount := dec64 m.pendingEventCount })

/-- `fd_ctx->triggerEvent(event); --m_pendingEventCount;`. -/
def trigger (m : IOManager) (fd : Int) (event : Event) : Except Abort IOManager := do
  let c ← m.fdContext fd
  let (c, task) ← c.triggerEvent event
  return { m.put fd c with
    pendingEventCount := dec64 m.pendingEventCount
    scheduled := m.scheduled ++ task.toList }

def cancelEvent (m : IOManager) (fd : Int) (event : Event) (ctl : Bool) :
    Except Abort (Bool × IOManager) :=
  if (m.fdContexts.length : Int) ≤ fd then return (false, m)
  else do
    let c ← m.fdContext fd
    if !(c.events &&& event).nonzero then return (false, m)
    else if !ctl then return (false, m)
    else do
      let m ← m.trigger fd event
      return (true, m)

/-- `if(bit) { fd_ctx->triggerEvent(event); --m_pendingEventCount; }`. -/
def triggerIf (m : IOManager) (bit : Bool) (fd : Int) (event : Event) : Except Abort IOManager :=
  if bit then m.trigger fd event else .ok m

def cancelAll (m : IOManager) (fd : Int) (ctl : Bool) : Except Abort (Bool × IOManager) :=
  if (m.fdContexts.length : Int) ≤ fd then return (false, m)
  else do
    let c ← m.fdContext fd
    if !c.events.nonzero then return (false, m)
    else if !ctl then return (false, m)
    else do
      let m ← m.triggerIf c.events.read fd .READ
      let c ← m.fdContext fd
      let m ← m.triggerIf c.events.write fd .WRITE
      let c ← m.fdContext fd
      if c.events = .NONE then return (true, m) else .error .eventsLeft

/-- The events `idle` acts on: an error or a hang-up counts as every
event that is registered. -/
def realEvents (c : FdContext) (ev : EpollEvents) : Event :=
  let wide := ev.epollErr || ev.epollHup
  { read := ev.epollIn || (wide && c.events.read)
    write := ev.epollOut || (wide && c.events.write) }

/-- What `idle` does with one `epoll_event`. -/
def dispatch (m : IOManager) (fd : Int) (ev : EpollEvents) (ctl : Bool) :
    Except Abort IOManager := do
  let c ← m.fdContext fd
  let real := realEvents c ev
  if c.events &&& real = .NONE then return m
  else if !ctl then return m
  else do
    let m ← m.triggerIf real.read fd .READ
    m.triggerIf real.write fd .WRITE

/-! ## Runs -/

/-- A critical section of some descriptor's mutex. -/
inductive Op where
  | addEvent (caller : Caller) (fd : Int) (event : Event) (cb : Option Nat) (ctl : Bool)
  | delEvent (fd : Int) (event : Event) (ctl : Bool)
  | cancelEvent (fd : Int) (event : Event) (ctl : Bool)
  | cancelAll (fd : Int) (ctl : Bool)
  | dispatch (fd : Int) (ev : EpollEvents) (ctl : Bool)
deriving Repr, DecidableEq

/-- Whether `epoll_ctl` fails in this operation. -/
def Op.ctlFails : Op → Bool
  | .addEvent _ _ _ _ ctl => !ctl
  | .delEvent _ _ ctl => !ctl
  | .cancelEvent _ _ ctl => !ctl
  | .cancelAll _ ctl => !ctl
  | .dispatch _ _ ctl => !ctl

def Op.isDispatch : Op → Bool
  | .dispatch .. => true
  | _ => false

/-- `addEvent` is called from a thread of a scheduler. -/
def Op.FromScheduler : Op → Prop
  | .addEvent caller _ _ _ _ => caller.scheduler ≠ none
  | _ => True

end IOManager

end Sylar
