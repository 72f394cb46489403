import Sylar.EventRegistration
import Sylar.TimerStore

/-!
# A hooked I/O call

`do_io` in `hook.cc`, one call of it, as the steps of the fiber that
makes it, of the timer callbacks it arms, and of everything else in the
process.

The fiber calls the original function; when that would block it arms a
condition timer, registers the event with `addEvent` and yields; woken,
it cancels the timer, gives up if `tinfo->cancelled` is set and calls
the function again otherwise. A callback that `listExpiredCb` hands to
the scheduler waits in `queued`. Run, it locks `tinfo`, returns when
`cancelled` is set already, sets it, and calls `cancelEvent`: a thread
that has passed the test is counted in `checked`, one that has written
`cancelled` too in `marked`. The callbacks of one call are all alike,
so that counting them is enough.

`timers` and `registry` are the managers of `Timer` and of
`EventRegistration`; any other thread does to them what it likes, except
that it holds no pointer to the timer of this call.
-/

namespace Sylar

/-- The state of a descriptor in the `FdManager`. -/
structure FdCtx where
  isInit : Bool
  isSocket : Bool
  sysNonblock : Bool
  userNonblock : Bool
  isClosed : Bool
  recvTimeout : Nat
  sendTimeout : Nat
deriving Repr, DecidableEq

/-- `getTimeout(type)`, where `rcvTimeo` is `type == SO_RCVTIMEO`. -/
def FdCtx.getTimeout (ctx : FdCtx) (rcvTimeo : Bool) : Nat :=
  if rcvTimeo then ctx.recvTimeout else ctx.sendTimeout

def EINTR : Nat := 4
def EBADF : Nat := 9
def EAGAIN : Nat := 11
def ETIMEDOUT : Nat := 110

/-- `(uint64_t)-1`: no timeout. -/
def noTimeout : Nat := 2 ^ 64 - 1

/-- What a timer runs: the function this call of `do_io` binds, or some
other. -/
inductive TimerFn where
  | cancelIo
  | other (n : Nat)
deriving Repr, DecidableEq

/-- The function under the condition, if there is one. -/
def Callback.fnOf {C : Type} : Callback C → C
  | .fn cb => cb
  | .onTimer _ cb => cb

/-- The arguments of a call, the thread that makes it and its
`timer_info`. -/
structure IoCall where
  fd : Int
  event : Event
  single : event.Single
  rcvTimeo : Bool
  scheduler : Nat
  fiber : Nat
  tinfo : Nat

/-- What `addConditionTimer` makes of the function and `winfo`. -/
def IoCall.callback (c : IoCall) : Callback TimerFn := .onTimer c.tinfo .cancelIo

def IoCall.caller (c : IoCall) : Caller := ⟨some c.scheduler, c.fiber, true⟩

namespace IOManager

instance : DecidablePred Op.FromScheduler
  | .addEvent caller _ _ _ _ => inferInstanceAs (Decidable (caller.scheduler ≠ none))
  | .delEvent .. => isTrue trivial
  | .cancelEvent .. => isTrue trivial
  | .cancelAll .. => isTrue trivial
  | .dispatch .. => isTrue trivial

end IOManager

/-- The timer a critical section is called on. -/
def TimerManager.Op.target {C : Type} : TimerManager.Op C → Option Nat
  | .cancel a => some a
  | .refresh a _ => some a
  | .reset a _ _ _ _ => some a
  | .release a => some a
  | _ => none

namespace DoIo

/-- Where the fiber is in `do_io`. -/
inductive Pc where
  | entry
  /-- the call goes to the original function as it is -/
  | direct
  /-- at `retry` -/
  | retry
  /-- the function would block -/
  | blocked
  /-- before `addEvent` -/
  | armed
  /-- `addEvent` failed -/
  | failed
  /-- before `YieldToHold` -/
  | registered (id : Nat)
  | parked (id : Nat)
  /-- before `timer->cancel()` -/
  | woken
  /-- before `tinfo->cancelled` is tested -/
  | resumed
  | returned (n : Int) (errno : Option Nat)
deriving Repr, DecidableEq

/-- The handle the fiber has registered in this round. -/
def Pc.waiting : Pc → Option Nat
  | .registered id => some id
  | .parked id => some id
  | _ => none

def Pc.isReturned : Pc → Bool
  | .returned _ _ => true
  | _ => false

end DoIo

/-- A call in progress and the process around it; `timeout` is `to`. -/
structure DoIo where
  timers : TimerManager TimerFn
  registry : IOManager.Registry
  queued : List (Callback TimerFn)
  checked : Nat
  marked : Nat
  timeout : Nat
  cancelled : Nat
  timer : Option Nat
  pc : DoIo.Pc

namespace DoIo

def start (timers : TimerManager TimerFn) (registry : IOManager.Registry)
    (queued : List (Callback TimerFn)) : DoIo :=
  { timers, registry, queued, checked := 0, marked := 0, timeout := 0, cancelled := 0, timer := none,
    pc := .entry }

/-! ## The fiber -/

/-- What comes before `retry`. -/
def enter (c : IoCall) (s : DoIo) (hookEnable : Bool) (ctx : Option FdCtx) : Option DoIo :=
  if s.pc = .entry then
    if !hookEnable then some { s with pc := .direct }
    else
      match ctx with
      | none => some { s with pc := .direct }
      | some ctx =>
          if ctx.isClosed then some { s with pc := .returned (-1) (some EBADF) }
          else if !ctx.isSocket || ctx.userNonblock then some { s with pc := .direct }
          else some { s with timeout := ctx.getTimeout c.rcvTimeo, pc := .retry }
  else none

/-- `fun(fd, args...)` returns `n` with `errno`. -/
def io (s : DoIo) (n : Int) (errno : Nat) : Option DoIo :=
  match s.pc with
  | .direct => some { s with pc := .returned n (some errno) }
  | .retry =>
      if n = -1 ∧ errno = EINTR then some s
      else if n = -1 ∧ errno = EAGAIN then some { s with pc := .blocked }
      else some { s with pc := .returned n (some errno) }
  | _ => none

/-- The timer, for a call with a timeout. -/
def arm (c : IoCall) (s : DoIo) (addr now : Nat) : Option DoIo :=
  if s.pc = .blocked then
    if s.timeout ≠ noTimeout then
      if s.timers.heap addr = none then
        some { s with
          timers := (s.timers.addConditionTimer addr s.timeout .cancelIo c.tinfo false now).2
          timer := some addr
          pc := .armed }
      else none
    else some { s with pc := .armed }
  else none

def addEvent (c : IoCall) (s : DoIo) (ctl : Bool) : Option DoIo :=
  if s.pc = .armed then
    match s.registry.manager.addEvent c.caller s.registry.next c.fd c.event none ctl with
    | .error _ => none
    | .ok (rt, m) =>
        if rt = 0 then
          some { s with
            registry := { s.registry with manager := m, next := s.registry.next + 1 }
            pc := .registered s.registry.next }
        else some { s with registry := { s.registry with manager := m }, pc := .failed }
  else none

/-- `Fiber::YieldToHold()`. -/
def yieldToHold (s : DoIo) : Option DoIo :=
  match s.pc with
  | .registered id => some { s with pc := .parked id }
  | _ => none

/-- The fiber is run again: its handle has been given to the scheduler. -/
def wake (s : DoIo) : Option DoIo :=
  match s.pc with
  | .parked id =>
      if id ∈ s.registry.manager.scheduled.map (·.task.id) then some { s with pc := .woken }
      else none
  | _ => none

/-- `if(timer) { timer->cancel(); }`, and after a failed `addEvent` the
end of the call. -/
def cancelTimer (s : DoIo) : Option DoIo :=
  let timers := match s.timer with
    | none => some s.timers
    | some a => (s.timers.cancel a).toOption.map Prod.snd
  match s.pc with
  | .failed => timers.map fun m =>
      { s with timers := m, timer := none, pc := .returned (-1) none }
  | .woken => timers.map fun m => { s with timers := m, pc := .resumed }
  | _ => none

/-- The test of `tinfo->cancelled`; either way `timer` goes out of
scope. -/
def resume (s : DoIo) : Option DoIo :=
  if s.pc = .resumed then
    if s.cancelled ≠ 0 then
      some { s with timer := none, pc := .returned (-1) (some s.cancelled) }
    else some { s with timer := none, pc := .retry }
  else none

/-! ## The callbacks -/

/-- Whether the condition of a callback is alive: `tinfo` is until the
call returns. Of the others nothing is known here, nor is it used. -/
def alive (c : IoCall) (s : DoIo) (weakCond : Nat) : Bool :=
  weakCond == c.tinfo && !s.pc.isReturned

/-- A thread takes a queued callback and runs it up to the test of
`cancelled`. -/
def invoke (c : IoCall) (s : DoIo) (i : Nat) : Option DoIo :=
  (s.queued[i]?).map fun cb =>
    let s := { s with queued := s.queued.eraseIdx i }
    match cb.invoke (s.alive c) with
    | some .cancelIo => if s.cancelled ≠ 0 then s else { s with checked := s.checked + 1 }
    | _ => s

/-- `t->cancelled = ETIMEDOUT`. -/
def mark (s : DoIo) : Option DoIo :=
  if s.checked ≠ 0 then
    some { s with checked := s.checked - 1, marked := s.marked + 1, cancelled := ETIMEDOUT }
  else none

/-- `iom->cancelEvent(fd, event)`. -/
def cancelEvent (c : IoCall) (s : DoIo) (ctl : Bool) : Option DoIo :=
  if s.marked ≠ 0 then
    match s.registry.step (.cancelEvent c.fd c.event ctl) with
    | .error _ => none
    | .ok r => some { s with registry := r, marked := s.marked - 1 }
  else none

/-! ## The rest of the process -/

/-- `listExpiredCb` and the `schedule` of what it collects. -/
def expire (s : DoIo) (now probe : Nat) : Option DoIo :=
  if s.timers.heap probe = none then
    let (cbs, m) := s.timers.listExpiredCb now probe
    some { s with timers := m, queued := s.queued ++ cbs.filterMap id }
  else none

/-- A critical section another thread can reach: none on the timer of
this call, none that arms its function. -/
def Foreign (s : DoIo) : TimerManager.Op TimerFn → Prop
  | .addTimer _ _ cb _ _ => cb.fnOf ≠ .cancelIo
  | .listExpiredCb _ _ => False
  | op => op.target = none ∨ op.target ≠ s.timer

instance (s : DoIo) : DecidablePred s.Foreign
  | .addTimer _ _ cb _ _ => inferInstanceAs (Decidable (cb.fnOf ≠ _))
  | .cancel _ => inferInstanceAs (Decidable (_ ∨ _))
  | .refresh .. => inferInstanceAs (Decidable (_ ∨ _))
  | .reset .. => inferInstanceAs (Decidable (_ ∨ _))
  | .getNextTimer _ => inferInstanceAs (Decidable (_ ∨ _))
  | .listExpiredCb .. => isFalse id
  | .release _ => inferInstanceAs (Decidable (_ ∨ _))

def otherTimers (s : DoIo) (op : TimerManager.Op TimerFn) : Option DoIo :=
  if s.Foreign op then (s.timers.run op).map fun r => { s with timers := r.2 } else none

def otherEvents (s : DoIo) (op : IOManager.Op) : Option DoIo :=
  if op.FromScheduler then (s.registry.step op).toOption.map fun r => { s with registry := r }
  else none

/-! ## Runs -/

inductive Action where
  | enter (hookEnable : Bool) (ctx : Option FdCtx)
  | io (n : Int) (errno : Nat)
  | arm (addr now : Nat)
  | addEvent (ctl : Bool)
  | yieldToHold
  | wake
  | cancelTimer
  | resume
  | invoke (i : Nat)
  | mark
  | cancelEvent (ctl : Bool)
  | expire (now probe : Nat)
  | otherTimers (op : TimerManager.Op TimerFn)
  | otherEvents (op : IOManager.Op)

def step (c : IoCall) (s : DoIo) : Action → Option DoIo
  | .enter hookEnable ctx => s.enter c hookEnable ctx
  | .io n errno => s.io n errno
  | .arm addr now => s.arm c addr now
  | .addEvent ctl => s.addEvent c ctl
  | .yieldToHold => s.yieldToHold
  | .wake => s.wake
  | .cancelTimer => s.cancelTimer
  | .resume => s.resume
  | .invoke i => s.invoke c i
  | .mark => s.mark
  | .cancelEvent ctl => s.cancelEvent c ctl
  | .expire now probe => s.expire now probe
  | .otherTimers op => s.otherTimers op
  | .otherEvents op => s.otherEvents op

/-- The call begins in any state of the two managers; no timer and no
queued callback has its function yet. -/
def system (c : IoCall) : System DoIo Action where
  init s := ∃ timers registry queued, s = start timers registry queued ∧
    (TimerManager.system TimerFn).Reachable timers ∧
    IOManager.Registry.system.ReachableBy (fun _ op => op.FromScheduler) registry ∧
    (∀ a t cb, timers.heap a = some t → t.cb = some cb → cb.fnOf ≠ .cancelIo) ∧
    ∀ cb ∈ queued, cb.fnOf ≠ .cancelIo
  step := step c

/-! ## What the steps do -/

variable {c : IoCall} {s s' : DoIo}

theorem enter_spec {hookEnable : Bool} {ctx : Option FdCtx}
    (hstep : s.enter c hookEnable ctx = some s') :
    s.pc = .entry ∧ (s' = { s with pc := .direct } ∨
      s' = { s with pc := .returned (-1) (some EBADF) } ∨
      ∃ timeout, s' = { s with timeout, pc := .retry }) := by
  simp only [enter, Option.ite_none_right_eq_some] at hstep
  obtain ⟨hpc, hstep⟩ := hstep
  refine ⟨hpc, ?_⟩
  split at hstep
  · exact .inl (Option.some.inj hstep).symm
  split at hstep
  · exact .inl (Option.some.inj hstep).symm
  split at hstep
  · exact .inr (.inl (Option.some.inj hstep).symm)
  split at hstep
  · exact .inl (Option.some.inj hstep).symm
  · exact .inr (.inr ⟨_, (Option.some.inj hstep).symm⟩)

theorem io_spec {n : Int} {errno : Nat} (hstep : s.io n errno = some s') :
    (s.pc = .direct ∨ s.pc = .retry) ∧ (s' = s ∨ s' = { s with pc := .blocked } ∨
      s' = { s with pc := .returned n (some errno) }) := by
  unfold io at hstep
  split at hstep
  · exact ⟨.inl ‹_›, .inr (.inr (Option.some.inj hstep).symm)⟩
  · refine ⟨.inr ‹_›, ?_⟩
    split at hstep
    · exact .inl (Option.some.inj hstep).symm
    split at hstep
    · exact .inr (.inl (Option.some.inj hstep).symm)
    · exact .inr (.inr (Option.some.inj hstep).symm)
  · cases hstep

theorem arm_spec {addr now : Nat} (hstep : s.arm c addr now = some s') :
    s.pc = .blocked ∧
      (s.timeout ≠ noTimeout ∧ s.timers.heap addr = none ∧
        s' = { s with
          timers := (s.timers.addConditionTimer addr s.timeout .cancelIo c.tinfo false now).2
          timer := some addr
          pc := .armed } ∨
      s.timeout = noTimeout ∧ s' = { s with pc := .armed }) := by
  simp only [arm, Option.ite_none_right_eq_some] at hstep
  obtain ⟨hpc, hstep⟩ := hstep
  refine ⟨hpc, ?_⟩
  split at hstep
  · simp only [Option.ite_none_right_eq_some, Option.some.injEq] at hstep
    exact .inl ⟨‹_›, hstep.1, hstep.2.symm⟩
  · exact .inr ⟨not_not.mp ‹_›, (Option.some.inj hstep).symm⟩

theorem addEvent_spec {ctl : Bool} (hstep : s.addEvent c ctl = some s') :
    s.pc = .armed ∧ ∃ rt m,
      s.registry.manager.addEvent c.caller s.registry.next c.fd c.event none ctl = .ok (rt, m) ∧
      (rt = 0 ∧ s' = { s with
          registry := { s.registry with manager := m, next := s.registry.next + 1 }
          pc := .registered s.registry.next } ∨
        rt ≠ 0 ∧ s' = { s with registry := { s.registry with manager := m }, pc := .failed }) := by
  simp only [addEvent, Option.ite_none_right_eq_some] at hstep
  obtain ⟨hpc, hstep⟩ := hstep
  refine ⟨hpc, ?_⟩
  split at hstep
  · cases hstep
  · rename_i rt m hadd
    refine ⟨rt, m, hadd, ?_⟩
    split at hstep
    · exact .inl ⟨‹_›, (Option.some.inj hstep).symm⟩
    · exact .inr ⟨‹_›, (Option.some.inj hstep).symm⟩

theorem yieldToHold_spec (hstep : s.yieldToHold = some s') :
    ∃ id, s.pc = .registered id ∧ s' = { s with pc := .parked id } := by
  unfold yieldToHold at hstep
  split at hstep
  · exact ⟨_, ‹_›, (Option.some.inj hstep).symm⟩
  · cases hstep

theorem wake_spec (hstep : s.wake = some s') :
    ∃ id, s.pc = .parked id ∧ id ∈ s.registry.manager.scheduled.map (·.task.id) ∧
      s' = { s with pc := .woken } := by
  unfold wake at hstep
  split at hstep
  · simp only [Option.ite_none_right_eq_some, Option.some.injEq] at hstep
    exact ⟨_, ‹_›, hstep.1, hstep.2.symm⟩
  · cases hstep

theorem cancelTimer_spec (hstep : s.cancelTimer = some s') :
    ∃ m, (s.timer = none ∧ m = s.timers ∨
        ∃ a done, s.timer = some a ∧ s.timers.cancel a = .ok (done, m)) ∧
      (s.pc = .failed ∧ s' = { s with timers := m, timer := none, pc := .returned (-1) none } ∨
        s.pc = .woken ∧ s' = { s with timers := m, pc := .resumed }) := by
  have htimers {m : TimerManager TimerFn} (hm : (match s.timer with
      | none => some s.timers
      | some a => (s.timers.cancel a).toOption.map Prod.snd) = some m) :
      s.timer = none ∧ m = s.timers ∨
        ∃ a done, s.timer = some a ∧ s.timers.cancel a = .ok (done, m) := by
    split at hm
    · exact .inl ⟨‹_›, (Option.some.inj hm).symm⟩
    · obtain ⟨r, hcancel, rfl⟩ := Option.map_eq_some_iff.mp hm
      exact .inr ⟨_, r.1, ‹_›, toOption_eq_some.mp hcancel⟩
  simp only [cancelTimer] at hstep
  split at hstep
  · obtain ⟨m, hm, rfl⟩ := Option.map_eq_some_iff.mp hstep
    exact ⟨m, htimers hm, .inl ⟨‹_›, rfl⟩⟩
  · obtain ⟨m, hm, rfl⟩ := Option.map_eq_some_iff.mp hstep
    exact ⟨m, htimers hm, .inr ⟨‹_›, rfl⟩⟩
  · cases hstep

theorem resume_spec (hstep : s.resume = some s') :
    s.pc = .resumed ∧
      (s.cancelled ≠ 0 ∧
        s' = { s with timer := none, pc := .returned (-1) (some s.cancelled) } ∨
      s.cancelled = 0 ∧ s' = { s with timer := none, pc := .retry }) := by
  simp only [resume, Option.ite_none_right_eq_some] at hstep
  obtain ⟨hpc, hstep⟩ := hstep
  refine ⟨hpc, ?_⟩
  split at hstep
  · exact .inl ⟨‹_›, (Option.some.inj hstep).symm⟩
  · exact .inr ⟨not_not.mp ‹_›, (Option.some.inj hstep).symm⟩

theorem invoke_spec {i : Nat} (hstep : s.invoke c i = some s') :
    ∃ cb checked, s.queued[i]? = some cb ∧
      s' = { s with queued := s.queued.eraseIdx i, checked } ∧
      (cb.invoke (s.alive c) = some .cancelIo ∧ s.cancelled = 0 ∧ checked = s.checked + 1 ∨
        (cb.invoke (s.alive c) = some .cancelIo → s.cancelled ≠ 0) ∧ checked = s.checked) := by
  obtain ⟨cb, hcb, rfl⟩ := Option.map_eq_some_iff.mp hstep
  dsimp only
  split
  · rename_i hinvoke
    split
    · rename_i hcancelled
      exact ⟨cb, _, hcb, rfl, .inr ⟨fun _ => hcancelled, rfl⟩⟩
    · rename_i hcancelled
      exact ⟨cb, _, hcb, rfl, .inl ⟨hinvoke, not_not.mp hcancelled, rfl⟩⟩
  · rename_i hinvoke
    exact ⟨cb, _, hcb, rfl, .inr ⟨fun h => absurd h hinvoke, rfl⟩⟩

theorem mark_spec (hstep : s.mark = some s') :
    s.checked ≠ 0 ∧
      s' = { s with checked := s.checked - 1, marked := s.marked + 1, cancelled := ETIMEDOUT } := by
  simp only [mark, Option.ite_none_right_eq_some, Option.some.injEq] at hstep
  exact ⟨hstep.1, hstep.2.symm⟩

theorem cancelEvent_spec {ctl : Bool} (hstep : s.cancelEvent c ctl = some s') :
    s.marked ≠ 0 ∧ ∃ r, s.registry.step (.cancelEvent c.fd c.event ctl) = .ok r ∧
      s' = { s with registry := r, marked := s.marked - 1 } := by
  simp only [cancelEvent, Option.ite_none_right_eq_some] at hstep
  obtain ⟨hmarked, hstep⟩ := hstep
  refine ⟨hmarked, ?_⟩
  split at hstep
  · cases hstep
  · exact ⟨_, ‹_›, (Option.some.inj hstep).symm⟩

theorem expire_spec {now probe : Nat} (hstep : s.expire now probe = some s') :
    s.timers.heap probe = none ∧
      s' = { s with
        timers := (s.timers.listExpiredCb now probe).2
        queued := s.queued ++ (s.timers.listExpiredCb now probe).1.filterMap id } := by
  simp only [expire, Option.ite_none_right_eq_some, Option.some.injEq] at hstep
  exact ⟨hstep.1, hstep.2.symm⟩

theorem otherTimers_spec {op : TimerManager.Op TimerFn} (hstep : s.otherTimers op = some s') :
    s.Foreign op ∧ ∃ front m, s.timers.run op = some (front, m) ∧
      s' = { s with timers := m } := by
  simp only [otherTimers, Option.ite_none_right_eq_some] at hstep
  obtain ⟨hforeign, hstep⟩ := hstep
  obtain ⟨⟨front, m⟩, hrun, rfl⟩ := Option.map_eq_some_iff.mp hstep
  exact ⟨hforeign, front, m, hrun, rfl⟩

theorem otherEvents_spec {op : IOManager.Op} (hstep : s.otherEvents op = some s') :
    op.FromScheduler ∧ ∃ r, s.registry.step op = .ok r ∧ s' = { s with registry := r } := by
  simp only [otherEvents, Option.ite_none_right_eq_some] at hstep
  obtain ⟨hop, hstep⟩ := hstep
  obtain ⟨r, hr, rfl⟩ := Option.map_eq_some_iff.mp hstep
  exact ⟨hop, r, toOption_eq_some.mp hr, rfl⟩

end DoIo

end Sylar
