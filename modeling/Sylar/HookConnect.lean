import Sylar.HookWait

/-!
# What a successful connect means

`connect_with_timeout` in `hook.cc`, one call of it. From `EINPROGRESS`
to the wake-up it does what `do_io` does for `WRITE`: it arms the timer,
calls `addEvent` and yields. That part, the callback and the rest of the
process are the steps of a `DoIo` (`DoIo.Action.isShared`). The end is
its own. There is no `retry`, and a failed `addEvent` is logged: that
path too goes on to `SO_ERROR`, which is 0 as long as the connection is
in progress.

So a success says that the descriptor was reported writable only where
nothing else leads to the `getsockopt`: `addEvent` has not failed, and
nobody but `idle` and the call's own callback has handed its handle to
the scheduler (`Undisturbed`, `success_reported`). The invariant follows
the handle: it is held in one context only, and once it is scheduled
either the report or `cancelled` says why (`Inv`). That the condition
cannot be weakened is shown in `HookConnectExact`.
-/

namespace Sylar

/-! ## Who hands a handle to its scheduler -/

namespace IOManager

/-- `idle` has been told of an event on `fd`. -/
def Op.reports (m : IOManager) (fd : Int) (event : Event) : Op → Bool
  | .dispatch fd' ev _ => fd' == fd && match m.fdContext fd' with
      | .error _ => false
      | .ok c => (realEvents c ev &&& event).nonzero
  | _ => false

/-- A `cancelEvent` or `cancelAll` that reaches an event on `fd`. -/
def Op.Cancels (fd : Int) (event : Event) : Op → Prop
  | .cancelEvent fd' event' ctl => fd' = fd ∧ event' = event ∧ ctl = true
  | .cancelAll fd' ctl => fd' = fd ∧ ctl = true
  | _ => False

instance (fd : Int) (event : Event) : DecidablePred (Op.Cancels fd event)
  | .cancelEvent .. => inferInstanceAs (Decidable (_ ∧ _))
  | .cancelAll .. => inferInstanceAs (Decidable (_ ∧ _))
  | .addEvent .. => isFalse id
  | .delEvent .. => isFalse id
  | .dispatch .. => isFalse id

variable {m m' : IOManager} {fd : Int} {event : Event} {id : Nat}

/-- What triggering schedules was in the context. -/
theorem trigger_handed (htrigger : m.trigger fd event = .ok m') (h : id ∈ m'.handed) :
    id ∈ m.handed ∨ event.Single ∧ id ∈ m.held fd event := by
  obtain ⟨c, hc, htrigger⟩ := bind_eq_ok.mp htrigger
  obtain ⟨⟨c', task⟩, hc', htrigger⟩ := bind_eq_ok.mp htrigger
  obtain rfl := Except.ok.inj htrigger
  have h : id ∈ (m.scheduled ++ task.toList).map fun s => s.task.id := h
  rw [List.map_append, List.mem_append] at h
  refine h.imp_right fun hid => ?_
  unfold FdContext.triggerEvent at hc'
  split at hc'
  · cases hc'
  obtain ⟨x, hget, hc'⟩ := bind_eq_ok.mp hc'
  have he := FdContext.single_of_getContext hget
  have hx : c.ctx event = x := Except.ok.inj ((FdContext.getContext_eq he).symm.trans hget)
  refine ⟨he, ?_⟩
  rw [held_eq hc, hx, EventContext.ids, Multiset.mem_coe, List.map_append, List.mem_append]
  split at hc'
  · cases hc'
  · split at hc'
    · obtain ⟨-, rfl⟩ := Prod.mk.inj (Except.ok.inj hc')
      right
      cases hcb : x.cb with
      | none => simp [hcb] at hid
      | some g => simpa [hcb, Task.id] using hid
    · obtain ⟨-, rfl⟩ := Prod.mk.inj (Except.ok.inj hc')
      left
      cases hf : x.fiber with
      | none => simp [hf] at hid
      | some g => simpa [hf, Task.id] using hid

theorem triggerIf_handed {bit : Bool} (htrigger : m.triggerIf bit fd event = .ok m')
    (h : id ∈ m'.handed) : id ∈ m.handed ∨ bit = true ∧ id ∈ m.held fd event := by
  cases bit with
  | true => exact (trigger_handed htrigger h).imp_right fun hid => ⟨rfl, hid.2⟩
  | false =>
      obtain rfl := Except.ok.inj htrigger
      exact .inl h

theorem cancelEvent_handed {ctl done : Bool}
    (hcancel : m.cancelEvent fd event ctl = .ok (done, m')) (h : id ∈ m'.handed) :
    id ∈ m.handed ∨ event.Single ∧ ctl = true ∧ id ∈ m.held fd event := by
  rcases cancelEvent_cases hcancel with ⟨-, rfl⟩ | ⟨-, hctl, htrigger⟩
  · exact .inl h
  · exact (trigger_handed htrigger h).imp_right fun hid => ⟨hid.1, hctl, hid.2⟩

/-- Triggering `READ`, and then `WRITE`. -/
theorem triggerBoth_handed {m₁ : IOManager} {read write : Bool}
    (hread : m.triggerIf read fd .READ = .ok m₁) (hwrite : m₁.triggerIf write fd .WRITE = .ok m')
    (h : id ∈ m'.handed) :
    id ∈ m.handed ∨ read = true ∧ id ∈ m.held fd .READ ∨ write = true ∧ id ∈ m.held fd .WRITE := by
  rcases triggerIf_handed hwrite h with hid | ⟨hset, hid⟩
  · exact (triggerIf_handed hread hid).imp_right .inl
  · exact .inr (.inr ⟨hset, triggerIf_held hread hid⟩)

theorem cancelAll_handed {ctl done : Bool} (hcancel : m.cancelAll fd ctl = .ok (done, m'))
    (h : id ∈ m'.handed) :
    id ∈ m.handed ∨ ctl = true ∧ ∃ event : Event, event.Single ∧ id ∈ m.held fd event := by
  rcases cancelAll_cases hcancel with ⟨-, rfl⟩ | ⟨-, hctl, read, write, m₁, hread, hwrite⟩
  · exact .inl h
  refine (triggerBoth_handed hread hwrite h).imp_right fun hid => ⟨hctl, ?_⟩
  rcases hid with ⟨-, hid⟩ | ⟨-, hid⟩
  · exact ⟨.READ, .inl rfl, hid⟩
  · exact ⟨.WRITE, .inr rfl, hid⟩

theorem dispatch_handed {ev : EpollEvents} {ctl : Bool} (hdispatch : m.dispatch fd ev ctl = .ok m')
    (h : id ∈ m'.handed) :
    id ∈ m.handed ∨ ∃ event : Event, event.Single ∧ id ∈ m.held fd event ∧
      Op.reports m fd event (.dispatch fd ev ctl) = true := by
  rcases dispatch_cases hdispatch with rfl | ⟨-, c, m₁, hc, hread, hwrite⟩
  · exact .inl h
  refine (triggerBoth_handed hread hwrite h).imp_right fun hid => ?_
  rcases hid with ⟨hset, hid⟩ | ⟨hset, hid⟩
  · refine ⟨.READ, .inl rfl, hid, ?_⟩
    simp [Op.reports, hc, Event.nonzero, Event.READ, hset]
  · refine ⟨.WRITE, .inr rfl, hid, ?_⟩
    simp [Op.reports, hc, Event.nonzero, Event.WRITE, hset]

theorem mem_live_of_held (h : id ∈ m.held fd event) : id ∈ m.live := by
  cases hc : m.fdContext fd with
  | error a => simp [held, hc] at h
  | ok c =>
      rw [held_eq hc] at h
      have hctx : id ∈ c.ids := by
        rw [FdContext.ids, Multiset.mem_add]
        unfold FdContext.ctx at h
        split at h
        · exact .inl h
        · exact .inr h
      exact Multiset.mem_of_le (ids_le_live hc) hctx

/-- A handle that an operation schedules was held for an event that
`idle` was told of or that the operation cancels. -/
theorem Registry.step_handed {r r' : Registry} {op : Op} (hstep : r.step op = .ok r')
    (h : id ∈ r'.manager.handed) :
    id ∈ r.manager.handed ∨ ∃ fd event, event.Single ∧ id ∈ r.manager.held fd event ∧
      (op.reports r.manager fd event = true ∨ op.Cancels fd event) := by
  cases op with
  | addEvent caller fd event cb ctl =>
      obtain ⟨⟨rt, m⟩, hadd, hstep⟩ := bind_eq_ok.mp hstep
      obtain rfl := Except.ok.inj hstep
      rw [handed, addEvent_scheduled hadd] at h
      exact .inl h
  | delEvent fd event ctl =>
      obtain ⟨⟨done, m⟩, hdel, hstep⟩ := bind_eq_ok.mp hstep
      obtain rfl := Except.ok.inj hstep
      rw [handed, delEvent_scheduled hdel] at h
      exact .inl h
  | cancelEvent fd event ctl =>
      obtain ⟨⟨done, m⟩, hcancel, hstep⟩ := bind_eq_ok.mp hstep
      obtain rfl := Except.ok.inj hstep
      rcases cancelEvent_handed hcancel h with hold | ⟨he, hctl, hid⟩
      · exact .inl hold
      · exact .inr ⟨fd, event, he, hid, .inr ⟨rfl, rfl, hctl⟩⟩
  | cancelAll fd ctl =>
      obtain ⟨⟨done, m⟩, hcancel, hstep⟩ := bind_eq_ok.mp hstep
      obtain rfl := Except.ok.inj hstep
      rcases cancelAll_handed hcancel h with hold | ⟨hctl, event, he, hid⟩
      · exact .inl hold
      · exact .inr ⟨fd, event, he, hid, .inr ⟨rfl, hctl⟩⟩
  | dispatch fd ev ctl =>
      obtain ⟨m, hdispatch, hstep⟩ := bind_eq_ok.mp hstep
      obtain rfl := Except.ok.inj hstep
      rcases dispatch_handed hdispatch h with hold | ⟨event, he, hid, hreports⟩
      · exact .inl hold
      · exact .inr ⟨fd, event, he, hid, .inl hreports⟩

namespace Registry

variable {r : Registry}

theorem Inv.lt_of_mem (h : r.Inv) (hid : id ∈ r.manager.handed + r.manager.live) :
    id < r.next := by
  have hmem : id ∈ r.deleted + (r.manager.handed + r.manager.live) :=
    Multiset.mem_add.mpr (.inr hid)
  rw [h.placed] at hmem
  exact Multiset.mem_range.mp hmem

theorem Inv.lt_of_handed (h : r.Inv) (hid : id ∈ r.manager.handed) : id < r.next :=
  h.lt_of_mem (Multiset.mem_add.mpr (.inl hid))

theorem Inv.lt_of_held (h : r.Inv) (hid : id ∈ r.manager.held fd event) : id < r.next :=
  h.lt_of_mem (Multiset.mem_add.mpr (.inr (mem_live_of_held hid)))

end Registry

end IOManager

/-! ## The call -/

def EINPROGRESS : Nat := 115

/-- The arguments of a call, the thread that makes it and its
`timer_info`. -/
structure ConnectCall where
  fd : Int
  timeoutMs : Nat
  scheduler : Nat
  fiber : Nat
  tinfo : Nat

/-- The wait for `WRITE`. -/
def ConnectCall.io (c : ConnectCall) : IoCall :=
  ⟨c.fd, .WRITE, .inr rfl, false, c.scheduler, c.fiber, c.tinfo⟩

namespace DoIo

/-- A step that `connect_with_timeout` has too, or that is not of the
fiber. -/
def Action.isShared : Action → Bool
  | .enter .. => false
  | .io .. => false
  | .cancelTimer => false
  | .resume => false
  | _ => true

end DoIo

namespace Connect

/-- Where the fiber is in `connect_with_timeout`. -/
inductive Pc where
  | entry
  /-- the call goes to `connect_f` as it is -/
  | direct
  /-- before `connect_f` -/
  | connecting
  /-- after `EINPROGRESS`, in the wait -/
  | waiting
  /-- before `getsockopt` -/
  | sockError
  /-- without `EINPROGRESS` -/
  | returned (n : Int) (errno : Option Nat)
  /-- after `EINPROGRESS` -/
  | finished (n : Int) (errno : Option Nat)
deriving Repr, DecidableEq

end Connect

/-- A call in progress; `reported` says whether `idle` has been told, in
the wait, that the descriptor is writable. -/
structure Connect where
  io : DoIo
  pc : Connect.Pc
  reported : Bool

namespace Connect

/-- What comes before the first `connect_f` that may wait. -/
def enter (s : Connect) (hookEnable : Bool) (ctx : Option FdCtx) : Option Connect :=
  if s.pc = .entry then
    if !hookEnable then some { s with pc := .direct }
    else
      match ctx with
      | none => some { s with pc := .returned (-1) (some EBADF) }
      | some ctx =>
          if ctx.isClosed then some { s with pc := .returned (-1) (some EBADF) }
          else if !ctx.isSocket then some { s with pc := .direct }
          else if ctx.userNonblock then some { s with pc := .direct }
          else some { s with pc := .connecting }
  else none

/-- `connect_f` returns `n` with `errno`. -/
def connect (c : ConnectCall) (s : Connect) (n : Int) (errno : Nat) : Option Connect :=
  match s.pc with
  | .direct => some { s with pc := .returned n (some errno) }
  | .connecting =>
      if n = 0 then some { s with pc := .returned 0 none }
      else if n ≠ -1 ∨ errno ≠ EINPROGRESS then some { s with pc := .returned n (some errno) }
      else
        some { s with io := { s.io with timeout := c.timeoutMs, pc := .blocked }, pc := .waiting }
  | _ => none

/-- `idle` is told in this step that the descriptor the fiber waits for
is writable. -/
def reports (c : ConnectCall) (s : Connect) : DoIo.Action → Bool
  | .otherEvents op =>
      s.io.pc.waiting.isSome && op.reports s.io.registry.manager c.fd .WRITE
  | _ => false

/-- From the timer to the wake-up, and everything outside the fiber. -/
def wait (c : ConnectCall) (s : Connect) (a : DoIo.Action) : Option Connect :=
  if a.isShared then
    (s.io.step c.io a).map fun io =>
      { s with io := io, reported := s.reported || s.reports c a }
  else none

/-- `if(timer) { timer->cancel(); }`, and after a failed `addEvent` the
message. -/
def cancelTimer (s : Connect) : Option Connect :=
  let timers := match s.io.timer with
    | none => some s.io.timers
    | some a => (s.io.timers.cancel a).toOption.map Prod.snd
  match s.io.pc with
  | .failed => timers.map fun m =>
      { s with io := { s.io with timers := m, pc := .resumed }, pc := .sockError }
  | .woken => timers.map fun m => { s with io := { s.io with timers := m, pc := .resumed } }
  | _ => none

/-- The end of a call that has waited. -/
def finish (s : Connect) (n : Int) (errno : Option Nat) : Connect :=
  { s with io := { s.io with timer := none, pc := .returned n errno }, pc := .finished n errno }

/-- The test of `tinfo->cancelled`. -/
def resume (s : Connect) : Option Connect :=
  if s.pc = .waiting ∧ s.io.pc = .resumed then
    if s.io.cancelled ≠ 0 then some (s.finish (-1) (some s.io.cancelled))
    else some { s with pc := .sockError }
  else none

/-- `getsockopt` returns `rt` and, unless it fails, `SO_ERROR`. -/
def getsockopt (s : Connect) (rt : Int) (error : Nat) : Option Connect :=
  if s.pc = .sockError then
    if rt = -1 then some (s.finish (-1) none)
    else if error = 0 then some (s.finish 0 none)
    else some (s.finish (-1) (some error))
  else none

inductive Action where
  | enter (hookEnable : Bool) (ctx : Option FdCtx)
  | connect (n : Int) (errno : Nat)
  | wait (a : DoIo.Action)
  | cancelTimer
  | resume
  | getsockopt (rt : Int) (error : Nat)

def step (c : ConnectCall) (s : Connect) : Action → Option Connect
  | .enter hookEnable ctx => s.enter hookEnable ctx
  | .connect n errno => s.connect c n errno
  | .wait a => s.wait c a
  | .cancelTimer => s.cancelTimer
  | .resume => s.resume
  | .getsockopt rt error => s.getsockopt rt error

/-- The call begins like one of `do_io`. -/
def system (c : ConnectCall) : System Connect Action where
  init s := ∃ io, (DoIo.system c.io).init io ∧ s = ⟨io, .entry, false⟩
  step := step c

/-! ## The invariant -/

variable {c : ConnectCall} {s s' : Connect} {io io' : DoIo} {fd : Int} {reported : Bool}

/-- What holds of the wait on `fd` while nothing disturbs it. -/
structure Waits (fd : Int) (reported : Bool) (io : DoIo) : Prop where
  registry : io.registry.Inv
  marked : io.marked ≠ 0 → io.cancelled ≠ 0
  failed : io.pc ≠ .failed
  fresh : ∀ id, io.pc.waiting = some id → id < io.registry.next
  placed : ∀ id, io.pc.waiting = some id → ∀ fd' event,
    id ∈ io.registry.manager.held fd' event → fd' = fd ∧ event ≠ .READ
  handed : ∀ id, io.pc.waiting = some id → id ∈ io.registry.manager.handed →
    reported = true ∨ io.cancelled ≠ 0
  woken : io.pc = .woken ∨ io.pc = .resumed → reported = true ∨ io.cancelled ≠ 0

/-- Nothing has happened to the events. -/
theorem Waits.keep (h : Waits fd reported io) (hregistry : io'.registry = io.registry)
    (hmarked : io'.marked = io.marked) (hcancelled : io'.cancelled = io.cancelled)
    (hwaiting : ∀ id, io'.pc.waiting = some id → io.pc.waiting = some id)
    (hfailed : io'.pc ≠ .failed)
    (hwoken : io'.pc = .woken ∨ io'.pc = .resumed → reported = true ∨ io.cancelled ≠ 0) :
    Waits fd reported io' where
  registry := hregistry ▸ h.registry
  marked := by
    rw [hmarked, hcancelled]
    exact h.marked
  failed := hfailed
  fresh id hid := hregistry ▸ h.fresh id (hwaiting id hid)
  placed id hid := hregistry ▸ h.placed id (hwaiting id hid)
  handed id hid hmem := by
    rw [hcancelled]
    rw [hregistry] at hmem
    exact h.handed id (hwaiting id hid) hmem
  woken hpc := by
    rw [hcancelled]
    exact hwoken hpc

/-- The fiber stays where it is. -/
theorem Waits.stay (h : Waits fd reported io) (hregistry : io'.registry = io.registry)
    (hmarked : io'.marked = io.marked) (hcancelled : io'.cancelled = io.cancelled)
    (hpc : io'.pc = io.pc) : Waits fd reported io' :=
  h.keep hregistry hmarked hcancelled (fun _ hid => hpc ▸ hid) (hpc ▸ h.failed)
    (fun hwoken => h.woken (hpc ▸ hwoken))

theorem Waits.arm (h : Waits fd reported io) {addr now : Nat}
    (hstep : io.arm c.io addr now = some io') : Waits fd reported io' := by
  obtain ⟨-, ⟨-, -, rfl⟩ | ⟨-, rfl⟩⟩ := DoIo.arm_spec hstep
  · exact h.keep rfl rfl rfl (fun _ hid => nomatch hid) (by simp) (by simp)
  · exact h.keep rfl rfl rfl (fun _ hid => nomatch hid) (by simp) (by simp)

/-- The new handle is held for `WRITE` on this descriptor and nowhere
else. -/
theorem Waits.addEvent (h : Waits c.fd reported io) (hstep : io.addEvent c.io true = some io') :
    Waits c.fd reported io' := by
  obtain ⟨-, rt, m, hadd, hrt⟩ := DoIo.addEvent_spec hstep
  have hcaller : c.io.caller.scheduler ≠ none := Option.some_ne_none _
  obtain rfl : rt = 0 := by
    rcases IOManager.addEvent_spec h.registry.registered hcaller hadd with
      ⟨-, hctl, -⟩ | ⟨hrt, -⟩
    · cases hctl
    · exact hrt
  obtain ⟨-, rfl⟩ := hrt.resolve_right fun hne => hne.1 rfl
  have hreg : io.registry.step (.addEvent c.io.caller c.io.fd c.io.event none true) =
      .ok { io.registry with manager := m, next := io.registry.next + 1 } := by
    rw [IOManager.Registry.step, hadd]
    rfl
  have hop : (IOManager.Op.addEvent c.io.caller c.io.fd c.io.event none true).FromScheduler :=
    hcaller
  have hinv := (IOManager.Registry.step_spec h.registry hop hreg).1
  have hwrite : Event.WRITE ≠ .READ := by decide
  refine ⟨hinv, h.marked, by simp, ?_, ?_, ?_, by simp⟩
  · intro id hid
    obtain rfl := Option.some.inj hid
    exact Nat.lt_succ_self _
  · intro id hid fd' event hheld
    obtain rfl := Option.some.inj hid
    rcases IOManager.addEvent_held hcaller hadd hheld with ⟨hfd, -, hevent⟩ | hold
    · exact ⟨hfd, fun heq => hwrite (hevent.mp heq)⟩
    · exact absurd (h.registry.lt_of_held hold) (Nat.lt_irrefl _)
  · intro id hid hmem
    obtain rfl := Option.some.inj hid
    have hold : io.registry.next ∈ io.registry.manager.handed := by
      rw [IOManager.handed, ← IOManager.addEvent_scheduled hadd]
      exact hmem
    exact absurd (h.registry.lt_of_handed hold) (Nat.lt_irrefl _)

theorem Waits.yieldToHold (h : Waits fd reported io) (hstep : io.yieldToHold = some io') :
    Waits fd reported io' := by
  obtain ⟨id, hpc, rfl⟩ := DoIo.yieldToHold_spec hstep
  have hwaiting : io.pc.waiting = some id := by
    rw [hpc]
    rfl
  exact h.keep rfl rfl rfl (fun _ hid => hwaiting.trans hid) (by simp) (by simp)

/-- A fiber that runs again knows why. -/
theorem Waits.wake (h : Waits fd reported io) (hstep : io.wake = some io') :
    Waits fd reported io' := by
  obtain ⟨id, hpc, hmem, rfl⟩ := DoIo.wake_spec hstep
  have hwhy := h.handed id (by rw [hpc]; rfl) hmem
  exact h.keep rfl rfl rfl (fun _ hid => nomatch hid) (by simp) (fun _ => hwhy)

theorem Waits.invoke (h : Waits fd reported io) {i : Nat} (hstep : io.invoke c.io i = some io') :
    Waits fd reported io' := by
  obtain ⟨cb, checked, -, rfl, -⟩ := DoIo.invoke_spec hstep
  exact h.stay rfl rfl rfl rfl

theorem Waits.mark (h : Waits fd reported io) (hstep : io.mark = some io') :
    Waits fd reported io' := by
  obtain ⟨-, rfl⟩ := DoIo.mark_spec hstep
  have hset : ETIMEDOUT ≠ 0 := by decide
  exact ⟨h.registry, fun _ => hset, h.failed, h.fresh, h.placed, fun _ _ _ => .inr hset,
    fun _ => .inr hset⟩

/-- An operation of another thread: what it schedules of this call it
was told of, or it cancels. -/
theorem Waits.events (h : Waits fd reported io) {op : IOManager.Op} {r : IOManager.Registry}
    (hop : op.FromScheduler) (hr : io.registry.step op = .ok r) {marked : Nat}
    (hmarked : marked ≠ 0 → io.cancelled ≠ 0) {told : Bool}
    (htold : reported = true → told = true)
    (hwhy : ∀ id, io.pc.waiting = some id → id ∈ io.registry.manager.held fd .WRITE →
      op.reports io.registry.manager fd .WRITE = true ∨ op.Cancels fd .WRITE →
      told = true ∨ io.cancelled ≠ 0) :
    Waits fd told { io with registry := r, marked := marked } := by
  obtain ⟨hinv, hnext, -⟩ := IOManager.Registry.step_spec h.registry hop hr
  refine ⟨hinv, hmarked, h.failed, ?_, ?_, ?_, fun hpc => (h.woken hpc).imp_left htold⟩
  · intro id hid
    exact Nat.lt_of_lt_of_le (h.fresh id hid) hnext
  · intro id hid fd' event hheld
    rcases IOManager.Registry.step_held hop hr hheld with hnew | hold
    · exact absurd hnew (Nat.ne_of_lt (h.fresh id hid))
    · exact h.placed id hid fd' event hold
  · intro id hid hmem
    rcases IOManager.Registry.step_handed hr hmem with hold | ⟨fd', event, he, hheld, hcause⟩
    · exact (h.handed id hid hold).imp_left htold
    · obtain ⟨rfl, hne⟩ := h.placed id hid fd' event hheld
      obtain rfl := he.resolve_left hne
      exact hwhy id hid hheld hcause

/-- The call's own callback has set `cancelled` before. -/
theorem Waits.cancelEvent (h : Waits fd reported io) {ctl : Bool}
    (hstep : io.cancelEvent c.io ctl = some io') : Waits fd reported io' := by
  obtain ⟨hmarked, r, hr, rfl⟩ := DoIo.cancelEvent_spec hstep
  have hop : (IOManager.Op.cancelEvent c.io.fd c.io.event ctl).FromScheduler := trivial
  have hcancelled := h.marked hmarked
  exact h.events hop hr (fun _ => hcancelled) id fun _ _ _ _ => .inr hcancelled

theorem Waits.expire (h : Waits fd reported io) {now probe : Nat}
    (hstep : io.expire now probe = some io') : Waits fd reported io' := by
  obtain ⟨-, rfl⟩ := DoIo.expire_spec hstep
  exact h.stay rfl rfl rfl rfl

theorem Waits.otherTimers (h : Waits fd reported io) {op : TimerManager.Op TimerFn}
    (hstep : io.otherTimers op = some io') : Waits fd reported io' := by
  obtain ⟨-, front, m, -, rfl⟩ := DoIo.otherTimers_spec hstep
  exact h.stay rfl rfl rfl rfl

/-- `addEvent` does not fail, and no other thread cancels the event while
the fiber waits for it; after a report, and once `cancelled` is set, that
makes no difference. -/
def Undisturbed (c : ConnectCall) (s : Connect) : Action → Prop
  | .wait (.addEvent ctl) => ctl = true
  | .wait (.otherEvents op) => op.Cancels c.fd .WRITE → s.reported = false → s.io.cancelled = 0 →
      ∀ id, s.io.pc.waiting = some id → id ∉ s.io.registry.manager.held c.fd .WRITE
  | _ => True

structure Inv (c : ConnectCall) (s : Connect) : Prop where
  waits : Waits c.fd s.reported s.io
  decided : s.pc = .sockError → s.reported = true
  success : ∀ errno, s.pc = .finished 0 errno → s.reported = true

theorem Waits.otherEvents {op : IOManager.Op} (h : Waits c.fd s.reported s.io)
    (hok : Undisturbed c s (.wait (.otherEvents op))) (hstep : s.io.otherEvents op = some io') :
    Waits c.fd (s.reported || s.reports c (.otherEvents op)) io' := by
  obtain ⟨hop, r, hr, rfl⟩ := DoIo.otherEvents_spec hstep
  refine h.events hop hr h.marked (fun htold => by rw [htold]; rfl) ?_
  rintro id hid hheld (hreports | hcancels)
  · left
    rw [reports, hreports, hid]
    exact Bool.or_true _
  · cases htold : s.reported with
    | true => exact .inl rfl
    | false =>
        right
        intro hzero
        exact hok hcancels htold hzero id hid hheld

/-- A shared step keeps what holds of the wait. -/
theorem Waits.step {a : DoIo.Action} (h : Waits c.fd s.reported s.io)
    (hshared : a.isShared = true) (hok : Undisturbed c s (.wait a))
    (hstep : s.io.step c.io a = some io') : Waits c.fd (s.reported || s.reports c a) io' := by
  have hquiet (h' : Waits c.fd s.reported io') : Waits c.fd (s.reported || false) io' := by
    rwa [Bool.or_false]
  cases a with
  | enter hookEnable ctx => cases hshared
  | io n errno => cases hshared
  | arm addr now => exact hquiet (h.arm hstep)
  | addEvent ctl =>
      obtain rfl : ctl = true := hok
      exact hquiet (h.addEvent hstep)
  | yieldToHold => exact hquiet (h.yieldToHold hstep)
  | wake => exact hquiet (h.wake hstep)
  | cancelTimer => cases hshared
  | resume => cases hshared
  | invoke i => exact hquiet (h.invoke hstep)
  | mark => exact hquiet (h.mark hstep)
  | cancelEvent ctl => exact hquiet (h.cancelEvent hstep)
  | expire now probe => exact hquiet (h.expire hstep)
  | otherTimers op => exact hquiet (h.otherTimers hstep)
  | otherEvents op => exact h.otherEvents hok hstep

/-! ## One step -/

/-- Where the fiber goes before it waits. -/
theorem enter_cases {hookEnable : Bool} {ctx : Option FdCtx}
    (hstep : s.enter hookEnable ctx = some s') :
    s.pc = .entry ∧ ∃ pc : Pc, s' = { s with pc := pc } ∧ pc ≠ .sockError ∧
      ∀ n errno, pc ≠ .finished n errno := by
  unfold Connect.enter at hstep
  split at hstep
  · rename_i hpc
    refine ⟨hpc, ?_⟩
    split at hstep
    · exact ⟨.direct, (Option.some.inj hstep).symm, by simp⟩
    · split at hstep
      · exact ⟨.returned _ _, (Option.some.inj hstep).symm, by simp⟩
      · split at hstep
        · exact ⟨.returned _ _, (Option.some.inj hstep).symm, by simp⟩
        · split at hstep
          · exact ⟨.direct, (Option.some.inj hstep).symm, by simp⟩
          · split at hstep
            · exact ⟨.direct, (Option.some.inj hstep).symm, by simp⟩
            · exact ⟨.connecting, (Option.some.inj hstep).symm, by simp⟩
  · cases hstep

theorem connect_cases {n : Int} {errno : Nat} (hstep : s.connect c n errno = some s') :
    (s.pc = .direct ∨ s.pc = .connecting) ∧ (∃ n errno, s' = { s with pc := .returned n errno }) ∨
      s.pc = .connecting ∧ s' =
        { s with io := { s.io with timeout := c.timeoutMs, pc := .blocked }, pc := .waiting } := by
  unfold Connect.connect at hstep
  split at hstep
  · exact .inl ⟨.inl ‹_›, _, _, (Option.some.inj hstep).symm⟩
  · split at hstep
    · exact .inl ⟨.inr ‹_›, _, _, (Option.some.inj hstep).symm⟩
    · split at hstep
      · exact .inl ⟨.inr ‹_›, _, _, (Option.some.inj hstep).symm⟩
      · exact .inr ⟨‹_›, (Option.some.inj hstep).symm⟩
  · cases hstep

theorem resume_cases (hstep : s.resume = some s') :
    (s.pc = .waiting ∧ s.io.pc = .resumed) ∧
      (s.io.cancelled ≠ 0 ∧ s' = s.finish (-1) (some s.io.cancelled) ∨
        s.io.cancelled = 0 ∧ s' = { s with pc := .sockError }) := by
  simp only [Connect.resume, Option.ite_none_right_eq_some] at hstep
  obtain ⟨hpc, hstep⟩ := hstep
  refine ⟨hpc, ?_⟩
  split at hstep
  · exact .inl ⟨‹_›, (Option.some.inj hstep).symm⟩
  · exact .inr ⟨not_not.mp ‹_›, (Option.some.inj hstep).symm⟩

theorem getsockopt_cases {rt : Int} {error : Nat} (hstep : s.getsockopt rt error = some s') :
    s.pc = .sockError ∧ ∃ n errno, s' = s.finish n errno := by
  simp only [Connect.getsockopt, Option.ite_none_right_eq_some] at hstep
  obtain ⟨hpc, hstep⟩ := hstep
  refine ⟨hpc, ?_⟩
  split at hstep
  · exact ⟨_, _, (Option.some.inj hstep).symm⟩
  · split at hstep
    · exact ⟨_, _, (Option.some.inj hstep).symm⟩
    · exact ⟨_, _, (Option.some.inj hstep).symm⟩

theorem Inv.enter (h : Inv c s) {hookEnable : Bool} {ctx : Option FdCtx}
    (hstep : s.enter hookEnable ctx = some s') : Inv c s' := by
  obtain ⟨-, pc, rfl, hsock, hfinished⟩ := enter_cases hstep
  exact ⟨h.waits, fun hpc => absurd hpc hsock, fun errno hpc => absurd hpc (hfinished 0 errno)⟩

theorem Inv.connect (h : Inv c s) {n : Int} {errno : Nat} (hstep : s.connect c n errno = some s') :
    Inv c s' := by
  obtain ⟨-, n, errno, rfl⟩ | ⟨-, rfl⟩ := connect_cases hstep
  · exact ⟨h.waits, by simp, by simp⟩
  · refine ⟨h.waits.keep rfl rfl rfl (fun _ hid => nomatch hid) (by simp) (by simp), ?_, ?_⟩
    · simp
    · simp

theorem Inv.wait (h : Inv c s) {a : DoIo.Action} (hok : Undisturbed c s (.wait a))
    (hstep : s.wait c a = some s') : Inv c s' := by
  unfold Connect.wait at hstep
  split at hstep
  · rename_i hshared
    obtain ⟨io, hio, rfl⟩ := Option.map_eq_some_iff.mp hstep
    refine ⟨h.waits.step hshared hok hio, fun hpc => ?_, fun errno hpc => ?_⟩
    · show (s.reported || s.reports c a) = true
      rw [h.decided hpc, Bool.true_or]
    · show (s.reported || s.reports c a) = true
      rw [h.success errno hpc, Bool.true_or]
  · cases hstep

/-- Only a fiber that has been woken gets here. -/
theorem Inv.cancelTimer (h : Inv c s) (hstep : s.cancelTimer = some s') : Inv c s' := by
  simp only [Connect.cancelTimer] at hstep
  split at hstep
  · rename_i hpc
    exact absurd hpc h.waits.failed
  · rename_i hpc
    obtain ⟨m, -, rfl⟩ := Option.map_eq_some_iff.mp hstep
    have hwhy := h.waits.woken (.inl hpc)
    exact ⟨h.waits.keep rfl rfl rfl (fun _ hid => nomatch hid) (by simp) fun _ => hwhy,
      h.decided, h.success⟩
  · cases hstep

theorem Waits.finish (h : Waits c.fd s.reported s.io) (n : Int) (errno : Option Nat) :
    Waits c.fd s.reported (s.finish n errno).io := by
  refine h.keep rfl rfl rfl ?_ (by simp [Connect.finish]) (by simp [Connect.finish])
  intro id hid
  cases hid

/-- `cancelled` is 0, so that it was not the callback that woke the
fiber. -/
theorem Inv.resume (h : Inv c s) (hstep : s.resume = some s') : Inv c s' := by
  obtain ⟨hpc, ⟨-, rfl⟩ | ⟨hzero, rfl⟩⟩ := resume_cases hstep
  · refine ⟨h.waits.finish .., (fun hpc => nomatch hpc), fun errno hpc => ?_⟩
    cases hpc
  · have hreported := (h.waits.woken (.inr hpc.2)).resolve_right fun hne => hne hzero
    exact ⟨h.waits, fun _ => hreported, fun _ _ => hreported⟩

theorem Inv.getsockopt (h : Inv c s) {rt : Int} {error : Nat}
    (hstep : s.getsockopt rt error = some s') : Inv c s' := by
  obtain ⟨hpc, n, errno, rfl⟩ := getsockopt_cases hstep
  exact ⟨h.waits.finish .., (fun hpc => nomatch hpc), fun _ _ => h.decided hpc⟩

theorem step_inv {a : Action} (h : Inv c s) (hok : Undisturbed c s a)
    (hstep : s.step c a = some s') : Inv c s' := by
  cases a with
  | enter hookEnable ctx => exact h.enter hstep
  | connect n errno => exact h.connect hstep
  | wait a => exact h.wait hok hstep
  | cancelTimer => exact h.cancelTimer hstep
  | resume => exact h.resume hstep
  | getsockopt rt error => exact h.getsockopt hstep

/-! ## Runs -/

theorem init_inv {io : DoIo} (h : (DoIo.system c.io).init io) : Inv c ⟨io, .entry, false⟩ := by
  obtain ⟨timers, registry, queued, rfl, -, hregistry, -⟩ := h
  refine ⟨⟨IOManager.Registry.reachable_inv hregistry, fun hne => absurd rfl hne, ?_, ?_, ?_, ?_,
    ?_⟩, by simp, by simp⟩
  · simp [DoIo.start]
  · intro id hid
    cases hid
  · intro id hid
    cases hid
  · intro id hid
    cases hid
  · simp [DoIo.start]

theorem reachable_inv (h : (system c).ReachableBy (Undisturbed c) s) : Inv c s := by
  refine h.invariant (P := Inv c) ?_ ?_
  · rintro s ⟨io, hio, rfl⟩
    exact init_inv hio
  · intro s a s' hs hok hstep
    exact step_inv hs hok hstep

/-- In a run that nothing disturbs, a call that returns 0 after
`EINPROGRESS` has been told that the descriptor is writable. -/
theorem success_reported (h : (system c).ReachableBy (Undisturbed c) s) {errno : Option Nat}
    (hpc : s.pc = .finished 0 errno) : s.reported = true :=
  (reachable_inv h).success errno hpc

/-- A connect of socket 3 with a timeout of 10. -/
def call : ConnectCall := ⟨3, 10, 9, 5, 1⟩

/-- A socket whose hook is in force. -/
def blocking : FdCtx := ⟨true, true, true, false, false, noTimeout, noTimeout⟩

theorem init_call : (system call).init
    ⟨DoIo.start (TimerManager.new 0) ⟨IOManager.new, 0, 0⟩ [], .entry, false⟩ := by
  refine ⟨_, ⟨_, _, _, rfl, .init ⟨0, rfl⟩, .init rfl, ?_, ?_⟩, rfl⟩
  · intro a t cb h
    cases h
  · intro cb h
    cases h

/-- **A success that is none**: another fiber cancels the event, and
`SO_ERROR` is still 0. -/
theorem cancelled_success :
    ¬∀ s, (system call).Reachable s → ∀ errno, s.pc = .finished 0 errno → s.reported = true := by
  intro hall
  have hstart : (system call).Reachable _ := .init init_call
  have hdone := hstart.next (e := .enter true (some blocking)) rfl
    |>.next (e := .connect (-1) EINPROGRESS) rfl
    |>.next (e := .wait (.arm 7 0)) rfl
    |>.next (e := .wait (.addEvent true)) rfl
    |>.next (e := .wait .yieldToHold) rfl
    |>.next (e := .wait (.otherEvents (.cancelEvent 3 .WRITE true))) rfl
    |>.next (e := .wait .wake) rfl
    |>.next (e := .cancelTimer) rfl
    |>.next (e := .resume) rfl
    |>.next (e := .getsockopt 0 0) rfl
  have hreported : false = true := hall _ hdone none rfl
  cases hreported

/-- So is one after an `addEvent` that failed: nothing was registered. -/
theorem failed_success :
    ∃ s, (system call).Reachable s ∧ s.pc = .finished 0 none ∧ s.reported = false ∧
      s.io.registry.next = 0 := by
  have hstart : (system call).Reachable _ := .init init_call
  have hdone := hstart.next (e := .enter true (some blocking)) rfl
    |>.next (e := .connect (-1) EINPROGRESS) rfl
    |>.next (e := .wait (.arm 7 0)) rfl
    |>.next (e := .wait (.addEvent false)) rfl
    |>.next (e := .cancelTimer) rfl
    |>.next (e := .getsockopt 0 0) rfl
  exact ⟨_, hdone, rfl, rfl, rfl⟩

end Connect

end Sylar
