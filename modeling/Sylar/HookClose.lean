import Sylar.HookWait

/-!
# A descriptor is closed under a call

The hooked `close` of `hook.cc` beside one call of `do_io` on the same
descriptor: `cancelAll` wakes what waits for it, `FdManager::del` drops
the `FdCtx`, `close_f` gives the number back to the kernel, which may
hand it out again. Each of them is a step; those of the call and of the
rest of the process come in between as they like.

Nothing ever sets `m_isClosed`, and `do_io` does not look at it again
when the fiber is woken: unless the timeout has come as well, the call
goes on with the original function on the number (`retry`). `started`
says that the call was in progress when `close_f` ran, `touched` that it
has called the function since.

What `close` counts on is that by `close_f` the call has its wake-up
(`Answered`): `cancelAll` gives it to the schedulers if the call is
registered by then (`answered_of_cancelAll`), and nothing takes it back.
A call that registers after `cancelAll` waits on the number of whoever
has it next. `closed_untouched` is about the runs in which the call has
its wake-up and finds its timeout expired behind it. It neither uses the
function again nor waits: each of its steps brings it closer to the
return (`left`), none of them can be blocked, and a scheduler that runs
the fiber at all runs it to the end.
-/

namespace Sylar

namespace HookClose

/-- Where the closing fiber is in `close`. -/
inductive Place where
  | entry
  | cancelAll
  | del
  | close
  | closed
deriving Repr, DecidableEq

end HookClose

/-- `ctx` is the entry of the descriptor in the `FdManager`. -/
structure HookClose where
  io : DoIo
  ctx : Option FdCtx
  place : HookClose.Place
  started : Bool
  touched : Bool

namespace HookClose

/-- `close(fd)` up to what it does first; `iom` is whether the thread has
an IOManager. -/
def enter (s : HookClose) (hookEnable iom : Bool) : Option HookClose :=
  if s.place = .entry then
    if !hookEnable || s.ctx.isNone then some { s with place := .close }
    else some { s with place := if iom then .cancelAll else .del }
  else none

def cancelAll (c : IoCall) (s : HookClose) (ctl : Bool) : Option HookClose :=
  if s.place = .cancelAll then
    (s.io.registry.step (.cancelAll c.fd ctl)).toOption.map fun r =>
      { s with io := { s.io with registry := r }, place := .del }
  else none

/-- `FdMgr::del(fd)`. -/
def del (s : HookClose) : Option HookClose :=
  if s.place = .del then some { s with ctx := none, place := .close } else none

/-- A call is in progress. -/
def inProgress (pc : DoIo.Pc) : Bool := pc != .entry && !pc.isReturned

/-- `close_f(fd)`. -/
def close (s : HookClose) : Option HookClose :=
  if s.place = .close then
    some { s with place := .closed, started := inProgress s.io.pc, touched := false }
  else none

/-- The kernel hands the number out again, and `FdMgr::get(fd, true)`
makes an entry for it. -/
def reuse (s : HookClose) (ctx : FdCtx) : Option HookClose :=
  if s.place = .closed then some { s with ctx := some ctx } else none

inductive Action where
  | enter (hookEnable iom : Bool)
  | cancelAll (ctl : Bool)
  | del
  | close
  | reuse (ctx : FdCtx)
  /-- a step of the call or of the rest of the process -/
  | io (a : DoIo.Action)

/-- Whether the call uses the original function in this step. -/
def callsFun : DoIo.Action → Bool
  | .io .. => true
  | _ => false

def step (c : IoCall) (s : HookClose) : Action → Option HookClose
  | .enter hookEnable iom => s.enter hookEnable iom
  | .cancelAll ctl => s.cancelAll c ctl
  | .del => s.del
  | .close => s.close
  | .reuse ctx => s.reuse ctx
  | .io (.enter hookEnable _) =>
      (s.io.step c (.enter hookEnable s.ctx)).map fun io => { s with io := io }
  | .io a => (s.io.step c a).map fun io =>
      { s with io := io, touched := s.touched || (s.place == .closed && s.started && callsFun a) }

def system (c : IoCall) : System HookClose Action where
  init s := ∃ io ctx, s = ⟨io, ctx, .entry, false, false⟩ ∧ (DoIo.system c).init io
  step := step c

/-- The wake-up of the call is on its way, or the call is past it. -/
def Answered (io : DoIo) : Prop :=
  match io.pc with
  | .registered id | .parked id => id ∈ io.registry.manager.handed
  | .failed | .woken | .resumed => True
  | .returned n _ => n = -1
  | _ => False

/-- A call that is in progress when `close_f` runs has its wake-up by
then, and when it comes to test `cancelled` its timeout has set it. -/
def Settled (s : HookClose) : Action → Prop
  | .close => inProgress s.io.pc = true → Answered s.io
  | .io .resume => s.started = true → s.io.cancelled ≠ 0
  | _ => True

/-- A step of the fiber that makes the call. -/
def OfCall : Action → Prop
  | .io a =>
      match a with
      | .enter .. | .io .. | .arm .. | .addEvent _ | .yieldToHold | .wake | .cancelTimer
      | .resume => True
      | _ => False
  | _ => False

/-- How many steps a call that has its wake-up is from its return. -/
def left : DoIo.Pc → Nat
  | .registered _ => 4
  | .parked _ => 3
  | .woken => 2
  | .resumed | .failed => 1
  | _ => 0

variable {c : IoCall} {io io' : DoIo} {s s' : HookClose}

/-! ## The call after `close_f` -/

theorem Answered.of_same (h : Answered io) (hpc : io'.pc = io.pc)
    (hhanded : ∀ id ∈ io.registry.manager.handed, id ∈ io'.registry.manager.handed) :
    Answered io' := by
  rw [Answered] at h ⊢
  rw [hpc]
  cases hp : io.pc with
  | registered id | parked id =>
      rw [hp] at h
      exact hhanded id h
  | _ =>
      rw [hp] at h
      exact h

/-- What a step brings a call that has its wake-up: it does not use the
function, and comes closer to the return if it is one of its own. -/
structure Closer (c : IoCall) (io io' : DoIo) (a : DoIo.Action) : Prop where
  answered : Answered io'
  notFun : callsFun a = false
  left : left io'.pc ≤ left io.pc
  ofCall : OfCall (.io a) → HookClose.left io'.pc < HookClose.left io.pc

/-- A step of somebody else. -/
theorem Closer.other (h : Answered io) {a : DoIo.Action} (hfun : callsFun a = false)
    (hother : ¬OfCall (.io a)) (hpc : io'.pc = io.pc)
    (hhanded : ∀ id ∈ io.registry.manager.handed, id ∈ io'.registry.manager.handed) :
    Closer c io io' a :=
  ⟨h.of_same hpc hhanded, hfun, by rw [hpc], fun hof => absurd hof hother⟩

/-- A step of its own. -/
theorem Closer.own {a : DoIo.Action} (hfun : callsFun a = false) (h : Answered io')
    (hlt : HookClose.left io'.pc < HookClose.left io.pc) : Closer c io io' a :=
  ⟨h, hfun, Nat.le_of_lt hlt, fun _ => hlt⟩

theorem Answered.step (h : Answered io) {a : DoIo.Action} (ha : a = .resume → io.cancelled ≠ 0)
    (hstep : io.step c a = some io') : Closer c io io' a := by
  cases a with
  | enter hookEnable ctx =>
      obtain ⟨hpc, -⟩ := DoIo.enter_spec hstep
      rw [Answered, hpc] at h
      exact h.elim
  | io n errno =>
      obtain ⟨hpc | hpc, -⟩ := DoIo.io_spec hstep
      · rw [Answered, hpc] at h
        exact h.elim
      · rw [Answered, hpc] at h
        exact h.elim
  | arm addr now =>
      obtain ⟨hpc, -⟩ := DoIo.arm_spec hstep
      rw [Answered, hpc] at h
      exact h.elim
  | addEvent ctl =>
      obtain ⟨hpc, -⟩ := DoIo.addEvent_spec hstep
      rw [Answered, hpc] at h
      exact h.elim
  | yieldToHold =>
      obtain ⟨id, hpc, rfl⟩ := DoIo.yieldToHold_spec hstep
      rw [Answered, hpc] at h
      exact .own rfl h (by rw [hpc]; exact Nat.lt_succ_self 3)
  | wake =>
      obtain ⟨id, hpc, -, rfl⟩ := DoIo.wake_spec hstep
      exact .own rfl trivial (by rw [hpc]; exact Nat.lt_succ_self 2)
  | cancelTimer =>
      obtain ⟨m, -, ⟨hpc, rfl⟩ | ⟨hpc, rfl⟩⟩ := DoIo.cancelTimer_spec hstep
      · exact .own rfl rfl (by rw [hpc]; exact Nat.lt_succ_self 0)
      · exact .own rfl trivial (by rw [hpc]; exact Nat.lt_succ_self 1)
  | resume =>
      obtain ⟨hpc, ⟨-, rfl⟩ | ⟨hcancelled, -⟩⟩ := DoIo.resume_spec hstep
      · exact .own rfl rfl (by rw [hpc]; exact Nat.lt_succ_self 0)
      · exact absurd hcancelled (ha rfl)
  | invoke i =>
      obtain ⟨cb, checked, -, rfl, -⟩ := DoIo.invoke_spec hstep
      exact .other h rfl id rfl fun _ hid => hid
  | mark =>
      obtain ⟨-, rfl⟩ := DoIo.mark_spec hstep
      exact .other h rfl id rfl fun _ hid => hid
  | cancelEvent ctl =>
      obtain ⟨-, r, hr, rfl⟩ := DoIo.cancelEvent_spec hstep
      exact .other h rfl id rfl fun _ hid => IOManager.Registry.step_keeps_handed hr hid
  | expire now probe =>
      obtain ⟨-, rfl⟩ := DoIo.expire_spec hstep
      exact .other h rfl id rfl fun _ hid => hid
  | otherTimers op =>
      obtain ⟨-, front, m, -, rfl⟩ := DoIo.otherTimers_spec hstep
      exact .other h rfl id rfl fun _ hid => hid
  | otherEvents op =>
      obtain ⟨-, r, hr, rfl⟩ := DoIo.otherEvents_spec hstep
      exact .other h rfl id rfl fun _ hid => IOManager.Registry.step_keeps_handed hr hid

/-- The next step of the call can be taken. -/
theorem Answered.enabled (h : Answered io) (hkept : io.TimerKept) (hleft : left io.pc ≠ 0) :
    ∃ a, OfCall (.io a) ∧ (∀ hookEnable ctx, a ≠ .enter hookEnable ctx) ∧
      ∃ io', io.step c a = some io' := by
  rw [Answered] at h
  cases hpc : io.pc with
  | registered id =>
      refine ⟨.yieldToHold, trivial, (fun _ _ heq => by cases heq),
        { io with pc := .parked id }, ?_⟩
      simp only [DoIo.step, DoIo.yieldToHold, hpc]
  | parked id =>
      rw [hpc] at h
      refine ⟨.wake, trivial, (fun _ _ heq => by cases heq), { io with pc := .woken }, ?_⟩
      simp only [DoIo.step, DoIo.wake, hpc]
      exact if_pos h
  | woken =>
      obtain ⟨m, -, -, hwoken⟩ := hkept.cancelTimer
      exact ⟨.cancelTimer, trivial, (fun _ _ heq => by cases heq), _, hwoken hpc⟩
  | failed =>
      obtain ⟨m, -, hfailed, -⟩ := hkept.cancelTimer
      exact ⟨.cancelTimer, trivial, (fun _ _ heq => by cases heq), _, hfailed hpc⟩
  | resumed =>
      refine ⟨.resume, trivial, (fun _ _ heq => by cases heq), ?_⟩
      rw [DoIo.step, DoIo.resume, if_pos hpc]
      split
      · exact ⟨_, rfl⟩
      · exact ⟨_, rfl⟩
  | _ => exact absurd (by rw [hpc]; rfl) hleft

/-- Of a call that was in progress when `close_f` ran. -/
structure Inv (s : HookClose) : Prop where
  timer : s.io.TimerKept
  closed : s.started = true → s.place = .closed
  answered : s.started = true → Answered s.io ∧ s.touched = false

theorem Inv.not_started (h : s.Inv) (hplace : s.place ≠ .closed) : ¬s.started = true :=
  fun hstarted => hplace (h.closed hstarted)

/-- A step of the call or of the rest of the process. -/
theorem io_step {a : DoIo.Action} (hstep : s.step c (.io a) = some s') :
    ∃ a', (a' = .resume → a = .resume) ∧ (OfCall (.io a') ↔ OfCall (.io a)) ∧
      callsFun a' = callsFun a ∧ s.io.step c a' = some s'.io ∧ s'.place = s.place ∧
      s'.started = s.started ∧
      (s'.touched = s.touched ∨ s'.touched = (s.touched ||
        (s.place == .closed && s.started && callsFun a))) := by
  cases a with
  | enter hookEnable ctx =>
      obtain ⟨io, hio, rfl⟩ := Option.map_eq_some_iff.mp hstep
      exact ⟨.enter hookEnable s.ctx, (fun heq => by cases heq), Iff.rfl, rfl, hio, rfl, rfl,
        .inl rfl⟩
  | _ =>
      obtain ⟨io, hio, rfl⟩ := Option.map_eq_some_iff.mp hstep
      exact ⟨_, id, Iff.rfl, rfl, hio, rfl, rfl, .inr rfl⟩

theorem step_inv (h : s.Inv) {a : Action} (ha : s.Settled a) (hstep : s.step c a = some s') :
    s'.Inv := by
  cases a with
  | enter hookEnable iom =>
      simp only [step, HookClose.enter, Option.ite_none_right_eq_some] at hstep
      obtain ⟨hplace, hstep⟩ := hstep
      have hnot := h.not_started (by rw [hplace]; decide)
      split at hstep
      · obtain rfl := Option.some.inj hstep
        exact ⟨h.timer, fun hs => absurd hs hnot, h.answered⟩
      · obtain rfl := Option.some.inj hstep
        exact ⟨h.timer, fun hs => absurd hs hnot, h.answered⟩
  | cancelAll ctl =>
      simp only [step, HookClose.cancelAll, Option.ite_none_right_eq_some] at hstep
      obtain ⟨hplace, hstep⟩ := hstep
      have hnot := h.not_started (by rw [hplace]; decide)
      obtain ⟨r, -, rfl⟩ := Option.map_eq_some_iff.mp hstep
      exact ⟨h.timer.congr rfl rfl, fun hs => absurd hs hnot, fun hs => absurd hs hnot⟩
  | del =>
      simp only [step, HookClose.del, Option.ite_none_right_eq_some, Option.some.injEq] at hstep
      obtain ⟨hplace, rfl⟩ := hstep
      exact ⟨h.timer, fun hs => absurd hs (h.not_started (by rw [hplace]; decide)), h.answered⟩
  | close =>
      simp only [step, HookClose.close, Option.ite_none_right_eq_some, Option.some.injEq] at hstep
      obtain ⟨-, rfl⟩ := hstep
      exact ⟨h.timer, fun _ => rfl, fun hprogress => ⟨ha hprogress, rfl⟩⟩
  | reuse ctx =>
      simp only [step, HookClose.reuse, Option.ite_none_right_eq_some, Option.some.injEq] at hstep
      obtain ⟨-, rfl⟩ := hstep
      exact ⟨h.timer, h.closed, h.answered⟩
  | io a =>
      obtain ⟨b, hresume, -, hfun, hio, hplace, hstarted, htouched⟩ := io_step hstep
      refine ⟨h.timer.step hio, fun hs => hplace.trans (h.closed (hstarted ▸ hs)), fun hs => ?_⟩
      rw [hstarted] at hs
      obtain ⟨hanswered, hnot⟩ := h.answered hs
      have hcloser := hanswered.step (fun hb => by
        obtain rfl := hresume hb
        exact ha hs) hio
      refine ⟨hcloser.answered, ?_⟩
      obtain hsame | hsame := htouched
      · exact hsame.trans hnot
      · rw [hsame, hnot, ← hfun, hcloser.notFun, Bool.and_false]
        rfl

theorem reachable_inv (h : (system c).ReachableBy Settled s) : s.Inv := by
  refine h.invariant (P := Inv) ?_ fun _ _ _ hs ha hstep => step_inv hs ha hstep
  rintro s ⟨io, ctx, rfl, timers, registry, queued, rfl, htimers, -⟩
  refine ⟨.drop (TimerManager.reachable_stored htimers) rfl, ?_, ?_⟩
  · exact fun hs => by cases hs
  · exact fun hs => by cases hs

/-- Once the call is past `close_f`, no step takes it away from its
return, and each of its own brings it closer. -/
theorem step_left (h : s.Inv) (hstarted : s.started = true) {a : Action} (ha : s.Settled a)
    (hstep : s.step c a = some s') :
    s'.started = true ∧ left s'.io.pc ≤ left s.io.pc ∧
      (OfCall a → left s'.io.pc < left s.io.pc) := by
  have hplace := h.closed hstarted
  cases a with
  | enter hookEnable iom => simp [step, HookClose.enter, hplace] at hstep
  | cancelAll ctl => simp [step, HookClose.cancelAll, hplace] at hstep
  | del => simp [step, HookClose.del, hplace] at hstep
  | close => simp [step, HookClose.close, hplace] at hstep
  | reuse ctx =>
      simp only [step, HookClose.reuse, Option.ite_none_right_eq_some, Option.some.injEq] at hstep
      obtain ⟨-, rfl⟩ := hstep
      exact ⟨hstarted, Nat.le_refl _, fun hof => hof.elim⟩
  | io a =>
      obtain ⟨b, hresume, hof, -, hio, -, hsame, -⟩ := io_step hstep
      have hcloser := (h.answered hstarted).1.step (fun hb => by
        obtain rfl := hresume hb
        exact ha hstarted) hio
      exact ⟨hsame.trans hstarted, hcloser.left, fun ha => hcloser.ofCall (hof.mpr ha)⟩

theorem Inv.enabled (h : s.Inv) (hstarted : s.started = true) (hleft : left s.io.pc ≠ 0) :
    ∃ a, OfCall a ∧ (s.step c a).isSome := by
  obtain ⟨a, hof, henter, io, hio⟩ := (h.answered hstarted).1.enabled (c := c) h.timer hleft
  refine ⟨.io a, hof, ?_⟩
  cases a with
  | enter hookEnable ctx => exact absurd rfl (henter hookEnable ctx)
  | _ =>
      rw [Option.isSome_iff_exists]
      exact ⟨_, congrArg (Option.map _) hio⟩

theorem returned_of_left (h : Answered io) (hleft : left io.pc = 0) :
    ∃ errno, io.pc = .returned (-1) errno := by
  rw [Answered] at h
  cases hpc : io.pc with
  | returned n errno =>
      rw [hpc] at h
      exact ⟨errno, by rw [show n = -1 from h]⟩
  | registered id | parked id | woken | resumed | failed =>
      rw [hpc] at hleft
      cases hleft
  | _ =>
      rw [hpc] at h
      exact h.elim

/-- **A call that was in progress when `close_f` ran** does not use the
function again. It can return -1 only, and returns if its fiber is run. -/
theorem closed_untouched (c : IoCall) :
    (∀ s, (system c).ReachableBy Settled s → s.started = true →
      s.touched = false ∧ ∀ n errno, s.io.pc = .returned n errno → n = -1) ∧
    ∀ σ α, (system c).Behavior Settled σ α → (system c).Fair OfCall σ α →
      ∀ k, (σ k).started = true → ∃ m ≥ k, ∃ errno, (σ m).io.pc = .returned (-1) errno := by
  constructor
  · intro s h hstarted
    obtain ⟨hanswered, htouched⟩ := (reachable_inv h).answered hstarted
    refine ⟨htouched, fun n errno hpc => ?_⟩
    rw [Answered, hpc] at hanswered
    exact hanswered
  · intro σ α h hfair k hstarted
    obtain ⟨m, hm, ⟨hinv, hstarted⟩, hleft⟩ :=
      h.eventually (P := fun s => s.Inv ∧ s.started = true) (fun s => left s.io.pc) hfair
        (fun s hs hleft => hs.1.enabled hs.2 hleft)
        (fun s a s' hs ha hstep => by
          obtain ⟨hstarted, hle, -⟩ := step_left hs.1 hs.2 ha hstep
          exact ⟨⟨step_inv hs.1 ha hstep, hstarted⟩, hle⟩)
        (fun s a s' hs ha hstep hof _ => (step_left hs.1 hs.2 ha hstep).2.2 hof)
        ⟨reachable_inv (h.reachable k), hstarted⟩
    exact ⟨m, hm, returned_of_left (hinv.answered hstarted).1 hleft⟩

/-- A call that has registered when `cancelAll` runs has its wake-up,
unless `epoll_ctl` fails. -/
theorem answered_of_cancelAll {ids : Multiset Nat}
    (h : IOManager.Registered s.io.registry.manager ids) {id : Nat}
    (hid : s.io.pc.waiting = some id) (hheld : id ∈ s.io.registry.manager.held c.fd c.event)
    (hstep : s.cancelAll c true = some s') : Answered s'.io := by
  simp only [HookClose.cancelAll, Option.ite_none_right_eq_some] at hstep
  obtain ⟨r, hr, rfl⟩ := Option.map_eq_some_iff.mp hstep.2
  obtain ⟨⟨done, m⟩, hcancel, hr⟩ := bind_eq_ok.mp (toOption_eq_some.mp hr)
  obtain rfl := Except.ok.inj hr
  have hhanded : id ∈ m.handed := IOManager.cancelAll_hands h hcancel hheld
  rw [Answered]
  cases hpc : s.io.pc with
  | registered id' | parked id' =>
      rw [hpc] at hid
      obtain rfl := Option.some.inj hid
      exact hhanded
  | _ =>
      rw [hpc] at hid
      cases hid

/-- Before the call, which will have the timeout `ms`. -/
def idle (ms : Nat) : HookClose :=
  ⟨DoIo.start (TimerManager.new 0) ⟨IOManager.new, 0, 0⟩ [],
    some ⟨true, true, true, false, false, ms, noTimeout⟩, .entry, false, false⟩

theorem idle_reachable {c : IoCall} {ok : HookClose → Action → Prop} (ms : Nat) :
    (system c).ReachableBy ok (idle ms) :=
  .init ⟨_, _, rfl, _, _, _, rfl, .init ⟨0, rfl⟩, .init rfl, (fun _ _ _ h => by cases h),
    (fun _ h => by cases h)⟩

/-- A returned call makes no step. -/
theorem not_ofCall {n : Int} {errno : Option Nat} (hpc : s.io.pc = .returned n errno)
    {a : Action} (hof : OfCall a) : (system c).step s a = none := by
  rw [system]
  cases a with
  | io a =>
      cases a with
      | enter | io | arm | addEvent | yieldToHold | wake | cancelTimer | resume =>
          simp [step, DoIo.step, DoIo.enter, DoIo.io, DoIo.arm, DoIo.addEvent, DoIo.yieldToHold,
            DoIo.wake, DoIo.cancelTimer, DoIo.resume, hpc]
      | _ => exact hof.elim
  | _ => exact hof.elim

/-- A read that gets its timeout between the `close` and the wake-up, and
the same run continued for ever. -/
theorem closed_untouched_timeout :
    (∃ s, (system DoIo.readCall).ReachableBy Settled s ∧ s.started = true ∧
      s.io.pc = .returned (-1) (some ETIMEDOUT) ∧ s.touched = false) ∧
    ∃ σ α k, (system DoIo.readCall).Behavior Settled σ α ∧
      (system DoIo.readCall).Fair OfCall σ α ∧ (σ k).started = true ∧
      ∃ m ≥ k, ∃ errno, (σ m).io.pc = .returned (-1) errno := by
  have hinit : (system DoIo.readCall).ReachableBy Settled (idle 10) := idle_reachable 10
  have hparked := hinit.step (e := .io (.enter true none)) (by simp [Settled]) rfl
    |>.step (e := .io (.io (-1) EAGAIN)) (by simp [Settled]) rfl
    |>.step (e := .io (.arm 7 0)) (by simp [Settled]) rfl
    |>.step (e := .io (.addEvent true)) (by simp [Settled]) rfl
    |>.step (e := .io .yieldToHold) (by simp [Settled]) rfl
  have hclosed := hparked.step (e := .enter true true) (by simp [Settled]) rfl
    |>.step (e := .cancelAll true) (by simp [Settled]) rfl
    |>.step (e := .del) (by simp [Settled]) rfl
    |>.step (e := .close) (by exact fun _ => List.mem_singleton_self 0) rfl
  have hmarked := hclosed.step (e := .io (.expire 10 8)) (by simp [Settled]) rfl
    |>.step (e := .io (.invoke 0)) (by simp [Settled]) rfl
    |>.step (e := .io .mark) (by simp [Settled]) rfl
  have hreturned := hmarked.step (e := .io .wake) (by simp [Settled]) rfl
    |>.step (e := .io .cancelTimer) (by simp [Settled]) rfl
    |>.step (e := .io .resume) (by rintro -; decide) rfl
  refine ⟨⟨_, hreturned, rfl, rfl, ((closed_untouched _).1 _ hreturned rfl).1⟩, ?_⟩
  -- the number is handed out again, and nothing else happens any more
  obtain ⟨s, hreused, hstarted, hpc, hidle⟩ : ∃ s,
      (system DoIo.readCall).ReachableBy Settled s ∧ s.started = true ∧
      s.io.pc = .returned (-1) (some ETIMEDOUT) ∧
      (system DoIo.readCall).step s
        (.reuse ⟨true, true, true, false, false, 10, noTimeout⟩) = some s :=
    ⟨_, hreturned.step (e := .reuse ⟨true, true, true, false, false, 10, noTimeout⟩)
      (by simp [Settled]) rfl, rfl, rfl, rfl⟩
  obtain ⟨n, σ, α, hrun, hlast⟩ := hreused.exists_behavior (by simp [Settled]) hidle
  have hfair : (system DoIo.readCall).Fair OfCall σ α := by
    intro k henabled
    obtain ⟨a, hof, hsome⟩ := henabled (max k n) (Nat.le_max_left ..)
    rw [hlast _ (Nat.le_max_right ..), not_ofCall hpc hof] at hsome
    cases hsome
  have hstarted : (σ n).started = true := by rw [hlast n (Nat.le_refl n), hstarted]
  exact ⟨σ, α, n, hrun, hfair, hstarted, (closed_untouched _).2 σ α hrun hfair n hstarted⟩

/-- Outside the condition a single `resume` is enough: the next step of
the call uses the function. -/
theorem touched_of_resume (hclosed : s.place = .closed) (hstarted : s.started = true)
    (hpc : s.io.pc = .resumed) (hcancelled : s.io.cancelled = 0) (n : Int) (errno : Nat) :
    ∃ t u, s.step c (.io .resume) = some t ∧ t.step c (.io (.io n errno)) = some u ∧
      u.touched = true := by
  have hresume : s.io.step c .resume = some { s.io with timer := none, pc := .retry } := by
    simp [DoIo.step, DoIo.resume, hpc, hcancelled]
  have hio : ∃ io, DoIo.step c { s.io with timer := none, pc := .retry } (.io n errno) =
      some io := by
    simp only [DoIo.step, DoIo.io]
    split
    · exact ⟨_, rfl⟩
    · split <;> exact ⟨_, rfl⟩
  obtain ⟨io, hio⟩ := hio
  refine ⟨_, _, congrArg (Option.map _) hresume, congrArg (Option.map _) hio, ?_⟩
  simp [hclosed, hstarted, callsFun]

/-- **A closed descriptor is read**: the parked call has no timeout, the
number is handed out again, and the read takes 5 bytes of what now has
it. -/
theorem closed_touched :
    ¬∀ s, (system DoIo.readCall).Reachable s → s.started = true →
      s.touched = false ∧ ∀ n errno, s.io.pc = .returned n errno → n = -1 := by
  intro hall
  have hinit : (system DoIo.readCall).Reachable (idle noTimeout) := idle_reachable noTimeout
  have hparked := hinit.next (e := .io (.enter true none)) rfl
    |>.next (e := .io (.io (-1) EAGAIN)) rfl
    |>.next (e := .io (.arm 7 0)) rfl
    |>.next (e := .io (.addEvent true)) rfl
    |>.next (e := .io .yieldToHold) rfl
  have hclosed := hparked.next (e := .enter true true) rfl
    |>.next (e := .cancelAll true) rfl
    |>.next (e := .del) rfl
    |>.next (e := .close) rfl
    |>.next (e := .reuse ⟨true, true, true, false, false, noTimeout, noTimeout⟩) rfl
  have hread := hclosed.next (e := .io .wake) rfl
    |>.next (e := .io .cancelTimer) rfl
    |>.next (e := .io .resume) rfl
    |>.next (e := .io (.io 5 0)) rfl
  have htouched := (hall _ hread rfl).1
  cases htouched

end HookClose

end Sylar
