import Sylar.HookConnect

/-!
# The condition for a successful connect is exact

`success_reported` asks that `addEvent` does not fail and that nobody
cancels the event before it is reported. Neither can be done without:
from the state behind a step that `Undisturbed` leaves out, the fiber
gets to the `getsockopt` and may read 0 there (`misled_of_disturbed`).

For that the fiber must not be stuck: its handle is with the scheduler
(`handed_of_cancels`), and its timer is still there to be cancelled
(`DoIo.TimerKept`).
-/

namespace Sylar

/-! ## A cancellation schedules the handle -/

namespace IOManager

namespace Registry

variable {r : Registry} {fd : Int} {event : Event} {id : Nat}

/-- A cancellation schedules what is held for the event. -/
theorem Inv.handed_of_cancels (h : r.Inv) (he : event.Single) {op : Op}
    (hcancels : op.Cancels fd event) {r' : Registry} (hstep : r.step op = .ok r')
    (hid : id ∈ r.manager.held fd event) : id ∈ r'.manager.handed := by
  cases op with
  | cancelEvent fd' event' ctl =>
      obtain ⟨rfl, rfl, rfl⟩ := hcancels
      obtain ⟨⟨done, m⟩, hcancel, hstep⟩ := bind_eq_ok.mp hstep
      obtain rfl := Except.ok.inj hstep
      exact cancelEvent_hands h.registered he hcancel hid
  | cancelAll fd' ctl =>
      obtain ⟨rfl, rfl⟩ := hcancels
      obtain ⟨⟨done, m⟩, hcancel, hstep⟩ := bind_eq_ok.mp hstep
      obtain rfl := Except.ok.inj hstep
      exact cancelAll_hands h.registered hcancel hid
  | addEvent caller fd' event' cb ctl => exact hcancels.elim
  | delEvent fd' event' ctl => exact hcancels.elim
  | dispatch fd' ev ctl => exact hcancels.elim

end Registry

end IOManager

namespace Connect

variable {c : ConnectCall} {s s' : Connect} {io io' : DoIo}

/-! ## What holds of every run -/

/-- In the part of the call that is a `DoIo`'s. -/
def inWait : DoIo.Pc → Bool
  | .blocked => true
  | .armed => true
  | .failed => true
  | .registered _ => true
  | .parked _ => true
  | .woken => true
  | _ => false

/-- How the fiber moves in the wait. -/
inductive Moved : DoIo.Pc → DoIo.Pc → Prop
  | stay {pc : DoIo.Pc} : Moved pc pc
  | arm : Moved .blocked .armed
  | fail : Moved .armed .failed
  | register {id : Nat} : Moved .armed (.registered id)
  | yield {id : Nat} : Moved (.registered id) (.parked id)
  | wake {id : Nat} : Moved (.parked id) .woken

/-- What a shared step does to the place of the fiber. -/
theorem shared_moved {a : DoIo.Action} (hshared : a.isShared = true)
    (hstep : io.step c.io a = some io') : Moved io.pc io'.pc := by
  cases a with
  | enter hookEnable ctx => cases hshared
  | io n errno => cases hshared
  | arm addr now =>
      obtain ⟨hpc, ⟨-, -, rfl⟩ | ⟨-, rfl⟩⟩ := DoIo.arm_spec hstep
      · rw [hpc]
        exact .arm
      · rw [hpc]
        exact .arm
  | addEvent ctl =>
      obtain ⟨hpc, rt, m, -, ⟨-, rfl⟩ | ⟨-, rfl⟩⟩ := DoIo.addEvent_spec hstep
      · rw [hpc]
        exact .register
      · rw [hpc]
        exact .fail
  | yieldToHold =>
      obtain ⟨id, hpc, rfl⟩ := DoIo.yieldToHold_spec hstep
      rw [hpc]
      exact .yield
  | wake =>
      obtain ⟨id, hpc, -, rfl⟩ := DoIo.wake_spec hstep
      rw [hpc]
      exact .wake
  | cancelTimer => cases hshared
  | resume => cases hshared
  | invoke i =>
      obtain ⟨cb, checked, -, rfl, -⟩ := DoIo.invoke_spec hstep
      exact .stay
  | mark =>
      obtain ⟨-, rfl⟩ := DoIo.mark_spec hstep
      exact .stay
  | cancelEvent ctl =>
      obtain ⟨-, r, -, rfl⟩ := DoIo.cancelEvent_spec hstep
      exact .stay
  | expire now probe =>
      obtain ⟨-, rfl⟩ := DoIo.expire_spec hstep
      exact .stay
  | otherTimers op =>
      obtain ⟨-, front, m, -, rfl⟩ := DoIo.otherTimers_spec hstep
      exact .stay
  | otherEvents op =>
      obtain ⟨-, r, -, rfl⟩ := DoIo.otherEvents_spec hstep
      exact .stay

/-- Before the registration nothing has been reported. -/
def Early (s : Connect) : Prop :=
  s.pc = .entry ∨ s.pc = .connecting ∨ s.io.pc = .blocked ∨ s.io.pc = .armed

structure Steady (s : Connect) : Prop where
  timer : s.io.TimerKept
  waiting : inWait s.io.pc = true → s.pc = .waiting
  early : s.Early → s.reported = false

theorem Moved.inWait {pc pc' : DoIo.Pc} (h : Moved pc pc') (hpc : inWait pc' = true) :
    inWait pc = true := by
  cases h with
  | stay => exact hpc
  | arm => rfl
  | fail => rfl
  | register => rfl
  | yield => rfl
  | wake => rfl

theorem Moved.early {pc pc' : DoIo.Pc} (h : Moved pc pc') (hpc : pc' = .blocked ∨ pc' = .armed) :
    pc = .blocked ∨ pc = .armed := by
  cases h with
  | stay => exact hpc
  | arm => exact .inl rfl
  | fail => simp at hpc
  | register => simp at hpc
  | yield => simp at hpc
  | wake => simp at hpc

theorem reports_of_not_waiting (hpc : s.io.pc.waiting = none) (a : DoIo.Action) :
    s.reports c a = false := by
  cases a with
  | otherEvents op => rw [reports, hpc, Option.isSome_none, Bool.false_and]
  | _ => rfl

theorem waiting_eq_none {pc : DoIo.Pc} (hpc : inWait pc = false) : pc.waiting = none := by
  cases pc with
  | registered id => cases hpc
  | parked id => cases hpc
  | _ => rfl

theorem Steady.not_inWait (h : Steady s) (hpc : s.pc ≠ .waiting) : inWait s.io.pc = false :=
  Bool.eq_false_iff.mpr fun hwait => hpc (h.waiting hwait)

/-- Outside the wait the fiber goes to another place outside it. -/
theorem Steady.goto (h : Steady s) (hpc : s.pc ≠ .waiting) {pc : Pc}
    (hearly : pc = .entry ∨ pc = .connecting → s.reported = false) :
    Steady { s with pc := pc } := by
  have hwait := h.not_inWait hpc
  refine ⟨h.timer, fun hin => ?_, ?_⟩
  · rw [hwait] at hin
    cases hin
  · rintro (hentry | hconnecting | hblocked | harmed)
    · exact hearly (.inl hentry)
    · exact hearly (.inr hconnecting)
    · exact h.early (.inr (.inr (.inl hblocked)))
    · exact h.early (.inr (.inr (.inr harmed)))

theorem Steady.enter (h : Steady s) {hookEnable : Bool} {ctx : Option FdCtx}
    (hstep : s.enter hookEnable ctx = some s') : Steady s' := by
  obtain ⟨hpc, pc, rfl, -⟩ := enter_cases hstep
  exact h.goto (by rw [hpc]; simp) fun _ => h.early (.inl hpc)

theorem Steady.connect (h : Steady s) {n : Int} {errno : Nat}
    (hstep : s.connect c n errno = some s') : Steady s' := by
  obtain ⟨hpc | hpc, n, errno, rfl⟩ | ⟨hpc, rfl⟩ := connect_cases hstep
  · exact h.goto (by rw [hpc]; simp) (by simp)
  · exact h.goto (by rw [hpc]; simp) (by simp)
  · exact ⟨h.timer.congr rfl rfl, fun _ => rfl, fun _ => h.early (.inr (.inl hpc))⟩

theorem Steady.wait (h : Steady s) {a : DoIo.Action} (hstep : s.wait c a = some s') :
    Steady s' := by
  unfold Connect.wait at hstep
  split at hstep
  · rename_i hshared
    obtain ⟨io, hio, rfl⟩ := Option.map_eq_some_iff.mp hstep
    have hmoved := shared_moved hshared hio
    refine ⟨h.timer.step hio, fun hwait => h.waiting (hmoved.inWait hwait), fun hearly => ?_⟩
    have hbefore : s.Early ∧ s.io.pc.waiting = none := by
      rcases hearly with hpc | hpc | hpc
      · have hpc : s.pc = .entry := hpc
        exact ⟨.inl hpc, waiting_eq_none (h.not_inWait (by rw [hpc]; simp))⟩
      · have hpc : s.pc = .connecting := hpc
        exact ⟨.inr (.inl hpc), waiting_eq_none (h.not_inWait (by rw [hpc]; simp))⟩
      · rcases hmoved.early hpc with hpc | hpc
        · exact ⟨.inr (.inr (.inl hpc)), by rw [hpc]; rfl⟩
        · exact ⟨.inr (.inr (.inr hpc)), by rw [hpc]; rfl⟩
    show (s.reported || s.reports c a) = false
    rw [h.early hbefore.1, reports_of_not_waiting hbefore.2]
    rfl
  · cases hstep

/-- The two ways through `cancelTimer`. -/
theorem cancelTimer_spec (h : s.io.TimerKept) : ∃ m,
    (∀ pc, DoIo.TimerKept { s.io with timers := m, pc := pc }) ∧
      (s.io.pc = .failed → s.cancelTimer =
        some { s with io := { s.io with timers := m, pc := .resumed }, pc := .sockError }) ∧
      (s.io.pc = .woken → s.cancelTimer =
        some { s with io := { s.io with timers := m, pc := .resumed } }) := by
  cases htimer : s.io.timer with
  | none =>
      refine ⟨s.io.timers, fun pc => h.congr rfl rfl, fun hpc => ?_, fun hpc => ?_⟩
      · simp [cancelTimer, hpc, htimer]
      · simp [cancelTimer, hpc, htimer]
  | some a =>
      obtain ⟨done, m, hok, hkept⟩ := h.cancel htimer
      refine ⟨m, hkept, fun hpc => ?_, fun hpc => ?_⟩
      · simp [cancelTimer, hpc, htimer, hok, Except.toOption]
      · simp [cancelTimer, hpc, htimer, hok, Except.toOption]

theorem Steady.cancelTimer (h : Steady s) (hstep : s.cancelTimer = some s') : Steady s' := by
  obtain ⟨m, hkept, hfailed, hwoken⟩ := cancelTimer_spec h.timer
  by_cases hf : s.io.pc = .failed
  · obtain rfl := Option.some.inj ((hfailed hf).symm.trans hstep)
    exact ⟨hkept .resumed, (fun hwait => nomatch hwait), by simp [Early]⟩
  · by_cases hw : s.io.pc = .woken
    · obtain rfl := Option.some.inj ((hwoken hw).symm.trans hstep)
      have hwaiting := h.waiting (by rw [hw]; rfl)
      exact ⟨hkept .resumed, (fun hwait => nomatch hwait), by simp [Early, hwaiting]⟩
    · simp only [Connect.cancelTimer] at hstep
      cases hstep

theorem Steady.finish (h : Steady s) (n : Int) (errno : Option Nat) : Steady (s.finish n errno) :=
  ⟨⟨h.timer.stored, fun a ha => nomatch ha⟩, (fun hwait => nomatch hwait),
    by simp [Early, Connect.finish]⟩

theorem Steady.resume (h : Steady s) (hstep : s.resume = some s') : Steady s' := by
  obtain ⟨hpc, ⟨-, rfl⟩ | ⟨-, rfl⟩⟩ := resume_cases hstep
  · exact h.finish ..
  · refine ⟨h.timer, fun hwait => ?_, by simp [Early, hpc.2]⟩
    have hwait : inWait s.io.pc = true := hwait
    rw [hpc.2] at hwait
    cases hwait

theorem Steady.getsockopt (h : Steady s) {rt : Int} {error : Nat}
    (hstep : s.getsockopt rt error = some s') : Steady s' := by
  obtain ⟨-, n, errno, rfl⟩ := getsockopt_cases hstep
  exact h.finish ..

theorem reachable_steady {ok : Connect → Action → Prop} (h : (system c).ReachableBy ok s) :
    Steady s := by
  refine h.invariant (P := Steady) ?_ ?_
  · rintro s ⟨io, ⟨timers, registry, queued, rfl, htimers, -⟩, rfl⟩
    exact ⟨⟨TimerManager.reachable_stored htimers, fun a ha => nomatch ha⟩,
      (fun hwait => nomatch hwait), fun _ => rfl⟩
  · intro s a s' hs _ hstep
    cases a with
    | enter hookEnable ctx => exact hs.enter hstep
    | connect n errno => exact hs.connect hstep
    | wait a => exact hs.wait hstep
    | cancelTimer => exact hs.cancelTimer hstep
    | resume => exact hs.resume hstep
    | getsockopt rt error => exact hs.getsockopt hstep

/-! ## What the condition leaves out -/

/-- The call can return 0 without a report from here. -/
def Misled (c : ConnectCall) (s : Connect) : Prop :=
  ∃ es s', (system c).replay s es = some s' ∧ s'.pc = .finished 0 none ∧ s'.reported = false

theorem Misled.step {a : Action} (hstep : s.step c a = some s') (h : Misled c s') :
    Misled c s := by
  obtain ⟨es, t, hreplay, hpc, hreported⟩ := h
  refine ⟨a :: es, t, ?_, hpc, hreported⟩
  rw [System.replay]
  show (s.step c a >>= _) = _
  rw [hstep]
  exact hreplay

theorem misled_of_sockError (hpc : s.pc = .sockError) (hreported : s.reported = false) :
    Misled c s := by
  have hstep : s.step c (.getsockopt 0 0) = some (s.finish 0 none) := by
    rw [step, getsockopt, if_pos hpc]
    rfl
  exact .step hstep ⟨[], _, rfl, rfl, hreported⟩

/-- A failed `addEvent` goes on to `SO_ERROR`. -/
theorem misled_of_failed (h : Steady s) (hpc : s.io.pc = .failed) (hreported : s.reported = false) :
    Misled c s := by
  obtain ⟨m, -, hfailed, -⟩ := cancelTimer_spec h.timer
  exact .step (a := .cancelTimer) (hfailed hpc) (misled_of_sockError rfl hreported)

/-- So does a fiber that was scheduled with `cancelled` at 0. -/
theorem misled_of_woken (h : Steady s) (hpc : s.io.pc = .woken) (hzero : s.io.cancelled = 0)
    (hreported : s.reported = false) : Misled c s := by
  obtain ⟨m, -, -, hwoken⟩ := cancelTimer_spec h.timer
  refine .step (a := .cancelTimer) (hwoken hpc) ?_
  have hwaiting := h.waiting (by rw [hpc]; rfl)
  set woken : Connect := { s with io := { s.io with timers := m, pc := .resumed } }
  have hresume : woken.step c .resume = some { woken with pc := .sockError } := by
    rw [step, resume, if_pos ⟨hwaiting, rfl⟩, if_neg (not_not_intro hzero)]
  exact .step hresume (misled_of_sockError rfl hreported)

theorem misled_of_parked (h : Steady s) {id : Nat} (hpc : s.io.pc = .parked id)
    (hmem : id ∈ s.io.registry.manager.handed) (hzero : s.io.cancelled = 0)
    (hreported : s.reported = false) : Misled c s := by
  have hwake : s.io.step c.io .wake = some { s.io with pc := .woken } := by
    simp only [DoIo.step, DoIo.wake, hpc]
    exact if_pos hmem
  have hstep : s.wait c .wake =
      some { s with io := { s.io with pc := .woken }, reported := s.reported || false } := by
    rw [wait, hwake]
    rfl
  refine .step (a := .wait .wake) hstep (misled_of_woken (h.wait hstep) rfl hzero ?_)
  rw [hreported]
  rfl

theorem misled_of_handed (h : Steady s) {id : Nat} (hpc : s.io.pc.waiting = some id)
    (hmem : id ∈ s.io.registry.manager.handed) (hzero : s.io.cancelled = 0)
    (hreported : s.reported = false) : Misled c s := by
  cases hio : s.io.pc with
  | registered id' =>
      obtain rfl : id' = id := by
        rw [hio] at hpc
        exact Option.some.inj hpc
      have hyield : s.io.step c.io .yieldToHold = some { s.io with pc := .parked id' } := by
        simp only [DoIo.step, DoIo.yieldToHold, hio]
      have hstep : s.wait c .yieldToHold =
          some { s with io := { s.io with pc := .parked id' }, reported := s.reported || false } := by
        rw [wait, hyield]
        rfl
      refine .step (a := .wait .yieldToHold) hstep ?_
      refine misled_of_parked (h.wait hstep) rfl hmem hzero ?_
      rw [hreported]
      rfl
  | parked id' =>
      obtain rfl : id' = id := by
        rw [hio] at hpc
        exact Option.some.inj hpc
      exact misled_of_parked h hio hmem hzero hreported
  | _ => simp [hio, DoIo.Pc.waiting] at hpc

theorem misled_of_addEvent (h : Steady s) (hw : Waits c.fd s.reported s.io)
    (hstep : s.step c (.wait (.addEvent false)) = some s') : Misled c s' := by
  have hafter := h.wait hstep
  obtain ⟨io, hio, rfl⟩ := Option.map_eq_some_iff.mp hstep
  have hio : s.io.addEvent c.io false = some io := hio
  obtain ⟨hpc, rt, m, hadd, hrt⟩ := DoIo.addEvent_spec hio
  have hreported := h.early (.inr (.inr (.inr hpc)))
  have hcaller : c.io.caller.scheduler ≠ none := Option.some_ne_none _
  have hne : rt ≠ 0 := by
    rcases IOManager.addEvent_spec hw.registry.registered hcaller hadd with
      ⟨rfl, -⟩ | ⟨-, hctl, -⟩
    · decide
    · cases hctl
  obtain ⟨-, rfl⟩ := hrt.resolve_left fun hzero => hne hzero.1
  refine misled_of_failed hafter rfl ?_
  rw [hreported]
  rfl

theorem misled_of_cancels (h : Steady s) (hw : Waits c.fd s.reported s.io) {op : IOManager.Op}
    {id : Nat} (hcancels : op.Cancels c.fd .WRITE) (hreported : s.reported = false)
    (hzero : s.io.cancelled = 0) (hid : s.io.pc.waiting = some id)
    (hheld : id ∈ s.io.registry.manager.held c.fd .WRITE)
    (hstep : s.step c (.wait (.otherEvents op)) = some s') : Misled c s' := by
  have hafter := h.wait hstep
  obtain ⟨io, hio, rfl⟩ := Option.map_eq_some_iff.mp hstep
  have hio : s.io.otherEvents op = some io := hio
  have hquiet : s.reports c (.otherEvents op) = false := by
    cases op with
    | dispatch fd ev ctl => exact hcancels.elim
    | _ => simp [reports, IOManager.Op.reports]
  obtain ⟨-, r, hr, rfl⟩ := DoIo.otherEvents_spec hio
  have hmem := hw.registry.handed_of_cancels (.inr rfl) hcancels hr hheld
  refine misled_of_handed hafter hid hmem hzero ?_
  rw [hreported, hquiet]
  rfl

/-- Each step that the condition leaves out does harm: from the state
behind it the call can return 0 without a report. -/
theorem misled_of_disturbed (h : (system c).ReachableBy (Undisturbed c) s) {a : Action}
    (hok : ¬Undisturbed c s a) (hstep : s.step c a = some s') : Misled c s' := by
  have hsteady := reachable_steady h
  have hwaits := (reachable_inv h).waits
  cases a with
  | wait a =>
      cases a with
      | addEvent ctl =>
          obtain rfl : ctl = false := Bool.eq_false_iff.mpr hok
          exact misled_of_addEvent hsteady hwaits hstep
      | otherEvents op =>
          obtain ⟨hcancels, hreported, hzero, id, hid, hheld⟩ :
              op.Cancels c.fd .WRITE ∧ s.reported = false ∧ s.io.cancelled = 0 ∧
                ∃ id, s.io.pc.waiting = some id ∧
                  id ∈ s.io.registry.manager.held c.fd .WRITE := by
            simpa [Undisturbed] using hok
          exact misled_of_cancels hsteady hwaits hcancels hreported hzero hid hheld hstep
      | _ => exact absurd trivial hok
  | _ => exact absurd trivial hok

/-- **When a success is one**: the call has been told that the descriptor
is writable if nothing has disturbed it, and after a step that does
disturb it nothing else is sure. -/
theorem connect_success (h : (system c).ReachableBy (Undisturbed c) s) :
    (∀ errno, s.pc = .finished 0 errno → s.reported = true) ∧
      ∀ a s', ¬Undisturbed c s a → s.step c a = some s' → Misled c s' :=
  ⟨fun _ hpc => success_reported h hpc, fun _ _ hok hstep => misled_of_disturbed h hok hstep⟩

/-- The descriptor becomes writable. -/
theorem connect_success_writable :
    ∃ s, (system call).ReachableBy (Undisturbed call) s ∧ s.pc = .finished 0 none ∧
      s.reported = true := by
  have hstart : (system call).ReachableBy (Undisturbed call) _ := .init init_call
  have henter := hstart.step (e := .enter true (some blocking)) (by simp [Undisturbed]) rfl
  have hconnect := henter.step (e := .connect (-1) EINPROGRESS) (by simp [Undisturbed]) rfl
  have harm := hconnect.step (e := .wait (.arm 7 0)) (by simp [Undisturbed]) rfl
  have hadd := harm.step (e := .wait (.addEvent true)) (by simp [Undisturbed]) rfl
  have hyield := hadd.step (e := .wait .yieldToHold) (by simp [Undisturbed]) rfl
  have hready := hyield.step
    (e := .wait (.otherEvents (.dispatch 3 ⟨false, true, false, false⟩ true))) 
    (by simp [Undisturbed, IOManager.Op.Cancels]) rfl
  have hwake := hready.step (e := .wait .wake) (by simp [Undisturbed]) rfl
  have hcancel := hwake.step (e := .cancelTimer) (by simp [Undisturbed]) rfl
  have hresume := hcancel.step (e := .resume) (by simp [Undisturbed]) rfl
  have hdone := hresume.step (e := .getsockopt 0 0) (by simp [Undisturbed]) rfl
  exact ⟨_, hdone, rfl, (connect_success hdone).1 none rfl⟩

end Connect

end Sylar
