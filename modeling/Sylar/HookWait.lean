import Sylar.HookTimeout

/-!
# The wait of a hooked call

What `do_io` and `connect_with_timeout` rely on while they wait. Their
handle, once it has been given to a scheduler, is not taken back
(`step_keeps_handed`), and a cancellation on the descriptor gives it
(`cancelEvent_hands`, `cancelAll_hands`). Their timer is there until the
call lets go of it, so that it can be cancelled (`TimerKept`).
-/

namespace Sylar

/-! ## What the schedulers have been given -/

theorem Event.eq_none {e : Event} (h : e.nonzero = false) : e = .NONE := by
  obtain ⟨read, write⟩ := e
  obtain ⟨rfl, rfl⟩ := Bool.or_eq_false_iff.mp h
  rfl

namespace IOManager

variable {m m' : IOManager} {fd : Int} {c c' : FdContext} {event : Event} {id : Nat}
  {ids : Multiset Nat}

theorem addEventLocked_scheduled {caller : Caller} {new : Nat} {cb : Option Nat} {ctl : Bool}
    {rt : Int} (hadd : m.addEventLocked caller new fd event cb ctl = .ok (rt, m')) :
    m'.scheduled = m.scheduled := by
  rcases addEventLocked_cases hadd with ⟨-, -, rfl⟩ | ⟨-, -, -, c, x, -, -, -, -, rfl⟩
  · rfl
  · rfl

theorem addEvent_scheduled {caller : Caller} {new : Nat} {cb : Option Nat} {ctl : Bool} {rt : Int}
    (hadd : m.addEvent caller new fd event cb ctl = .ok (rt, m')) :
    m'.scheduled = m.scheduled := by
  unfold addEvent at hadd
  split at hadd
  · exact addEventLocked_scheduled hadd
  · exact (addEventLocked_scheduled hadd).trans rfl

theorem delEvent_scheduled {ctl done : Bool} (hdel : m.delEvent fd event ctl = .ok (done, m')) :
    m'.scheduled = m.scheduled := by
  rcases delEvent_cases hdel with ⟨-, rfl⟩ | ⟨-, -, -, c, -, -, rfl⟩
  · rfl
  · rfl

theorem trigger_keeps_handed (htrigger : m.trigger fd event = .ok m') (h : id ∈ m.handed) :
    id ∈ m'.handed := by
  obtain ⟨c, -, htrigger⟩ := bind_eq_ok.mp htrigger
  obtain ⟨⟨c', task⟩, -, htrigger⟩ := bind_eq_ok.mp htrigger
  obtain rfl := Except.ok.inj htrigger
  show id ∈ (m.scheduled ++ task.toList).map fun s => s.task.id
  rw [List.map_append]
  exact List.mem_append_left _ h

theorem triggerIf_keeps_handed {bit : Bool} (htrigger : m.triggerIf bit fd event = .ok m')
    (h : id ∈ m.handed) : id ∈ m'.handed := by
  cases bit with
  | true => exact trigger_keeps_handed htrigger h
  | false =>
      obtain rfl := Except.ok.inj htrigger
      exact h

/-- Nothing that has been given to a scheduler is taken back. -/
theorem Registry.step_keeps_handed {r r' : Registry} {op : Op} (hstep : r.step op = .ok r')
    (h : id ∈ r.manager.handed) : id ∈ r'.manager.handed := by
  cases op with
  | addEvent caller fd event cb ctl =>
      obtain ⟨⟨rt, m⟩, hadd, hstep⟩ := bind_eq_ok.mp hstep
      obtain rfl := Except.ok.inj hstep
      rwa [handed, addEvent_scheduled hadd]
  | delEvent fd event ctl =>
      obtain ⟨⟨done, m⟩, hdel, hstep⟩ := bind_eq_ok.mp hstep
      obtain rfl := Except.ok.inj hstep
      rwa [handed, delEvent_scheduled hdel]
  | cancelEvent fd event ctl =>
      obtain ⟨⟨done, m⟩, hcancel, hstep⟩ := bind_eq_ok.mp hstep
      obtain rfl := Except.ok.inj hstep
      rcases cancelEvent_cases hcancel with ⟨-, rfl⟩ | ⟨-, -, htrigger⟩
      · exact h
      · exact trigger_keeps_handed htrigger h
  | cancelAll fd ctl =>
      obtain ⟨⟨done, m⟩, hcancel, hstep⟩ := bind_eq_ok.mp hstep
      obtain rfl := Except.ok.inj hstep
      rcases cancelAll_cases hcancel with ⟨-, rfl⟩ | ⟨-, -, read, write, m₁, hread, hwrite⟩
      · exact h
      · exact triggerIf_keeps_handed hwrite (triggerIf_keeps_handed hread h)
  | dispatch fd ev ctl =>
      obtain ⟨m, hdispatch, hstep⟩ := bind_eq_ok.mp hstep
      obtain rfl := Except.ok.inj hstep
      rcases dispatch_cases hdispatch with rfl | ⟨-, c, m₁, -, hread, hwrite⟩
      · exact h
      · exact triggerIf_keeps_handed hwrite (triggerIf_keeps_handed hread h)

/-! ### By a cancellation -/

/-- What triggering gives to the scheduler is the handle of its context. -/
theorem trigger_task (h : Registered m ids) (hc : m.fdContext fd = .ok c)
    (htrigger : m.trigger fd event = .ok m') :
    ∃ c' id, m'.fdContext fd = .ok c' ∧ m'.handed = m.handed + {id} ∧
      (c.ctx event).ids = {id} ∧ id ::ₘ c'.ids = c.ids := by
  obtain ⟨he, hset⟩ := trigger_set hc htrigger
  obtain ⟨c', s, htask, -, -, hid, hids⟩ :=
    FdContext.triggerEvent_spec (h.of_fdContext hc) he hset
  simp only [trigger, hc, htask, bind, Except.bind, pure, Except.pure, Except.ok.injEq] at htrigger
  subst htrigger
  refine ⟨c', s.task.id, fdContext_put hc, ?_, hid, hids⟩
  rw [handed, Option.toList_some, List.map_append, ← Multiset.coe_add]
  rfl

/-- A successful `cancelEvent`, and one that finds nothing. -/
theorem cancelEvent_hands (h : Registered m ids) (he : event.Single) {done : Bool}
    (hcancel : m.cancelEvent fd event true = .ok (done, m')) (hid : id ∈ m.held fd event) :
    id ∈ m'.handed := by
  unfold cancelEvent at hcancel
  split at hcancel
  · rename_i hge
    rw [held_of_length_le hge] at hid
    exact absurd hid (Multiset.notMem_zero id)
  obtain ⟨c, hc, hcancel⟩ := bind_eq_ok.mp hcancel
  split at hcancel
  · rename_i hclear
    rw [h.held_eq_zero hc he (by simpa using hclear)] at hid
    exact absurd hid (Multiset.notMem_zero id)
  · obtain ⟨m₁, htrigger, hcancel⟩ := bind_eq_ok.mp hcancel
    obtain ⟨-, rfl⟩ := Prod.mk.inj (Except.ok.inj hcancel)
    obtain ⟨c', id', -, hhanded, hctx, -⟩ := trigger_task h hc htrigger
    rw [held_eq hc, hctx] at hid
    rw [hhanded]
    exact Multiset.mem_add.mpr (.inr hid)

/-- The handles of the descriptor go to the schedulers, or stay. -/
theorem triggerIf_moves (h : Registered m ids) (hc : m.fdContext fd = .ok c) {bit : Bool}
    (htrigger : m.triggerIf bit fd event = .ok m') :
    ∃ c', m'.fdContext fd = .ok c' ∧ m'.handed + c'.ids = m.handed + c.ids := by
  cases bit with
  | true =>
      obtain ⟨c', id, hc', hhanded, -, hids⟩ := trigger_task h hc htrigger
      refine ⟨c', hc', ?_⟩
      rw [hhanded, ← hids, add_assoc, Multiset.singleton_add]
  | false =>
      obtain rfl := Except.ok.inj htrigger
      exact ⟨c, hc, rfl⟩

/-- A context without events holds nothing. -/
theorem Registered.ids_eq_zero (h : Registered m ids) (hc : m.fdContext fd = .ok c)
    (hnone : c.events = .NONE) : c.ids = 0 := by
  obtain ⟨hread, hwrite⟩ := h.of_fdContext hc
  rw [hnone] at hread hwrite
  rw [FdContext.ids, show c.read = .empty from hread, show c.write = .empty from hwrite]
  rfl

/-- `cancelAll` gives to the schedulers what is registered for the
descriptor, unless `epoll_ctl` fails. -/
theorem cancelAll_hands (h : Registered m ids) {done : Bool}
    (hcancel : m.cancelAll fd true = .ok (done, m')) (hid : id ∈ m.held fd event) :
    id ∈ m'.handed := by
  unfold cancelAll at hcancel
  split at hcancel
  · rename_i hge
    rw [held_of_length_le hge] at hid
    exact absurd hid (Multiset.notMem_zero id)
  obtain ⟨c, hc, hcancel⟩ := bind_eq_ok.mp hcancel
  have hmem : id ∈ c.ids := by
    rw [held_eq hc, FdContext.ctx] at hid
    rw [FdContext.ids, Multiset.mem_add]
    split at hid
    · exact .inl hid
    · exact .inr hid
  split at hcancel
  · rename_i hnone
    rw [h.ids_eq_zero hc (Event.eq_none (by simpa using hnone))] at hmem
    exact absurd hmem (Multiset.notMem_zero id)
  · obtain ⟨m₁, hread, hcancel⟩ := bind_eq_ok.mp hcancel
    obtain ⟨c₁, hc₁, hcancel⟩ := bind_eq_ok.mp hcancel
    obtain ⟨m₂, hwrite, hcancel⟩ := bind_eq_ok.mp hcancel
    obtain ⟨c₂, hc₂, hcancel⟩ := bind_eq_ok.mp hcancel
    split at hcancel
    · rename_i hnone
      obtain ⟨-, rfl⟩ := Prod.mk.inj (Except.ok.inj hcancel)
      have hreg₁ := triggerIf_inv h hread
      obtain ⟨d₁, hd₁, hmoved₁⟩ := triggerIf_moves h hc hread
      obtain rfl := Except.ok.inj (hc₁.symm.trans hd₁)
      obtain ⟨d₂, hd₂, hmoved₂⟩ := triggerIf_moves hreg₁ hc₁ hwrite
      obtain rfl := Except.ok.inj (hc₂.symm.trans hd₂)
      rw [(triggerIf_inv hreg₁ hwrite).ids_eq_zero hc₂ hnone, add_zero, hmoved₁] at hmoved₂
      rw [hmoved₂]
      exact Multiset.mem_add.mpr (.inr hmem)
    · cases hcancel

end IOManager

/-! ## A timer that is held stays alive -/

namespace TimerManager

variable {C : Type} {m m' : TimerManager C} {a : Nat}

theorem put_ne_none (h : m.heap a ≠ none) (b : Nat) (t : Timer C) :
    (m.put b t).heap a ≠ none := by
  by_cases hab : a = b
  · subst hab
    rw [heap_put_self]
    exact Option.some_ne_none t
  · rwa [heap_put_ne m t hab]

theorem rearm_ne_none {now : Nat} : ∀ {out : List Nat} {m : TimerManager C}, m.heap a ≠ none →
    (rearm now out m).2.heap a ≠ none
  | [], _, h => h
  | b :: rest, m, h => by
      cases hb : m.heap b with
      | none =>
          simp only [rearm, hb]
          exact rearm_ne_none h
      | some t =>
          simp only [rearm, hb]
          split
          · exact rearm_ne_none (put_ne_none h b _)
          · exact rearm_ne_none (put_ne_none h b _)

theorem listExpiredCb_ne_none (hs : Stored [] m) {now probe : Nat} (hprobe : m.heap probe = none)
    (h : m.heap a ≠ none) : (m.listExpiredCb now probe).2.heap a ≠ none := by
  rcases listExpiredCb_cases hs hprobe with heq | heq | ⟨n, heq, -⟩
  · rwa [heq]
  · rwa [heq]
  · rw [heq]
    exact rearm_ne_none h

/-- Only `release` frees a timer. -/
theorem Move.ne_none {op : Op C} {front : Bool} (hmove : Move m op front m') (hs : Stored [] m)
    (hop : op ≠ .release a) (h : m.heap a ≠ none) : m'.heap a ≠ none := by
  cases hmove with
  | addTimer hfree =>
      rw [TimerManager.addTimer, heap_addTimerLocked]
      exact put_ne_none h _ _
  | cancel ht hmem => exact put_ne_none h _ _
  | refresh ht hmem hcb => exact put_ne_none h _ _
  | @reset b ms seen now fromNow front t m' ht hmem hcb hadd =>
      obtain rfl : _ = m' := congrArg Prod.snd hadd
      rw [heap_addTimerLocked]
      exact put_ne_none h _ _
  | idle _ => exact h
  | getNextTimer => exact h
  | listExpiredCb hprobe => exact listExpiredCb_ne_none hs hprobe h
  | @release b hout =>
      have hab : a ≠ b := fun heq => hop (congrArg Op.release heq.symm)
      show (if a = b then none else m.heap a) ≠ none
      rwa [if_neg hab]

end TimerManager

/-! ## The timer of a call -/

namespace DoIo

variable {c : IoCall} {s s' : DoIo}

/-- The timers are in order, and that of the call is alive. -/
structure TimerKept (s : DoIo) : Prop where
  stored : TimerManager.Stored [] s.timers
  alive : ∀ a, s.timer = some a → s.timers.heap a ≠ none

theorem TimerKept.congr (h : TimerKept s) (htimers : s'.timers = s.timers)
    (htimer : s'.timer = s.timer) : TimerKept s' where
  stored := htimers ▸ h.stored
  alive a ha := by
    rw [htimers]
    exact h.alive a (htimer.symm.trans ha)

/-- `timer` goes out of scope. -/
theorem TimerKept.drop (hstored : TimerManager.Stored [] s.timers) (hnone : s.timer = none) :
    TimerKept s where
  stored := hstored
  alive a ha := by
    rw [hnone] at ha
    cases ha

/-- A critical section that does not release it. -/
theorem TimerKept.move (h : TimerKept s) {op : TimerManager.Op TimerFn} {front : Bool}
    {m : TimerManager TimerFn} (hmove : TimerManager.Move s.timers op front m)
    (hop : ∀ a, s.timer = some a → op ≠ .release a) (pc : Pc) :
    TimerKept { s with timers := m, pc := pc } where
  stored := hmove.stored h.stored
  alive a ha := hmove.ne_none h.stored (hop a ha) (h.alive a ha)

/-- `timer->cancel()` finds its timer. -/
theorem TimerKept.cancel (h : TimerKept s) {a : Nat} (ha : s.timer = some a) :
    ∃ done m, s.timers.cancel a = .ok (done, m) ∧
      ∀ pc, TimerKept { s with timers := m, pc := pc } := by
  obtain ⟨t, ht⟩ := Option.ne_none_iff_exists'.mp (h.alive a ha)
  obtain ⟨r, hok⟩ : ∃ r, s.timers.cancel a = .ok r := ⟨_, h.stored.cancel_eq ht⟩
  have hrun : s.timers.run (.cancel a) = some (false, r.2) := by
    rw [TimerManager.run, hok]
    rfl
  exact ⟨r.1, r.2, hok,
    h.move (TimerManager.run_move h.stored hrun) fun _ _ heq => by cases heq⟩

/-- The two ways through `cancelTimer`. -/
theorem TimerKept.cancelTimer (h : TimerKept s) : ∃ m,
    (∀ pc, TimerKept { s with timers := m, pc := pc }) ∧
      (s.pc = .failed → s.cancelTimer =
        some { s with timers := m, timer := none, pc := .returned (-1) none }) ∧
      (s.pc = .woken → s.cancelTimer = some { s with timers := m, pc := .resumed }) := by
  cases htimer : s.timer with
  | none =>
      refine ⟨s.timers, fun pc => h.congr rfl htimer.symm, fun hpc => ?_, fun hpc => ?_⟩
      · simp [DoIo.cancelTimer, hpc, htimer]
      · simp [DoIo.cancelTimer, hpc, htimer]
  | some a =>
      obtain ⟨done, m, hok, hkept⟩ := h.cancel htimer
      refine ⟨m, htimer ▸ hkept, fun hpc => ?_, fun hpc => ?_⟩
      · simp [DoIo.cancelTimer, hpc, htimer, hok, Except.toOption]
      · simp [DoIo.cancelTimer, hpc, htimer, hok, Except.toOption]

/-- Of every run. -/
theorem TimerKept.step (h : TimerKept s) {a : Action} (hstep : s.step c a = some s') :
    TimerKept s' := by
  cases a with
  | enter hookEnable ctx =>
      obtain ⟨-, rfl | rfl | ⟨timeout, rfl⟩⟩ := enter_spec hstep
      · exact h.congr rfl rfl
      · exact h.congr rfl rfl
      · exact h.congr rfl rfl
  | io n errno =>
      obtain ⟨-, rfl | rfl | rfl⟩ := io_spec hstep
      · exact h
      · exact h.congr rfl rfl
      · exact h.congr rfl rfl
  | arm addr now =>
      obtain ⟨-, ⟨-, hfree, rfl⟩ | ⟨-, rfl⟩⟩ := arm_spec hstep
      · refine ⟨(h.stored.alloc hfree rfl).addTimerLocked, fun a ha => ?_⟩
        obtain rfl := Option.some.inj ha
        show ((s.timers.put _ _).addTimerLocked _).2.heap _ ≠ none
        rw [TimerManager.heap_addTimerLocked, TimerManager.heap_put_self]
        exact Option.some_ne_none _
      · exact h.congr rfl rfl
  | addEvent ctl =>
      obtain ⟨-, rt, m, -, ⟨-, rfl⟩ | ⟨-, rfl⟩⟩ := addEvent_spec hstep
      · exact h.congr rfl rfl
      · exact h.congr rfl rfl
  | yieldToHold =>
      obtain ⟨id, -, rfl⟩ := yieldToHold_spec hstep
      exact h.congr rfl rfl
  | wake =>
      obtain ⟨id, -, -, rfl⟩ := wake_spec hstep
      exact h.congr rfl rfl
  | cancelTimer =>
      obtain ⟨m, hm, hs'⟩ := cancelTimer_spec hstep
      have hkept (pc : Pc) : TimerKept { s with timers := m, pc := pc } := by
        obtain ⟨hnone, rfl⟩ | ⟨a, done, ha, hcancel⟩ := hm
        · exact h.congr rfl rfl
        · obtain ⟨done', m', hok, hkept⟩ := h.cancel ha
          obtain ⟨-, rfl⟩ := Prod.mk.inj (Except.ok.inj (hok.symm.trans hcancel))
          exact hkept pc
      obtain ⟨-, rfl⟩ | ⟨-, rfl⟩ := hs'
      · exact .drop (hkept .failed).stored rfl
      · exact hkept .resumed
  | resume =>
      obtain ⟨-, ⟨-, rfl⟩ | ⟨-, rfl⟩⟩ := resume_spec hstep
      · exact .drop h.stored rfl
      · exact .drop h.stored rfl
  | invoke i =>
      obtain ⟨cb, checked, -, rfl, -⟩ := invoke_spec hstep
      exact h.congr rfl rfl
  | mark =>
      obtain ⟨-, rfl⟩ := mark_spec hstep
      exact h.congr rfl rfl
  | cancelEvent ctl =>
      obtain ⟨-, r, -, rfl⟩ := cancelEvent_spec hstep
      exact h.congr rfl rfl
  | expire now probe =>
      obtain ⟨hprobe, rfl⟩ := expire_spec hstep
      exact (h.move (.listExpiredCb hprobe) (fun _ _ heq => by cases heq) s.pc).congr rfl rfl
  | otherTimers op =>
      obtain ⟨hforeign, front, m, hrun, rfl⟩ := otherTimers_spec hstep
      refine h.move (TimerManager.run_move h.stored hrun) (fun a ha => ?_) s.pc
      rintro rfl
      exact Foreign.target_ne hforeign ha rfl
  | otherEvents op =>
      obtain ⟨-, r, -, rfl⟩ := otherEvents_spec hstep
      exact h.congr rfl rfl

end DoIo

end Sylar
