import Sylar.EventRegistration

/-!
# Dispatching what epoll returned

Worker threads run `idle`: `epoll_wait` returns events of descriptors
that are registered at that moment, and the worker dispatches them one
by one later, each under the mutex of its descriptor. In between other
threads call `addEvent`, `delEvent`, `cancelEvent` and `cancelAll`.

`idle` compares what came back with `fd_ctx->events` as it is now, but
then triggers everything that came back. When one of two returned
events has been deleted meanwhile, `triggerEvent` is called for an event
that is not set and its assertion fails (`assertion_can_fail`). As long
as at each dispatch the returned events are all still set, or none is,
it does not (`assertion_holds`), and in any one state that condition is
exact (`dispatch_fails_iff`).
-/

namespace Sylar

namespace IOManager

open Registry

variable {m m' : IOManager} {fd : Int} {c c' : FdContext} {event : Event} {ids : Multiset Nat}
  {ctl : Bool}

/-! ## When `triggerEvent` fails -/

theorem fdContext_ne (m : IOManager) (fd : Int) : m.fdContext fd ≠ .error .eventNotSet := by
  unfold fdContext
  split <;> exact fun h => nomatch h

theorem getContext_ne (c : FdContext) (event : Event) :
    c.getContext event ≠ .error .eventNotSet := by
  unfold FdContext.getContext
  split
  · exact fun h => nomatch h
  · split <;> exact fun h => nomatch h

theorem register_ne (caller : Caller) (id : Nat) (cb : Option Nat) (ctx : EventContext) :
    register caller id cb ctx ≠ .error .eventNotSet := by
  unfold register
  cases cb with
  | some f => exact fun h => nomatch h
  | none =>
      simp only
      split <;> exact fun h => nomatch h

/-- The assertion of `triggerEvent` fails on a clear bit only. -/
theorem trigger_fails (hc : m.fdContext fd = .ok c) :
    m.trigger fd event = .error .eventNotSet ↔ (c.events &&& event).nonzero = false := by
  have htrigger : m.trigger fd event = .error .eventNotSet ↔
      c.triggerEvent event = .error .eventNotSet := by
    rw [trigger, hc]
    cases ht : c.triggerEvent event with
    | error e => simp [bind, Except.bind, ht]
    | ok r => simp [bind, Except.bind, ht, pure, Except.pure]
  rw [htrigger, FdContext.triggerEvent]
  cases hset : (c.events &&& event).nonzero with
  | false => simp
  | true =>
      simp only [Bool.not_true, Bool.false_eq_true, if_false, Bool.true_eq_false, iff_false]
      intro h
      rcases bind_eq_error.mp h with h | ⟨ctx, -, h⟩
      · exact getContext_ne _ _ h
      · split at h
        · cases h
        · split at h <;> cases h

theorem triggerIf_fails (hc : m.fdContext fd = .ok c) {bit : Bool} :
    m.triggerIf bit fd event = .error .eventNotSet ↔
      bit = true ∧ (c.events &&& event).nonzero = false := by
  cases bit with
  | true =>
      rw [triggerIf, if_pos rfl, trigger_fails hc]
      simp
  | false => simp [triggerIf]

theorem cancelEvent_ne : m.cancelEvent fd event ctl ≠ .error .eventNotSet := by
  unfold cancelEvent
  split
  · exact fun h => nomatch h
  intro h
  rcases bind_eq_error.mp h with h | ⟨c, hc, h⟩
  · exact fdContext_ne _ _ h
  cases hset : (c.events &&& event).nonzero with
  | false =>
      rw [hset] at h
      cases h
  | true =>
      rw [hset] at h
      cases ctl with
      | false => cases h
      | true =>
          rcases bind_eq_error.mp h with h | ⟨m', -, h⟩
          · rw [trigger_fails hc, hset] at h
            cases h
          · cases h

/-- After the first event has been triggered, or was not asked for, the
bit of the second is what it was. -/
theorem triggerIf_bits (h : Registered m ids) (hc : m.fdContext fd = .ok c) {bit : Bool}
    (htrigger : m.triggerIf bit fd event = .ok m') :
    ∃ c', m'.fdContext fd = .ok c' ∧
      c'.events = if bit then c.events &&& ~~~event else c.events := by
  cases bit with
  | true =>
      obtain ⟨-, d, c', hd, hc', -, hev⟩ := trigger_inv h htrigger
      obtain rfl := Except.ok.inj (hd.symm.trans hc)
      exact ⟨c', hc', hev⟩
  | false =>
      obtain rfl := Except.ok.inj htrigger
      exact ⟨c, hc, rfl⟩

/-- Triggering `READ` and then `WRITE`, where asked, fails when one of
them is not set. -/
theorem triggerBoth_fails (h : Registered m ids) (hc : m.fdContext fd = .ok c) (r w : Bool) :
    (m.triggerIf r fd .READ >>= fun m => m.triggerIf w fd .WRITE) = .error .eventNotSet ↔
      r = true ∧ c.events.read = false ∨ w = true ∧ c.events.write = false := by
  have hread : (c.events &&& Event.READ).nonzero = c.events.read := by
    simp [Event.nonzero, Event.READ]
  have hwrite : ∀ d : FdContext, (d.events &&& Event.WRITE).nonzero = d.events.write := by
    intro d
    simp [Event.nonzero, Event.WRITE]
  rw [bind_eq_error, triggerIf_fails hc, hread]
  constructor
  · rintro (hr | ⟨m', htrigger, hw⟩)
    · exact .inl hr
    · obtain ⟨c', hc', hev⟩ := triggerIf_bits h hc htrigger
      rw [triggerIf_fails hc', hwrite c', hev] at hw
      refine .inr ⟨hw.1, ?_⟩
      cases r with
      | true => simpa [Event.READ] using hw.2
      | false => exact hw.2
  · rintro (hr | ⟨hw, hclear⟩)
    · exact .inl hr
    · by_cases hr : r = true ∧ c.events.read = false
      · exact .inl hr
      · right
        obtain ⟨m', htrigger⟩ : ∃ m', m.triggerIf r fd .READ = .ok m' := by
          cases r with
          | false => exact ⟨m, rfl⟩
          | true =>
              have hset : (c.events &&& Event.READ).nonzero = true := by
                rw [hread]
                simpa using hr
              obtain ⟨m', c', s, hok, -⟩ := trigger_spec h hc (.inl rfl) hset
              exact ⟨m', hok⟩
        obtain ⟨c', hc', hev⟩ := triggerIf_bits h hc htrigger
        refine ⟨m', htrigger, ?_⟩
        rw [triggerIf_fails hc', hwrite c', hev]
        refine ⟨hw, ?_⟩
        cases r with
        | true => simp [hclear]
        | false => exact hclear

theorem cancelAll_ne : m.cancelAll fd ctl ≠ .error .eventNotSet := by
  unfold cancelAll
  split
  · exact fun h => nomatch h
  intro herr
  rcases bind_eq_error.mp herr with herr | ⟨c, hc, herr⟩
  · exact fdContext_ne _ _ herr
  cases hset : c.events.nonzero with
  | false =>
      rw [hset] at herr
      cases herr
  | true =>
      rw [hset] at herr
      cases ctl with
      | false => cases herr
      | true =>
          rcases bind_eq_error.mp herr with herr | ⟨m₁, hm₁, herr⟩
          · rw [triggerIf_fails hc] at herr
            simp [Event.nonzero, Event.READ] at herr
          rcases bind_eq_error.mp herr with herr | ⟨c₁, hc₁, herr⟩
          · exact fdContext_ne _ _ herr
          rcases bind_eq_error.mp herr with herr | ⟨m₂, -, herr⟩
          · rw [triggerIf_fails hc₁] at herr
            simp [Event.nonzero, Event.WRITE] at herr
          rcases bind_eq_error.mp herr with herr | ⟨c₂, -, herr⟩
          · exact fdContext_ne _ _ herr
          split at herr <;> cases herr

theorem addEventLocked_ne {caller : Caller} {id : Nat} {cb : Option Nat} :
    m.addEventLocked caller id fd event cb ctl ≠ .error .eventNotSet := by
  intro herr
  rcases bind_eq_error.mp herr with herr | ⟨c, hc, herr⟩
  · exact fdContext_ne _ _ herr
  split at herr
  · cases herr
  · split at herr
    · cases herr
    · rcases bind_eq_error.mp herr with herr | ⟨ctx, -, herr⟩
      · exact getContext_ne _ _ herr
      · split at herr
        · cases herr
        · rcases bind_eq_error.mp herr with herr | ⟨x, -, herr⟩
          · exact register_ne _ _ _ _ herr
          · cases herr

theorem delEvent_ne : m.delEvent fd event ctl ≠ .error .eventNotSet := by
  unfold delEvent
  split
  · exact fun h => nomatch h
  intro herr
  rcases bind_eq_error.mp herr with herr | ⟨c, hc, herr⟩
  · exact fdContext_ne _ _ herr
  split at herr
  · cases herr
  · split at herr
    · cases herr
    · rcases bind_eq_error.mp herr with herr | ⟨ctx, -, herr⟩
      · exact getContext_ne _ _ herr
      · cases herr

/-- The events a dispatch acts on are all set, or none is. -/
def Settled (c : FdContext) (ev : EpollEvents) : Prop :=
  c.events &&& realEvents c ev = .NONE ∨ c.events &&& realEvents c ev = realEvents c ev

instance (c : FdContext) (ev : EpollEvents) : Decidable (Settled c ev) :=
  inferInstanceAs (Decidable (_ ∨ _))

theorem settled_iff {ev : EpollEvents} : Settled c ev ↔
    (c.events &&& realEvents c ev = .NONE ∨
      ¬((realEvents c ev).read = true ∧ c.events.read = false ∨
        (realEvents c ev).write = true ∧ c.events.write = false)) := by
  have hsub : ∀ a b : Event, a &&& b = b ↔
      ¬(b.read = true ∧ a.read = false ∨ b.write = true ∧ a.write = false) := by
    rintro ⟨ar, aw⟩ ⟨br, bw⟩
    revert ar aw br bw
    decide
  rw [Settled, hsub]

/-- Exactly when dispatching one `epoll_event` fails the assertion. -/
theorem dispatch_fails_iff (h : Registered m ids) {ev : EpollEvents}
    (hc : m.fdContext fd = .ok c) :
    m.dispatch fd ev ctl = .error .eventNotSet ↔ ctl = true ∧ ¬Settled c ev := by
  rw [settled_iff, dispatch, hc]
  show (if c.events &&& realEvents c ev = .NONE then pure m
    else if !ctl then pure m
    else (m.triggerIf (realEvents c ev).read fd .READ >>= fun m =>
      m.triggerIf (realEvents c ev).write fd .WRITE)) = Except.error Abort.eventNotSet ↔ _
  by_cases hnone : c.events &&& realEvents c ev = .NONE
  · rw [if_pos hnone]
    simp [hnone, pure, Except.pure]
  · rw [if_neg hnone]
    cases ctl with
    | false => simp [pure, Except.pure]
    | true =>
        rw [if_neg (by decide), triggerBoth_fails h hc]
        simp only [hnone, false_or, not_not, true_and]

/-! ## Runs -/

/-- The registrations, what each worker has still to dispatch, and
whether the assertion of `triggerEvent` has failed. -/
structure Polling where
  registry : Registry
  returned : Nat → List (Int × EpollEvents)
  failed : Bool

namespace Polling

inductive Action where
  | call (op : Op)
  | wait (w : Nat) (ready : List (Int × EpollEvents))
  | dispatch (w : Nat) (ctl : Bool)

/-- `epoll_wait` may return this: events that are registered, an error
or a hang-up. -/
def Ready (m : IOManager) (e : Int × EpollEvents) : Prop :=
  match m.fdContext e.1 with
  | .error _ => False
  | .ok c => c.events ≠ .NONE ∧ (e.2.epollIn → c.events.read) ∧ (e.2.epollOut → c.events.write)

instance (m : IOManager) (e : Int × EpollEvents) : Decidable (Ready m e) := by
  unfold Ready
  split <;> infer_instance

/-- The process goes on, fails the assertion, or ends by another one. -/
def outcome (s : Polling) : Except Abort Registry → Option Polling
  | .ok r => some { s with registry := r }
  | .error .eventNotSet => some { s with failed := true }
  | .error _ => none

def step (s : Polling) : Action → Option Polling
  | .call op => if op.isDispatch then none else s.outcome (s.registry.step op)
  | .wait w ready =>
      if s.returned w = [] ∧ ready.length ≤ 256 ∧ ∀ e ∈ ready, Ready s.registry.manager e then
        some { s with returned := fun v => if v = w then ready else s.returned v }
      else none
  | .dispatch w ctl =>
      match s.returned w with
      | [] => none
      | (fd, ev) :: rest =>
          outcome { s with returned := fun v => if v = w then rest else s.returned v }
            (s.registry.step (.dispatch fd ev ctl))

/-- Workers and callers in any order. -/
def system : System Polling Action where
  init s := s = ⟨⟨IOManager.new, 0, 0⟩, fun _ => [], false⟩
  step s a := if s.failed then none else s.step a

/-- `addEvent` is called from a thread of a scheduler. -/
def FromScheduler (_ : Polling) : Action → Prop
  | .call op => op.FromScheduler
  | _ => True

/-- At each dispatch (whose `epoll_ctl` succeeds) the returned events
are all still set in `fd_ctx->events`, or none is. -/
def Fresh (s : Polling) : Action → Prop
  | .call op => op.FromScheduler
  | .wait _ _ => True
  | .dispatch w ctl => ctl = true → ∀ fd ev rest c, s.returned w = (fd, ev) :: rest →
      s.registry.manager.fdContext fd = .ok c → Settled c ev

theorem step_ne {r : Registry} {op : Op}
    (hop : op.isDispatch = false) : r.step op ≠ .error .eventNotSet := by
  intro herr
  cases op with
  | addEvent caller fd event cb ctl =>
      rcases bind_eq_error.mp herr with herr | ⟨a, -, herr⟩
      · unfold addEvent at herr
        split at herr
        · exact addEventLocked_ne herr
        · exact addEventLocked_ne herr
      · cases herr
  | delEvent fd event ctl =>
      rcases bind_eq_error.mp herr with herr | ⟨a, -, herr⟩
      · exact delEvent_ne herr
      · cases herr
  | cancelEvent fd event ctl =>
      rcases bind_eq_error.mp herr with herr | ⟨a, -, herr⟩
      · exact cancelEvent_ne herr
      · cases herr
  | cancelAll fd ctl =>
      rcases bind_eq_error.mp herr with herr | ⟨a, -, herr⟩
      · exact cancelAll_ne herr
      · cases herr
  | dispatch fd ev ctl => cases hop

theorem dispatch_ne {r : Registry} (h : r.Inv) {fd : Int} {ev : EpollEvents} {ctl : Bool}
    (hsettled : ctl = true → ∀ c, r.manager.fdContext fd = .ok c → Settled c ev) :
    r.step (.dispatch fd ev ctl) ≠ .error .eventNotSet := by
  intro herr
  rcases bind_eq_error.mp herr with herr | ⟨a, -, herr⟩
  · cases hc : r.manager.fdContext fd with
    | error e =>
        rw [dispatch, hc] at herr
        obtain rfl : e = .eventNotSet := by simpa [bind, Except.bind] using herr
        exact fdContext_ne _ _ hc
    | ok c =>
        obtain ⟨hctl, hnot⟩ := (dispatch_fails_iff h.registered hc).mp herr
        exact hnot (hsettled hctl c hc)
  · cases herr

theorem outcome_inv {s s' : Polling} {r : Registry} {op : Op} (h : r.Inv)
    (hop : op.FromScheduler) (hs : s.failed = false) (hne : r.step op ≠ .error .eventNotSet)
    (hout : s.outcome (r.step op) = some s') : s'.registry.Inv ∧ s'.failed = false := by
  cases hstep : r.step op with
  | ok r' =>
      rw [hstep] at hout
      obtain rfl := Option.some.inj hout
      exact ⟨(step_spec h hop hstep).1, hs⟩
  | error e =>
      rw [hstep] at hout hne
      cases e with
      | eventNotSet => exact absurd rfl hne
      | _ => cases hout

/-- **The assertion of `triggerEvent` holds** in every run whose
dispatches act on events that are all still set or all gone, and the
counter is the number of set bits throughout. -/
theorem assertion_holds {s : Polling} (h : system.ReachableBy Fresh s) :
    s.failed = false ∧ s.registry.manager.pendingEventCount = s.registry.manager.bits := by
  have hinv : s.registry.Inv ∧ s.failed = false := by
    refine h.invariant (P := fun s => s.registry.Inv ∧ s.failed = false) ?_ ?_
    · rintro s rfl
      exact ⟨new_inv, rfl⟩
    · rintro s a s' ⟨hr, hs⟩ hfresh hstep
      simp only [system, hs, Bool.false_eq_true, if_false] at hstep
      cases a with
      | call op =>
          simp only [step, Option.ite_none_left_eq_some, Bool.not_eq_true] at hstep
          exact outcome_inv hr hfresh hs (step_ne hstep.1) hstep.2
      | wait w ready =>
          simp only [step, Option.ite_none_right_eq_some, Option.some.injEq] at hstep
          obtain ⟨-, rfl⟩ := hstep
          exact ⟨hr, hs⟩
      | dispatch w ctl =>
          simp only [step] at hstep
          cases hret : s.returned w with
          | nil =>
              rw [hret] at hstep
              cases hstep
          | cons e rest =>
              obtain ⟨fd, ev⟩ := e
              rw [hret] at hstep
              have hop : (Op.dispatch fd ev ctl).FromScheduler := trivial
              have hne : s.registry.step (.dispatch fd ev ctl) ≠ .error .eventNotSet :=
                dispatch_ne hr fun hctl c hc => hfresh hctl fd ev rest c hret hc
              refine outcome_inv hr hop ?_ hne hstep
              exact hs
  exact ⟨hinv.2, hinv.1.registered.count⟩

/-- A descriptor that became readable is dispatched. -/
theorem assertion_holds_readable :
    ∃ s, system.ReachableBy Fresh s ∧ s.registry.manager.scheduled = [⟨9, .fiber ⟨0, 5⟩⟩] ∧
      s.failed = false ∧ s.registry.manager.pendingEventCount = s.registry.manager.bits := by
  have hinit : system.ReachableBy Fresh ⟨⟨IOManager.new, 0, 0⟩, fun _ => [], false⟩ := .init rfl
  have hadd := hinit.step (e := .call (.addEvent ⟨some 9, 5, true⟩ 3 .READ none true))
    (by simp [Fresh, Op.FromScheduler]) rfl
  have hwait := hadd.step (e := .wait 0 [(3, ⟨true, false, false, false⟩)])
    (by simp [Fresh]) rfl
  have hdispatch := hwait.step (e := .dispatch 0 true) (by
    intro _ fd ev rest c hret hc
    obtain ⟨⟨rfl, rfl⟩, rfl⟩ : (3 = fd ∧ ⟨true, false, false, false⟩ = ev) ∧ rest = [] := by
      simpa using hret
    obtain rfl := Except.ok.inj hc
    decide) rfl
  exact ⟨_, hdispatch, by decide, assertion_holds hdispatch⟩

/-- **The assertion can fail**: readable and writable came back, then
`WRITE` is deleted, then what came back is dispatched. -/
theorem assertion_can_fail : ¬∀ s, system.ReachableBy FromScheduler s → s.failed = false := by
  intro hall
  have hinit : system.ReachableBy FromScheduler ⟨⟨IOManager.new, 0, 0⟩, fun _ => [], false⟩ :=
    .init rfl
  have hread := hinit.step (e := .call (.addEvent ⟨some 9, 5, true⟩ 3 .READ none true))
    (by simp [FromScheduler, Op.FromScheduler]) rfl
  have hwrite := hread.step (e := .call (.addEvent ⟨some 9, 6, true⟩ 3 .WRITE none true))
    (by simp [FromScheduler, Op.FromScheduler]) rfl
  have hwait := hwrite.step (e := .wait 0 [(3, ⟨true, true, false, false⟩)])
    (by simp [FromScheduler]) rfl
  have hdelete := hwait.step (e := .call (.delEvent 3 .WRITE true))
    (by simp [FromScheduler, Op.FromScheduler]) rfl
  have hdispatch := hdelete.step (e := .dispatch 0 true) (by simp [FromScheduler]) rfl
  exact absurd (hall _ hdispatch) (by decide)

end Polling

end IOManager

end Sylar
