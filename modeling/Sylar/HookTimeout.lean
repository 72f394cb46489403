import Sylar.Hook

/-!
# When a hooked I/O call keeps its timeout

`do_io` arms the timer before it registers the event. A callback that
runs in between sets `cancelled` and finds nothing to cancel; `addEvent`
then registers the event, the fiber parks, and no callback of the call
will do anything any more (`timeout_can_be_lost`: with a timeout of 0
this needs one slow step).

What would have to hold is that `addEvent` does not come too late
(`InTime`): `cancelled` is still 0, or a callback has set it and has
`cancelEvent` still to call. In runs that keep to this, a parked fiber
always has a callback left that will call `cancelEvent`
(`timeout_not_lost`). The invariant says where that callback is: behind
the test of `cancelled` in some thread, or, while `cancelled` is 0, in
the queue or in the timer of the current round (`Guarded`).
-/

namespace Sylar

/-! ## An armed timer stays armed -/

namespace TimerManager

variable {C : Type} {m m' : TimerManager C} {a b : Nat} {cb : Callback C}

/-- The timer at `a` is in the set and will call `cb`. -/
def Armed (m : TimerManager C) (a : Nat) (cb : Callback C) : Prop :=
  a ∈ m.timers ∧ ∃ t, m.heap a = some t ∧ t.cb = some cb

theorem Armed.put (h : Armed m a cb) (hba : a ≠ b) (t : Timer C) : Armed (m.put b t) a cb := by
  obtain ⟨hmem, t', ht', hcb⟩ := h
  exact ⟨hmem, t', by rw [heap_put_ne m t hba, ht'], hcb⟩

theorem Armed.insert (h : Armed m a cb) (b : Nat) : Armed (m.insert b) a cb :=
  ⟨mem_insert.mpr (.inr h.1), h.2⟩

theorem Armed.addTimerLocked (h : Armed m a cb) (b : Nat) :
    Armed (m.addTimerLocked b).2 a cb := by
  refine ⟨?_, ?_⟩
  · rw [timers_addTimerLocked]
    exact (h.insert b).1
  · rw [heap_addTimerLocked]
    exact h.2

theorem Armed.erase (h : Armed m a cb) (hs : Stored [] m) (hba : a ≠ b) :
    Armed (m.erase (m.timers.idxOf b)) a cb :=
  ⟨(mem_erase hs).mpr ⟨hba, h.1⟩, h.2⟩

/-- A new timer is armed. -/
theorem addTimer_armed (m : TimerManager C) (a ms : Nat) (cb : Callback C) (recurring : Bool)
    (now : Nat) : Armed (m.addTimer a ms (some cb) recurring now).2 a cb := by
  refine ⟨?_, ⟨recurring, ms, add64 now ms, some cb⟩, ?_, rfl⟩
  · rw [addTimer, timers_addTimerLocked]
    exact mem_insert.mpr (.inl rfl)
  · rw [addTimer, heap_addTimerLocked]
    exact heap_put_self ..

/-- It stays so in every critical section on other timers. -/
theorem Move.armed {op : Op C} {front : Bool} (hmove : Move m op front m') (hs : Stored [] m)
    (hop : op.target ≠ some a) (hexp : ∀ now probe, op ≠ .listExpiredCb now probe)
    (h : Armed m a cb) : Armed m' a cb := by
  cases hmove with
  | @addTimer addr ms cb recurring now hfree =>
      obtain ⟨-, t, ht, -⟩ := id h
      have hne : a ≠ addr := by
        rintro rfl
        rw [hfree] at ht
        cases ht
      exact (h.put hne _).addTimerLocked _
  | @cancel b t ht hmem =>
      have hne : a ≠ b := fun heq => hop (congrArg some heq.symm)
      exact (h.erase hs hne).put hne _
  | @refresh b now t ht hmem hcb =>
      have hne : a ≠ b := fun heq => hop (congrArg some heq.symm)
      exact ((h.erase hs hne).put hne _).insert b
  | @reset b ms seen now fromNow front t m' ht hmem hcb hadd =>
      have hne : a ≠ b := fun heq => hop (congrArg some heq.symm)
      obtain rfl : _ = m' := congrArg Prod.snd hadd
      exact ((h.erase hs hne).put hne _).addTimerLocked b
  | idle _ => exact h
  | getNextTimer => exact h
  | listExpiredCb _ => exact absurd rfl (hexp _ _)
  | @release b hout =>
      have hne : a ≠ b := fun heq => hout (heq ▸ h.1)
      obtain ⟨hmem, t, ht, hcb⟩ := h
      exact ⟨hmem, t, (if_neg hne).trans ht, hcb⟩

theorem Armed.rearm {now : Nat} : ∀ {out : List Nat} {m : TimerManager C}, a ∉ out →
    Armed m a cb → Armed (rearm now out m).2 a cb
  | [], _, _, h => h
  | b :: rest, m, hout, h => by
      obtain ⟨hne, hrest⟩ := not_or.mp (List.mem_cons.not.mp hout)
      cases hb : m.heap b with
      | none =>
          simp only [TimerManager.rearm, hb]
          exact h.rearm hrest
      | some t =>
          simp only [TimerManager.rearm, hb]
          split
          · exact ((h.put hne _).insert b).rearm hrest
          · exact (h.put hne _).rearm hrest

/-- The callbacks of the timers taken out are collected. -/
theorem mem_rearm {now : Nat} {t : Timer C} : ∀ {out : List Nat} {m : TimerManager C}, a ∈ out →
    m.heap a = some t → t.cb ∈ (rearm now out m).1
  | b :: rest, m, hout, ht => by
      by_cases hab : a = b
      · subst hab
        simp only [TimerManager.rearm, ht]
        exact List.mem_cons_self ..
      · have hrest : a ∈ rest := (List.mem_cons.mp hout).resolve_left hab
        cases hb : m.heap b with
        | none =>
            simp only [TimerManager.rearm, hb]
            exact mem_rearm hrest ht
        | some u =>
            simp only [TimerManager.rearm, hb]
            refine List.mem_cons_of_mem _ (mem_rearm hrest ?_)
            split
            · exact (heap_put_ne m _ hab).trans ht
            · exact (heap_put_ne m _ hab).trans ht

/-- An armed timer stays in the set when the expired ones are taken out,
or its callback is among those collected. -/
theorem Armed.listExpiredCb (h : Armed m a cb) (now probe : Nat) :
    Armed (m.listExpiredCb now probe).2 a cb ∨ some cb ∈ (m.listExpiredCb now probe).1 := by
  obtain ⟨hmem, t, ht, hcb⟩ := id h
  obtain ⟨first, rest, hl⟩ := List.exists_cons_of_ne_nil (List.ne_nil_of_mem hmem)
  rw [listExpiredCb_cons hl]
  split
  · exact .inl h
  · set it := if (m.detectClockRollover now).1 then m.timers.length else m.expiredCount now probe
    by_cases htake : a ∈ m.timers.take it
    · right
      rw [← hcb]
      exact mem_rearm htake ht
    · left
      refine Armed.rearm htake ⟨?_, t, ht, hcb⟩
      have hsplit : a ∈ m.timers.take it ++ m.timers.drop it := by rwa [List.take_append_drop]
      exact (List.mem_append.mp hsplit).resolve_left htake

end TimerManager

/-! ## Where a registered handle can be -/

namespace FdContext

variable {c c' : FdContext} {event : Event} {x y : EventContext}

/-- An assignment changes the context `getContext` refers to. -/
theorem ctx_setContext (hget : c.getContext event = .ok x) (y : EventContext) (e : Event) :
    (c.setContext event y).ctx e = c.ctx e ∨
      (c.setContext event y).ctx e = y ∧ c.ctx e = x ∧ (e = .READ ↔ event = .READ) := by
  have he := single_of_getContext hget
  rw [getContext_eq he] at hget
  obtain rfl := Except.ok.inj hget
  rcases he with rfl | rfl
  · by_cases hr : e = .READ
    · exact .inr ⟨if_pos hr, by rw [hr], iff_of_true hr rfl⟩
    · exact .inl (by rw [ctx, ctx, if_neg hr, if_neg hr]; rfl)
  · by_cases hr : e = .READ
    · exact .inl (by rw [ctx, ctx, if_pos hr, if_pos hr]; rfl)
    · exact .inr ⟨if_neg hr, if_neg hr, iff_of_false hr (by decide)⟩

/-- Triggering leaves no handle in a context that was not there. -/
theorem triggerEvent_ids {task : Option Scheduled} (h : c.triggerEvent event = .ok (c', task))
    {e : Event} {id : Nat} (hid : id ∈ (c'.ctx e).ids) : id ∈ (c.ctx e).ids := by
  unfold triggerEvent at h
  split at h
  · cases h
  obtain ⟨x, hget, h⟩ := bind_eq_ok.mp h
  set cleared : FdContext := { c with events := c.events &&& ~~~event }
  show id ∈ (cleared.ctx e).ids
  split at h
  · cases h
  · split at h
    · obtain ⟨rfl, -⟩ := Prod.mk.inj (Except.ok.inj h)
      rcases ctx_setContext hget { x with cb := none, scheduler := none } e with heq | ⟨heq, hx, -⟩
      · rwa [heq] at hid
      · rw [heq] at hid
        rw [hx]
        simp only [EventContext.ids, Option.toList_none, List.append_nil, Multiset.mem_coe] at hid
        simp only [EventContext.ids, Multiset.mem_coe, List.map_append]
        exact List.mem_append_left _ hid
    · obtain ⟨rfl, -⟩ := Prod.mk.inj (Except.ok.inj h)
      rcases ctx_setContext hget { x with fiber := none, scheduler := none } e with heq | ⟨heq, hx, -⟩
      · rwa [heq] at hid
      · rw [heq] at hid
        rw [hx]
        simp only [EventContext.ids, Option.toList_none, List.nil_append, Multiset.mem_coe] at hid
        simp only [EventContext.ids, Multiset.mem_coe, List.map_append]
        exact List.mem_append_right _ hid

end FdContext

namespace IOManager

variable {m m' : IOManager} {fd fd' : Int} {c c' : FdContext} {event e : Event} {id : Nat}

theorem held_eq (hc : m.fdContext fd = .ok c) (event : Event) :
    m.held fd event = (c.ctx event).ids := by
  rw [held, hc]

/-- Replacing one context changes what is held there only. -/
theorem mem_held_put (hc : m.fdContext fd = .ok c) {P : Prop}
    (hsub : id ∈ (c'.ctx e).ids → P ∨ id ∈ (c.ctx e).ids) (h : id ∈ (m.put fd c').held fd' e) :
    fd' = fd ∧ P ∨ id ∈ m.held fd' e := by
  by_cases hfd : fd' = fd
  · subst hfd
    rw [held_eq (fdContext_put hc)] at h
    rw [held_eq hc]
    exact (hsub h).imp_left (And.intro rfl)
  · right
    cases hd : (m.put fd c').fdContext fd' with
    | error a => simp [held, hd] at h
    | ok d =>
        rw [held_eq hd] at h
        obtain ⟨h0, hd⟩ := fdContext_eq_ok.mp hd
        have hne : fd.toNat ≠ fd'.toNat := by
          have := (fdContext_eq_ok.mp hc).1
          omega
        rw [put, List.getElem?_set_ne hne] at hd
        rw [held_eq (fdContext_eq_ok.mpr ⟨h0, hd⟩)]
        exact h

theorem trigger_held (htrigger : m.trigger fd event = .ok m') (h : id ∈ m'.held fd' e) :
    id ∈ m.held fd' e := by
  obtain ⟨c, hc, htrigger⟩ := bind_eq_ok.mp htrigger
  obtain ⟨⟨c', task⟩, hc', htrigger⟩ := bind_eq_ok.mp htrigger
  obtain rfl := Except.ok.inj htrigger
  have h : id ∈ (m.put fd c').held fd' e := h
  have hsub : id ∈ (c'.ctx e).ids → False ∨ id ∈ (c.ctx e).ids :=
    fun hid => .inr (FdContext.triggerEvent_ids hc' hid)
  exact (mem_held_put hc hsub h).resolve_left And.right

theorem triggerIf_held {bit : Bool} (htrigger : m.triggerIf bit fd event = .ok m')
    (h : id ∈ m'.held fd' e) : id ∈ m.held fd' e := by
  cases bit with
  | true => exact trigger_held htrigger h
  | false =>
      obtain rfl := Except.ok.inj htrigger
      exact h

theorem held_grow (n : Nat)
    (h : id ∈ held { m with fdContexts := m.fdContexts ++ List.replicate n .new } fd e) :
    id ∈ m.held fd e := by
  cases hd : fdContext { m with fdContexts := m.fdContexts ++ List.replicate n .new } fd with
  | error a => simp [held, hd] at h
  | ok d =>
      rw [held_eq hd] at h
      obtain ⟨h0, hd⟩ := fdContext_eq_ok.mp hd
      rcases Nat.lt_or_ge fd.toNat m.fdContexts.length with hlt | hge
      · rw [List.getElem?_append_left hlt] at hd
        rwa [held_eq (fdContext_eq_ok.mpr ⟨h0, hd⟩)]
      · have hnew : d = .new := by
          rw [List.getElem?_append_right hge] at hd
          exact List.eq_of_mem_replicate (List.mem_of_getElem? hd)
        subst hnew
        simp [FdContext.ctx, FdContext.new, EventContext.ids, EventContext.empty] at h

theorem addEventLocked_held {caller : Caller} (hcaller : caller.scheduler ≠ none) {new : Nat}
    {cb : Option Nat} {ctl : Bool} {rt : Int}
    (hadd : m.addEventLocked caller new fd event cb ctl = .ok (rt, m')) (h : id ∈ m'.held fd' e) :
    fd' = fd ∧ id = new ∧ (e = .READ ↔ event = .READ) ∨ id ∈ m.held fd' e := by
  rcases addEventLocked_cases hadd with ⟨-, -, rfl⟩ | ⟨-, -, he, c, x, hc, -, -, hx, rfl⟩
  · exact .inr h
  refine mem_held_put hc (fun hid => ?_) h
  rcases FdContext.ctx_setContext (FdContext.getContext_eq he) x e with heq | ⟨heq, -, hplace⟩
  · rw [heq] at hid
    exact .inr hid
  · rw [heq, (register_spec hcaller hx).2] at hid
    exact .inl ⟨Multiset.mem_singleton.mp hid, hplace⟩

/-- A handle is held where it was, or is the new one, where `addEvent`
has registered it. -/
theorem addEvent_held {caller : Caller} (hcaller : caller.scheduler ≠ none) {new : Nat}
    {cb : Option Nat} {ctl : Bool} {rt : Int}
    (hadd : m.addEvent caller new fd event cb ctl = .ok (rt, m')) (h : id ∈ m'.held fd' e) :
    fd' = fd ∧ id = new ∧ (e = .READ ↔ event = .READ) ∨ id ∈ m.held fd' e := by
  unfold addEvent at hadd
  split at hadd
  · exact addEventLocked_held hcaller hadd h
  · rename_i hlt
    rw [contextResize_eq (by omega : m.fdContexts.length ≤ fd.toNat * 3 / 2)] at hadd
    exact (addEventLocked_held hcaller hadd h).imp_right (held_grow _)

/-- A successful `addEvent` holds its handle where it says. -/
theorem addEventLocked_mem {caller : Caller} (hcaller : caller.scheduler ≠ none) {new : Nat}
    {cb : Option Nat} {ctl : Bool} (hadd : m.addEventLocked caller new fd event cb ctl = .ok (0, m')) :
    new ∈ m'.held fd event := by
  rcases addEventLocked_cases hadd with ⟨hrt, -⟩ | ⟨-, -, he, c, x, hc, -, -, hx, rfl⟩
  · cases hrt
  show new ∈ (m.put fd _).held fd event
  have hself : FdContext.ctx (FdContext.setContext { c with events := c.events ||| event }
      event x) event = x := by
    rcases he with rfl | rfl
    · rfl
    · rfl
  rw [held_eq (fdContext_put hc), hself, (register_spec hcaller hx).2]
  exact Multiset.mem_singleton_self new

theorem addEvent_mem {caller : Caller} (hcaller : caller.scheduler ≠ none) {new : Nat}
    {cb : Option Nat} {ctl : Bool} (hadd : m.addEvent caller new fd event cb ctl = .ok (0, m')) :
    new ∈ m'.held fd event := by
  unfold addEvent at hadd
  split at hadd
  · exact addEventLocked_mem hcaller hadd
  · exact addEventLocked_mem hcaller hadd

theorem delEvent_held {ctl done : Bool} (hdel : m.delEvent fd event ctl = .ok (done, m'))
    (h : id ∈ m'.held fd' e) : id ∈ m.held fd' e := by
  rcases delEvent_cases hdel with ⟨-, rfl⟩ | ⟨-, -, he, c, hc, -, rfl⟩
  · exact h
  set cleared : FdContext := { c with events := c.events &&& ~~~event }
  have h : id ∈ (m.put fd (cleared.setContext event .empty)).held fd' e := h
  refine (mem_held_put hc (P := False) (fun hid => .inr ?_) h).resolve_left And.right
  rcases FdContext.ctx_setContext (FdContext.getContext_eq he) .empty e with heq | ⟨heq, -⟩
  · rw [heq] at hid
    exact hid
  · rw [heq] at hid
    simp [EventContext.ids, EventContext.empty] at hid

theorem cancelEvent_held {ctl done : Bool} (hcancel : m.cancelEvent fd event ctl = .ok (done, m'))
    (h : id ∈ m'.held fd' e) : id ∈ m.held fd' e := by
  rcases cancelEvent_cases hcancel with ⟨-, rfl⟩ | ⟨-, -, htrigger⟩
  · exact h
  · exact trigger_held htrigger h

theorem cancelAll_held {ctl done : Bool} (hcancel : m.cancelAll fd ctl = .ok (done, m'))
    (h : id ∈ m'.held fd' e) : id ∈ m.held fd' e := by
  rcases cancelAll_cases hcancel with ⟨-, rfl⟩ | ⟨-, -, read, write, m₁, hread, hwrite⟩
  · exact h
  · exact triggerIf_held hread (triggerIf_held hwrite h)

theorem dispatch_held {ev : EpollEvents} {ctl : Bool} (hdispatch : m.dispatch fd ev ctl = .ok m')
    (h : id ∈ m'.held fd' e) : id ∈ m.held fd' e := by
  rcases dispatch_cases hdispatch with rfl | ⟨-, c, m₁, -, hread, hwrite⟩
  · exact h
  · exact triggerIf_held hread (triggerIf_held hwrite h)

/-- A handle is held where it was, or is the one `addEvent` registers. -/
theorem Registry.step_held {r r' : Registry} {op : Op} (hop : op.FromScheduler)
    (hstep : r.step op = .ok r') (h : id ∈ r'.manager.held fd' e) :
    id = r.next ∨ id ∈ r.manager.held fd' e := by
  cases op with
  | addEvent caller fd event cb ctl =>
      obtain ⟨⟨rt, m⟩, hadd, hstep⟩ := bind_eq_ok.mp hstep
      obtain rfl := Except.ok.inj hstep
      exact (addEvent_held hop hadd h).imp_left fun hnew => hnew.2.1
  | delEvent fd event ctl =>
      obtain ⟨⟨done, m⟩, hdel, hstep⟩ := bind_eq_ok.mp hstep
      obtain rfl := Except.ok.inj hstep
      exact .inr (delEvent_held hdel h)
  | cancelEvent fd event ctl =>
      obtain ⟨⟨done, m⟩, hcancel, hstep⟩ := bind_eq_ok.mp hstep
      obtain rfl := Except.ok.inj hstep
      exact .inr (cancelEvent_held hcancel h)
  | cancelAll fd ctl =>
      obtain ⟨⟨done, m⟩, hcancel, hstep⟩ := bind_eq_ok.mp hstep
      obtain rfl := Except.ok.inj hstep
      exact .inr (cancelAll_held hcancel h)
  | dispatch fd ev ctl =>
      obtain ⟨m, hdispatch, hstep⟩ := bind_eq_ok.mp hstep
      obtain rfl := Except.ok.inj hstep
      exact .inr (dispatch_held hdispatch h)

theorem Registered.held_eq_zero {ids : Multiset Nat} (h : Registered m ids)
    (hc : m.fdContext fd = .ok c) (he : event.Single)
    (hclear : (c.events &&& event).nonzero = false) : m.held fd event = 0 := by
  rw [held_eq hc, (h.of_fdContext hc).eq_empty he hclear]
  rfl

theorem held_of_length_le (hle : (m.fdContexts.length : Int) ≤ fd) (event : Event) :
    m.held fd event = 0 := by
  cases hc : m.fdContext fd with
  | error a => rw [held, hc]
  | ok c =>
      obtain ⟨h0, hget⟩ := fdContext_eq_ok.mp hc
      have hlt : fd.toNat < m.fdContexts.length := (List.getElem?_eq_some_iff.mp hget).1
      omega

/-- After a `cancelEvent` whose `epoll_ctl` does not fail nothing is
held there. -/
theorem cancelEvent_clears {ids : Multiset Nat} (h : Registered m ids) (he : event.Single)
    {done : Bool} (hcancel : m.cancelEvent fd event true = .ok (done, m')) :
    m'.held fd event = 0 := by
  unfold cancelEvent at hcancel
  split at hcancel
  · rename_i hge
    obtain ⟨-, rfl⟩ := Prod.mk.inj (Except.ok.inj hcancel)
    exact held_of_length_le hge event
  obtain ⟨c, hc, hcancel⟩ := bind_eq_ok.mp hcancel
  cases hset : (c.events &&& event).nonzero with
  | false =>
      rw [hset] at hcancel
      obtain ⟨-, rfl⟩ := Prod.mk.inj (Except.ok.inj hcancel)
      exact h.held_eq_zero hc he hset
  | true =>
      rw [hset] at hcancel
      obtain ⟨m₁, htrigger, hcancel⟩ := bind_eq_ok.mp hcancel
      obtain ⟨-, rfl⟩ := Prod.mk.inj (Except.ok.inj hcancel)
      obtain ⟨hreg, d, d', hd, hd', -, hev⟩ := trigger_inv h htrigger
      refine hreg.held_eq_zero hd' he ?_
      rw [hev]
      rcases he with rfl | rfl
      · simp [Event.nonzero, Event.READ]
      · simp [Event.nonzero, Event.WRITE]

end IOManager

/-! ## The call -/

namespace DoIo

variable {c : IoCall} {s s' : DoIo}

/-- The fiber has registered the event and not been woken. -/
def Parked (c : IoCall) (s : DoIo) : Prop :=
  ∃ id, s.pc = .parked id ∧ id ∈ s.registry.manager.held c.fd c.event

/-- Some callback armed for the call has `cancelEvent` still to call:
one that has passed the test, or, while it would pass, one in the queue
or in an armed timer. -/
def Pending (c : IoCall) (s : DoIo) : Prop :=
  s.checked ≠ 0 ∨ s.marked ≠ 0 ∨ s.cancelled = 0 ∧
    (c.callback ∈ s.queued ∨ ∃ a, s.timers.Armed a c.callback)

/-- A successful `addEvent` finds `cancelled` at 0 or a callback before
its `cancelEvent`; `epoll_ctl` does not fail that callback. -/
def InTime (s : DoIo) : Action → Prop
  | .addEvent ctl => ctl = true → s.cancelled = 0 ∨ s.checked ≠ 0 ∨ s.marked ≠ 0
  | .cancelEvent ctl => ctl = true
  | _ => True

/-- `Pending`, by the timer of the current round. -/
def Guarded (c : IoCall) (s : DoIo) : Prop :=
  s.checked ≠ 0 ∨ s.marked ≠ 0 ∨ s.cancelled = 0 ∧
    (c.callback ∈ s.queued ∨ ∃ a, s.timer = some a ∧ s.timers.Armed a c.callback)

theorem Guarded.pending (h : Guarded c s) : Pending c s :=
  h.imp_right <| .imp_right <| .imp_right <| .imp_right fun ⟨a, _, ha⟩ => ⟨a, ha⟩

structure Inv (c : IoCall) (s : DoIo) : Prop where
  stored : TimerManager.Stored [] s.timers
  registry : s.registry.Inv
  marked : s.marked ≠ 0 → s.cancelled ≠ 0
  armed : s.pc = .armed → s.timeout ≠ noTimeout → s.cancelled = 0 → Guarded c s
  waiting : ∀ id, s.pc.waiting = some id → id < s.registry.next
  covered : ∀ id, s.pc.waiting = some id → s.timeout ≠ noTimeout →
    id ∈ s.registry.manager.held c.fd c.event → Guarded c s

/-- The fiber moves on to a place where it neither waits nor is about
to. -/
theorem Inv.goto (h : Inv c s) (pc : Pc) (harmed : pc ≠ .armed) (hwaiting : pc.waiting = none)
    {timers : TimerManager TimerFn} (hs : TimerManager.Stored [] timers) (timer : Option Nat)
    (timeout : Nat) :
    Inv c { s with timers := timers, timer := timer, timeout := timeout, pc := pc } where
  stored := hs
  registry := h.registry
  marked := h.marked
  armed heq := absurd heq harmed
  waiting id hid := by
    rw [hwaiting] at hid
    cases hid
  covered id hid := by
    rw [hwaiting] at hid
    cases hid

theorem Pc.not_returned_of_waiting {pc : Pc} {id : Nat} (h : pc.waiting = some id) :
    pc.isReturned = false := by
  cases pc with
  | registered id => rfl
  | parked id => rfl
  | returned n errno => cases h
  | entry => rfl
  | direct => rfl
  | retry => rfl
  | blocked => rfl
  | armed => rfl
  | failed => rfl
  | woken => rfl
  | resumed => rfl

/-- Another thread does something that keeps the fiber guarded. -/
theorem Inv.keep (h : Inv c s) {timers : TimerManager TimerFn}
    (hs : TimerManager.Stored [] timers) {queued : List (Callback TimerFn)} {checked : Nat}
    (hguard : s.pc.isReturned = false → Guarded c s →
      Guarded c { s with timers := timers, queued := queued, checked := checked }) :
    Inv c { s with timers := timers, queued := queued, checked := checked } where
  stored := hs
  registry := h.registry
  marked := h.marked
  armed hpc hto hcan := hguard (by rw [hpc]; rfl) (h.armed hpc hto hcan)
  waiting := h.waiting
  covered id hid hto hheld :=
    hguard (Pc.not_returned_of_waiting hid) (h.covered id hid hto hheld)

/-! ## One step -/

theorem cancel_stored {m m' : TimerManager TimerFn} {a : Nat} {done : Bool}
    (h : TimerManager.Stored [] m) (hcancel : m.cancel a = .ok (done, m')) :
    TimerManager.Stored [] m' := by
  have hrun : m.run (.cancel a) = some (false, m') := by
    rw [TimerManager.run, hcancel]
    rfl
  exact (TimerManager.run_move h hrun).stored h

theorem Inv.enter (h : Inv c s) {hookEnable : Bool} {ctx : Option FdCtx}
    (hstep : s.enter c hookEnable ctx = some s') : Inv c s' := by
  have hgoto (pc : Pc) (harmed : pc ≠ .armed) (hwaiting : pc.waiting = none) (timeout : Nat) :
      Inv c { s with timeout := timeout, pc := pc } :=
    h.goto pc harmed hwaiting h.stored s.timer timeout
  obtain ⟨-, rfl | rfl | ⟨timeout, rfl⟩⟩ := enter_spec hstep
  · exact hgoto .direct (by simp) rfl s.timeout
  · exact hgoto (.returned _ _) (by simp) rfl s.timeout
  · exact hgoto .retry (by simp) rfl timeout

theorem Inv.io (h : Inv c s) {n : Int} {errno : Nat} (hstep : s.io n errno = some s') :
    Inv c s' := by
  have hgoto (pc : Pc) (harmed : pc ≠ .armed) (hwaiting : pc.waiting = none) :
      Inv c { s with pc := pc } := h.goto pc harmed hwaiting h.stored s.timer s.timeout
  obtain ⟨-, rfl | rfl | rfl⟩ := io_spec hstep
  · exact h
  · exact hgoto .blocked (by simp) rfl
  · exact hgoto (.returned _ _) (by simp) rfl

/-- The new timer guards the call as long as `cancelled` is 0. -/
theorem Inv.arm (h : Inv c s) {addr now : Nat} (hstep : s.arm c addr now = some s') :
    Inv c s' := by
  obtain ⟨-, ⟨-, hfree, rfl⟩ | ⟨hto, rfl⟩⟩ := arm_spec hstep
  · refine ⟨(h.stored.alloc hfree rfl).addTimerLocked, h.registry, h.marked, ?_, ?_, ?_⟩
    · intro _ _ hcan
      exact .inr (.inr ⟨hcan, .inr ⟨addr, rfl, TimerManager.addTimer_armed ..⟩⟩)
    · intro id hid
      cases hid
    · intro id hid
      cases hid
  · refine ⟨h.stored, h.registry, h.marked, fun _ hto' => absurd hto hto', ?_, ?_⟩
    · intro id hid
      cases hid
    · intro id hid
      cases hid

theorem Inv.addEvent (h : Inv c s) {ctl : Bool} (hok : s.InTime (.addEvent ctl))
    (hstep : s.addEvent c ctl = some s') : Inv c s' := by
  obtain ⟨hpc, rt, m, hadd, hrt⟩ := addEvent_spec hstep
  have hcaller : c.caller.scheduler ≠ none := Option.some_ne_none _
  have hreg : s.registry.step (.addEvent c.caller c.fd c.event none ctl) =
      .ok { s.registry with
        manager := m
        next := if rt = 0 then s.registry.next + 1 else s.registry.next } := by
    rw [IOManager.Registry.step, hadd]
    rfl
  have hop : (IOManager.Op.addEvent c.caller c.fd c.event none ctl).FromScheduler := hcaller
  have hinv := (IOManager.Registry.step_spec h.registry hop hreg).1
  obtain ⟨hrt, rfl⟩ | ⟨hrt, rfl⟩ := hrt
  · rw [if_pos hrt] at hinv
    refine ⟨h.stored, hinv, h.marked, (fun hpc => nomatch hpc), ?_, ?_⟩
    · intro id hid
      obtain rfl := Option.some.inj hid
      exact Nat.lt_succ_self _
    · intro id _ hto _
      have hctl : ctl = true := by
        rcases IOManager.addEvent_spec h.registry.registered hcaller hadd with
          ⟨hrt', -⟩ | ⟨-, hctl, -⟩
        · omega
        · exact hctl
      rcases hok hctl with hcan | hchecked | hmarked
      · exact h.armed hpc hto hcan
      · exact .inl hchecked
      · exact .inr (.inl hmarked)
  · rw [if_neg hrt] at hinv
    refine ⟨h.stored, hinv, h.marked, (fun hpc => nomatch hpc), ?_, ?_⟩
    · intro id hid
      cases hid
    · intro id hid
      cases hid

theorem Inv.yieldToHold (h : Inv c s) (hstep : s.yieldToHold = some s') : Inv c s' := by
  obtain ⟨id, hpc, rfl⟩ := yieldToHold_spec hstep
  have hwaiting : s.pc.waiting = some id := by
    rw [hpc]
    rfl
  refine ⟨h.stored, h.registry, h.marked, (fun hpc => nomatch hpc), ?_, ?_⟩
  · intro id' hid
    exact h.waiting id' (hwaiting.trans hid)
  · intro id' hid hto hheld
    exact h.covered id' (hwaiting.trans hid) hto hheld

theorem Inv.wake (h : Inv c s) (hstep : s.wake = some s') : Inv c s' := by
  obtain ⟨id, -, -, rfl⟩ := wake_spec hstep
  exact h.goto .woken (by simp) rfl h.stored s.timer s.timeout

theorem Inv.cancelTimer (h : Inv c s) (hstep : s.cancelTimer = some s') : Inv c s' := by
  obtain ⟨m, hm, hs'⟩ := cancelTimer_spec hstep
  -- the timers after `if(timer) { timer->cancel(); }`
  have hstored : TimerManager.Stored [] m := by
    obtain ⟨-, rfl⟩ | ⟨a, done, -, hcancel⟩ := hm
    · exact h.stored
    · exact cancel_stored h.stored hcancel
  obtain ⟨-, rfl⟩ | ⟨-, rfl⟩ := hs'
  · exact h.goto (.returned _ _) (by simp) rfl hstored none s.timeout
  · exact h.goto .resumed (by simp) rfl hstored s.timer s.timeout

theorem Inv.resume (h : Inv c s) (hstep : s.resume = some s') : Inv c s' := by
  obtain ⟨-, ⟨-, rfl⟩ | ⟨-, rfl⟩⟩ := resume_spec hstep
  · exact h.goto (.returned _ _) (by simp) rfl h.stored none s.timeout
  · exact h.goto .retry (by simp) rfl h.stored none s.timeout

/-- A callback taken from the queue passes the test while `cancelled`
is 0. -/
theorem Inv.invoke (h : Inv c s) {i : Nat} (hstep : s.invoke c i = some s') : Inv c s' := by
  obtain ⟨cb, checked, hcb, rfl, hchecked⟩ := invoke_spec hstep
  refine h.keep h.stored fun hpc hguard => ?_
  rcases hguard with hold | hmarked | ⟨hcan, hqueued | hmem⟩
  · obtain ⟨-, -, rfl⟩ | ⟨-, rfl⟩ := hchecked
    · exact .inl (Nat.succ_ne_zero _)
    · exact .inl hold
  · exact .inr (.inl hmarked)
  · by_cases heq : cb = c.callback
    · have halive : cb.invoke (s.alive c) = some .cancelIo := by
        simp [heq, IoCall.callback, Callback.invoke, alive, hpc]
      obtain ⟨-, -, rfl⟩ | ⟨hnot, -⟩ := hchecked
      · exact .inl (Nat.succ_ne_zero _)
      · exact absurd hcan (hnot halive)
    · refine .inr (.inr ⟨hcan, .inl ?_⟩)
      rw [List.mem_eraseIdx_iff_getElem?]
      obtain ⟨j, hj⟩ := List.mem_iff_getElem?.mp hqueued
      refine ⟨j, ?_, hj⟩
      rintro rfl
      exact heq (Option.some.inj (hcb.symm.trans hj))
  · exact .inr (.inr ⟨hcan, .inr hmem⟩)

theorem Inv.mark (h : Inv c s) (hstep : s.mark = some s') : Inv c s' := by
  obtain ⟨-, rfl⟩ := mark_spec hstep
  refine ⟨h.stored, h.registry, fun _ => Nat.succ_ne_zero 109, ?_, h.waiting, ?_⟩
  · intro _ _ hcan
    cases hcan
  · intro _ _ _ _
    exact .inr (.inl (Nat.succ_ne_zero _))

/-- `cancelEvent` leaves nothing registered to wait for. -/
theorem Inv.cancelEvent (h : Inv c s) {ctl : Bool} (hok : s.InTime (.cancelEvent ctl))
    (hstep : s.cancelEvent c ctl = some s') : Inv c s' := by
  obtain rfl : ctl = true := hok
  obtain ⟨hmarked, r, hr, rfl⟩ := cancelEvent_spec hstep
  have hop : (IOManager.Op.cancelEvent c.fd c.event true).FromScheduler := trivial
  have hinv := (IOManager.Registry.step_spec h.registry hop hr).1
  obtain ⟨⟨done, m⟩, hcancel, hr⟩ := bind_eq_ok.mp hr
  obtain rfl := Except.ok.inj hr
  have hclear := IOManager.cancelEvent_clears h.registry.registered c.single hcancel
  refine ⟨h.stored, hinv, fun _ => h.marked hmarked, ?_, ?_, ?_⟩
  · intro _ _ hcan
    exact absurd hcan (h.marked hmarked)
  · intro id hid
    exact h.waiting id hid
  · intro id _ _ hheld
    rw [hclear] at hheld
    exact absurd hheld (Multiset.notMem_zero id)

theorem Inv.expire (h : Inv c s) {now probe : Nat} (hstep : s.expire now probe = some s') :
    Inv c s' := by
  obtain ⟨hprobe, rfl⟩ := expire_spec hstep
  refine h.keep (h.stored.listExpiredCb hprobe) fun _ hguard => ?_
  rcases hguard with hchecked | hmarked | ⟨hcan, hqueued | ⟨a, ha, harmed⟩⟩
  · exact .inl hchecked
  · exact .inr (.inl hmarked)
  · exact .inr (.inr ⟨hcan, .inl (List.mem_append_left _ hqueued)⟩)
  · rcases harmed.listExpiredCb now probe with harmed | hmem
    · exact .inr (.inr ⟨hcan, .inr ⟨a, ha, harmed⟩⟩)
    · refine .inr (.inr ⟨hcan, .inl (List.mem_append_right _ ?_)⟩)
      exact List.mem_filterMap.mpr ⟨_, hmem, rfl⟩

theorem Foreign.target_ne {op : TimerManager.Op TimerFn} (hop : s.Foreign op) {a : Nat}
    (ha : s.timer = some a) : op.target ≠ some a := by
  intro htarget
  cases op with
  | addTimer addr ms cb recurring now => cases htarget
  | getNextTimer now => cases htarget
  | listExpiredCb now probe => exact hop
  | cancel b =>
      rcases hop with hnone | hne
      · cases hnone
      · exact hne (htarget.trans ha.symm)
  | refresh b now =>
      rcases hop with hnone | hne
      · cases hnone
      · exact hne (htarget.trans ha.symm)
  | reset b ms fromNow seen now =>
      rcases hop with hnone | hne
      · cases hnone
      · exact hne (htarget.trans ha.symm)
  | release b =>
      rcases hop with hnone | hne
      · cases hnone
      · exact hne (htarget.trans ha.symm)

theorem Inv.otherTimers (h : Inv c s) {op : TimerManager.Op TimerFn}
    (hstep : s.otherTimers op = some s') : Inv c s' := by
  obtain ⟨hop, front, m, hrun, rfl⟩ := otherTimers_spec hstep
  have hmove := TimerManager.run_move h.stored hrun
  refine h.keep (hmove.stored h.stored) fun _ hguard => ?_
  rcases hguard with hchecked | hmarked | ⟨hcan, hqueued | ⟨a, ha, harmed⟩⟩
  · exact .inl hchecked
  · exact .inr (.inl hmarked)
  · exact .inr (.inr ⟨hcan, .inl hqueued⟩)
  · refine .inr (.inr ⟨hcan, .inr ⟨a, ha, ?_⟩⟩)
    refine hmove.armed h.stored (Foreign.target_ne hop ha) ?_ harmed
    rintro now probe rfl
    exact hop

theorem Inv.otherEvents (h : Inv c s) {op : IOManager.Op} (hstep : s.otherEvents op = some s') :
    Inv c s' := by
  obtain ⟨hop, r, hr, rfl⟩ := otherEvents_spec hstep
  obtain ⟨hinv, hnext, -⟩ := IOManager.Registry.step_spec h.registry hop hr
  refine ⟨h.stored, hinv, h.marked, h.armed, ?_, ?_⟩
  · intro id hid
    exact Nat.lt_of_lt_of_le (h.waiting id hid) hnext
  · intro id hid hto hheld
    rcases IOManager.Registry.step_held hop hr hheld with hnew | hold
    · exact absurd hnew (Nat.ne_of_lt (h.waiting id hid))
    · exact h.covered id hid hto hold

theorem step_inv {a : Action} (h : Inv c s) (hok : s.InTime a) (hstep : s.step c a = some s') :
    Inv c s' := by
  cases a with
  | enter hookEnable ctx => exact h.enter hstep
  | io n errno => exact h.io hstep
  | arm addr now => exact h.arm hstep
  | addEvent ctl => exact h.addEvent hok hstep
  | yieldToHold => exact h.yieldToHold hstep
  | wake => exact h.wake hstep
  | cancelTimer => exact h.cancelTimer hstep
  | resume => exact h.resume hstep
  | invoke i => exact h.invoke hstep
  | mark => exact h.mark hstep
  | cancelEvent ctl => exact h.cancelEvent hok hstep
  | expire now probe => exact h.expire hstep
  | otherTimers op => exact h.otherTimers hstep
  | otherEvents op => exact h.otherEvents hstep

/-! ## Runs -/

theorem reachable_inv (h : (system c).ReachableBy InTime s) : Inv c s := by
  refine h.invariant (P := Inv c) ?_ ?_
  · rintro s ⟨timers, registry, queued, rfl, htimers, hregistry, -⟩
    refine ⟨TimerManager.reachable_stored htimers,
      IOManager.Registry.reachable_inv hregistry, (fun hne => absurd rfl hne),
      (fun hpc => nomatch hpc), ?_, ?_⟩
    · intro id hid
      cases hid
    · intro id hid
      cases hid
  · intro s a s' hs hok hstep
    exact step_inv hs hok hstep

/-- **The timeout is not lost** in runs whose `addEvent` is in time: a
parked fiber has a callback left that will call `cancelEvent`. -/
theorem timeout_not_lost (h : (system c).ReachableBy InTime s) (hto : s.timeout ≠ noTimeout)
    (hparked : Parked c s) : Pending c s := by
  obtain ⟨id, hpc, hheld⟩ := hparked
  exact ((reachable_inv h).covered id (by rw [hpc]; rfl) hto hheld).pending

/-- An `addEvent` that is not in time does lose it: the fiber parks and
no callback is left. -/
theorem lost_of_late {s'' : DoIo} (hlate : ¬s.InTime (.addEvent true))
    (hadd : s.addEvent c true = some s') (hyield : s'.yieldToHold = some s'') :
    Parked c s'' ∧ ¬Pending c s'' := by
  obtain ⟨hcan, hchecked, hmarked⟩ : s.cancelled ≠ 0 ∧ s.checked = 0 ∧ s.marked = 0 := by
    simpa [InTime] using hlate
  obtain ⟨-, rt, m, hok, ⟨rfl, rfl⟩ | ⟨-, rfl⟩⟩ := addEvent_spec hadd
  · obtain rfl := Option.some.inj hyield
    refine ⟨⟨_, rfl, IOManager.addEvent_mem (Option.some_ne_none _) hok⟩, ?_⟩
    rintro (hne | hne | ⟨hzero, -⟩)
    · exact hne hchecked
    · exact hne hmarked
    · exact hcan hzero
  · cases hyield

/-- A read on socket 3 with a timeout of 10: the fiber is parked and the
timer has expired. -/
def readCall : IoCall := ⟨3, .READ, .inl rfl, true, 9, 5, 1⟩

theorem timeout_not_lost_expired :
    ∃ s, (system readCall).ReachableBy InTime s ∧ s.timers.timers = [] ∧
      Parked readCall s ∧ Pending readCall s := by
  have hinit : (system readCall).ReachableBy InTime
      (start (TimerManager.new 0) ⟨IOManager.new, 0, 0⟩ []) :=
    .init ⟨_, _, _, rfl, .init ⟨0, rfl⟩, .init rfl, (fun a t cb h => nomatch h),
      (fun cb h => nomatch h)⟩
  have henter := hinit.step (e := .enter true (some ⟨true, true, true, false, false, 10, noTimeout⟩))
    (by simp [InTime]) rfl
  have hio := henter.step (e := .io (-1) EAGAIN) (by simp [InTime]) rfl
  have harm := hio.step (e := .arm 7 0) (by simp [InTime]) rfl
  have hadd := harm.step (e := .addEvent true) (by rintro -; exact .inl rfl) rfl
  have hyield := hadd.step (e := .yieldToHold) (by simp [InTime]) rfl
  have hexpire := hyield.step (e := .expire 10 8) (by simp [InTime]) rfl
  suffices hparked : Parked readCall _ from
    ⟨_, hexpire, rfl, hparked, timeout_not_lost hexpire (by decide) hparked⟩
  exact ⟨0, rfl, Multiset.mem_singleton_self 0⟩

/-- **The timeout can be lost**: it is 0, and the callback runs before
the event is registered. -/
theorem timeout_can_be_lost :
    ¬∀ s, (system readCall).Reachable s → s.timeout ≠ noTimeout →
      Parked readCall s → Pending readCall s := by
  intro hall
  have hinit : (system readCall).Reachable
      (start (TimerManager.new 0) ⟨IOManager.new, 0, 0⟩ []) :=
    .init ⟨_, _, _, rfl, .init ⟨0, rfl⟩, .init rfl, (fun a t cb h => nomatch h),
      (fun cb h => nomatch h)⟩
  have hbefore := hinit.next (e := .enter true (some ⟨true, true, true, false, false, 0, noTimeout⟩)) rfl
    |>.next (e := .io (-1) EAGAIN) rfl
    |>.next (e := .arm 7 0) rfl
    |>.next (e := .expire 0 8) rfl
    |>.next (e := .invoke 0) rfl
    |>.next (e := .mark) rfl
    |>.next (e := .cancelEvent true) rfl
  have hparked := hbefore.next (e := .addEvent true) rfl
    |>.next (e := .yieldToHold) rfl
  obtain hne | hne | ⟨hzero, -⟩ :=
    hall _ hparked (by decide) ⟨0, rfl, Multiset.mem_singleton_self 0⟩
  · exact hne rfl
  · exact hne rfl
  · cases hzero

end DoIo

end Sylar
