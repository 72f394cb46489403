import Mathlib.Tactic.Abel
import Sylar.IOManager

/-!
# Every registration is scheduled once

`Registered m ids`: in each context a set bit has a scheduler and one
task, a clear bit has nothing; the counter counts the bits; and the
tasks in the contexts together with those handed to `schedule()` are
the handles `ids`, each as often as it occurs there. Triggering an
event moves a handle from a context to the schedulers and keeps `ids`;
`addEvent` adds one handle, `delEvent` takes one away
(`trigger_spec`, `addEvent_spec`, `delEvent_spec`).

`Registry` follows a run: `next` numbers the successful `addEvent`
calls and `deleted` collects what `delEvent` dropped. Every handle ever
registered is in exactly one place (`registry_inv`).
-/

namespace Sylar

/-! ## Event bits -/

@[simp] theorem Event.and_read (a b : Event) : (a &&& b).read = (a.read && b.read) := rfl
@[simp] theorem Event.and_write (a b : Event) : (a &&& b).write = (a.write && b.write) := rfl
@[simp] theorem Event.or_read (a b : Event) : (a ||| b).read = (a.read || b.read) := rfl
@[simp] theorem Event.or_write (a b : Event) : (a ||| b).write = (a.write || b.write) := rfl
@[simp] theorem Event.not_read (a : Event) : (~~~a).read = !a.read := rfl
@[simp] theorem Event.not_write (a : Event) : (~~~a).write = !a.write := rfl

/-- One of the two events a context exists for. -/
def Event.Single (e : Event) : Prop := e = .READ ∨ e = .WRITE

theorem Event.Single.bits_clear {e ev : Event} (he : e.Single)
    (hset : (ev &&& e).nonzero = true) : (ev &&& ~~~e).bits + 1 = ev.bits := by
  rcases he with rfl | rfl
  · have hbit : ev.read = true := by simpa [nonzero, READ] using hset
    simp [bits, READ, hbit, Nat.add_comm]
  · have hbit : ev.write = true := by simpa [nonzero, WRITE] using hset
    simp [bits, WRITE, hbit]

theorem Event.Single.bits_register {e ev : Event} (he : e.Single)
    (hclear : (ev &&& e).nonzero = false) : (ev ||| e).bits = ev.bits + 1 := by
  rcases he with rfl | rfl
  · have hbit : ev.read = false := by simpa [nonzero, READ] using hclear
    simp [bits, READ, hbit, Nat.add_comm]
  · have hbit : ev.write = false := by simpa [nonzero, WRITE] using hclear
    simp [bits, WRITE, hbit]

/-! ## The invariant -/

/-- The handles a context holds. -/
def EventContext.ids (ctx : EventContext) : Multiset Nat :=
  ((ctx.fiber.toList ++ ctx.cb.toList).map Handle.id : List Nat)

def FdContext.ids (c : FdContext) : Multiset Nat := c.read.ids + c.write.ids

/-- A context whose bit is `bit`. -/
def EventContext.Holds (bit : Bool) (ctx : EventContext) : Prop :=
  if bit then ctx.scheduler ≠ none ∧ ctx.fiber.isSome ≠ ctx.cb.isSome else ctx = .empty

structure FdContext.Consistent (c : FdContext) : Prop where
  read : c.read.Holds c.events.read
  write : c.write.Holds c.events.write

namespace IOManager

variable {m m' : IOManager} {fd : Int} {c c' : FdContext} {event : Event} {ids : Multiset Nat}

def live (m : IOManager) : Multiset Nat := (m.fdContexts.map FdContext.ids).sum

def handed (m : IOManager) : Multiset Nat := (m.scheduled.map fun s => s.task.id : List Nat)

/-- The number of set bits. -/
def bits (m : IOManager) : Nat := (m.fdContexts.map fun c => c.events.bits).sum

structure Registered (m : IOManager) (ids : Multiset Nat) : Prop where
  consistent : ∀ c ∈ m.fdContexts, c.Consistent
  count : m.pendingEventCount = m.bits
  owned : m.handed + m.live = ids

end IOManager

/-! ## One context -/

theorem EventContext.eq_empty {ctx : EventContext}
    (h : ¬(ctx.scheduler.isSome || ctx.fiber.isSome || ctx.cb.isSome) = true) : ctx = .empty := by
  obtain ⟨s, f, g⟩ := ctx
  simpa [empty, and_assoc] using h

/-- What a set bit stands for: a scheduler and one task. -/
theorem EventContext.Holds.exists_task {ctx : EventContext} (h : ctx.Holds true) :
    ∃ s h, ctx.scheduler = some s ∧
      (ctx.cb = some h ∧ ctx.fiber = none ∨ ctx.cb = none ∧ ctx.fiber = some h) := by
  obtain ⟨hs, hone⟩ := h
  obtain ⟨s, hs⟩ := Option.ne_none_iff_exists'.mp hs
  cases hcb : ctx.cb with
  | some g =>
      cases hf : ctx.fiber with
      | some f => exact absurd (by rw [hcb, hf]; rfl) hone
      | none => exact ⟨s, g, hs, .inl ⟨rfl, rfl⟩⟩
  | none =>
      cases hf : ctx.fiber with
      | some f => exact ⟨s, f, hs, .inr ⟨rfl, rfl⟩⟩
      | none => exact absurd (by rw [hcb, hf]) hone

namespace FdContext

variable {c : FdContext} {event : Event} {x : EventContext}

/-- The context of a single event. -/
def ctx (c : FdContext) (event : Event) : EventContext :=
  if event = .READ then c.read else c.write

theorem getContext_eq (he : event.Single) : c.getContext event = .ok (c.ctx event) := by
  rcases he with rfl | rfl
  · rfl
  · rfl

/-- Only the two single events have a context. -/
theorem single_of_getContext (h : c.getContext event = .ok x) : event.Single := by
  unfold getContext at h
  by_cases hr : event = .READ
  · exact .inl hr
  by_cases hw : event = .WRITE
  · exact .inr hw
  rw [if_neg hr, if_neg hw] at h
  cases h

theorem events_setContext (c : FdContext) (event : Event) (x : EventContext) :
    (c.setContext event x).events = c.events := by
  unfold setContext
  split
  · rfl
  · split <;> rfl

theorem ids_setContext (he : event.Single) :
    (c.setContext event x).ids + (c.ctx event).ids = c.ids + x.ids := by
  rcases he with rfl | rfl
  · show x.ids + c.write.ids + c.read.ids = c.read.ids + c.write.ids + x.ids
    abel
  · show c.read.ids + x.ids + c.write.ids = c.read.ids + c.write.ids + x.ids
    abel

theorem new_consistent : new.Consistent := ⟨rfl, rfl⟩

theorem Consistent.holds (hc : c.Consistent) (he : event.Single)
    (hset : (c.events &&& event).nonzero = true) : (c.ctx event).Holds true := by
  rcases he with rfl | rfl
  · have hbit : c.events.read = true := by simpa [Event.nonzero, Event.READ] using hset
    exact hbit ▸ hc.read
  · have hbit : c.events.write = true := by simpa [Event.nonzero, Event.WRITE] using hset
    exact hbit ▸ hc.write

theorem Consistent.eq_empty (hc : c.Consistent) (he : event.Single)
    (hclear : (c.events &&& event).nonzero = false) : c.ctx event = .empty := by
  rcases he with rfl | rfl
  · have hbit : c.events.read = false := by simpa [Event.nonzero, Event.READ] using hclear
    have hread := hc.read
    rw [hbit] at hread
    exact hread
  · have hbit : c.events.write = false := by simpa [Event.nonzero, Event.WRITE] using hclear
    have hwrite := hc.write
    rw [hbit] at hwrite
    exact hwrite

/-- Clearing a bit together with its context. -/
theorem Consistent.clear (hc : c.Consistent) (he : event.Single) :
    ({ c with events := c.events &&& ~~~event }.setContext event .empty).Consistent := by
  rcases he with rfl | rfl
  · refine ⟨?_, ?_⟩
    · simp [setContext, Event.READ, EventContext.Holds]
    · simpa [setContext, Event.READ] using hc.write
  · refine ⟨?_, ?_⟩
    · simpa [setContext, Event.READ, Event.WRITE] using hc.read
    · simp [setContext, Event.READ, Event.WRITE, EventContext.Holds]

/-- Setting a bit together with its context. -/
theorem Consistent.register (hc : c.Consistent) (he : event.Single) (hx : x.Holds true) :
    ({ c with events := c.events ||| event }.setContext event x).Consistent := by
  rcases he with rfl | rfl
  · refine ⟨?_, ?_⟩
    · simpa [setContext, Event.READ] using hx
    · simpa [setContext, Event.READ] using hc.write
  · refine ⟨?_, ?_⟩
    · simpa [setContext, Event.READ, Event.WRITE] using hc.read
    · simpa [setContext, Event.READ, Event.WRITE] using hx

/-- Triggering empties the context and schedules what it held. -/
theorem triggerEvent_eq (he : event.Single) (hset : (c.events &&& event).nonzero = true)
    {s : Nat} {h : Handle} {task : Task} (hs : (c.ctx event).scheduler = some s)
    (htask : (c.ctx event).cb = some h ∧ (c.ctx event).fiber = none ∧ task = .cb h ∨
      (c.ctx event).cb = none ∧ (c.ctx event).fiber = some h ∧ task = .fiber h) :
    c.triggerEvent event =
      .ok ({ c with events := c.events &&& ~~~event }.setContext event .empty,
        some ⟨s, task⟩) := by
  have hget : getContext { c with events := c.events &&& ~~~event } event = .ok (c.ctx event) :=
    getContext_eq he
  rw [triggerEvent, hset]
  simp only [Bool.not_true, Bool.false_eq_true, if_false, hget, bind, Except.bind, hs]
  rcases htask with ⟨hcb, hf, rfl⟩ | ⟨hcb, hf, rfl⟩
  · simp only [hcb, hf]
    rfl
  · simp only [hcb, hf]
    rfl

/-- Triggering a set bit clears it and hands its one task over. -/
theorem triggerEvent_spec (hc : c.Consistent) (he : event.Single)
    (hset : (c.events &&& event).nonzero = true) :
    ∃ c' s, c.triggerEvent event = .ok (c', some s) ∧ c'.Consistent ∧
      c'.events = c.events &&& ~~~event ∧ (c.ctx event).ids = {s.task.id} ∧
      s.task.id ::ₘ c'.ids = c.ids := by
  set cleared : FdContext := { c with events := c.events &&& ~~~event }
  have hids (h : Nat) (hh : (c.ctx event).ids = {h}) :
      h ::ₘ (cleared.setContext event .empty).ids = c.ids := by
    have hset := ids_setContext (c := cleared) (x := .empty) he
    rw [show cleared.ctx event = c.ctx event from rfl, hh, add_comm] at hset
    rw [← Multiset.singleton_add]
    exact hset.trans (add_zero _)
  have hspec (task : Task) (s : Nat) (htrigger : c.triggerEvent event =
        .ok (cleared.setContext event .empty, some ⟨s, task⟩))
      (htask : (c.ctx event).ids = {task.id}) :
      ∃ c' s, c.triggerEvent event = .ok (c', some s) ∧ c'.Consistent ∧
        c'.events = c.events &&& ~~~event ∧ (c.ctx event).ids = {s.task.id} ∧
        s.task.id ::ₘ c'.ids = c.ids :=
    ⟨_, _, htrigger, hc.clear he, events_setContext .., htask, hids _ htask⟩
  obtain ⟨s, h, hs, ⟨hcb, hf⟩ | ⟨hcb, hf⟩⟩ := (hc.holds he hset).exists_task
  · refine hspec (.cb h) s (triggerEvent_eq he hset hs (.inl ⟨hcb, hf, rfl⟩)) ?_
    rw [EventContext.ids, hcb, hf]
    rfl
  · refine hspec (.fiber h) s (triggerEvent_eq he hset hs (.inr ⟨hcb, hf, rfl⟩)) ?_
    rw [EventContext.ids, hcb, hf]
    rfl

end FdContext

/-! ## The manager -/

namespace IOManager

variable {m m' : IOManager} {fd : Int} {c c' : FdContext} {event : Event} {ids ids' : Multiset Nat}
  {ctl : Bool}

theorem fdContext_eq_ok : m.fdContext fd = .ok c ↔ 0 ≤ fd ∧ m.fdContexts[fd.toNat]? = some c := by
  unfold fdContext
  by_cases h0 : 0 ≤ fd
  · rw [if_pos h0]
    cases hget : m.fdContexts[fd.toNat]? with
    | none => simp
    | some d => simp [h0]
  · rw [if_neg h0]
    simp [h0]

theorem fdContext_put (h : m.fdContext fd = .ok c) : (m.put fd c').fdContext fd = .ok c' := by
  rw [fdContext_eq_ok] at h ⊢
  refine ⟨h.1, ?_⟩
  have hlt : fd.toNat < m.fdContexts.length := (List.getElem?_eq_some_iff.mp h.2).1
  simp [put, hlt]

theorem Registered.of_fdContext (h : Registered m ids) (hc : m.fdContext fd = .ok c) :
    c.Consistent := h.consistent c (List.mem_of_getElem? (fdContext_eq_ok.mp hc).2)

theorem Registered.bits_le (h : Registered m ids) (hc : m.fdContext fd = .ok c) :
    c.events.bits ≤ m.pendingEventCount := by
  have hsum := sum_map_set (fun c => c.events.bits) .new (fdContext_eq_ok.mp hc).2
  rw [h.count, bits]
  exact Nat.le.intro ((Nat.add_comm ..).trans hsum)

theorem ids_le_live (hc : m.fdContext fd = .ok c) : c.ids ≤ m.live := by
  have hlive := sum_map_set FdContext.ids .new (fdContext_eq_ok.mp hc).2
  calc c.ids ≤ ((m.fdContexts.set fd.toNat .new).map FdContext.ids).sum + c.ids :=
        Multiset.le_add_left _ _
    _ = m.live + FdContext.new.ids := hlive
    _ = m.live := add_zero _

theorem Registered.ids_le (h : Registered m ids) (hc : m.fdContext fd = .ok c) :
    c.ids ≤ ids := by
  calc c.ids ≤ m.live := ids_le_live hc
    _ ≤ m.handed + m.live := Multiset.le_add_left _ _
    _ = ids := h.owned

/-- Replacing one context, with the counter and the queue to match. -/
theorem Registered.put (h : Registered m ids) (hc : m.fdContext fd = .ok c)
    (hc' : c'.Consistent) {n : Nat} (tasks : List Scheduled) (ids' : Multiset Nat)
    (hcount : n + c.events.bits = m.pendingEventCount + c'.events.bits)
    (hids : (tasks.map (·.task.id) : List Nat) + c'.ids + ids = c.ids + ids') :
    Registered { m.put fd c' with
      pendingEventCount := n, scheduled := m.scheduled ++ tasks } ids' where
  consistent d hd := by
    rcases List.mem_or_eq_of_mem_set hd with hd | rfl
    · exact h.consistent d hd
    · exact hc'
  count := by
    have hbits := sum_map_set (fun c => c.events.bits) c' (fdContext_eq_ok.mp hc).2
    have hm := h.count
    simp only [bits] at hm ⊢
    show n = ((m.fdContexts.set fd.toNat c').map fun c => c.events.bits).sum
    omega
  owned := by
    have hlive := sum_map_set FdContext.ids c' (fdContext_eq_ok.mp hc).2
    have hm := h.owned
    simp only [live, handed] at hm ⊢
    show ((m.scheduled ++ tasks).map fun s => s.task.id : List Nat) +
      ((m.fdContexts.set fd.toNat c').map FdContext.ids).sum = ids'
    rw [List.map_append, ← Multiset.coe_add]
    set H : Multiset Nat := ((m.scheduled.map fun s => s.task.id : List Nat) : Multiset Nat)
    set T : Multiset Nat := ((tasks.map fun s => s.task.id : List Nat) : Multiset Nat)
    set L := (m.fdContexts.map FdContext.ids).sum
    set L' := ((m.fdContexts.set fd.toNat c').map FdContext.ids).sum
    refine add_left_cancel (a := c.ids) ?_
    calc c.ids + (H + T + L') = H + T + (L' + c.ids) := by abel
      _ = H + T + (L + c'.ids) := by rw [hlive]
      _ = T + c'.ids + (H + L) := by abel
      _ = c.ids + ids' := by rw [hm, hids]

/-- The context of a descriptor: a fresh one where the table does not
reach. -/
def context (m : IOManager) (fd : Nat) : FdContext := m.fdContexts[fd]?.getD .new

/-- Growing the table. -/
theorem Registered.grow (h : Registered m ids) (n : Nat) :
    Registered { m with fdContexts := m.fdContexts ++ List.replicate n .new } ids where
  consistent c hc := by
    rcases List.mem_append.mp hc with hc | hc
    · exact h.consistent c hc
    · rw [List.eq_of_mem_replicate hc]
      exact FdContext.new_consistent
  count := by
    rw [h.count]
    simp [bits, FdContext.new, Event.bits, Event.NONE]
  owned := by
    rw [← h.owned]
    have : FdContext.new.ids = 0 := rfl
    simp [live, handed, this]

theorem contextResize_eq {size : Nat} (h : m.fdContexts.length ≤ size) :
    m.contextResize size = { m with
      fdContexts := m.fdContexts ++ List.replicate (size - m.fdContexts.length) .new } := by
  rw [contextResize, List.take_of_length_le h]

theorem context_grow (m : IOManager) (n fd : Nat) :
    ({ m with fdContexts := m.fdContexts ++ List.replicate n .new } : IOManager).context fd =
      m.context fd := by
  simp only [context]
  rcases Nat.lt_or_ge fd m.fdContexts.length with hlt | hge
  · rw [List.getElem?_append_left hlt]
  · rw [List.getElem?_append_right hge, List.getElem?_eq_none hge, List.getElem?_replicate]
    split <;> rfl

/-! ## What each operation does -/

theorem addEventLocked_cases {caller : Caller} {id : Nat} {cb : Option Nat} {rt : Int}
    (hadd : m.addEventLocked caller id fd event cb ctl = .ok (rt, m')) :
    rt = -1 ∧ ctl = false ∧ m' = m ∨
      rt = 0 ∧ ctl = true ∧ event.Single ∧ ∃ c x, m.fdContext fd = .ok c ∧
        (c.events &&& event).nonzero = false ∧ c.ctx event = .empty ∧
        register caller id cb .empty = .ok x ∧
        m' = { m.put fd (FdContext.setContext { c with events := c.events ||| event } event x) with
          pendingEventCount := m.pendingEventCount + 1 } := by
  obtain ⟨c, hc, hadd⟩ := bind_eq_ok.mp hadd
  by_cases hset : (c.events &&& event).nonzero = true
  · rw [if_pos hset] at hadd
    cases hadd
  rw [if_neg hset] at hadd
  cases ctl with
  | false =>
      obtain ⟨rfl, rfl⟩ := Prod.mk.inj (Except.ok.inj hadd)
      exact .inl ⟨rfl, rfl, rfl⟩
  | true =>
      right
      obtain ⟨ctx, hget, hadd⟩ := bind_eq_ok.mp hadd
      have he := FdContext.single_of_getContext hget
      obtain rfl : c.ctx event = ctx :=
        Except.ok.inj ((FdContext.getContext_eq he).symm.trans hget)
      split at hadd
      · cases hadd
      rename_i hunused
      have hempty := EventContext.eq_empty hunused
      obtain ⟨x, hx, hadd⟩ := bind_eq_ok.mp hadd
      obtain ⟨rfl, rfl⟩ := Prod.mk.inj (Except.ok.inj hadd)
      rw [hempty] at hx
      exact ⟨rfl, rfl, he, c, x, hc, Bool.eq_false_iff.mpr hset, hempty, hx, rfl⟩

theorem delEvent_cases {done : Bool} (hdel : m.delEvent fd event ctl = .ok (done, m')) :
    done = false ∧ m' = m ∨ done = true ∧ ctl = true ∧ event.Single ∧
      ∃ c, m.fdContext fd = .ok c ∧ (c.events &&& event).nonzero = true ∧
        m' = { m.put fd
            (FdContext.setContext { c with events := c.events &&& ~~~event } event .empty) with
          pendingEventCount := dec64 m.pendingEventCount } := by
  unfold delEvent at hdel
  split at hdel
  · obtain ⟨rfl, rfl⟩ := Prod.mk.inj (Except.ok.inj hdel)
    exact .inl ⟨rfl, rfl⟩
  obtain ⟨c, hc, hdel⟩ := bind_eq_ok.mp hdel
  split at hdel
  · obtain ⟨rfl, rfl⟩ := Prod.mk.inj (Except.ok.inj hdel)
    exact .inl ⟨rfl, rfl⟩
  rename_i hset
  cases ctl with
  | false =>
      obtain ⟨rfl, rfl⟩ := Prod.mk.inj (Except.ok.inj hdel)
      exact .inl ⟨rfl, rfl⟩
  | true =>
      obtain ⟨ctx, hget, hdel⟩ := bind_eq_ok.mp hdel
      obtain ⟨rfl, rfl⟩ := Prod.mk.inj (Except.ok.inj hdel)
      exact .inr ⟨rfl, rfl, FdContext.single_of_getContext hget, c, hc, by simpa using hset, rfl⟩

theorem cancelEvent_cases {done : Bool} (hcancel : m.cancelEvent fd event ctl = .ok (done, m')) :
    done = false ∧ m' = m ∨ done = true ∧ ctl = true ∧ m.trigger fd event = .ok m' := by
  unfold cancelEvent at hcancel
  split at hcancel
  · obtain ⟨rfl, rfl⟩ := Prod.mk.inj (Except.ok.inj hcancel)
    exact .inl ⟨rfl, rfl⟩
  obtain ⟨c, hc, hcancel⟩ := bind_eq_ok.mp hcancel
  split at hcancel
  · obtain ⟨rfl, rfl⟩ := Prod.mk.inj (Except.ok.inj hcancel)
    exact .inl ⟨rfl, rfl⟩
  cases ctl with
  | false =>
      obtain ⟨rfl, rfl⟩ := Prod.mk.inj (Except.ok.inj hcancel)
      exact .inl ⟨rfl, rfl⟩
  | true =>
      obtain ⟨m₁, htrigger, hcancel⟩ := bind_eq_ok.mp hcancel
      obtain ⟨rfl, rfl⟩ := Prod.mk.inj (Except.ok.inj hcancel)
      exact .inr ⟨rfl, rfl, htrigger⟩

theorem cancelAll_cases {done : Bool} (hcancel : m.cancelAll fd ctl = .ok (done, m')) :
    done = false ∧ m' = m ∨ done = true ∧ ctl = true ∧ ∃ read write m₁,
      m.triggerIf read fd .READ = .ok m₁ ∧ m₁.triggerIf write fd .WRITE = .ok m' := by
  unfold cancelAll at hcancel
  split at hcancel
  · obtain ⟨rfl, rfl⟩ := Prod.mk.inj (Except.ok.inj hcancel)
    exact .inl ⟨rfl, rfl⟩
  obtain ⟨c, hc, hcancel⟩ := bind_eq_ok.mp hcancel
  split at hcancel
  · obtain ⟨rfl, rfl⟩ := Prod.mk.inj (Except.ok.inj hcancel)
    exact .inl ⟨rfl, rfl⟩
  cases ctl with
  | false =>
      obtain ⟨rfl, rfl⟩ := Prod.mk.inj (Except.ok.inj hcancel)
      exact .inl ⟨rfl, rfl⟩
  | true =>
      obtain ⟨m₁, hread, hcancel⟩ := bind_eq_ok.mp hcancel
      obtain ⟨c₁, -, hcancel⟩ := bind_eq_ok.mp hcancel
      obtain ⟨m₂, hwrite, hcancel⟩ := bind_eq_ok.mp hcancel
      obtain ⟨c₂, -, hcancel⟩ := bind_eq_ok.mp hcancel
      split at hcancel
      · obtain ⟨rfl, rfl⟩ := Prod.mk.inj (Except.ok.inj hcancel)
        exact .inr ⟨rfl, rfl, _, _, m₁, hread, hwrite⟩
      · cases hcancel

theorem dispatch_cases {ev : EpollEvents} (hdispatch : m.dispatch fd ev ctl = .ok m') :
    m' = m ∨ ctl = true ∧ ∃ c m₁, m.fdContext fd = .ok c ∧
      m.triggerIf (realEvents c ev).read fd .READ = .ok m₁ ∧
      m₁.triggerIf (realEvents c ev).write fd .WRITE = .ok m' := by
  obtain ⟨c, hc, hdispatch⟩ := bind_eq_ok.mp hdispatch
  simp only at hdispatch
  split at hdispatch
  · exact .inl (Except.ok.inj hdispatch).symm
  · cases ctl with
    | false => exact .inl (Except.ok.inj hdispatch).symm
    | true =>
        obtain ⟨m₁, hread, hwrite⟩ := bind_eq_ok.mp hdispatch
        exact .inr ⟨rfl, c, m₁, hc, hread, hwrite⟩

/-! ## What the operations keep -/

/-- Triggering a set bit moves its handle to the schedulers. -/
theorem trigger_spec (h : Registered m ids) (hc : m.fdContext fd = .ok c) (he : event.Single)
    (hset : (c.events &&& event).nonzero = true) :
    ∃ m' c' s, m.trigger fd event = .ok m' ∧ Registered m' ids ∧ m'.fdContext fd = .ok c' ∧
      c'.events = c.events &&& ~~~event ∧ m'.scheduled = m.scheduled ++ [s] ∧
      m'.pendingEventCount + 1 = m.pendingEventCount := by
  obtain ⟨c', s, htrigger, hc', hev, -, hids⟩ :=
    FdContext.triggerEvent_spec (h.of_fdContext hc) he hset
  have hbits := he.bits_clear hset
  have hle := h.bits_le hc
  have hdec := dec64_add_one (show 0 < m.pendingEventCount by omega)
  refine ⟨_, c', s, ?_, h.put hc hc' [s] _ (n := dec64 m.pendingEventCount) ?_ ?_, ?_, hev, rfl,
    hdec⟩
  · simp only [trigger, hc, htrigger, bind, Except.bind, pure, Except.pure, Option.toList_some]
  · rw [hev]
    omega
  · show {s.task.id} + c'.ids + ids = c.ids + ids
    rw [← hids, Multiset.singleton_add]
  · exact fdContext_put hc

/-- Triggering that does not end the process is of a set bit. -/
theorem trigger_set (hc : m.fdContext fd = .ok c) (htrigger : m.trigger fd event = .ok m') :
    event.Single ∧ (c.events &&& event).nonzero = true := by
  obtain ⟨d, hd, hrest⟩ := bind_eq_ok.mp htrigger
  obtain rfl := Except.ok.inj (hc.symm.trans hd)
  obtain ⟨⟨c', task⟩, hc', -⟩ := bind_eq_ok.mp hrest
  have hset : (c.events &&& event).nonzero = true := by
    by_contra hclear
    rw [FdContext.triggerEvent, Bool.eq_false_iff.mpr hclear] at hc'
    cases hc'
  rw [FdContext.triggerEvent, hset] at hc'
  obtain ⟨ctx, hget, -⟩ := bind_eq_ok.mp hc'
  exact ⟨FdContext.single_of_getContext hget, hset⟩

theorem trigger_inv (h : Registered m ids) (htrigger : m.trigger fd event = .ok m') :
    Registered m' ids ∧ ∃ c c', m.fdContext fd = .ok c ∧ m'.fdContext fd = .ok c' ∧
      (c.events &&& event).nonzero = true ∧ c'.events = c.events &&& ~~~event := by
  obtain ⟨c, hc, -⟩ := bind_eq_ok.mp htrigger
  obtain ⟨he, hset⟩ := trigger_set hc htrigger
  obtain ⟨m'', c', s, hok, hreg, hc', hev, -⟩ := trigger_spec h hc he hset
  obtain rfl := Except.ok.inj (hok.symm.trans htrigger)
  exact ⟨hreg, c, c', hc, hc', hset, hev⟩

theorem triggerIf_inv (h : Registered m ids) {bit : Bool}
    (htrigger : m.triggerIf bit fd event = .ok m') : Registered m' ids := by
  cases bit with
  | true => exact (trigger_inv h htrigger).1
  | false =>
      obtain rfl := Except.ok.inj htrigger
      exact h

/-- Nothing about events has changed; the table may have grown. -/
structure SameEvents (m m' : IOManager) : Prop where
  context : ∀ fd, m'.context fd = m.context fd
  count : m'.pendingEventCount = m.pendingEventCount
  scheduled : m'.scheduled = m.scheduled

theorem SameEvents.refl (m : IOManager) : SameEvents m m := ⟨fun _ => rfl, rfl, rfl⟩

theorem register_spec {caller : Caller} (hcaller : caller.scheduler ≠ none) {id : Nat}
    {cb : Option Nat} {x : EventContext} (hx : register caller id cb .empty = .ok x) :
    x.Holds true ∧ x.ids = {id} := by
  cases cb with
  | some f =>
      obtain rfl := Except.ok.inj hx
      exact ⟨⟨hcaller, by simp [EventContext.empty]⟩, rfl⟩
  | none =>
      simp only [register] at hx
      split at hx
      · obtain rfl := Except.ok.inj hx
        exact ⟨⟨hcaller, by simp [EventContext.empty]⟩, rfl⟩
      · cases hx

theorem addEventLocked_spec (h : Registered m ids) {caller : Caller}
    (hcaller : caller.scheduler ≠ none) {id : Nat} {cb : Option Nat} {rt : Int}
    (hadd : m.addEventLocked caller id fd event cb ctl = .ok (rt, m')) :
    rt = -1 ∧ ctl = false ∧ m' = m ∨ rt = 0 ∧ ctl = true ∧ Registered m' (id ::ₘ ids) := by
  rcases addEventLocked_cases hadd with hfail | ⟨rfl, rfl, he, c, x, hc, hclear, hempty, hx, rfl⟩
  · exact .inl hfail
  obtain ⟨hholds, hids⟩ := register_spec hcaller hx
  refine .inr ⟨rfl, rfl, ?_⟩
  have hput := h.put hc ((h.of_fdContext hc).register he hholds) [] (id ::ₘ ids)
    (n := m.pendingEventCount + 1) ?_ ?_
  · rw [List.append_nil] at hput
    exact hput
  · rw [FdContext.events_setContext, he.bits_register hclear]
    omega
  · have hset := FdContext.ids_setContext (c := { c with events := c.events ||| event }) (x := x) he
    rw [show FdContext.ctx { c with events := c.events ||| event } event = .empty from hempty,
      hids] at hset
    have hset' : (FdContext.setContext { c with events := c.events ||| event } event x).ids =
        c.ids + {id} := (add_zero _).symm.trans hset
    show 0 + _ + ids = _
    rw [zero_add, hset', add_assoc, Multiset.singleton_add]

/-- A successful `addEvent` registers its handle; a failing `epoll_ctl`
leaves everything as it was. -/
theorem addEvent_spec (h : Registered m ids) {caller : Caller} (hcaller : caller.scheduler ≠ none)
    {id : Nat} {cb : Option Nat} {rt : Int}
    (hadd : m.addEvent caller id fd event cb ctl = .ok (rt, m')) :
    rt = -1 ∧ ctl = false ∧ Registered m' ids ∧ SameEvents m m' ∨
      rt = 0 ∧ ctl = true ∧ Registered m' (id ::ₘ ids) := by
  unfold addEvent at hadd
  split at hadd
  · rcases addEventLocked_spec h hcaller hadd with ⟨hrt, hctl, rfl⟩ | hok
    · exact .inl ⟨hrt, hctl, h, .refl _⟩
    · exact .inr hok
  · rename_i hlt
    rw [contextResize_eq (by omega : m.fdContexts.length ≤ fd.toNat * 3 / 2)] at hadd
    rcases addEventLocked_spec (h.grow _) hcaller hadd with ⟨hrt, hctl, rfl⟩ | hok
    · exact .inl ⟨hrt, hctl, h.grow _, context_grow m _, rfl, rfl⟩
    · exact .inr hok

/-- A successful `delEvent` drops the handle of its context. -/
theorem delEvent_spec (h : Registered m ids) {done : Bool}
    (hdel : m.delEvent fd event ctl = .ok (done, m')) :
    done = false ∧ m' = m ∨ done = true ∧ ctl = true ∧ ∃ c, m.fdContext fd = .ok c ∧
      ∃ ids', ids = (c.ctx event).ids + ids' ∧ Registered m' ids' := by
  rcases delEvent_cases hdel with hsame | ⟨rfl, rfl, he, c, hc, hset, rfl⟩
  · exact .inl hsame
  set cleared : FdContext := { c with events := c.events &&& ~~~event }
  have hids : (cleared.setContext event .empty).ids + (c.ctx event).ids = c.ids :=
    (FdContext.ids_setContext (c := cleared) (x := .empty) he).trans (add_zero _)
  have hle : (c.ctx event).ids ≤ ids := (hids ▸ Multiset.le_add_left _ _).trans (h.ids_le hc)
  obtain ⟨ids', rfl⟩ := Multiset.le_iff_exists_add.mp hle
  refine .inr ⟨rfl, rfl, c, hc, ids', rfl, ?_⟩
  have hbits := he.bits_clear hset
  have hbound := h.bits_le hc
  have hdec := dec64_add_one (show 0 < m.pendingEventCount by omega)
  have hput := h.put hc ((h.of_fdContext hc).clear he) [] ids' (n := dec64 m.pendingEventCount) ?_ ?_
  · rw [List.append_nil] at hput
    exact hput
  · rw [FdContext.events_setContext]
    show _ = _ + (c.events &&& ~~~event).bits
    omega
  · show 0 + (cleared.setContext event .empty).ids + ((c.ctx event).ids + ids') = c.ids + ids'
    rw [zero_add, ← add_assoc, hids]

theorem cancelEvent_spec (h : Registered m ids) {done : Bool}
    (hcancel : m.cancelEvent fd event ctl = .ok (done, m')) :
    done = false ∧ m' = m ∨ done = true ∧ ctl = true ∧ Registered m' ids := by
  rcases cancelEvent_cases hcancel with hsame | ⟨hdone, hctl, htrigger⟩
  · exact .inl hsame
  · exact .inr ⟨hdone, hctl, (trigger_inv h htrigger).1⟩

theorem cancelAll_spec (h : Registered m ids) {done : Bool}
    (hcancel : m.cancelAll fd ctl = .ok (done, m')) :
    done = false ∧ m' = m ∨ done = true ∧ ctl = true ∧ Registered m' ids := by
  rcases cancelAll_cases hcancel with hsame | ⟨hdone, hctl, read, write, m₁, hread, hwrite⟩
  · exact .inl hsame
  · exact .inr ⟨hdone, hctl, triggerIf_inv (triggerIf_inv h hread) hwrite⟩

theorem dispatch_spec (h : Registered m ids) {ev : EpollEvents}
    (hdispatch : m.dispatch fd ev ctl = .ok m') :
    m' = m ∨ ctl = true ∧ Registered m' ids := by
  rcases dispatch_cases hdispatch with hsame | ⟨hctl, c, m₁, -, hread, hwrite⟩
  · exact .inl hsame
  · exact .inr ⟨hctl, triggerIf_inv (triggerIf_inv h hread) hwrite⟩

/-! ## Runs -/

/-- The handles in the context of an event. -/
def held (m : IOManager) (fd : Int) (event : Event) : Multiset Nat :=
  match m.fdContext fd with
  | .error _ => 0
  | .ok c => (c.ctx event).ids

/-- The manager, the number of successful `addEvent` calls so far and
the handles that `delEvent` has dropped. -/
structure Registry where
  manager : IOManager
  next : Nat
  deleted : Multiset Nat

namespace Registry

def step (r : Registry) : Op → Except Abort Registry
  | .addEvent caller fd event cb ctl => do
      let (rt, m) ← r.manager.addEvent caller r.next fd event cb ctl
      return { r with manager := m, next := if rt = 0 then r.next + 1 else r.next }
  | .delEvent fd event ctl => do
      let (done, m) ← r.manager.delEvent fd event ctl
      return { r with
        manager := m
        deleted := if done then r.manager.held fd event + r.deleted else r.deleted }
  | .cancelEvent fd event ctl => do
      let (_, m) ← r.manager.cancelEvent fd event ctl
      return { r with manager := m }
  | .cancelAll fd ctl => do
      let (_, m) ← r.manager.cancelAll fd ctl
      return { r with manager := m }
  | .dispatch fd ev ctl => do
      let m ← r.manager.dispatch fd ev ctl
      return { r with manager := m }

/-- A fresh manager and any operations in any order; an aborted process
makes no further step. -/
def system : System Registry Op where
  init r := r = ⟨IOManager.new, 0, 0⟩
  step r op := (r.step op).toOption

/-- Every handle registered so far is in one place. -/
structure Inv (r : Registry) : Prop where
  registered : Registered r.manager (r.manager.handed + r.manager.live)
  placed : r.deleted + (r.manager.handed + r.manager.live) = Multiset.range r.next

theorem Inv.of_registered {r : Registry} {ids : Multiset Nat} (h : Registered r.manager ids)
    (hplaced : r.deleted + ids = Multiset.range r.next) : Inv r := by
  obtain rfl := h.owned
  exact ⟨h, hplaced⟩

theorem Inv.count_eq {r : Registry} (h : Inv r) (id : Nat) :
    r.deleted.count id + r.manager.handed.count id + r.manager.live.count id =
      if id < r.next then 1 else 0 := by
  rw [Nat.add_assoc, ← Multiset.count_add, ← Multiset.count_add, h.placed]
  split
  · rename_i hlt
    exact Multiset.count_eq_one_of_mem (Multiset.nodup_range _) (Multiset.mem_range.mpr hlt)
  · rename_i hge
    exact Multiset.count_eq_zero.mpr fun hmem => hge (Multiset.mem_range.mp hmem)

theorem new_inv : Inv ⟨IOManager.new, 0, 0⟩ := by
  have hnil : Registered ⟨[], 0, []⟩ 0 := ⟨fun c hc => (List.not_mem_nil hc).elim, rfl, rfl⟩
  exact .of_registered (hnil.grow 32) rfl

/-- One operation: the invariant stays, only `delEvent` deletes, and a
failing `epoll_ctl` changes no event. -/
theorem step_spec {r r' : Registry} {op : Op} (h : Inv r) (hop : op.FromScheduler)
    (hstep : r.step op = .ok r') :
    Inv r' ∧ r.next ≤ r'.next ∧ (op.ctlFails = true → SameEvents r.manager r'.manager) ∧
      ((∀ fd event ctl, op ≠ .delEvent fd event ctl) → r'.deleted = r.deleted) := by
  cases op with
  | addEvent caller fd event cb ctl =>
      obtain ⟨⟨rt, m⟩, hadd, hstep⟩ := bind_eq_ok.mp hstep
      obtain rfl := Except.ok.inj hstep
      rcases addEvent_spec h.registered hop hadd with
        ⟨rfl, rfl, hreg, hsame⟩ | ⟨rfl, rfl, hreg⟩
      · exact ⟨.of_registered hreg h.placed, Nat.le_refl _, fun _ => hsame, fun _ => rfl⟩
      · refine ⟨.of_registered hreg ?_, Nat.le_succ _, (fun hctl => nomatch hctl), fun _ => rfl⟩
        show r.deleted + (r.next ::ₘ _) = Multiset.range (r.next + 1)
        rw [Multiset.range_succ, ← h.placed, Multiset.add_cons]
  | delEvent fd event ctl =>
      obtain ⟨⟨done, m⟩, hdel, hstep⟩ := bind_eq_ok.mp hstep
      obtain rfl := Except.ok.inj hstep
      rcases delEvent_spec h.registered hdel with ⟨rfl, rfl⟩ | ⟨rfl, rfl, c, hc, ids, hids, hreg⟩
      · exact ⟨h, Nat.le_refl _, fun _ => .refl _, fun _ => rfl⟩
      · refine ⟨.of_registered hreg ?_, Nat.le_refl _, (fun hctl => nomatch hctl),
          fun hop => absurd rfl (hop _ _ _)⟩
        show r.manager.held fd event + r.deleted + ids = Multiset.range r.next
        rw [← h.placed, hids, held, hc]
        abel
  | cancelEvent fd event ctl =>
      obtain ⟨⟨done, m⟩, hcancel, hstep⟩ := bind_eq_ok.mp hstep
      obtain rfl := Except.ok.inj hstep
      rcases cancelEvent_spec h.registered hcancel with ⟨rfl, rfl⟩ | ⟨rfl, rfl, hreg⟩
      · exact ⟨h, Nat.le_refl _, fun _ => .refl _, fun _ => rfl⟩
      · exact ⟨.of_registered hreg h.placed, Nat.le_refl _, (fun hctl => nomatch hctl), fun _ => rfl⟩
  | cancelAll fd ctl =>
      obtain ⟨⟨done, m⟩, hcancel, hstep⟩ := bind_eq_ok.mp hstep
      obtain rfl := Except.ok.inj hstep
      rcases cancelAll_spec h.registered hcancel with ⟨rfl, rfl⟩ | ⟨rfl, rfl, hreg⟩
      · exact ⟨h, Nat.le_refl _, fun _ => .refl _, fun _ => rfl⟩
      · exact ⟨.of_registered hreg h.placed, Nat.le_refl _, (fun hctl => nomatch hctl), fun _ => rfl⟩
  | dispatch fd ev ctl =>
      obtain ⟨m, hdispatch, hstep⟩ := bind_eq_ok.mp hstep
      obtain rfl := Except.ok.inj hstep
      rcases dispatch_spec h.registered hdispatch with rfl | ⟨rfl, hreg⟩
      · exact ⟨h, Nat.le_refl _, fun _ => .refl _, fun _ => rfl⟩
      · exact ⟨.of_registered hreg h.placed, Nat.le_refl _, (fun hctl => nomatch hctl), fun _ => rfl⟩

theorem reachable_inv {r : Registry}
    (h : system.ReachableBy (fun _ op => op.FromScheduler) r) : Inv r := by
  refine h.invariant (P := Inv) ?_ ?_
  · rintro r rfl
    exact new_inv
  · intro r op r' hr hop hstep
    exact (step_spec hr hop (toOption_eq_some.mp hstep)).1

/-- **The registration invariant**, in every state reached without an
abort. -/
theorem registration_invariant {r : Registry}
    (h : system.ReachableBy (fun _ op => op.FromScheduler) r) :
    -- bits and contexts agree
    (∀ c ∈ r.manager.fdContexts, c.read.Holds c.events.read ∧ c.write.Holds c.events.write) ∧
    -- the counter counts the bits
    r.manager.pendingEventCount = (r.manager.fdContexts.map fun c => c.events.bits).sum ∧
    -- a handle is registered, deleted or scheduled, and scheduled at most once
    (∀ id < r.next, r.deleted.count id + r.manager.handed.count id + r.manager.live.count id = 1) ∧
    -- a handle that leaves its context otherwise than by `delEvent` has been scheduled once
    (∀ op r', op.FromScheduler → r.step op = .ok r' →
      (∀ fd event ctl, op ≠ .delEvent fd event ctl) →
      ∀ id ∈ r.manager.live, id ∉ r'.manager.live → r'.manager.handed.count id = 1) ∧
    -- a failing `epoll_ctl` leaves all of this unchanged
    (∀ op r', op.FromScheduler → op.ctlFails = true → r.step op = .ok r' →
      SameEvents r.manager r'.manager) := by
  have hr := reachable_inv h
  refine ⟨fun c hc => ?_, hr.registered.count, ?_, ?_, ?_⟩
  · exact ⟨(hr.registered.consistent c hc).read, (hr.registered.consistent c hc).write⟩
  · intro id hid
    rw [hr.count_eq, if_pos hid]
  · intro op r' hop hstep hdel id hmem hgone
    obtain ⟨hr', hnext, -, hdeleted⟩ := step_spec hr hop hstep
    have hlive : 1 ≤ r.manager.live.count id := Multiset.one_le_count_iff_mem.mpr hmem
    have hlive' : r'.manager.live.count id = 0 := Multiset.count_eq_zero.mpr hgone
    have hbefore := hr.count_eq id
    have hafter := hr'.count_eq id
    rw [hdeleted hdel] at hafter
    split at hbefore
    · rw [if_pos (by omega)] at hafter
      omega
    · omega
  · intro op r' hop hctl hstep
    exact (step_spec hr hop hstep).2.2.1 hctl

/-- A fiber waits for `READ`, a function for `WRITE`; the descriptor
becomes readable. -/
theorem registration_invariant_readable :
    ∃ r, system.ReachableBy (fun _ op => op.FromScheduler) r ∧
      r.manager.scheduled = [⟨9, .fiber ⟨0, 5⟩⟩] ∧ r.manager.pendingEventCount = 1 ∧
      ∀ id < 2, r.deleted.count id + r.manager.handed.count id + r.manager.live.count id = 1 := by
  have hinit : system.ReachableBy (fun _ op => op.FromScheduler) ⟨IOManager.new, 0, 0⟩ := .init rfl
  have hread := hinit.step (e := .addEvent ⟨some 9, 5, true⟩ 3 .READ none true)
    (by simp [Op.FromScheduler]) rfl
  have hwrite := hread.step (e := .addEvent ⟨some 9, 5, true⟩ 3 .WRITE (some 7) true)
    (by simp [Op.FromScheduler]) rfl
  have hready := hwrite.step (e := .dispatch 3 ⟨true, false, false, false⟩ true) (by simp [Op.FromScheduler])
    rfl
  exact ⟨_, hready, by decide, by decide, (registration_invariant hready).2.2.1⟩

end Registry

end IOManager

end Sylar
