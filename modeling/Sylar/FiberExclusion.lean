import Sylar.Scheduler

/-!
# When two workers can run one fiber

A fiber that goes to sleep writes `HOLD` before its context is saved,
and `run` writes `HOLD` once more afterwards; the only guard is that a
worker passes over fibers in `EXEC` when it picks. Between the two
writes a fiber that has been scheduled meanwhile is picked by another
worker and swapped in on the stack the first one is still using
(`two_workers_run_a_fiber`).

What would have to hold is that a worker only picks a fiber nobody
holds: from the pick, or from taking its own `cb_fiber`, to the last
state write in `run`. In runs that keep to this (`Sole`) two workers
never hold the same fiber (`Exclusive.alone`), and every later property
is about one worker and the fiber it holds (`fiber_exclusive`).
-/

namespace Sylar

/-- The fiber a worker holds: from the pick to its last state write. -/
def Pc.held : Pc → Option Nat
  | .pick => none
  | .picked f => some f
  | .pickedCb _ => none
  | .entering f _ => some f
  | .running f _ => some f
  | .yielded f _ => some f
  | .back f _ => some f
  | .returned f _ => some f
  | .holding f _ => some f

/-- The fiber a worker has swapped in and not yet let go. -/
def Pc.entered : Pc → Option Nat
  | .running f _ => some f
  | .yielded f _ => some f
  | .back f _ => some f
  | .returned f _ => some f
  | .holding f _ => some f
  | _ => none

/-- The fiber a worker executes on: from `swapIn` to the saving of the
context. -/
def Pc.executing : Pc → Option Nat
  | .running f _ => some f
  | .yielded f _ => some f
  | _ => none

/-- The fiber whose state a worker may write `HOLD` to in its next step:
in `YieldToHold` or after `swapIn`. -/
def Pc.writesHold : Pc → Option Nat
  | .running f _ => some f
  | .holding f _ => some f
  | _ => none

theorem Pc.held_of_entered {pc : Pc} {f : Nat} (h : pc.entered = some f) : pc.held = some f := by
  cases pc with
  | running g cb => exact h
  | yielded g cb => exact h
  | back g cb => exact h
  | returned g cb => exact h
  | holding g cb => exact h
  | pick => cases h
  | picked g => cases h
  | pickedCb c => cases h
  | entering g cb => cases h

theorem Pc.held_of_executing {pc : Pc} {f : Nat} (h : pc.executing = some f) :
    pc.held = some f := by
  cases pc with
  | running g cb => exact h
  | yielded g cb => exact h
  | pick => cases h
  | picked g => cases h
  | pickedCb c => cases h
  | entering g cb => cases h
  | back g cb => cases h
  | returned g cb => cases h
  | holding g cb => cases h

theorem Pc.entered_of_writesHold {pc : Pc} {f : Nat} (h : pc.writesHold = some f) :
    pc.entered = some f := by
  cases pc with
  | running g cb => exact h
  | holding g cb => exact h
  | pick => cases h
  | picked g => cases h
  | pickedCb c => cases h
  | entering g cb => cases h
  | yielded g cb => cases h
  | back g cb => cases h
  | returned g cb => cases h

namespace Scheduler

variable {s s' : Scheduler} {t : Nat}

/-- No worker holds the fiber. -/
def Free (s : Scheduler) (f : Nat) : Prop := ∀ w, (s.workers w).pc.held ≠ some f

/-- A worker takes a fiber, from the queue or its own `cb_fiber`, only
when no worker holds it. -/
def Sole (s : Scheduler) : Action → Prop
  | .pick t => ∀ f thread rest,
      s.pickFrom t s.queue = some (⟨.fiber f, thread⟩, rest) → s.Free f
  | .prepare t _ => ∀ f, (s.workers t).cbFiber = some f → s.Free f
  | _ => True

structure Exclusive (s : Scheduler) : Prop where
  alone : ∀ w w' f, (s.workers w).pc.held = some f → (s.workers w').pc.held = some f → w = w'
  held : ∀ w f, (s.workers w).pc.held = some f → s.fibers f ≠ none
  queued : ∀ f thread, ⟨.fiber f, thread⟩ ∈ s.queue → s.fibers f ≠ none
  cbFiber : ∀ w f, (s.workers w).cbFiber = some f → s.fibers f ≠ none
  entered : ∀ w f fb, (s.workers w).pc.entered = some f → s.fibers f = some fb →
    fb.execBy = some w

theorem new_exclusive : Exclusive new where
  alone w w' f h := by cases h
  held w f h := by cases h
  queued f thread h := by cases h
  cbFiber w f h := by cases h
  entered w f fb h := by cases h

/-! ## One step -/

/-- One worker moves on, on the fiber it holds or on a free one. -/
theorem Exclusive.putWorker (h : Exclusive s) (w : Worker)
    (hheld : ∀ f, w.pc.held = some f →
      (s.workers t).pc.held = some f ∨ s.Free f ∧ s.fibers f ≠ none)
    (hcb : ∀ f, w.cbFiber = some f → s.fibers f ≠ none)
    (hentered : ∀ f fb, w.pc.entered = some f → s.fibers f = some fb → fb.execBy = some t) :
    Exclusive (s.putWorker t w) where
  alone u u' f hu hu' := by
    simp only [Scheduler.putWorker] at hu hu'
    by_cases hut : u = t
    · by_cases hut' : u' = t
      · rw [hut, hut']
      · rw [if_pos hut] at hu
        rw [if_neg hut'] at hu'
        rcases hheld f hu with hold | ⟨hfree, -⟩
        · exact hut.trans (h.alone t u' f hold hu')
        · exact absurd hu' (hfree u')
    · rw [if_neg hut] at hu
      by_cases hut' : u' = t
      · rw [if_pos hut'] at hu'
        rcases hheld f hu' with hold | ⟨hfree, -⟩
        · exact (h.alone u t f hu hold).trans hut'.symm
        · exact absurd hu (hfree u)
      · rw [if_neg hut'] at hu'
        exact h.alone u u' f hu hu'
  held u f hu := by
    simp only [Scheduler.putWorker] at hu
    by_cases hut : u = t
    · rw [if_pos hut] at hu
      rcases hheld f hu with hold | ⟨-, hex⟩
      · exact h.held t f hold
      · exact hex
    · rw [if_neg hut] at hu
      exact h.held u f hu
  queued := h.queued
  cbFiber u f hu := by
    simp only [Scheduler.putWorker] at hu
    by_cases hut : u = t
    · rw [if_pos hut] at hu
      exact hcb f hu
    · rw [if_neg hut] at hu
      exact h.cbFiber u f hu
  entered u f fb hu hf := by
    simp only [Scheduler.putWorker] at hu
    by_cases hut : u = t
    · subst hut
      rw [if_pos rfl] at hu
      exact hentered f fb hu hf
    · rw [if_neg hut] at hu
      exact h.entered u f fb hu hf

/-- The worker stays with what it has entered. -/
theorem Exclusive.goto (h : Exclusive s) (pc : Pc)
    (hheld : ∀ f, pc.held = some f →
      (s.workers t).pc.held = some f ∨ s.Free f ∧ s.fibers f ≠ none)
    (hentered : ∀ f, pc.entered = some f → (s.workers t).pc.entered = some f) :
    Exclusive (s.goto t pc) :=
  h.putWorker _ hheld (h.cbFiber t) fun f fb hf hfb => h.entered t f fb (hentered f hf) hfb

theorem fibers_putFiber_ne_none (f : Nat) (fb : Fiber) {g : Nat} (hg : s.fibers g ≠ none) :
    (s.putFiber f fb).fibers g ≠ none := by
  simp only [Scheduler.putFiber]
  split
  · exact Option.some_ne_none _
  · exact hg

/-- A fiber may change as long as whoever has entered it is known. -/
theorem Exclusive.putFiber (h : Exclusive s) {f : Nat} {fb : Fiber}
    (hexec : ∀ w, (s.workers w).pc.entered = some f → fb.execBy = some w) :
    Exclusive (s.putFiber f fb) := by
  refine ⟨h.alone, fun w g hg => fibers_putFiber_ne_none f fb (h.held w g hg),
    fun g th hg => fibers_putFiber_ne_none f fb (h.queued g th hg),
    fun w g hg => fibers_putFiber_ne_none f fb (h.cbFiber w g hg), ?_⟩
  intro w g gb hw hg
  simp only [Scheduler.putFiber] at hg
  by_cases hgf : g = f
  · rw [if_pos hgf] at hg
    obtain rfl := Option.some.inj hg
    exact hexec w (hgf ▸ hw)
  · rw [if_neg hgf] at hg
    exact h.entered w g gb hw hg

theorem Exclusive.setState (h : Exclusive s) (f : Nat) (st : FiberState) :
    Exclusive (s.setState f st) := by
  unfold Scheduler.setState
  cases hf : s.fibers f with
  | none => exact h
  | some fb => exact h.putFiber fun w hw => h.entered w f fb hw hf

/-- A new fiber, which nobody holds. -/
theorem Exclusive.free_of_none (h : Exclusive s) {f : Nat} (hf : s.fibers f = none) :
    s.Free f := fun w hw => h.held w f hw hf

theorem Exclusive.putNew (h : Exclusive s) {f : Nat} (hf : s.fibers f = none) (fb : Fiber) :
    Exclusive (s.putFiber f fb) :=
  h.putFiber fun w hw => absurd (Pc.held_of_entered hw) (h.free_of_none hf w)

@[simp] theorem workers_setState (s : Scheduler) (f : Nat) (st : FiberState) :
    (s.setState f st).workers = s.workers := by
  unfold Scheduler.setState
  cases s.fibers f <;> rfl

@[simp] theorem fibers_setState_ne_none (s : Scheduler) (f g : Nat) (st : FiberState) :
    (s.setState f st).fibers g ≠ none ↔ s.fibers g ≠ none := by
  unfold Scheduler.setState
  cases hf : s.fibers f with
  | none => rfl
  | some fb =>
      simp only [Scheduler.putFiber]
      split
      · rename_i hgf
        simp [hgf, hf]
      · rfl

/-- Elements leave the queue. -/
theorem Exclusive.dequeue (h : Exclusive s) {queue : List FiberAndThread}
    (hsub : ∀ ft ∈ queue, ft ∈ s.queue) (n : Nat) :
    Exclusive { s with queue := queue, activeThreadCount := n } :=
  ⟨h.alone, h.held, fun f th hf => h.queued f th (hsub _ hf), h.cbFiber, h.entered⟩

theorem Exclusive.schedule (h : Exclusive s) (ft : FiberAndThread)
    (hft : ∀ f, ft.work = .fiber f → s.fibers f ≠ none) : Exclusive (s.schedule ft) := by
  refine ⟨h.alone, h.held, ?_, h.cbFiber, h.entered⟩
  intro f th hf
  rcases List.mem_append.mp hf with hf | hf
  · exact h.queued f th hf
  · rw [← List.mem_singleton.mp hf] at hft
    exact hft f rfl

/-- What the scan takes was in the queue, and the rest still is. -/
theorem pickFrom_mem : ∀ {queue : List FiberAndThread} {ft : FiberAndThread}
    {rest : List FiberAndThread}, s.pickFrom t queue = some (ft, rest) →
    ft ∈ queue ∧ ∀ x ∈ rest, x ∈ queue
  | [], _, _, h => by cases h
  | q :: qs, ft, rest, h => by
      have hskip : ∀ {r}, (s.pickFrom t qs).map (fun r => (r.1, q :: r.2)) = some r →
          r = (ft, rest) → ft ∈ q :: qs ∧ ∀ x ∈ rest, x ∈ q :: qs := by
        intro r hr heq
        obtain ⟨⟨ft', rest'⟩, hr', rfl⟩ := Option.map_eq_some_iff.mp hr
        obtain ⟨rfl, rfl⟩ := Prod.mk.inj heq
        obtain ⟨hmem, hrest⟩ := pickFrom_mem hr'
        refine ⟨List.mem_cons_of_mem _ hmem, fun x hx => ?_⟩
        rcases List.mem_cons.mp hx with rfl | hx
        · exact List.mem_cons_self ..
        · exact List.mem_cons_of_mem _ (hrest x hx)
      have htake : some (q, qs) = some (ft, rest) → ft ∈ q :: qs ∧ ∀ x ∈ rest, x ∈ q :: qs := by
        intro heq
        obtain ⟨rfl, rfl⟩ := Prod.mk.inj (Option.some.inj heq)
        exact ⟨List.mem_cons_self .., fun x hx => List.mem_cons_of_mem _ hx⟩
      simp only [pickFrom] at h
      split at h
      · exact hskip h rfl
      · split at h
        · split at h
          · exact hskip h rfl
          · exact htake h
        · exact htake h

theorem Exclusive.pick (h : Exclusive s) (hsole : s.Sole (.pick t))
    (hstep : s.pick t = some s') : Exclusive s' := by
  simp only [Scheduler.pick, Option.ite_none_right_eq_some] at hstep
  obtain ⟨hpc, hstep⟩ := hstep
  obtain ⟨⟨⟨work, thread⟩, rest⟩, hpick, rfl⟩ := Option.map_eq_some_iff.mp hstep
  obtain ⟨hmem, hrest⟩ := pickFrom_mem hpick
  have hq := h.dequeue hrest (s.activeThreadCount + 1)
  cases work with
  | fiber f =>
      refine hq.goto (.picked f) (fun g hg => ?_) (fun g hg => by cases hg)
      obtain rfl := Option.some.inj hg
      exact .inr ⟨hsole f thread rest hpick, h.queued f thread hmem⟩
  | cb c => exact hq.goto (.pickedCb c) (fun g hg => by cases hg) (fun g hg => by cases hg)

theorem Exclusive.check (h : Exclusive s) (hstep : s.check t = some s') : Exclusive s' := by
  simp only [Scheduler.check] at hstep
  split at hstep
  · rename_i f hpc
    split at hstep
    · obtain rfl := Option.some.inj hstep
      exact h.goto _ (fun g hg => .inl (by rw [hpc]; exact hg)) (fun g hg => by cases hg)
    · obtain rfl := Option.some.inj hstep
      exact (h.goto .pick (fun g hg => by cases hg) (fun g hg => by cases hg)).dequeue
        (fun _ hft => hft) _
  · cases hstep

theorem Exclusive.prepare (h : Exclusive s) {g : Nat} (hsole : s.Sole (.prepare t g))
    (hstep : s.prepare t g = some s') : Exclusive s' := by
  simp only [Scheduler.prepare] at hstep
  split at hstep
  · rename_i c hpc
    split at hstep
    · rename_i f hcb
      simp only [Option.ite_none_right_eq_some, Option.some.injEq] at hstep
      obtain ⟨-, rfl⟩ := hstep
      refine (h.setState f .INIT).goto _ (fun k hk => .inr ?_) (fun k hk => by cases hk)
      obtain rfl := Option.some.inj hk
      refine ⟨fun w => ?_, (fibers_setState_ne_none ..).mpr (h.cbFiber t f hcb)⟩
      rw [workers_setState]
      exact hsole f hcb w
    · simp only [Option.ite_none_right_eq_some, Option.some.injEq] at hstep
      obtain ⟨hg, rfl⟩ := hstep
      have hex : (s.putFiber g ⟨.INIT, false, none⟩).fibers g ≠ none := by
        simp [Scheduler.putFiber]
      refine (h.putNew hg _).putWorker _ (fun k hk => .inr ?_) (fun k hk => ?_)
        (fun k _ hk => by cases hk)
      · obtain rfl := Option.some.inj hk
        exact ⟨h.free_of_none hg, hex⟩
      · obtain rfl := Option.some.inj hk
        exact hex
  · cases hstep

theorem Exclusive.swapIn (h : Exclusive s) (hstep : s.swapIn t = some s') : Exclusive s' := by
  simp only [Scheduler.swapIn] at hstep
  split at hstep
  · rename_i f cb hpc
    split at hstep
    · cases hstep
    · rename_i fb hf
      simp only [Option.ite_none_left_eq_some, Option.some.injEq] at hstep
      obtain ⟨-, rfl⟩ := hstep
      have hheld : (s.workers t).pc.held = some f := by rw [hpc]; rfl
      have hput : Exclusive (s.putFiber f { fb with state := .EXEC, execBy := some t }) := by
        refine h.putFiber fun w hw => ?_
        rw [h.alone w t f (Pc.held_of_entered hw) hheld]
      refine hput.putWorker _ (fun k hk => .inl ?_) (fun k hk => ?_) (fun k kb hk hkb => ?_)
      · obtain rfl := Option.some.inj hk
        exact hheld
      · exact fibers_putFiber_ne_none f _ (h.cbFiber t k hk)
      · obtain rfl := Option.some.inj hk
        simp only [Scheduler.putFiber, if_true, Option.some.injEq] at hkb
        rw [← hkb]
  · cases hstep

theorem Exclusive.register (h : Exclusive s) (hstep : s.register t = some s') :
    Exclusive s' := by
  simp only [Scheduler.register] at hstep
  split at hstep
  · rename_i f cb hpc
    split at hstep
    · cases hstep
    · rename_i fb hf
      obtain rfl := Option.some.inj hstep
      exact h.putFiber fun w hw => h.entered w f fb hw hf
  · cases hstep

theorem Exclusive.yield (h : Exclusive s) {st : FiberState} (hstep : s.yield t st = some s') :
    Exclusive s' := by
  have hgo {f : Nat} {cb : Bool} (hpc : (s.workers t).pc = .running f cb) :
      Exclusive ((s.setState f st).goto t (.yielded f cb)) := by
    refine (h.setState f st).goto _ (fun k hk => .inl ?_) (fun k hk => ?_)
    · rw [workers_setState, hpc]
      exact hk
    · rw [workers_setState, hpc]
      exact hk
  simp only [Scheduler.yield] at hstep
  split at hstep
  · rename_i f cb hpc
    split at hstep
    · simp only [Option.ite_none_right_eq_some, Option.some.injEq] at hstep
      obtain ⟨-, rfl⟩ := hstep
      exact hgo hpc
    · simp only [Option.ite_none_right_eq_some, Option.some.injEq] at hstep
      obtain ⟨-, rfl⟩ := hstep
      exact hgo hpc
    · obtain rfl := Option.some.inj hstep
      exact hgo hpc
    · obtain rfl := Option.some.inj hstep
      exact hgo hpc
    · cases hstep
  · cases hstep

theorem Exclusive.save (h : Exclusive s) (hstep : s.save t = some s') : Exclusive s' := by
  simp only [Scheduler.save] at hstep
  split at hstep
  · rename_i f cb hpc
    obtain rfl := Option.some.inj hstep
    exact h.goto _ (fun k hk => .inl (by rw [hpc]; exact hk)) (fun k hk => by rw [hpc]; exact hk)
  · cases hstep

theorem Exclusive.leave (h : Exclusive s) (hstep : s.leave t = some s') : Exclusive s' := by
  simp only [Scheduler.leave] at hstep
  split at hstep
  · rename_i f cb hpc
    obtain rfl := Option.some.inj hstep
    have hgo := h.goto (t := t) (.returned f cb) (fun k hk => .inl (by rw [hpc]; exact hk))
      (fun k hk => by rw [hpc]; exact hk)
    exact hgo.dequeue (fun _ hft => hft) _
  · cases hstep

theorem Exclusive.after (h : Exclusive s) (hstep : s.after t = some s') : Exclusive s' := by
  simp only [Scheduler.after] at hstep
  split at hstep
  · rename_i f cb hpc
    have hheld : s.fibers f ≠ none := h.held t f (by rw [hpc]; rfl)
    split at hstep
    · obtain rfl := Option.some.inj hstep
      have hsched := h.schedule ⟨.fiber f, none⟩ fun g hg => by
        obtain rfl := FiberOrCb.fiber.inj hg
        exact hheld
      refine hsched.putWorker _ (fun k hk => by cases hk) (fun k hk => ?_)
        (fun k _ hk => by cases hk)
      simp only [Option.ite_none_left_eq_some] at hk
      exact h.cbFiber t k hk.2
    · split at hstep
      · obtain rfl := Option.some.inj hstep
        split
        · exact (h.setState f .INIT).goto .pick (fun k hk => by cases hk)
            (fun k hk => by cases hk)
        · exact h.goto .pick (fun k hk => by cases hk) (fun k hk => by cases hk)
      · obtain rfl := Option.some.inj hstep
        exact h.goto _ (fun k hk => .inl (by rw [hpc]; exact hk))
          (fun k hk => by rw [hpc]; exact hk)
  · cases hstep

theorem Exclusive.hold (h : Exclusive s) (hstep : s.hold t = some s') : Exclusive s' := by
  simp only [Scheduler.hold] at hstep
  split at hstep
  · rename_i f cb hpc
    obtain rfl := Option.some.inj hstep
    refine (h.setState f .HOLD).putWorker _ (fun k hk => by cases hk) (fun k hk => ?_)
      (fun k _ hk => by cases hk)
    simp only [Option.ite_none_left_eq_some] at hk
    exact (fibers_setState_ne_none ..).mpr (h.cbFiber t k hk.2)
  · cases hstep

theorem step_exclusive (h : Exclusive s) {a : Action} (hsole : s.Sole a)
    (hstep : s.step a = some s') : Exclusive s' := by
  cases a with
  | create f =>
      simp only [step, Option.ite_none_right_eq_some, Option.some.injEq] at hstep
      obtain ⟨hf, rfl⟩ := hstep
      exact h.putNew hf _
  | schedule ft =>
      simp only [step, Option.ite_none_right_eq_some, Option.some.injEq] at hstep
      obtain ⟨hmay, rfl⟩ := hstep
      refine h.schedule ft fun f hf hnone => ?_
      simp [MaySchedule, hf, hnone] at hmay
  | pick t => exact h.pick hsole hstep
  | check t => exact h.check hstep
  | prepare t g => exact h.prepare hsole hstep
  | swapIn t => exact h.swapIn hstep
  | register t => exact h.register hstep
  | yield t st => exact h.yield hstep
  | save t => exact h.save hstep
  | leave t => exact h.leave hstep
  | after t => exact h.after hstep
  | hold t => exact h.hold hstep

/-! ## Runs -/

/-- Never do two workers execute on one fiber, and never does a worker
come to write `HOLD` to a fiber that another has set to `EXEC` since. -/
def Undisturbed (s : Scheduler) : Prop :=
  (∀ w w' f, (s.workers w).pc.executing = some f → (s.workers w').pc.executing = some f →
    w = w') ∧
  ∀ w f fb, (s.workers w).pc.writesHold = some f → s.fibers f = some fb → fb.execBy = some w

/-- **A fiber is run by one worker at a time** in every run in which
workers take free fibers only. -/
theorem fiber_exclusive (h : system.ReachableBy Sole s) : s.Undisturbed := by
  have hs : Exclusive s := by
    refine h.invariant (P := Exclusive) ?_ ?_
    · rintro s rfl
      exact new_exclusive
    · intro s a s' hs hsole hstep
      exact step_exclusive hs hsole hstep
  refine ⟨fun w w' f hw hw' => ?_, fun w f fb hw hf => ?_⟩
  · exact hs.alone w w' f (Pc.held_of_executing hw) (Pc.held_of_executing hw')
  · exact hs.entered w f fb (Pc.entered_of_writesHold hw) hf

/-- A fiber that runs and goes to sleep on the worker that picked it. -/
theorem fiber_exclusive_running :
    ∃ s, system.ReachableBy Sole s ∧ (s.workers 0).pc = .yielded 0 false ∧ s.Undisturbed := by
  have hinit : system.ReachableBy Sole new := .init rfl
  have hcreate := hinit.step (e := .create 0) (by simp [Sole]) rfl
  have hqueue := hcreate.step (e := .schedule ⟨.fiber 0, none⟩) (by simp [Sole]) rfl
  have hpick := hqueue.step (e := .pick 0) (by rintro f thread rest - w hw; cases hw)
    rfl
  have hcheck := hpick.step (e := .check 0) (by simp [Sole]) rfl
  have hrun := hcheck.step (e := .swapIn 0) (by simp [Sole]) rfl
  have hyield := hrun.step (e := .yield 0 .HOLD) (by simp [Sole]) rfl
  exact ⟨_, hyield, rfl, fiber_exclusive hyield⟩

/-- **Two workers can run one fiber**: the first has written `HOLD` and
not saved the context when the fiber, which has registered itself, is
scheduled and the second swaps it in. -/
theorem two_workers_run_a_fiber : ¬∀ s, system.Reachable s → s.Undisturbed := by
  intro hall
  have hrun : system.replay new
      [.create 0, .schedule ⟨.fiber 0, none⟩, .pick 0, .check 0, .swapIn 0, .register 0,
        .yield 0 .HOLD, .schedule ⟨.fiber 0, none⟩, .pick 1, .check 1, .swapIn 1] =
      some { fibers := _, queue := [], activeThreadCount := 2, workers := _ } := rfl
  have hinit : system.Reachable new := .init rfl
  have hboth := (hall _ (System.replay_reachable hinit hrun)).1 0 1 0 rfl rfl
  cases hboth

end Scheduler

end Sylar
