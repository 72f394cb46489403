import Mathlib.Data.Finset.Card
import Sylar.Scheduler

/-!
# The queue loses nothing and keeps its order

`schedule` in its two forms, and what becomes of the elements they put
into `m_fibers`. A `Journal` is a scheduler with the list of all
elements ever put into the queue, in the order of insertion; each entry
says where its element is now. The queue is the part of the journal that
is still `queued`, so an element can only leave it, and once: it is
taken by a worker and then run, or dropped.

`Pc.active` are the places of a worker between a pick and the matching
decrement of `m_activeThreadCount`.
-/

namespace Sylar

/-- Between a pick and the decrement. -/
def Pc.active : Pc → Bool
  | .picked _ | .pickedCb _ | .entering .. | .running .. | .yielded .. | .back .. => true
  | .pick | .returned .. | .holding .. => false

/-- Between a pick and `swapIn`. -/
def Pc.pending : Pc → Bool
  | .picked _ | .pickedCb _ | .entering .. => true
  | _ => false

/-- Where an element is: in the queue, with worker `t`, swapped in by
it, or thrown away by it. -/
inductive Place where
  | queued
  | taken (t : Nat)
  | run (t : Nat)
  | dropped
deriving Repr, DecidableEq

structure Entry where
  element : FiberAndThread
  place : Place
deriving Repr, DecidableEq

namespace Scheduler

/-- `scheduleNoLock(fc, thread)`; `none` is a null pointer or an empty
function. -/
def scheduleNoLock (s : Scheduler) (fc : Option FiberOrCb) (thread : Option Nat) :
    Bool × Scheduler :=
  let needTickle := s.queue.isEmpty
  match fc with
  | none => (needTickle, s)
  | some work => (needTickle, s.schedule ⟨work, thread⟩)

/-- The loop of `schedule(begin, end)`. -/
def scheduleAll (s : Scheduler) (needTickle : Bool) : List (Option FiberOrCb) → Bool × Scheduler
  | [] => (needTickle, s)
  | fc :: rest =>
      let r := s.scheduleNoLock fc none
      r.2.scheduleAll (r.1 || needTickle) rest

/-- The test that the scan of worker `t` makes. -/
def eligible (s : Scheduler) (t : Nat) (ft : FiberAndThread) : Bool :=
  (ft.thread == none || ft.thread == some t) &&
    match ft.work with
    | .fiber f => s.stateOf f != some .EXEC
    | .cb _ => true

end Scheduler

structure Journal where
  scheduler : Scheduler
  entries : List Entry

namespace Journal

/-- The elements that are still in the queue. -/
def queued (entries : List Entry) : List FiberAndThread :=
  (entries.filter (·.place = .queued)).map Entry.element

/-- Entries of what a `schedule` call puts into the queue. -/
def added (fcs : List (Option FiberOrCb)) (thread : Option Nat) : List Entry :=
  (fcs.filterMap id).map fun work => ⟨⟨work, thread⟩, .queued⟩

/-- The first queued element that worker `t` may have is taken. -/
def take (s : Scheduler) (t : Nat) : List Entry → List Entry
  | [] => []
  | e :: es =>
      if e.place = .queued ∧ s.eligible t e.element then { e with place := .taken t } :: es
      else e :: take s t es

/-- What worker `t` has taken comes to its end. -/
def settle (t : Nat) (place : Place) (entries : List Entry) : List Entry :=
  entries.map fun e => if e.place = .taken t then { e with place := place } else e

/-- The entries after a worker's step from `s` to `s'`. -/
def record (entries : List Entry) (s s' : Scheduler) : Scheduler.Action → List Entry
  | .pick t => take s t entries
  | .check t => if (s'.workers t).pc = .pick then settle t .dropped entries else entries
  | .swapIn t => settle t (.run t) entries
  | .after t =>
      match (s.workers t).pc with
      | .returned f _ =>
          if s.stateOf f = some .READY then entries ++ added [some (.fiber f)] none else entries
      | _ => entries
  | _ => entries

inductive Action where
  | schedule (fc : Option FiberOrCb) (thread : Option Nat)
  | scheduleAll (fcs : List (Option FiberOrCb))
  | worker (a : Scheduler.Action)
deriving Repr, DecidableEq

def step (j : Journal) : Action → Option Journal
  | .schedule fc thread =>
      some ⟨(j.scheduler.scheduleNoLock fc thread).2, j.entries ++ added [fc] thread⟩
  | .scheduleAll fcs =>
      some ⟨(j.scheduler.scheduleAll false fcs).2, j.entries ++ added fcs none⟩
  | .worker (.schedule _) => none
  | .worker a => (j.scheduler.step a).map fun s => ⟨s, record j.entries j.scheduler s a⟩

/-- Any number of workers, and anyone who schedules anything. -/
def system : System Journal Action where
  init j := j = ⟨.new, []⟩
  step := step

end Journal

/-! ## The counter -/

namespace Scheduler

variable {s s' : Scheduler} {t : Nat} {pc : Pc}

/-- The counter is the number of active workers. -/
def Counted (s : Scheduler) : Prop :=
  ∃ workers : Finset Nat, (∀ t, t ∈ workers ↔ (s.workers t).pc.active = true) ∧
    s.activeThreadCount = workers.card

theorem Counted.pos (h : s.Counted) (ht : (s.workers t).pc.active = true) :
    0 < s.activeThreadCount := by
  obtain ⟨workers, hmem, hcard⟩ := h
  rw [hcard]
  exact Finset.card_pos.mpr ⟨t, (hmem t).mpr ht⟩

/-- From `s` to `s'` worker `t` moves to `pc`, and the counter with it. -/
structure Moves (s s' : Scheduler) (t : Nat) (pc : Pc) : Prop where
  here : (s'.workers t).pc = pc
  others : ∀ u, u ≠ t → (s'.workers u).pc = (s.workers u).pc
  count : s'.activeThreadCount =
    match (s.workers t).pc.active, pc.active with
    | true, false => dec64 s.activeThreadCount
    | false, true => s.activeThreadCount + 1
    | _, _ => s.activeThreadCount

theorem Counted.moves (h : s.Counted) (hm : Moves s s' t pc) : s'.Counted := by
  have hpos := h.pos (t := t)
  obtain ⟨workers, hmem, hcard⟩ := h
  have hactive (u : Nat) : (s'.workers u).pc.active =
      if u = t then pc.active else (s.workers u).pc.active := by
    split
    · rename_i hu
      rw [hu, hm.here]
    · rename_i hu
      rw [hm.others u hu]
  have hcount := hm.count
  cases hold : (s.workers t).pc.active with
  | true =>
      have ht := (hmem t).mpr hold
      cases hnew : pc.active with
      | true =>
          simp only [hold, hnew] at hcount
          refine ⟨workers, fun u => ?_, hcount.trans hcard⟩
          rw [hactive, hmem]
          split
          · rename_i hu
            rw [hu, hold, hnew]
          · rfl
      | false =>
          simp only [hold, hnew] at hcount
          refine ⟨workers.erase t, fun u => ?_, ?_⟩
          · rw [hactive, Finset.mem_erase, hmem]
            split
            · rename_i hu
              simp [hu, hnew]
            · rename_i hu
              simp [hu]
          · have hdec := dec64_add_one (hpos hold)
            have herase := Finset.card_erase_add_one ht
            omega
  | false =>
      have ht : t ∉ workers := fun hin => by
        rw [hmem, hold] at hin
        cases hin
      cases hnew : pc.active with
      | true =>
          simp only [hold, hnew] at hcount
          refine ⟨insert t workers, fun u => ?_, ?_⟩
          · rw [hactive, Finset.mem_insert, hmem]
            split
            · rename_i hu
              simp [hu, hnew]
            · rename_i hu
              simp [hu]
          · rw [Finset.card_insert_of_notMem ht, ← hcard]
            exact hcount
      | false =>
          simp only [hold, hnew] at hcount
          refine ⟨workers, fun u => ?_, hcount.trans hcard⟩
          rw [hactive, hmem]
          split
          · rename_i hu
            rw [hu, hold, hnew]
          · rfl

/-- A worker moves without passing the counter. -/
theorem Moves.put {s₁ : Scheduler} (hworkers : s₁.workers = s.workers)
    (hcount : s₁.activeThreadCount = s.activeThreadCount) (w : Worker)
    (hactive : (s.workers t).pc.active = w.pc.active) : Moves s (s₁.putWorker t w) t w.pc where
  here := by simp [putWorker]
  others u hu := by simp [putWorker, hu, hworkers]
  count := by
    rw [hactive]
    cases w.pc.active <;> exact hcount

/-! ## What each step does -/

/-- No fiber has become `READY`. -/
def ReadiesNone (s s' : Scheduler) : Prop :=
  ∀ f, s'.stateOf f = some .READY → s.stateOf f = some .READY

theorem readiesNone_putFiber (s : Scheduler) (f : Nat) {fb : Fiber} (hfb : fb.state ≠ .READY) :
    ReadiesNone s (s.putFiber f fb) := by
  intro g hg
  by_cases hgf : g = f
  · simp [stateOf, putFiber, hgf, hfb] at hg
  · simpa [stateOf, putFiber, hgf] using hg

theorem readiesNone_setState (s : Scheduler) (f : Nat) {st : FiberState} (hst : st ≠ .READY) :
    ReadiesNone s (s.setState f st) := by
  unfold setState
  split
  · exact fun _ hg => hg
  · exact readiesNone_putFiber s f hst

theorem queue_setState (s : Scheduler) (f : Nat) (st : FiberState) :
    (s.setState f st).queue = s.queue ∧ (s.setState f st).workers = s.workers ∧
      (s.setState f st).activeThreadCount = s.activeThreadCount := by
  unfold setState
  cases s.fibers f <;> exact ⟨rfl, rfl, rfl⟩

/-- What a worker takes off the queue is what it goes on with. -/
theorem pick_spec (hpick : s.pick t = some s') :
    (s.workers t).pc = .pick ∧ ∃ ft pc, s.pickFrom t s.queue = some (ft, s'.queue) ∧
      Moves s s' t pc ∧ pc.pending = true ∧ ∀ f, pc = .picked f → ft.work = .fiber f := by
  simp only [pick, Option.ite_none_right_eq_some] at hpick
  obtain ⟨hpc, hpick⟩ := hpick
  obtain ⟨⟨ft, rest⟩, hr, hs⟩ := Option.map_eq_some_iff.mp hpick
  refine ⟨hpc, ft, ?_⟩
  cases hwork : ft.work with
  | fiber f =>
      simp only [hwork] at hs
      subst hs
      refine ⟨.picked f, hr, ⟨by simp [goto, putWorker],
        fun u hu => by simp [goto, putWorker, hu], ?_⟩, rfl,
        fun g hg => by rw [Pc.picked.inj hg]⟩
      rw [hpc]
      rfl
  | cb c =>
      simp only [hwork] at hs
      subst hs
      refine ⟨.pickedCb c, hr, ⟨by simp [goto, putWorker],
        fun u hu => by simp [goto, putWorker, hu], ?_⟩, rfl,
        fun g hg => by cases hg⟩
      rw [hpc]
      rfl

theorem check_spec (h : s.check t = some s') : ∃ f, (s.workers t).pc = .picked f ∧
    s'.queue = s.queue ∧ ReadiesNone s s' ∧ (Moves s s' t (.entering f false) ∨
      Moves s s' t .pick ∧ (s.stateOf f = some .TERM ∨ s.stateOf f = some .EXCEPT)) := by
  unfold check at h
  split at h
  · rename_i f hpc
    split at h
    · obtain rfl := Option.some.inj h
      exact ⟨f, hpc, rfl, fun _ hg => hg, .inl (.put (by rfl) (by rfl) _ (by rw [hpc]; rfl))⟩
    · rename_i hdone
      obtain rfl := Option.some.inj h
      refine ⟨f, hpc, rfl, fun _ hg => hg, .inr ⟨⟨by simp [goto, putWorker],
        fun u hu => by simp [goto, putWorker, hu], ?_⟩, by tauto⟩⟩
      rw [hpc]
      rfl
  · cases h

theorem prepare_spec {g : Nat} (h : s.prepare t g = some s') :
    (s.workers t).pc.pending = true ∧ s'.queue = s.queue ∧
      ∃ f, Moves s s' t (.entering f true) := by
  unfold prepare at h
  split at h
  · rename_i c hpc
    split at h
    · rename_i f hcb
      simp only [Option.ite_none_right_eq_some, Option.some.injEq] at h
      obtain ⟨-, rfl⟩ := h
      obtain ⟨hq, hw, hc⟩ := queue_setState s f .INIT
      exact ⟨by rw [hpc]; rfl, hq, f, .put hw hc _ (by rw [hpc]; rfl)⟩
    · simp only [Option.ite_none_right_eq_some, Option.some.injEq] at h
      obtain ⟨-, rfl⟩ := h
      exact ⟨by rw [hpc]; rfl, rfl, g, .put (by rfl) (by rfl) _ (by rw [hpc]; rfl)⟩
  · cases h

theorem swapIn_spec (h : s.swapIn t = some s') : ∃ f cb, (s.workers t).pc = .entering f cb ∧
    s'.queue = s.queue ∧ Moves s s' t (.running f cb) := by
  unfold swapIn at h
  split at h
  · rename_i f cb hpc
    split at h
    · cases h
    · simp only [Option.ite_none_left_eq_some, Option.some.injEq] at h
      obtain ⟨-, rfl⟩ := h
      exact ⟨f, cb, hpc, rfl, .put (by rfl) (by rfl) _ (by rw [hpc]; rfl)⟩
  · cases h

theorem register_spec (h : s.register t = some s') :
    s'.workers = s.workers ∧ s'.activeThreadCount = s.activeThreadCount ∧ s'.queue = s.queue := by
  unfold register at h
  split at h
  · split at h
    · cases h
    · obtain rfl := Option.some.inj h
      exact ⟨rfl, rfl, rfl⟩
  · cases h

theorem yield_spec {st : FiberState} (h : s.yield t st = some s') :
    ∃ f cb, (s.workers t).pc = .running f cb ∧ s'.queue = s.queue ∧
      Moves s s' t (.yielded f cb) := by
  unfold yield at h
  split at h
  · rename_i f cb hpc
    obtain ⟨hq, hw, hc⟩ := queue_setState s f st
    have hm : Moves s ((s.setState f st).goto t (.yielded f cb)) t (.yielded f cb) :=
      .put hw hc _ (by rw [hpc]; rfl)
    split at h
    · simp only [Option.ite_none_right_eq_some, Option.some.injEq] at h
      exact ⟨f, cb, hpc, h.2 ▸ hq, h.2 ▸ hm⟩
    · simp only [Option.ite_none_right_eq_some, Option.some.injEq] at h
      exact ⟨f, cb, hpc, h.2 ▸ hq, h.2 ▸ hm⟩
    · exact ⟨f, cb, hpc, Option.some.inj h ▸ hq, Option.some.inj h ▸ hm⟩
    · exact ⟨f, cb, hpc, Option.some.inj h ▸ hq, Option.some.inj h ▸ hm⟩
    · cases h
  · cases h

theorem save_spec (h : s.save t = some s') : ∃ f cb, (s.workers t).pc = .yielded f cb ∧
    s'.queue = s.queue ∧ Moves s s' t (.back f cb) := by
  unfold save at h
  split at h
  · rename_i f cb hpc
    obtain rfl := Option.some.inj h
    exact ⟨f, cb, hpc, rfl, .put (by rfl) (by rfl) _ (by rw [hpc]; rfl)⟩
  · cases h

theorem leave_spec (h : s.leave t = some s') : ∃ f cb, (s.workers t).pc = .back f cb ∧
    s'.queue = s.queue ∧ ReadiesNone s s' ∧ Moves s s' t (.returned f cb) := by
  unfold leave at h
  split at h
  · rename_i f cb hpc
    obtain rfl := Option.some.inj h
    refine ⟨f, cb, hpc, rfl, fun _ hg => hg, by simp [goto, putWorker],
      fun u hu => by simp [goto, putWorker, hu], ?_⟩
    rw [hpc]
    rfl
  · cases h

theorem after_spec (h : s.after t = some s') : ∃ f cb, (s.workers t).pc = .returned f cb ∧
    (s.stateOf f = some .READY ∧ s'.queue = s.queue ++ [⟨.fiber f, none⟩] ∧ Moves s s' t .pick ∨
      s.stateOf f ≠ some .READY ∧ s'.queue = s.queue ∧ ReadiesNone s s' ∧
        (Moves s s' t .pick ∨ Moves s s' t (.holding f cb))) := by
  unfold after at h
  split at h
  · rename_i f cb hpc
    refine ⟨f, cb, hpc, ?_⟩
    split at h
    · rename_i hready
      obtain rfl := Option.some.inj h
      exact .inl ⟨hready, rfl, .put (by rfl) (by rfl) _ (by rw [hpc]; rfl)⟩
    · rename_i hready
      refine .inr ⟨hready, ?_⟩
      split at h
      · obtain rfl := Option.some.inj h
        have hsame : (if cb then s.setState f .INIT else s).queue = s.queue ∧
            (if cb then s.setState f .INIT else s).workers = s.workers ∧
            (if cb then s.setState f .INIT else s).activeThreadCount = s.activeThreadCount := by
          split
          · exact queue_setState s f .INIT
          · exact ⟨rfl, rfl, rfl⟩
        have hready : ReadiesNone s (if cb then s.setState f .INIT else s) := by
          split
          · exact readiesNone_setState s f (by decide)
          · exact fun _ hg => hg
        exact ⟨hsame.1, hready, .inl (.put hsame.2.1 hsame.2.2 _ (by rw [hpc]; rfl))⟩
      · obtain rfl := Option.some.inj h
        exact ⟨rfl, fun _ hg => hg, .inr (.put (by rfl) (by rfl) _ (by rw [hpc]; rfl))⟩
  · cases h

theorem hold_spec (h : s.hold t = some s') : ∃ f cb, (s.workers t).pc = .holding f cb ∧
    s'.queue = s.queue ∧ ReadiesNone s s' ∧ Moves s s' t .pick := by
  unfold hold at h
  split at h
  · rename_i f cb hpc
    obtain rfl := Option.some.inj h
    obtain ⟨hq, hw, hc⟩ := queue_setState s f .HOLD
    exact ⟨f, cb, hpc, hq, readiesNone_setState s f (by decide), .put hw hc _ (by rw [hpc]; rfl)⟩
  · cases h

/-! ## The scan -/

theorem eligible_iff {ft : FiberAndThread} : s.eligible t ft = true ↔
    (ft.thread = none ∨ ft.thread = some t) ∧
      ∀ f, ft.work = .fiber f → s.stateOf f ≠ some .EXEC := by
  obtain ⟨work, thread⟩ := ft
  cases work with
  | cb c => simp [eligible]
  | fiber f => simp [eligible]

theorem pickFrom_cons (s : Scheduler) (t : Nat) (ft : FiberAndThread)
    (rest : List FiberAndThread) :
    s.pickFrom t (ft :: rest) =
      if s.eligible t ft then some (ft, rest)
      else (s.pickFrom t rest).map fun r => (r.1, ft :: r.2) := by
  obtain ⟨work, thread⟩ := ft
  rw [pickFrom]
  by_cases hthread : thread = none ∨ thread = some t
  · rw [if_neg (by tauto)]
    cases work with
    | cb c => rw [if_pos (eligible_iff.mpr ⟨hthread, fun f hf => by cases hf⟩)]
    | fiber f =>
        by_cases hexec : s.stateOf f = some .EXEC
        · have hskip : ¬s.eligible t ⟨.fiber f, thread⟩ = true := fun h =>
            (eligible_iff.mp h).2 f rfl hexec
          rw [if_neg hskip]
          simp only [if_pos hexec]
        · rw [if_pos (eligible_iff.mpr ⟨hthread, fun _ hf => FiberOrCb.fiber.inj hf ▸ hexec⟩)]
          simp only [if_neg hexec]
  · rw [if_pos (by tauto), if_neg fun h => hthread (eligible_iff.mp h).1]

/-- `schedule(begin, end)` appends what there is, in iteration order. -/
theorem scheduleAll_eq : ∀ (fcs : List (Option FiberOrCb)) (s : Scheduler) (need : Bool),
    (s.scheduleAll need fcs).2 =
      { s with queue := s.queue ++ (fcs.filterMap id).map fun work => ⟨work, none⟩ }
  | [], s, need => by simp [scheduleAll]
  | none :: rest, s, need => by
      rw [scheduleAll, scheduleAll_eq rest]
      rfl
  | some work :: rest, s, need => by
      rw [scheduleAll, scheduleAll_eq rest]
      simp [scheduleNoLock, schedule]

end Scheduler

/-! ## Entries only move on -/

/-- What a step from `s` may do to an entry. -/
inductive Place.Step (s : Scheduler) (ft : FiberAndThread) : Place → Place → Prop
  | stay (p : Place) : Step s ft p p
  | take (t : Nat) : s.eligible t ft = true → Step s ft .queued (.taken t)
  | run (t : Nat) : Step s ft (.taken t) (.run t)
  | drop (t f : Nat) : ft.work = .fiber f →
      s.stateOf f = some .TERM ∨ s.stateOf f = some .EXCEPT → Step s ft (.taken t) .dropped

/-- What any number of steps may do. -/
def Place.Next : Place → Place → Prop
  | .queued, _ => True
  | .taken t, p => p = .taken t ∨ p = .run t ∨ p = .dropped
  | p, q => q = p

theorem Place.Next.refl : (p : Place) → p.Next p
  | .queued => trivial
  | .taken _ => .inl rfl
  | .run _ => rfl
  | .dropped => rfl

theorem Place.Next.trans {p q r : Place} (h : p.Next q) (h' : q.Next r) : p.Next r := by
  cases p with
  | queued => trivial
  | taken t =>
      rcases h with rfl | rfl | rfl
      · exact h'
      · exact .inr (.inl h')
      · exact .inr (.inr h')
  | run t =>
      obtain rfl : q = .run t := h
      exact h'
  | dropped =>
      obtain rfl : q = .dropped := h
      exact h'

theorem Place.Step.next {s : Scheduler} {ft : FiberAndThread} {p q : Place} (h : p.Step s ft q) :
    p.Next q := by
  cases h with
  | stay => exact .refl p
  | take => trivial
  | run => exact .inr (.inl rfl)
  | drop => exact .inr (.inr rfl)

namespace Journal

open Scheduler (Moves)

variable {s s' : Scheduler} {t : Nat} {entries entries' : List Entry} {j j' : Journal}

/-- The old entries are still there, each moved by `R`. -/
def Extends (R : FiberAndThread → Place → Place → Prop) (entries entries' : List Entry) : Prop :=
  ∀ (i : Nat) (e : Entry), entries[i]? = some e →
    ∃ e' : Entry, entries'[i]? = some e' ∧ e'.element = e.element ∧ R e.element e.place e'.place

theorem Extends.append (added : List Entry) :
    Extends (fun ft => Place.Step s ft) entries (entries ++ added) := by
  intro i e he
  have hi := (List.getElem?_eq_some_iff.mp he).1
  exact ⟨e, by rw [List.getElem?_append_left hi, he], rfl, .stay _⟩

theorem Extends.refl : Extends (fun ft => Place.Step s ft) entries entries := by
  have happend : Extends (fun ft => Place.Step s ft) entries (entries ++ []) := .append []
  rwa [List.append_nil] at happend

theorem queued_append (entries entries' : List Entry) :
    queued (entries ++ entries') = queued entries ++ queued entries' := by
  simp [queued]

theorem queued_added (fcs : List (Option FiberOrCb)) (thread : Option Nat) :
    queued (added fcs thread) = (fcs.filterMap id).map fun work => ⟨work, thread⟩ := by
  simp [queued, added, List.filter_map, Function.comp_def]

/-- What worker `t` has taken is not in the queue. -/
theorem queued_settle {p : Place} (hp : p ≠ .queued) :
    ∀ entries, queued (settle t p entries) = queued entries
  | [] => rfl
  | e :: es => by
      have ih := queued_settle hp es
      simp only [queued, settle, List.map_cons, List.filter_cons] at ih ⊢
      by_cases he : e.place = .taken t
      · simp only [he, if_true, decide_eq_true_eq, if_neg hp, reduceCtorEq, if_false]
        simpa using ih
      · simp only [if_neg he]
        split
        · rw [List.map_cons, List.map_cons, ih]
        · exact ih

theorem mem_settle {p : Place} {e : Entry} (he : e ∈ settle t p entries) :
    e ∈ entries ∧ e.place ≠ .taken t ∨
      ∃ e₀ ∈ entries, e₀.place = .taken t ∧ e = { e₀ with place := p } := by
  obtain ⟨e₀, he₀, rfl⟩ := List.mem_map.mp he
  by_cases hp : e₀.place = .taken t
  · exact .inr ⟨e₀, he₀, hp, if_pos hp⟩
  · rw [if_neg hp]
    exact .inl ⟨he₀, hp⟩

/-- The scan of worker `t` takes the first entry that it may have, and
leaves all others where they are. -/
theorem take_spec : ∀ {entries : List Entry} {r : FiberAndThread × List FiberAndThread},
    s.pickFrom t (queued entries) = some r →
    ∃ before e after, entries = before ++ e :: after ∧ e.place = .queued ∧
      s.eligible t e.element = true ∧
      (∀ x ∈ before, x.place = .queued → s.eligible t x.element = false) ∧
      take s t entries = before ++ { e with place := .taken t } :: after ∧
      r = (e.element, queued (before ++ after))
  | [], r, h => by cases h
  | e :: es, r, h => by
      by_cases hq : e.place = .queued
      · have hcons : queued (e :: es) = e.element :: queued es := by simp [queued, hq]
        rw [hcons, Scheduler.pickFrom_cons] at h
        by_cases hel : s.eligible t e.element = true
        · rw [if_pos hel] at h
          refine ⟨[], e, es, rfl, hq, hel, by simp, ?_, (Option.some.inj h).symm⟩
          rw [take, if_pos ⟨hq, hel⟩]
          rfl
        · rw [if_neg hel] at h
          obtain ⟨r', hr', rfl⟩ := Option.map_eq_some_iff.mp h
          obtain ⟨before, x, after, rfl, hx, hxel, hbefore, htake, rfl⟩ := take_spec hr'
          refine ⟨e :: before, x, after, rfl, hx, hxel, ?_, ?_, ?_⟩
          · intro y hy hyq
            rcases List.mem_cons.mp hy with rfl | hy
            · exact Bool.eq_false_iff.mpr hel
            · exact hbefore y hy hyq
          · rw [take, if_neg (fun hboth => hel hboth.2), htake]
            rfl
          · simp [queued, hq]
      · have hcons : queued (e :: es) = queued es := by simp [queued, hq]
        rw [hcons] at h
        obtain ⟨before, x, after, rfl, hx, hxel, hbefore, htake, rfl⟩ := take_spec h
        refine ⟨e :: before, x, after, rfl, hx, hxel, ?_, ?_, ?_⟩
        · intro y hy hyq
          rcases List.mem_cons.mp hy with rfl | hy
          · exact absurd hyq hq
          · exact hbefore y hy hyq
        · rw [take, if_neg (fun hboth => hq hboth.1), htake]
          rfl
        · simp [queued, hq]

/-! ## One step -/

structure Inv (j : Journal) : Prop where
  queue : j.scheduler.queue = queued j.entries
  counted : j.scheduler.Counted
  taken : ∀ e ∈ j.entries, ∀ t, e.place = .taken t →
    (j.scheduler.workers t).pc.pending = true ∧
      ∀ f, (j.scheduler.workers t).pc = .picked f → e.element.work = .fiber f
  owner : ∀ e ∈ j.entries, ∀ t, e.place = .taken t ∨ e.place = .run t →
    e.element.thread = none ∨ e.element.thread = some t

theorem new_inv : Inv ⟨.new, []⟩ where
  queue := rfl
  counted := ⟨∅, fun t => by simp [Scheduler.new, Pc.active], rfl⟩
  taken e he := absurd he (List.not_mem_nil)
  owner e he := absurd he (List.not_mem_nil)

/-- Elements are put into the queue. -/
theorem Inv.push (h : Inv j) {s : Scheduler} (hworkers : s.workers = j.scheduler.workers)
    (hcount : s.activeThreadCount = j.scheduler.activeThreadCount)
    (fcs : List (Option FiberOrCb)) (thread : Option Nat)
    (hqueue : s.queue = j.scheduler.queue ++ (fcs.filterMap id).map fun work => ⟨work, thread⟩) :
    Inv ⟨s, j.entries ++ added fcs thread⟩ := by
  have hnew {e : Entry} (he : e ∈ added fcs thread) : e.place = .queued := by
    obtain ⟨work, -, rfl⟩ := List.mem_map.mp he
    rfl
  refine ⟨?_, ?_, fun e he t ht => ?_, fun e he t ht => ?_⟩
  · rw [queued_append, queued_added, ← h.queue]
    exact hqueue
  · obtain ⟨workers, hmem, hcard⟩ := h.counted
    exact ⟨workers, fun t => by rw [hmem, hworkers], hcount.trans hcard⟩
  · rw [hworkers]
    rcases List.mem_append.mp he with he | he
    · exact h.taken e he t ht
    · cases (hnew he).symm.trans ht
  · rcases List.mem_append.mp he with he | he
    · exact h.owner e he t ht
    · rcases ht with ht | ht <;> cases (hnew he).symm.trans ht

/-- A worker moves on with what it has taken, or has taken nothing. -/
theorem Inv.move (h : Inv j) {pc : Pc} (hm : Moves j.scheduler s t pc)
    (hqueue : s.queue = j.scheduler.queue)
    (hpending : (j.scheduler.workers t).pc.pending = true →
      pc.pending = true ∧ ∀ f, pc = .picked f → (j.scheduler.workers t).pc = .picked f) :
    Inv ⟨s, j.entries⟩ := by
  refine ⟨hqueue.trans h.queue, h.counted.moves hm, fun e he u hu => ?_, h.owner⟩
  obtain ⟨hp, hf⟩ := h.taken e he u hu
  by_cases hut : u = t
  · subst hut
    obtain ⟨hp', hf'⟩ := hpending hp
    rw [hm.here]
    exact ⟨hp', fun f hpc => hf f (hf' f hpc)⟩
  · rw [hm.others u hut]
    exact ⟨hp, hf⟩

/-- A worker is done with what it has taken. -/
theorem Inv.settle (h : Inv j) {pc : Pc} (hm : Moves j.scheduler s t pc)
    (hqueue : s.queue = j.scheduler.queue) {p : Place} (hp : p = .run t ∨ p = .dropped) :
    Inv ⟨s, settle t p j.entries⟩ := by
  have hqueued : p ≠ .queued := by rcases hp with rfl | rfl <;> simp
  refine ⟨?_, h.counted.moves hm, fun e he u hu => ?_, fun e he u hu => ?_⟩
  · rw [queued_settle hqueued, ← h.queue]
    exact hqueue
  · rcases mem_settle he with ⟨he, hnot⟩ | ⟨e₀, -, -, rfl⟩
    · have hut : u ≠ t := fun hut => hnot (hut ▸ hu)
      rw [hm.others u hut]
      exact h.taken e he u hu
    · rcases hp with rfl | rfl <;> cases hu
  · rcases mem_settle he with ⟨he, -⟩ | ⟨e₀, he₀, hplace, rfl⟩
    · exact h.owner e he u hu
    · rcases hp with rfl | rfl
      · obtain rfl : t = u := by simpa using hu
        exact h.owner e₀ he₀ t (.inl hplace)
      · rcases hu with hu | hu <;> cases hu

theorem settle_extends (hold : ∀ e ∈ entries, e.place = .taken t → e.place.Step s e.element p) :
    Extends (fun ft => Place.Step s ft) entries (settle t p entries) := by
  intro i e he
  refine ⟨_, by rw [settle, List.getElem?_map, he]; rfl, ?_, ?_⟩
  · dsimp only
    split <;> rfl
  · dsimp only
    split
    · rename_i hp
      exact hold e (List.mem_of_getElem? he) hp
    · exact .stay _

theorem take_extends : ∀ {entries : List Entry},
    Extends (fun ft => Place.Step s ft) entries (take s t entries)
  | [], i, e, he => by cases he
  | x :: xs, 0, e, he => by
      obtain rfl : x = e := by simpa using he
      rw [take]
      split
      · rename_i hx
        exact ⟨_, rfl, rfl, hx.1 ▸ .take t hx.2⟩
      · exact ⟨x, rfl, rfl, .stay _⟩
  | x :: xs, i + 1, e, he => by
      rw [take]
      split
      · exact ⟨e, he, rfl, .stay _⟩
      · have htail : Extends (fun ft => Place.Step s ft) xs (take s t xs) := take_extends
        exact htail i e he

/-- Nothing about workers and the queue has changed. -/
theorem Inv.same (h : Inv j) {s : Scheduler} (hworkers : s.workers = j.scheduler.workers)
    (hcount : s.activeThreadCount = j.scheduler.activeThreadCount)
    (hqueue : s.queue = j.scheduler.queue) : Inv ⟨s, j.entries⟩ := by
  have hpush := h.push hworkers hcount [] none (by simpa using hqueue)
  rwa [show added [] none = [] from rfl, List.append_nil] at hpush

theorem pick_inv (h : Inv j) (hpick : j.scheduler.pick t = some s) :
    Inv ⟨s, take j.scheduler t j.entries⟩ := by
  obtain ⟨hpc, ft, pc, hr, hm, hpending, hworks⟩ := Scheduler.pick_spec hpick
  rw [h.queue] at hr
  obtain ⟨before, e, after, hentries, hqueued, hel, -, htake, heq⟩ := take_spec hr
  obtain ⟨rfl, hrest⟩ := Prod.mk.inj heq
  have hfree (u : Nat) : ∀ x ∈ j.entries, x.place = .taken u → u ≠ t := by
    rintro x hx hu rfl
    have hpend := (h.taken x hx u hu).1
    rw [hpc] at hpend
    cases hpend
  refine ⟨?_, h.counted.moves hm, fun x hx u hu => ?_, fun x hx u hu => ?_⟩
  · show s.queue = _
    rw [hrest, htake, queued_append, queued_append]
    rfl
  · rw [htake] at hx
    rcases List.mem_append.mp hx with hx | hx
    · have hold : x ∈ j.entries := hentries ▸ List.mem_append_left _ hx
      rw [hm.others u (hfree u x hold hu)]
      exact h.taken x hold u hu
    · rcases List.mem_cons.mp hx with rfl | hx
      · obtain rfl : t = u := by simpa using hu
        rw [hm.here]
        exact ⟨hpending, hworks⟩
      · have hold : x ∈ j.entries := hentries ▸ List.mem_append_right _ (List.mem_cons_of_mem _ hx)
        rw [hm.others u (hfree u x hold hu)]
        exact h.taken x hold u hu
  · rw [htake] at hx
    rcases List.mem_append.mp hx with hx | hx
    · exact h.owner x (hentries ▸ List.mem_append_left _ hx) u hu
    · rcases List.mem_cons.mp hx with rfl | hx
      · obtain rfl : t = u := by simpa using hu
        exact (Scheduler.eligible_iff.mp hel).1
      · exact h.owner x (hentries ▸ List.mem_append_right _ (List.mem_cons_of_mem _ hx)) u hu

theorem Pc.not_pending {pc pc' : Pc} (h : pc = pc') (hnot : pc'.pending = false) :
    ¬pc.pending = true := by
  rw [h, hnot]
  exact Bool.false_ne_true

/-- One step of a worker. -/
theorem worker_inv (h : Inv j) {a : Scheduler.Action} (ha : ∀ ft, a ≠ .schedule ft)
    (hstep : j.scheduler.step a = some s) :
    Inv ⟨s, record j.entries j.scheduler s a⟩ ∧
      Extends (fun ft => Place.Step j.scheduler ft) j.entries
        (record j.entries j.scheduler s a) := by
  cases a with
  | create f =>
      simp only [Scheduler.step, Option.ite_none_right_eq_some, Option.some.injEq] at hstep
      obtain ⟨-, rfl⟩ := hstep
      exact ⟨h.same rfl rfl rfl, .refl⟩
  | schedule ft => exact absurd rfl (ha ft)
  | pick t => exact ⟨pick_inv h hstep, take_extends⟩
  | check t =>
      obtain ⟨f, hpc, hqueue, -, hm | ⟨hm, hdone⟩⟩ := Scheduler.check_spec hstep
      · rw [record, if_neg (by rw [hm.here]; exact nofun)]
        exact ⟨h.move hm hqueue fun _ => ⟨rfl, fun _ hp => nomatch hp⟩, .refl⟩
      · rw [record, if_pos hm.here]
        refine ⟨h.settle hm hqueue (.inr rfl), settle_extends fun e he hp => ?_⟩
        rw [hp]
        exact .drop t f ((h.taken e he t hp).2 f hpc) hdone
  | prepare t g =>
      obtain ⟨-, hqueue, f, hm⟩ := Scheduler.prepare_spec hstep
      exact ⟨h.move hm hqueue fun _ => ⟨rfl, fun _ hp => nomatch hp⟩, .refl⟩
  | swapIn t =>
      obtain ⟨f, cb, -, hqueue, hm⟩ := Scheduler.swapIn_spec hstep
      exact ⟨h.settle hm hqueue (.inl rfl), settle_extends fun e _ hp => hp ▸ .run t⟩
  | register t =>
      obtain ⟨hworkers, hcount, hqueue⟩ := Scheduler.register_spec hstep
      exact ⟨h.same hworkers hcount hqueue, .refl⟩
  | yield t st =>
      obtain ⟨f, cb, hpc, hqueue, hm⟩ := Scheduler.yield_spec hstep
      exact ⟨h.move hm hqueue fun hp => absurd hp (Pc.not_pending hpc rfl), .refl⟩
  | save t =>
      obtain ⟨f, cb, hpc, hqueue, hm⟩ := Scheduler.save_spec hstep
      exact ⟨h.move hm hqueue fun hp => absurd hp (Pc.not_pending hpc rfl), .refl⟩
  | leave t =>
      obtain ⟨f, cb, hpc, hqueue, -, hm⟩ := Scheduler.leave_spec hstep
      exact ⟨h.move hm hqueue fun hp => absurd hp (Pc.not_pending hpc rfl), .refl⟩
  | after t =>
      obtain ⟨f, cb, hpc, ⟨hready, hqueue, hm⟩ | ⟨hready, hqueue, -, hm⟩⟩ :=
        Scheduler.after_spec hstep
      · have hrecord : record j.entries j.scheduler s (.after t) =
            j.entries ++ added [some (.fiber f)] none := by
          rw [record, hpc]
          exact if_pos hready
        rw [hrecord]
        refine ⟨?_, .append _⟩
        have hpush := h.push (s := j.scheduler.schedule ⟨.fiber f, none⟩) rfl rfl
          [some (.fiber f)] none rfl
        exact hpush.move (s := s) ⟨hm.here, hm.others, hm.count⟩ hqueue fun hp =>
          absurd hp (Pc.not_pending hpc rfl)
      · have hrecord : record j.entries j.scheduler s (.after t) = j.entries := by
          rw [record, hpc]
          exact if_neg hready
        rw [hrecord]
        refine ⟨?_, .refl⟩
        rcases hm with hm | hm <;>
          exact h.move hm hqueue fun hp => absurd hp (Pc.not_pending hpc rfl)
  | hold t =>
      obtain ⟨f, cb, hpc, hqueue, -, hm⟩ := Scheduler.hold_spec hstep
      exact ⟨h.move hm hqueue fun hp => absurd hp (Pc.not_pending hpc rfl), .refl⟩

/-- One step: the invariant stays and every entry moves as it may. -/
theorem step_inv (h : Inv j) {a : Action} (hstep : j.step a = some j') :
    Inv j' ∧ Extends (fun ft => Place.Step j.scheduler ft) j.entries j'.entries := by
  cases a with
  | schedule fc thread =>
      obtain rfl := Option.some.inj hstep
      refine ⟨?_, .append _⟩
      cases fc with
      | none => exact h.push rfl rfl [none] thread (List.append_nil _).symm
      | some work => exact h.push (by rfl) (by rfl) [some work] thread (by rfl)
  | scheduleAll fcs =>
      obtain rfl := Option.some.inj hstep
      rw [Scheduler.scheduleAll_eq]
      exact ⟨h.push (by rfl) (by rfl) fcs none (by rfl), .append _⟩
  | worker a =>
      have hwork (ha : ∀ ft, a ≠ .schedule ft) : j.step (.worker a) =
          (j.scheduler.step a).map fun s => ⟨s, record j.entries j.scheduler s a⟩ := by
        cases a with
        | schedule ft => exact absurd rfl (ha ft)
        | _ => rfl
      have ha (ft : FiberAndThread) : a ≠ .schedule ft := by
        rintro rfl
        cases hstep
      rw [hwork ha] at hstep
      obtain ⟨s, hs, rfl⟩ := Option.map_eq_some_iff.mp hstep
      exact worker_inv h ha hs

/-! ## Runs -/

theorem reachable_inv (h : system.Reachable j) : Inv j :=
  h.invariant (P := Inv) (by rintro j rfl; exact new_inv)
    fun _ _ _ hj _ hstep => (step_inv hj hstep).1

theorem Extends.next (h : Extends (fun ft => Place.Step s ft) entries entries') :
    Extends (fun _ => Place.Next) entries entries' := by
  intro i e he
  obtain ⟨e', he', helement, hplace⟩ := h i e he
  exact ⟨e', he', helement, hplace.next⟩

theorem Extends.trans {entries'' : List Entry} (h : Extends (fun _ => Place.Next) entries entries')
    (h' : Extends (fun _ => Place.Next) entries' entries'') :
    Extends (fun _ => Place.Next) entries entries'' := by
  intro i e he
  obtain ⟨e', he', helement, hplace⟩ := h i e he
  obtain ⟨e'', he'', helement', hplace'⟩ := h' i e' he'
  exact ⟨e'', he'', helement'.trans helement, hplace.trans hplace'⟩

/-- **The queue is conserved.** In every state reached: -/
theorem queue_conserved (h : system.Reachable j) :
    -- the queue holds what has not been taken, in the order of insertion
    j.scheduler.queue = queued j.entries ∧
    -- an element goes to a worker that it is for
    (∀ e ∈ j.entries, ∀ t, e.place = .taken t ∨ e.place = .run t →
      e.element.thread = none ∨ e.element.thread = some t) ∧
    -- the one that is taken is the first of those the worker may have
    (∀ t j', j.step (.worker (.pick t)) = some j' →
      ∃ before e after, j.entries = before ++ e :: after ∧ e.place = .queued ∧
        j.scheduler.eligible t e.element = true ∧
        (∀ x ∈ before, x.place = .queued → j.scheduler.eligible t x.element = false) ∧
        j'.entries = before ++ { e with place := .taken t } :: after) ∧
    -- a step takes, runs or drops an element, the last only when its fiber has ended
    (∀ a j', j.step a = some j' →
      Extends (fun ft => Place.Step j.scheduler ft) j.entries j'.entries) ∧
    -- no element ever comes back
    (∀ j', (system.startingAt j).Reachable j' →
      Extends (fun _ => Place.Next) j.entries j'.entries) ∧
    -- what is scheduled comes behind all others, in iteration order
    (∀ fcs j', j.step (.scheduleAll fcs) = some j' → j'.entries = j.entries ++ added fcs none) ∧
    -- the counter is the number of active workers, and a decrement never finds it zero
    j.scheduler.Counted ∧
    ∀ t, (j.scheduler.workers t).pc.active = true → 0 < j.scheduler.activeThreadCount := by
  have hj := reachable_inv h
  refine ⟨hj.queue, hj.owner, fun t j' hstep => ?_, fun a j' hstep => (step_inv hj hstep).2,
    fun j' h' => ?_, fun fcs j' hstep => ?_, hj.counted, fun t ht => hj.counted.pos ht⟩
  · obtain ⟨s, hs, rfl⟩ := Option.map_eq_some_iff.mp hstep
    obtain ⟨-, ft, pc, hr, -⟩ := Scheduler.pick_spec hs
    rw [hj.queue] at hr
    obtain ⟨before, e, after, hentries, hqueued, hel, hbefore, htake, -⟩ := take_spec hr
    exact ⟨before, e, after, hentries, hqueued, hel, hbefore, htake⟩
  · exact h.run (R := fun j j' => Extends (fun _ => Place.Next) j.entries j'.entries)
      (fun j => (Extends.refl (s := j.scheduler)).next) (fun _ _ _ => Extends.trans)
      (fun _ _ _ hr _ hstep => (step_inv (reachable_inv hr) hstep).2.next) h'
  · obtain rfl := Option.some.inj hstep
    rfl

/-- The first element is for worker 1, and worker 0 passes over it. -/
theorem queue_conserved_two :
    ∃ j, system.Reachable j ∧ j.entries = [⟨⟨.cb 7, some 1⟩, .queued⟩, ⟨⟨.cb 8, none⟩, .taken 0⟩] ∧
      j.scheduler.queue = [⟨.cb 7, some 1⟩] ∧ 0 < j.scheduler.activeThreadCount := by
  have hinit : system.Reachable ⟨.new, []⟩ := .init rfl
  have hfirst := hinit.next (e := .schedule (some (.cb 7)) (some 1)) rfl
  have hsecond := hfirst.next (e := .scheduleAll [none, some (.cb 8)]) rfl
  have hpick := hsecond.next (e := .worker (.pick 0)) rfl
  obtain ⟨hqueue, -, -, -, -, -, -, hpos⟩ := queue_conserved hpick
  exact ⟨_, hpick, rfl, hqueue, hpos 0 rfl⟩

end Journal

end Sylar
