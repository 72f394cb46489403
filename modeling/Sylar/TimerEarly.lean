import Sylar.TimerInactive
import Sylar.TimerWake

/-!
# No timer fires early

`Stamped` remembers for each timer when it was armed, and for each
callback that `listExpiredCb` has returned the time of its timer.
`m_next` is the start plus the period in `uint64_t` (`Started`), so a
timer taken because of its `m_next` is due unless that sum has wrapped
around. The others are taken when a clock rollover is detected, which a
reading of the clock from before the lock can bring about while the
clock only goes on.

The clock never goes back and stays a `uint64_t`. Functions that read
it before they take the lock may use any earlier reading.
-/

namespace Sylar

namespace TimerManager

variable {C : Type} {m m' : TimerManager C} {a b now : Nat} {t : Timer C}

instance (clock : Nat) : (op : Op C) → Decidable (op.ReadsAt clock)
  | .addTimer _ _ _ _ now => inferInstanceAs (Decidable (now ≤ clock))
  | .refresh _ now => inferInstanceAs (Decidable (now = clock))
  | .reset _ _ _ _ now => inferInstanceAs (Decidable (now = clock))
  | .getNextTimer now => inferInstanceAs (Decidable (now = clock))
  | .listExpiredCb now _ => inferInstanceAs (Decidable (now ≤ clock))
  | .cancel _ => .isTrue trivial
  | .release _ => .isTrue trivial

instance : (op : Op C) → Decidable op.Sized
  | .addTimer _ ms _ _ _ => inferInstanceAs (Decidable (ms < 2 ^ 64))
  | .reset _ ms _ _ _ => inferInstanceAs (Decidable (ms < 2 ^ 64))
  | .cancel _ => .isTrue trivial
  | .refresh _ _ => .isTrue trivial
  | .getNextTimer _ => .isTrue trivial
  | .listExpiredCb _ _ => .isTrue trivial
  | .release _ => .isTrue trivial

/-- `m_ms` of the timer at `a`. -/
def ms (m : TimerManager C) (a : Nat) : Nat := (m.heap a).elim 0 Timer.ms

/-- A callback that has been returned, with the time, and the start and
the period of its timer. -/
structure Firing (C : Type) where
  cb : Option (Callback C)
  now : Nat
  start : Nat
  ms : Nat

/-- The manager next to the time, when each timer was last armed, what
has been returned so far, and what `listExpiredCb` has returned. -/
structure Stamped (C : Type) where
  manager : TimerManager C
  clock : Nat
  start : Nat → Nat
  fired : List (Firing C)
  returned : List (Option (Callback C))

namespace Stamped

/-- The starts after the timers `p` have been armed at time `now`. -/
def arm (start : Nat → Nat) (p : Nat → Bool) (now : Nat) : Nat → Nat :=
  fun a => if p a then now else start a

/-- When each timer was last armed, after a critical section. -/
def starts (w : Stamped C) : Op C → Nat → Nat
  | .addTimer addr _ _ _ now => arm w.start (· = addr) now
  | .refresh a now =>
      match w.manager.refresh a now with
      | .ok (true, _) => arm w.start (· = a) now
      | _ => w.start
  | .reset a ms fromNow seen now =>
      match w.manager.reset a ms fromNow seen now with
      | .ok (true, _) => if fromNow then arm w.start (· = a) now else w.start
      | _ => w.start
  | .listExpiredCb now _ =>
      arm w.start (fun a => a ∈ w.manager.expired now ∧ (w.manager.heap a).any Timer.recurring) now
  | _ => w.start

/-- What is known after a critical section that leaves `m`. -/
def observe (w : Stamped C) (m : TimerManager C) (op : Op C) : Stamped C :=
  let w' := { w with manager := m, start := w.starts op }
  match op with
  | .listExpiredCb now probe =>
      { w' with
        fired := w.fired ++ (w.manager.expired now).map fun a =>
          ⟨(w.manager.heap a).bind Timer.cb, now, w.start a, w.manager.ms a⟩
        returned := w.returned ++ (w.manager.listExpiredCb now probe).1 }
  | _ => w'

/-- Critical sections in any order while the time goes on. -/
def system (C : Type) : System (Stamped C) (Watched.Event C) where
  init w := w.manager = new w.clock ∧ w.clock < 2 ^ 64 ∧ w.fired = [] ∧ w.returned = []
  step w
    | .tick now => if w.clock ≤ now ∧ now < 2 ^ 64 then some { w with clock := now } else none
    | .run op =>
        if op.ReadsAt w.clock ∧ op.Sized then (w.manager.run op).map fun r => w.observe r.2 op
        else none

/-- No timer fires early. -/
def OnTime (w : Stamped C) : Prop := ∀ f ∈ w.fired, f.start + f.ms ≤ f.now

/-- A rollover is only detected when every timer is due anyway, and no
timer whose `m_next` has come was to wait beyond `2 ^ 64`. -/
def Due (w : Stamped C) : Watched.Event C → Prop
  | .run (.listExpiredCb now _) =>
      ((w.manager.detectClockRollover now).1 = true →
        ∀ a ∈ w.manager.timers, w.manager.next a ≤ now) ∧
      ∀ a ∈ w.manager.timers, w.manager.next a ≤ now → w.start a + w.manager.ms a < 2 ^ 64
  | _ => True

instance (w : Stamped C) : (e : Watched.Event C) → Decidable (w.Due e)
  | .run (.listExpiredCb _ _) => inferInstanceAs (Decidable (_ ∧ _))
  | .run (.addTimer ..) => .isTrue trivial
  | .run (.cancel _) => .isTrue trivial
  | .run (.refresh ..) => .isTrue trivial
  | .run (.reset ..) => .isTrue trivial
  | .run (.getNextTimer _) => .isTrue trivial
  | .run (.release _) => .isTrue trivial
  | .tick _ => .isTrue trivial

/-! ## The invariant -/

/-- `m_next` is the start plus the period. -/
def Started (start : Nat → Nat) (m : TimerManager C) : Prop :=
  ∀ a t, m.heap a = some t → t.next = add64 (start a) t.ms ∧ start a < 2 ^ 64 ∧ t.ms < 2 ^ 64

structure Inv (w : Stamped C) : Prop where
  stored : Stored [] w.manager
  clock_lt : w.clock < 2 ^ 64
  started : Started w.start w.manager
  returned : w.fired.map Firing.cb = w.returned

variable {start : Nat → Nat} {w w' : Stamped C} {op : Op C}

theorem Started.congr (h : Started start m) (hheap : m'.heap = m.heap) : Started start m' := by
  intro a t ht
  exact h a t (hheap ▸ ht)

/-- A timer is armed. -/
theorem Started.arm (h : Started start m) (hnow : now < 2 ^ 64) (hms : t.ms < 2 ^ 64)
    (hnext : t.next = add64 now t.ms) :
    Started (Stamped.arm start (· = a) now) (m.put a t) := by
  intro b u hu
  by_cases hba : b = a
  · subst hba
    rw [heap_put_self] at hu
    obtain rfl := Option.some.inj hu
    simpa [Stamped.arm] using ⟨hnext, hnow, hms⟩
  · rw [heap_put_ne m t hba] at hu
    simpa [Stamped.arm, hba] using h b u hu

/-- A timer is assigned to and keeps its start. -/
theorem Started.put (h : Started start m) (hstart : start a < 2 ^ 64) (hms : t.ms < 2 ^ 64)
    (hnext : t.next = add64 (start a) t.ms) : Started start (m.put a t) := by
  intro b u hu
  by_cases hba : b = a
  · subst hba
    rw [heap_put_self] at hu
    obtain rfl := Option.some.inj hu
    exact ⟨hnext, hstart, hms⟩
  · rw [heap_put_ne m t hba] at hu
    exact h b u hu

/-- The start is what `reset` makes of `m_next` and `m_ms`. -/
theorem Started.sub64 (h : Started start m) (ht : m.heap a = some t) :
    sub64 t.next t.ms = start a := by
  obtain ⟨hnext, hstart, hms⟩ := h a t ht
  rw [hnext]
  unfold Sylar.sub64 add64
  omega

/-- The timers that have been dealt with start again. -/
theorem Started.rearm {out : List Nat} (hnodup : out.Nodup)
    (halive : ∀ a ∈ out, ∃ t, m.heap a = some t) (h : Started start m) (hnow : now < 2 ^ 64) :
    Started (Stamped.arm start (fun a => a ∈ out ∧ (m.heap a).any Timer.recurring) now)
      (TimerManager.rearm now out m).2 := by
  intro b u hu
  by_cases hb : b ∈ out
  · obtain ⟨t, ht⟩ := halive b hb
    obtain ⟨hnext, hstart, hms⟩ := h b t ht
    rw [heap_rearm_of_mem hnodup halive hb ht, rearmed] at hu
    obtain rfl := Option.some.inj hu
    cases hr : t.recurring with
    | true => simpa [Stamped.arm, hb, ht, hr] using ⟨hnow, hms⟩
    | false => simpa [Stamped.arm, hb, ht, hr] using ⟨hnext, hstart, hms⟩
  · rw [heap_rearm_of_not_mem halive hb] at hu
    simpa [Stamped.arm, hb] using h b u hu

/-! ## One critical section -/

/-- `listExpiredCb` returns the callbacks of the timers it takes. -/
theorem listExpiredCb_fst (hs : Stored [] m) {probe : Nat} (hprobe : m.heap probe = none) :
    (m.listExpiredCb now probe).1 = (m.expired now).map fun a => (m.heap a).bind Timer.cb := by
  obtain ⟨n, prev, htake, -, hloop⟩ := listExpiredCb_eq now hs hprobe
  rw [hloop, ← htake]
  exact rearm_fst (m := { m with timers := m.timers.drop n, previouseTime := prev }) now
    (hs.nodup_take n) (hs.alive_take n)

/-- `refresh` starts its timer at the current time. -/
theorem started_refresh (hs : Stored [] w.manager) (h : Started w.start w.manager)
    (hclock : w.clock < 2 ^ 64) {a : Nat} {front : Bool}
    (hrun : w.manager.run (.refresh a w.clock) = some (front, m')) :
    Started (w.starts (.refresh a w.clock)) m' := by
  cases ht : w.manager.heap a with
  | none => simp [run, refresh, ht, Except.toOption] at hrun
  | some t =>
      have hrefresh := hs.refresh_eq ht w.clock
      rw [run, hrefresh] at hrun
      rw [starts, hrefresh]
      simp only [Except.toOption, Option.map_some, Option.some.injEq, Prod.mk.injEq] at hrun
      obtain ⟨-, rfl⟩ := hrun
      obtain ⟨-, -, hms⟩ := h a t ht
      cases t.cb.isSome with
      | false => exact h
      | true =>
          have harm := h.arm (a := a) (t := { t with next := add64 w.clock t.ms }) hclock hms rfl
          exact harm.congr rfl

/-- So does `reset` with `from_now`; without it the start stays. -/
theorem started_reset (hs : Stored [] w.manager) (h : Started w.start w.manager)
    (hclock : w.clock < 2 ^ 64) {a ms seen : Nat} (hms : ms < 2 ^ 64) {fromNow front : Bool}
    (hrun : w.manager.run (.reset a ms fromNow seen w.clock) = some (front, m')) :
    Started (w.starts (.reset a ms fromNow seen w.clock)) m' := by
  by_cases hsame : ms = seen ∧ fromNow = false
  · obtain ⟨rfl, rfl⟩ := hsame
    simp only [run, reset, and_self, if_true, Except.toOption, Option.map_some,
      Option.some.injEq, Prod.mk.injEq] at hrun
    obtain ⟨-, rfl⟩ := hrun
    simp only [starts, reset, and_self, if_true, Bool.false_eq_true, if_false]
    exact h
  · cases ht : w.manager.heap a with
    | none => simp [run, reset, hsame, ht, Except.toOption] at hrun
    | some t =>
        have hreset : w.manager.reset a ms fromNow seen w.clock = _ := hs.reset_eq ht hsame
        rw [run, hreset] at hrun
        rw [starts, hreset]
        simp only [Except.toOption, Option.map_some, Option.some.injEq] at hrun
        obtain ⟨-, hstart, -⟩ := h a t ht
        cases hcb : t.cb.isSome with
        | false =>
            rw [hcb, if_neg Bool.false_ne_true] at hrun
            obtain rfl : w.manager = m' := congrArg Prod.snd hrun
            exact h
        | true =>
            rw [hcb, if_pos rfl] at hrun
            obtain rfl : _ = m' := congrArg Prod.snd hrun
            refine Started.congr ?_ (heap_addTimerLocked _ a)
            cases fromNow with
            | true =>
                simp only [if_true]
                have harm := h.arm (a := a)
                  (t := { t with ms := ms, next := add64 w.clock ms }) hclock hms rfl
                exact harm.congr rfl
            | false =>
                simp only [if_true, Bool.false_eq_true, if_false]
                have hput := h.put (a := a)
                  (t := { t with ms := ms, next := add64 (Sylar.sub64 t.next t.ms) ms })
                  hstart hms (by rw [h.sub64 ht])
                exact hput.congr rfl

/-- Each function arms its timer as `starts` says. -/
theorem started_run (hs : Stored [] w.manager) (h : Started w.start w.manager) {op : Op C}
    (hclock : w.clock < 2 ^ 64) (hreads : op.ReadsAt w.clock) (hsized : op.Sized) {front : Bool}
    (hrun : w.manager.run op = some (front, m')) : Started (w.starts op) m' := by
  cases op with
  | addTimer addr ms cb recurring now =>
      simp only [run, Option.ite_none_right_eq_some, Option.some.injEq] at hrun
      obtain ⟨-, hrun⟩ := hrun
      obtain rfl : _ = m' := congrArg Prod.snd hrun
      have hle : now ≤ w.clock := hreads
      refine Started.congr ?_ (heap_addTimerLocked _ addr)
      exact h.arm (by omega) hsized rfl
  | cancel a =>
      cases ht : w.manager.heap a with
      | none => simp [run, cancel, ht, Except.toOption] at hrun
      | some t =>
          rw [run, hs.cancel_eq ht] at hrun
          simp only [Except.toOption, Option.map_some, Option.some.injEq, Prod.mk.injEq] at hrun
          obtain ⟨-, rfl⟩ := hrun
          split
          · obtain ⟨hnext, hstart, hms⟩ := h a t ht
            have hput : Started w.start (w.manager.put a { t with cb := none }) :=
              h.put hstart hms hnext
            exact hput.congr rfl
          · exact h
  | refresh a now =>
      obtain rfl : now = w.clock := hreads
      exact started_refresh hs h hclock hrun
  | reset a ms fromNow seen now =>
      obtain rfl : now = w.clock := hreads
      exact started_reset hs h hclock hsized hrun
  | getNextTimer now =>
      simp only [run, getNextTimer_eq, Option.some.injEq, Prod.mk.injEq] at hrun
      obtain ⟨-, rfl⟩ := hrun
      exact h
  | listExpiredCb now probe =>
      simp only [run, Option.ite_none_right_eq_some, Option.some.injEq, Prod.mk.injEq] at hrun
      obtain ⟨hprobe, -, rfl⟩ := hrun
      obtain ⟨n, prev, htake, -, hloop⟩ := listExpiredCb_eq now hs hprobe
      have hle : now ≤ w.clock := hreads
      rw [hloop, starts, ← htake]
      have hrest : Started w.start { w.manager with
          timers := w.manager.timers.drop n, previouseTime := prev } := h.congr rfl
      exact hrest.rearm (hs.nodup_take n) (hs.alive_take n) (by omega)
  | release a =>
      simp only [run, Option.ite_none_left_eq_some, Option.some.injEq, Prod.mk.injEq] at hrun
      obtain ⟨-, -, rfl⟩ := hrun
      intro b t hb
      by_cases hba : b = a
      · simp [hba] at hb
      · simp only [if_neg hba] at hb
        exact h b t hb

theorem observe_eq (hop : ∀ now probe, op ≠ .listExpiredCb now probe) (m : TimerManager C) :
    w.observe m op = { w with manager := m, start := w.starts op } := by
  cases op with
  | listExpiredCb now probe => exact absurd rfl (hop now probe)
  | addTimer addr ms cb recurring now => rfl
  | cancel a => rfl
  | refresh a now => rfl
  | reset a ms fromNow seen now => rfl
  | getNextTimer now => rfl
  | release a => rfl

theorem step_inv (h : w.Inv) {e : Watched.Event C} (hstep : (system C).step w e = some w') :
    w'.Inv := by
  cases e with
  | tick now =>
      simp only [system, Option.ite_none_right_eq_some, Option.some.injEq] at hstep
      obtain ⟨⟨-, hlt⟩, rfl⟩ := hstep
      exact ⟨h.stored, hlt, h.started, h.returned⟩
  | run op =>
      simp only [system, Option.ite_none_right_eq_some] at hstep
      obtain ⟨⟨hreads, hsized⟩, hstep⟩ := hstep
      obtain ⟨⟨front, m'⟩, hrun, rfl⟩ := Option.map_eq_some_iff.mp hstep
      have hstored := (run_move h.stored hrun).stored h.stored
      have hstarted := started_run h.stored h.started h.clock_lt hreads hsized hrun
      by_cases hlist : ∃ now probe, op = .listExpiredCb now probe
      · obtain ⟨now, probe, rfl⟩ := hlist
        refine ⟨hstored, h.clock_lt, hstarted, ?_⟩
        simp only [run, Option.ite_none_right_eq_some] at hrun
        show (w.fired ++ _).map Firing.cb = w.returned ++ _
        rw [List.map_append, h.returned, listExpiredCb_fst h.stored hrun.1, List.map_map]
        rfl
      · rw [observe_eq fun now probe heq => hlist ⟨now, probe, heq⟩]
        exact ⟨hstored, h.clock_lt, hstarted, h.returned⟩

theorem init_inv (h : (system C).init w) : w.Inv := by
  obtain ⟨hm, hlt, hfired, hreturned⟩ := h
  refine ⟨hm ▸ new_stored w.clock, hlt, ?_, by rw [hfired, hreturned]; rfl⟩
  intro a t ht
  rw [hm] at ht
  cases ht

/-- The timers that are taken are due, in unbounded integers, exactly
if the section is one of the permitted. -/
theorem Inv.due_iff (h : w.Inv) {now probe : Nat} (hle : now ≤ w.clock) :
    (∀ a ∈ w.manager.expired now, w.start a + w.manager.ms a ≤ now) ↔
      w.Due (.run (.listExpiredCb now probe)) := by
  have hlt := h.clock_lt
  have hnext (a : Nat) (ha : a ∈ w.manager.timers) :
      w.manager.next a = add64 (w.start a) (w.manager.ms a) := by
    obtain ⟨t, ht⟩ := h.stored.alive a (.inl ha)
    rw [next_eq ht, (h.started a t ht).1, TimerManager.ms, ht]
    rfl
  rw [Due, expired]
  cases (w.manager.detectClockRollover now).1 with
  | true =>
      simp only [if_true, true_imp_iff]
      constructor
      · intro hdue
        refine ⟨fun a ha => ?_, fun a ha _ => ?_⟩
        · have := hdue a ha
          rw [hnext a ha, add64_eq (by omega)]
          exact this
        · have := hdue a ha
          omega
      · rintro ⟨hall, hwrap⟩ a ha
        have hcome := hall a ha
        have hsum := hwrap a ha hcome
        rwa [hnext a ha, add64_eq hsum] at hcome
  | false =>
      simp only [Bool.false_eq_true, if_false, false_imp_iff, true_and, List.mem_filter,
        decide_eq_true_eq]
      constructor
      · intro hdue a ha hcome
        have := hdue a ⟨ha, hcome⟩
        omega
      · rintro hwrap a ⟨ha, hcome⟩
        have hsum := hwrap a ha hcome
        rwa [hnext a ha, add64_eq hsum] at hcome

/-- A step keeps to the times exactly if it is one of the permitted. -/
theorem step_onTime (h : w.Inv) {e : Watched.Event C} (hstep : (system C).step w e = some w') :
    w'.OnTime ↔ w.OnTime ∧ w.Due e := by
  cases e with
  | tick now =>
      simp only [system, Option.ite_none_right_eq_some, Option.some.injEq] at hstep
      obtain ⟨-, rfl⟩ := hstep
      exact (and_iff_left trivial).symm
  | run op =>
      simp only [system, Option.ite_none_right_eq_some] at hstep
      obtain ⟨⟨hreads, -⟩, hstep⟩ := hstep
      obtain ⟨⟨front, m'⟩, -, rfl⟩ := Option.map_eq_some_iff.mp hstep
      by_cases hlist : ∃ now probe, op = .listExpiredCb now probe
      · obtain ⟨now, probe, rfl⟩ := hlist
        rw [← h.due_iff hreads]
        show (∀ f ∈ w.fired ++ _, _) ↔ _
        rw [List.forall_mem_append, List.forall_mem_map]
        rfl
      · have hdue : w.Due (.run op) := by
          cases op with
          | listExpiredCb now probe => exact absurd ⟨now, probe, rfl⟩ hlist
          | _ => trivial
        rw [observe_eq fun now probe heq => hlist ⟨now, probe, heq⟩]
        exact (and_iff_left hdue).symm

/-- **When no timer fires early**: in exactly the runs in which no
rollover is detected before every timer is due, and no `m_next` that has
come stands for a time beyond `2 ^ 64`. -/
theorem never_fires_early_iff {es : List (Watched.Event C)} (hinit : (system C).init w)
    (hrun : (system C).replay w es = some w') :
    w'.fired.map Firing.cb = w'.returned ∧
      (w'.OnTime ↔ (system C).replayBy Due w es = some w') := by
  have hinv := init_inv hinit
  constructor
  · have hreach := System.replay_reachable (.init hinit) hrun
    exact (hreach.invariant (P := Inv) (fun _ => init_inv) fun _ _ _ h _ => step_inv h).returned
  · have hiff := System.replay_iff (fun _ _ _ h hstep => step_inv h hstep)
      (fun _ _ _ h hstep => step_onTime h hstep) hinv hrun
    rw [hiff, and_iff_right]
    intro f hf
    rw [hinit.2.2.1] at hf
    cases hf

/-- A timer of 10 ms, taken after 10 ms. -/
theorem never_fires_early_iff_ten :
    ∃ w' : Stamped Nat, (system Nat).replay ⟨new 1000, 1000, fun _ => 0, [], []⟩
        [.run (.addTimer 1 10 (.fn 7) false 1000), .tick 1010, .run (.listExpiredCb 1010 2)] =
          some w' ∧ w'.returned = [some (.fn 7)] ∧ w'.OnTime := by
  have hinit : (system Nat).init ⟨new 1000, 1000, fun _ => 0, [], []⟩ := by
    refine ⟨rfl, ?_, rfl, rfl⟩
    show 1000 < 2 ^ 64
    decide
  have hrun : (system Nat).replay ⟨new 1000, 1000, fun _ => 0, [], []⟩
      [.run (.addTimer 1 10 (.fn 7) false 1000), .tick 1010, .run (.listExpiredCb 1010 2)] =
        some _ := rfl
  exact ⟨_, hrun, rfl, (never_fires_early_iff hinit hrun).2.mpr rfl⟩

/-- A timer of `2 ^ 64 - 1` ms, taken at once. -/
theorem fires_early :
    ∃ w' : Stamped Nat, (system Nat).init ⟨new 1000, 1000, fun _ => 0, [], []⟩ ∧
      (system Nat).replay ⟨new 1000, 1000, fun _ => 0, [], []⟩
        [.run (.addTimer 1 (2 ^ 64 - 1) (.fn 7) false 1000), .run (.listExpiredCb 1000 2)] =
          some w' ∧ w'.returned = [some (.fn 7)] ∧ ¬w'.OnTime := by
  refine ⟨_, ⟨rfl, by show 1000 < 2 ^ 64; decide, rfl, rfl⟩, rfl, rfl, fun hall => ?_⟩
  have hearly := hall ⟨some (.fn 7), 1000, 1000, 2 ^ 64 - 1⟩ (List.mem_singleton_self _)
  simp at hearly

end Stamped

end TimerManager

end Sylar
