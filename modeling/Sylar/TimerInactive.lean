import Sylar.TimerExpiry

/-!
# Operations on a timer that has ended

`History` remembers which timers have been cancelled or have expired as
one-shots. These are exactly the ones without a callback
(`Inv.ended_iff`), so `cancel` and `refresh` fail on them.

`reset` does too, except that it compares the new period with `m_ms`
before it looks at the callback: to the period the timer has, without
`from_now`, it answers true for any timer (`answered_iff`).
-/

namespace Sylar

namespace TimerManager

variable {C : Type} {m m' : TimerManager C} {a b now : Nat} {t : Timer C}

/-- The periods that an operation is given are `uint64_t`s. -/
def Op.Sized : Op C → Prop
  | .addTimer _ ms _ _ _ => ms < 2 ^ 64
  | .reset _ ms _ _ _ => ms < 2 ^ 64
  | _ => True

/-- The manager and the timers that have been cancelled or have expired
as one-shots. -/
structure History (C : Type) where
  manager : TimerManager C
  ended : List Nat

namespace History

/-- The timers that have ended after an operation. -/
def observe (w : History C) : Op C → List Nat
  | .cancel a =>
      match w.manager.cancel a with
      | .ok (true, _) => a :: w.ended
      | _ => w.ended
  | .listExpiredCb now _ =>
      w.ended ++ (w.manager.expired now).filter fun a => (w.manager.heap a).any (!·.recurring)
  | .release a => w.ended.filter (· ≠ a)
  | _ => w.ended

/-- Critical sections in any order. -/
def system (C : Type) : System (History C) (Op C) where
  init w := (∃ now, w.manager = new now) ∧ w.ended = []
  step w op := (w.manager.run op).map fun r => ⟨r.2, w.observe op⟩

/-- What the three functions are to do with the timer at `a`, which is
`t`. -/
structure Answered (w : History C) (a : Nat) (t : Timer C) (ms : Nat) (fromNow : Bool)
    (now : Nat) : Prop where
  cancel : a ∈ w.ended → w.manager.cancel a = .ok (false, w.manager)
  refresh : a ∈ w.ended → w.manager.refresh a now = .ok (false, w.manager)
  reset : a ∈ w.ended → w.manager.reset a ms fromNow t.ms now = .ok (false, false, w.manager)
  active : a ∉ w.ended → ∃ front m', w.manager.reset a ms fromNow t.ms now =
      .ok (true, front, m') ∧ a ∈ m'.timers ∧ ∃ t', m'.heap a = some t' ∧ t'.ms = ms ∧
        t'.next = add64 (if fromNow then now else sub64 t.next t.ms) ms

/-! ## The invariant -/

/-- A timer without a callback. -/
def Idle (m : TimerManager C) (a : Nat) : Prop := ∃ t, m.heap a = some t ∧ t.cb = none

structure Inv (w : History C) : Prop where
  stored : Stored [] w.manager
  sized : ∀ a t, w.manager.heap a = some t → t.ms < 2 ^ 64 ∧ t.next < 2 ^ 64
  ended_iff : ∀ a, a ∈ w.ended ↔ Idle w.manager a

theorem add64_lt (x y : Nat) : add64 x y < 2 ^ 64 := Nat.mod_lt _ (by decide)

theorem sized_put (h : ∀ a t, m.heap a = some t → t.ms < 2 ^ 64 ∧ t.next < 2 ^ 64)
    (hms : t.ms < 2 ^ 64) (hnext : t.next < 2 ^ 64) :
    ∀ b u, (m.put a t).heap b = some u → u.ms < 2 ^ 64 ∧ u.next < 2 ^ 64 := by
  intro b u hu
  by_cases hba : b = a
  · subst hba
    rw [heap_put_self] at hu
    obtain rfl := Option.some.inj hu
    exact ⟨hms, hnext⟩
  · rw [heap_put_ne m t hba] at hu
    exact h b u hu

theorem idle_put_self : Idle (m.put a t) a ↔ t.cb = none := by
  rw [Idle, heap_put_self]
  simp

theorem idle_put_ne (h : b ≠ a) : Idle (m.put a t) b ↔ Idle m b := by
  rw [Idle, heap_put_ne m t h]
  rfl

theorem idle_congr (h : m'.heap = m.heap) (b : Nat) : Idle m' b ↔ Idle m b := by
  rw [Idle, Idle, h]

/-- A timer that has been dealt with. -/
theorem idle_rearm (now : Nat) {out : List Nat} (hnodup : out.Nodup)
    (halive : ∀ a ∈ out, ∃ t, m.heap a = some t ∧ t.cb ≠ none) (b : Nat) :
    Idle (rearm now out m).2 b ↔
      Idle m b ∨ b ∈ out ∧ (m.heap b).any (!·.recurring) = true := by
  have halive' : ∀ a ∈ out, ∃ t, m.heap a = some t := by
    intro a ha
    obtain ⟨t, ht, -⟩ := halive a ha
    exact ⟨t, ht⟩
  by_cases hb : b ∈ out
  · obtain ⟨t, ht, hcb⟩ := halive b hb
    have hnot : ¬Idle m b := by
      rintro ⟨u, hu, hnone⟩
      obtain rfl := Option.some.inj (ht.symm.trans hu)
      exact hcb hnone
    rw [Idle, heap_rearm_of_mem hnodup halive' hb ht, rearmed, ht]
    cases hr : t.recurring with
    | true => simp [hnot, hr, hcb]
    | false => simp [hb, hr]
  · rw [Idle, heap_rearm_of_not_mem halive' hb]
    simp [Idle, hb]

theorem sized_rearm {out : List Nat} (hnodup : out.Nodup)
    (halive : ∀ a ∈ out, ∃ t, m.heap a = some t)
    (h : ∀ a t, m.heap a = some t → t.ms < 2 ^ 64 ∧ t.next < 2 ^ 64) :
    ∀ a t, (rearm now out m).2.heap a = some t → t.ms < 2 ^ 64 ∧ t.next < 2 ^ 64 := by
  intro b u hu
  by_cases hb : b ∈ out
  · obtain ⟨t, ht⟩ := halive b hb
    rw [heap_rearm_of_mem hnodup halive hb ht, rearmed] at hu
    obtain rfl := Option.some.inj hu
    split
    · exact ⟨(h b t ht).1, add64_lt ..⟩
    · exact h b t ht
  · rw [heap_rearm_of_not_mem halive hb] at hu
    exact h b u hu

theorem Inv.mem_ended {w : History C} (h : w.Inv) (ht : w.manager.heap a = some t) :
    a ∈ w.ended ↔ t.cb = none := by
  rw [h.ended_iff, Idle, ht]
  simp

/-- An assignment to a timer, which ends no other. -/
theorem Inv.assign {w : History C} (h : w.Inv) {u : Timer C} {ended : List Nat}
    (hstored : Stored [] m') (hheap : m'.heap = (w.manager.put a u).heap)
    (hms : u.ms < 2 ^ 64) (hnext : u.next < 2 ^ 64) (hself : a ∈ ended ↔ u.cb = none)
    (hother : ∀ b, b ≠ a → (b ∈ ended ↔ b ∈ w.ended)) : Inv ⟨m', ended⟩ := by
  refine ⟨hstored, ?_, fun b => ?_⟩
  · show ∀ b t, m'.heap b = some t → _
    rw [hheap]
    exact sized_put h.sized hms hnext
  · show b ∈ ended ↔ Idle m' b
    rw [idle_congr hheap]
    by_cases hb : b = a
    · subst hb
      exact hself.trans idle_put_self.symm
    · rw [idle_put_ne hb, hother b hb]
      exact h.ended_iff b

theorem step_inv {w : History C} (h : w.Inv) {op : Op C} (hop : op.Sized) {front : Bool}
    (hrun : w.manager.run op = some (front, m')) : Inv ⟨m', w.observe op⟩ := by
  have hs := h.stored
  have hmove := run_move hs hrun
  have hstored := hmove.stored hs
  cases op with
  | addTimer addr ms cb recurring now =>
      simp only [run, Option.ite_none_right_eq_some, Option.some.injEq] at hrun
      obtain ⟨hfree, hrun⟩ := hrun
      obtain rfl : _ = m' := congrArg Prod.snd hrun
      refine h.assign hstored (heap_addTimerLocked ..) hop (add64_lt ..) ?_ fun _ _ => Iff.rfl
      show addr ∈ w.ended ↔ some cb = none
      rw [h.ended_iff, Idle, hfree]
      simp
  | cancel a =>
      cases ht : w.manager.heap a with
      | none => simp [run, cancel, ht, Except.toOption] at hrun
      | some t =>
          have hcancel := hs.cancel_eq ht
          rw [run, hcancel] at hrun
          simp only [Except.toOption, Option.map_some, Option.some.injEq, Prod.mk.injEq] at hrun
          obtain ⟨-, rfl⟩ := hrun
          rw [observe, hcancel]
          cases hcb : t.cb.isSome with
          | false => exact h
          | true =>
              obtain ⟨hms, hnext⟩ := h.sized a t ht
              refine h.assign (u := { t with cb := none }) (by simpa [hcb] using hstored) rfl
                hms hnext ?_ fun b hb => ?_
              · exact iff_of_true List.mem_cons_self rfl
              · exact List.mem_cons.trans (or_iff_right hb)
  | refresh a now =>
      cases ht : w.manager.heap a with
      | none => simp [run, refresh, ht, Except.toOption] at hrun
      | some t =>
          rw [run, hs.refresh_eq ht] at hrun
          simp only [Except.toOption, Option.map_some, Option.some.injEq, Prod.mk.injEq] at hrun
          obtain ⟨-, rfl⟩ := hrun
          cases hcb : t.cb.isSome with
          | false => exact h
          | true =>
              have hself := h.mem_ended ht
              exact h.assign (u := { t with next := add64 now t.ms })
                (by simpa [hcb] using hstored) rfl (h.sized a t ht).1 (add64_lt ..) hself
                fun _ _ => Iff.rfl
  | reset a ms fromNow seen now =>
      by_cases hsame : ms = seen ∧ fromNow = false
      · simp only [run, reset, if_pos hsame, Except.toOption, Option.map_some,
          Option.some.injEq, Prod.mk.injEq] at hrun
        obtain ⟨-, rfl⟩ := hrun
        exact h
      · cases ht : w.manager.heap a with
        | none => simp [run, reset, hsame, ht, Except.toOption] at hrun
        | some t =>
            rw [run, hs.reset_eq ht hsame] at hrun
            simp only [Except.toOption, Option.map_some, Option.some.injEq] at hrun
            cases hcb : t.cb.isSome with
            | false =>
                rw [hcb, if_neg Bool.false_ne_true] at hrun
                obtain rfl : w.manager = m' := congrArg Prod.snd hrun
                exact h
            | true =>
                rw [hcb, if_pos rfl] at hrun
                obtain rfl : _ = m' := congrArg Prod.snd hrun
                have hself := h.mem_ended ht
                exact h.assign hstored (heap_addTimerLocked ..) hop (add64_lt ..) hself
                  fun _ _ => Iff.rfl
  | getNextTimer now =>
      simp only [run, getNextTimer_eq, Option.some.injEq, Prod.mk.injEq] at hrun
      obtain ⟨-, rfl⟩ := hrun
      exact ⟨hstored, h.sized, h.ended_iff⟩
  | listExpiredCb now probe =>
      simp only [run, Option.ite_none_right_eq_some, Option.some.injEq, Prod.mk.injEq] at hrun
      obtain ⟨hprobe, -, rfl⟩ := hrun
      obtain ⟨n, prev, htake, -, hloop⟩ := listExpiredCb_eq now hs hprobe
      have hnodup := hs.nodup_take n
      have halive : ∀ a ∈ w.manager.timers.take n,
          ∃ t, w.manager.heap a = some t ∧ t.cb ≠ none := by
        intro a ha
        obtain ⟨t, ht⟩ := hs.alive_take n a ha
        have harmed := (hs.armed a t ht).mpr (.inl (List.mem_of_mem_take ha))
        exact ⟨t, ht, Option.isSome_iff_ne_none.mp harmed⟩
      refine ⟨hstored, ?_, fun b => ?_⟩
      · rw [hloop]
        exact sized_rearm hnodup (hs.alive_take n) h.sized
      · have hidle := idle_rearm now (m := { w.manager with
          timers := w.manager.timers.drop n, previouseTime := prev }) hnodup halive b
        rw [hloop, hidle, observe, ← htake, List.mem_append, List.mem_filter]
        exact or_congr (h.ended_iff b) Iff.rfl
  | release a =>
      simp only [run, Option.ite_none_left_eq_some, Option.some.injEq, Prod.mk.injEq] at hrun
      obtain ⟨-, -, rfl⟩ := hrun
      refine ⟨hstored, fun b t hb => ?_, fun b => ?_⟩
      · by_cases hba : b = a
        · simp [hba] at hb
        · simp only [if_neg hba] at hb
          exact h.sized b t hb
      · show b ∈ w.ended.filter _ ↔ _
        rw [List.mem_filter, h.ended_iff]
        by_cases hba : b = a
        · simp [Idle, hba]
        · simp [Idle, hba]

theorem reachable_inv {w : History C} (h : (system C).ReachableBy (fun _ op => op.Sized) w) :
    w.Inv := by
  refine h.invariant (P := Inv) ?_ ?_
  · rintro w ⟨⟨now, hm⟩, hended⟩
    refine ⟨hm ▸ new_stored now, ?_, ?_⟩
    · intro a t ht
      rw [hm] at ht
      cases ht
    · intro a
      rw [hended, hm]
      simp [Idle, new]
  · intro w op w' hw hop hstep
    obtain ⟨⟨front, m'⟩, hrun, rfl⟩ := Option.map_eq_some_iff.mp hstep
    exact step_inv hw hop hrun

/-! ## The three functions -/

variable {w : History C} {ms : Nat} {fromNow : Bool}

theorem add64_sub64 {x y : Nat} (hx : x < 2 ^ 64) (hy : y < 2 ^ 64) :
    add64 (sub64 x y) y = x := by
  unfold add64 sub64
  omega

/-- An armed timer is reset. -/
theorem Inv.reset_active (h : w.Inv) (ht : w.manager.heap a = some t) (hcb : t.cb ≠ none)
    (ms now : Nat) (fromNow : Bool) :
    ∃ front m', w.manager.reset a ms fromNow t.ms now = .ok (true, front, m') ∧
      a ∈ m'.timers ∧ ∃ t', m'.heap a = some t' ∧ t'.ms = ms ∧
        t'.next = add64 (if fromNow then now else sub64 t.next t.ms) ms := by
  have hsome := Option.isSome_iff_ne_none.mpr hcb
  by_cases hsame : ms = t.ms ∧ fromNow = false
  · obtain ⟨rfl, rfl⟩ := hsame
    obtain ⟨hms, hnext⟩ := h.sized a t ht
    refine ⟨false, w.manager, ?_, h.stored.mem_of_armed ht hsome, t, ht, rfl, ?_⟩
    · rw [reset, if_pos ⟨rfl, rfl⟩]
    · rw [if_neg Bool.false_ne_true, add64_sub64 hnext hms]
  · rw [h.stored.reset_eq ht hsame, if_pos hsome]
    set t' : Timer C :=
      { t with ms := ms, next := add64 (if fromNow then now else sub64 t.next t.ms) ms }
    set m₁ := (w.manager.erase (w.manager.timers.idxOf a)).put a t'
    refine ⟨(m₁.addTimerLocked a).1, (m₁.addTimerLocked a).2, rfl, ?_, t', ?_, rfl, rfl⟩
    · rw [timers_addTimerLocked]
      exact mem_insert.mpr (.inl rfl)
    · rw [heap_addTimerLocked]
      exact heap_put_self ..

/-- The functions answer as they are to do, unless `reset` is to give an
ended timer the period it has. -/
theorem answered_iff (h : (system C).ReachableBy (fun _ op => op.Sized) w)
    (ht : w.manager.heap a = some t) :
    w.Answered a t ms fromNow now ↔ ¬(a ∈ w.ended ∧ ms = t.ms ∧ fromNow = false) := by
  have hw := reachable_inv h
  have hended : a ∈ w.ended ↔ t.cb = none := by
    rw [hw.ended_iff, Idle, ht]
    simp
  constructor
  · rintro hanswered ⟨hmem, rfl, rfl⟩
    have hreset := hanswered.reset hmem
    rw [TimerManager.reset, if_pos ⟨rfl, rfl⟩] at hreset
    cases hreset
  · intro hnot
    refine ⟨?_, ?_, ?_, ?_⟩
    · intro hmem
      rw [hw.stored.cancel_eq ht, hended.mp hmem]
      rfl
    · intro hmem
      rw [hw.stored.refresh_eq ht, hended.mp hmem]
      rfl
    · intro hmem
      have hchange : ¬(ms = t.ms ∧ fromNow = false) := fun hsame => hnot ⟨hmem, hsame⟩
      rw [hw.stored.reset_eq ht hchange, hended.mp hmem]
      rfl
    · intro hmem
      exact hw.reset_active ht (fun hcb => hmem (hended.mpr hcb)) ms now fromNow

/-- A one-shot timer with the period 10, after it has expired. -/
theorem expired_reachable : (system Nat).ReachableBy (fun _ op => op.Sized)
    ⟨((new 0).addTimer 1 10 (some (.fn 7)) false 0).2.listExpiredCb 10 3 |>.2, [1]⟩ := by
  have hinit : (system Nat).ReachableBy (fun _ op => op.Sized) ⟨new 0, []⟩ := .init ⟨⟨0, rfl⟩, rfl⟩
  exact hinit.step (e := .addTimer 1 10 (.fn 7) false 0) (by simp [Op.Sized]) rfl
    |>.step (e := .listExpiredCb 10 3) trivial rfl

/-- It cannot be given the period 20. -/
theorem answered_iff_expired :
    ∃ w : History Nat, w.ended = [1] ∧ w.Answered 1 ⟨false, 10, 10, none⟩ 20 false 30 :=
  ⟨_, rfl, (answered_iff expired_reachable rfl).mpr (by decide)⟩

/-- To the period 10 it answers true. -/
theorem reset_not_answered :
    ¬∀ (w : History Nat), (system Nat).ReachableBy (fun _ op => op.Sized) w → ∀ a t ms fromNow now,
      w.manager.heap a = some t → w.Answered a t ms fromNow now := by
  intro hall
  have hanswered := hall _ expired_reachable 1 ⟨false, 10, 10, none⟩ 10 false 30 rfl
  have hreset := hanswered.reset (by decide)
  cases hreset

end History

end TimerManager

end Sylar
