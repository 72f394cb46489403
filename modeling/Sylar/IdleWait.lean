import Sylar.Timer

/-!
# How long idle waits

`IOManager::idle` asks `stopping` for the delay to the next timer and
waits in `epoll_wait` that long, at most `MAX_TIMEOUT`. The delay is a
`uint64_t`; it is compared as an `int`, and passed as one. An `EINTR`
makes the inner loop go round with the value it has stored back.

What `epoll_wait` answers is an argument, one entry for each call.
-/

namespace Sylar

namespace IOManager

/-- `static const int MAX_TIMEOUT = 3000;`. -/
def MAX_TIMEOUT : Nat := 3000

/-- A call of `epoll_wait` that is interrupted (`rt < 0` with `EINTR`), or
returns `rt`. -/
inductive EpollWait where
  | interrupted
  | returned (rt : Int)
deriving Repr, DecidableEq

/-- What becomes of `next_timeout` before a call of `epoll_wait`. -/
def capTimeout (nextTimeout : Nat) : Nat :=
  if nextTimeout ≠ 2 ^ 64 - 1 then
    if toInt32 nextTimeout > MAX_TIMEOUT then MAX_TIMEOUT else nextTimeout
  else MAX_TIMEOUT

/-- The inner loop: the timeouts it passes to `epoll_wait`, and `rt` if a
call has returned. -/
def waitLoop : Nat → List EpollWait → List Int × Option Int
  | _, [] => ([], none)
  | nextTimeout, call :: calls =>
      let nextTimeout := capTimeout nextTimeout
      match call with
      | .returned rt => ([toInt32 nextTimeout], some rt)
      | .interrupted =>
          let (timeouts, rt) := waitLoop nextTimeout calls
          (toInt32 nextTimeout :: timeouts, rt)

/-- `stopping(timeout)`: the result, and `timeout`. -/
def stopping {C : Type} (timers : TimerManager C) (now pendingEventCount : Nat)
    (schedulerStopping : Bool) : Bool × Nat :=
  let timeout := (timers.getNextTimer now).1
  (timeout = 2 ^ 64 - 1 && pendingEventCount = 0 && schedulerStopping, timeout)

/-- The wait of one turn of `idle`, unless it breaks off. -/
def idleWait {C : Type} (timers : TimerManager C) (now pendingEventCount : Nat)
    (schedulerStopping : Bool) (calls : List EpollWait) : List Int × Option Int :=
  let (stop, nextTimeout) := stopping timers now pendingEventCount schedulerStopping
  if stop then ([], none) else waitLoop nextTimeout calls

/-- The bounds on a timeout, `next` being the delay to the next timer. -/
def Bounded (next : Nat) (timeout : Int) : Prop :=
  0 ≤ timeout ∧ timeout ≤ MAX_TIMEOUT ∧ timeout ≤ next

theorem toInt32_MAX_TIMEOUT : toInt32 MAX_TIMEOUT = 3000 := rfl

/-- The value stored back is not changed by a further turn. -/
theorem capTimeout_idem (next : Nat) : capTimeout (capTimeout next) = capTimeout next := by
  by_cases hnone : next = 2 ^ 64 - 1
  · rw [hnone]
    rfl
  · have hcap : capTimeout next = if toInt32 next > MAX_TIMEOUT then MAX_TIMEOUT else next :=
      if_pos hnone
    by_cases hlong : toInt32 next > MAX_TIMEOUT
    · rw [hcap, if_pos hlong]
      rfl
    · rw [hcap, if_neg hlong, hcap, if_neg hlong]

/-- Every call of the inner loop gets the same timeout. -/
theorem mem_waitLoop : ∀ {next : Nat} {calls : List EpollWait} {timeout : Int},
    timeout ∈ (waitLoop next calls).1 → timeout = toInt32 (capTimeout next)
  | next, .returned rt :: calls, timeout, h => List.mem_singleton.mp h
  | next, .interrupted :: calls, timeout, h => by
      rcases List.mem_cons.mp h with heq | h
      · exact heq
      · rw [mem_waitLoop h, capTimeout_idem]

theorem bounded_capTimeout_iff (next : Nat) : Bounded next (toInt32 (capTimeout next)) ↔
    next = 2 ^ 64 - 1 ∨ 0 ≤ toInt32 next := by
  have hle := toInt32_le next
  by_cases hnone : next = 2 ^ 64 - 1
  · subst hnone
    exact ⟨fun _ => .inl rfl, fun _ => ⟨by decide, by decide, by decide⟩⟩
  · rw [capTimeout, if_pos hnone]
    have hmax : (MAX_TIMEOUT : Int) = 3000 := rfl
    split
    · rename_i hlong
      rw [toInt32_MAX_TIMEOUT]
      exact ⟨fun _ => .inr (by omega), fun _ => ⟨by omega, by omega, by omega⟩⟩
    · rename_i hshort
      exact ⟨fun h => .inr h.1, fun h => ⟨h.resolve_left hnone, by omega, hle⟩⟩

/-- **When the idle wait is bounded**: the delay, as an `int`, is not
negative. Otherwise `epoll_wait` gets a negative timeout and waits for
an event, however soon a timer is due. -/
theorem idle_wait_bounded_iff {C : Type} (timers : TimerManager C) (now pendingEventCount : Nat)
    (schedulerStopping : Bool) :
    (∀ calls, ∀ timeout ∈ (idleWait timers now pendingEventCount schedulerStopping calls).1,
        Bounded (timers.getNextTimer now).1 timeout) ↔
      (timers.getNextTimer now).1 = 2 ^ 64 - 1 ∨ 0 ≤ toInt32 (timers.getNextTimer now).1 := by
  have hwait (calls : List EpollWait) :
      idleWait timers now pendingEventCount schedulerStopping calls =
        if (stopping timers now pendingEventCount schedulerStopping).1 then ([], none)
        else waitLoop (timers.getNextTimer now).1 calls := rfl
  rw [← bounded_capTimeout_iff]
  constructor
  · intro hall
    by_cases hstop : (stopping timers now pendingEventCount schedulerStopping).1 = true
    · -- it only stops when there is no timer
      have hnone : (timers.getNextTimer now).1 = 2 ^ 64 - 1 := by
        simp only [stopping, Bool.and_eq_true, decide_eq_true_eq] at hstop
        exact hstop.1.1
      rw [bounded_capTimeout_iff]
      exact .inl hnone
    · refine hall [.returned 0] _ ?_
      rw [hwait, if_neg hstop]
      exact List.mem_singleton_self _
  · intro hbounded calls timeout hmem
    rw [hwait] at hmem
    split at hmem
    · cases hmem
    · rw [mem_waitLoop hmem]
      exact hbounded

/-- A timer due in `2 ^ 31` milliseconds. -/
theorem idle_wait_unbounded :
    ∃ timers, (TimerManager.system Unit).Reachable timers ∧
      idleWait timers 0 0 false [.returned 1] = ([-2147483648], some 1) ∧
      ¬Bounded (timers.getNextTimer 0).1 (-2147483648) := by
  have hinit : (TimerManager.system Unit).Reachable (.new 0) := .init ⟨0, rfl⟩
  have hadd := hinit.next (e := .addTimer 1 (2 ^ 31) (.fn ()) false 0) rfl
  exact ⟨_, hadd, by decide, fun h => absurd h.1 (by decide)⟩

end IOManager

end Sylar
