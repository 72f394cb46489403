import Sylar.Lib.Word

/-!
# The delays of the hooked sleeps

What `sleep`, `usleep` and `nanosleep` in `hook.cc` hand to `addTimer`.
The product in `sleep` is one of `unsigned int`s. That in `nanosleep` is
a `long`, as is the sum, which then becomes an `int` and, as the argument
of `addTimer`, a `uint64_t`.

A signed overflow is undefined; here it wraps, and `exact` says that
neither it nor any other loss of a value's range has happened.
-/

namespace Sylar

namespace Hook

/-- A `struct timespec` with a time that can be asked for. -/
structure Timespec where
  sec : Nat
  nsec : Nat
  sec_lt : sec < 2 ^ 63
  nsec_lt : nsec < 10 ^ 9

/-- A hooked call, in a thread whose hook is enabled. -/
inductive Sleep where
  | sleep (seconds : UInt32)
  | usleep (usec : UInt32)
  | nanosleep (req : Timespec)

/-- The argument of `addTimer`, and whether every operation before it had
a result in the range of its type. -/
structure Delay where
  ms : Nat
  exact : Bool
deriving Repr, DecidableEq

/-- A value as `long`. -/
def toLong (v : Int) : Int := (v + 2 ^ 63) % 2 ^ 64 - 2 ^ 63

/-- An `int` as `uint64_t`. -/
def toUint64 (v : Int) : Nat := (v % 2 ^ 64).toNat

def sleep (seconds : UInt32) : Delay :=
  { ms := (seconds * 1000).toNat
    exact := seconds.toNat * 1000 < 2 ^ 32 }

def usleep (usec : UInt32) : Delay := { ms := (usec / 1000).toNat, exact := true }

def nanosleep (req : Timespec) : Delay :=
  let product := (req.sec : Int) * 1000
  let sum := toLong product + ((req.nsec / 1000 / 1000 : Nat) : Int)
  let timeoutMs := toInt32 (toLong sum)
  { ms := toUint64 timeoutMs
    exact := toLong product = product && toLong sum = sum && toInt32 sum = sum }

namespace Sleep

def delay : Sleep → Delay
  | .sleep seconds => Hook.sleep seconds
  | .usleep usec => Hook.usleep usec
  | .nanosleep req => Hook.nanosleep req

/-- The time asked for, in nanoseconds. -/
def requested : Sleep → Nat
  | .sleep seconds => seconds.toNat * 10 ^ 9
  | .usleep usec => usec.toNat * 10 ^ 3
  | .nanosleep req => req.sec * 10 ^ 9 + req.nsec

/-- A whole number of milliseconds that the types have room for. -/
def Fits : Sleep → Prop
  | .sleep seconds => seconds.toNat * 1000 < 2 ^ 32
  | .usleep usec => 1000 ∣ usec.toNat
  | .nanosleep req => 10 ^ 6 ∣ req.nsec ∧ req.sec * 1000 + req.nsec / 10 ^ 6 < 2 ^ 31

theorem sleep_delay (seconds : UInt32) :
    (Hook.sleep seconds).ms = seconds.toNat * 1000 % 2 ^ 32 := by
  rw [Hook.sleep, UInt32.toNat_mul]
  rfl

theorem usleep_delay (usec : UInt32) : (Hook.usleep usec).ms = usec.toNat / 1000 := by
  rw [Hook.usleep, UInt32.toNat_div]
  rfl

theorem toLong_eq {v : Int} (h : -2 ^ 63 ≤ v ∧ v < 2 ^ 63) : toLong v = v := by
  unfold toLong
  omega

theorem nanosleep_exact (req : Timespec) :
    (Hook.nanosleep req).exact = true ↔ req.sec * 1000 + req.nsec / 10 ^ 6 < 2 ^ 31 := by
  have hdiv : req.nsec / 1000 / 1000 = req.nsec / 10 ^ 6 := Nat.div_div_eq_div_mul ..
  have hnsec := req.nsec_lt
  simp only [Hook.nanosleep, Bool.and_eq_true, decide_eq_true_eq, hdiv]
  constructor
  · rintro ⟨⟨hproduct, -⟩, hint⟩
    rw [hproduct] at hint
    unfold toInt32 at hint
    omega
  · intro hlt
    have hproduct : toLong ((req.sec : Int) * 1000) = (req.sec : Int) * 1000 :=
      toLong_eq (by omega)
    rw [hproduct]
    refine ⟨⟨rfl, toLong_eq (by omega)⟩, ?_⟩
    unfold toInt32
    omega

theorem nanosleep_delay (req : Timespec) (h : (Hook.nanosleep req).exact = true) :
    (Hook.nanosleep req).ms = req.sec * 1000 + req.nsec / 10 ^ 6 := by
  have hdiv : req.nsec / 1000 / 1000 = req.nsec / 10 ^ 6 := Nat.div_div_eq_div_mul ..
  have hlt := (nanosleep_exact req).mp h
  simp only [Hook.nanosleep, Bool.and_eq_true, decide_eq_true_eq, hdiv] at h ⊢
  obtain ⟨⟨hproduct, hlong⟩, hint⟩ := h
  rw [hlong, hint, hproduct]
  unfold toUint64
  omega

/-- **When a hooked sleep does not end early**: the time asked for is a
whole number of milliseconds, and that number fits the type it is
computed in. -/
theorem never_early_iff (call : Sleep) :
    call.requested ≤ call.delay.ms * 10 ^ 6 ∧ call.delay.exact = true ↔ call.Fits := by
  cases call with
  | sleep seconds =>
      simp only [requested, delay, Fits, sleep_delay]
      simp only [Hook.sleep, decide_eq_true_eq]
      exact ⟨fun h => h.2, fun h => ⟨by rw [Nat.mod_eq_of_lt h]; omega, h⟩⟩
  | usleep usec =>
      simp only [requested, delay, Fits, usleep_delay]
      refine ⟨fun h => ?_, fun h => ⟨?_, rfl⟩⟩
      · have hle := h.1
        omega
      · omega
  | nanosleep req =>
      constructor
      · rintro ⟨hle, hexact⟩
        refine ⟨?_, (nanosleep_exact req).mp hexact⟩
        simp only [requested, delay, nanosleep_delay req hexact] at hle
        omega
      · rintro ⟨hwhole, hlt⟩
        have hexact := (nanosleep_exact req).mpr hlt
        refine ⟨?_, hexact⟩
        simp only [requested, delay, nanosleep_delay req hexact]
        omega

/-- Less than a millisecond is none at all, and more than 49 days and 17
hours is some seconds. -/
theorem ends_early :
    ¬((usleep 999).requested ≤ (usleep 999).delay.ms * 10 ^ 6 ∧ (usleep 999).delay.exact = true) ∧
      ¬((sleep 4294968).requested ≤ (sleep 4294968).delay.ms * 10 ^ 6 ∧
        (sleep 4294968).delay.exact = true) := by
  decide

end Sleep

end Hook

end Sylar
