import Mathlib.Algebra.Group.Int.Defs
import Mathlib.Algebra.Group.Nat.Defs

/-!
# Machine integers as `Nat` and `Int`

The results of `+`, `-` and `--` in `uint64_t`, and when they are the
exact ones; conversions to `int` and `int64_t`.
-/

namespace Sylar

/-- `a + b` in `uint64_t`. -/
def add64 (a b : Nat) : Nat := (a + b) % 2 ^ 64

/-- `a - b` in `uint64_t`. -/
def sub64 (a b : Nat) : Nat := (a + 2 ^ 64 - b) % 2 ^ 64

/-- `--a` in `uint64_t`. -/
def dec64 (a : Nat) : Nat := if a = 0 then 2 ^ 64 - 1 else a - 1

/-- A value as `int`. -/
def toInt32 (v : Int) : Int := (v + 2 ^ 31) % 2 ^ 32 - 2 ^ 31

/-- A `uint64_t` as `int64_t`. -/
def toInt64 (v : Nat) : Int := if v < 2 ^ 63 then v else (v : Int) - 2 ^ 64

theorem dec64_add_one {a : Nat} (h : 0 < a) : dec64 a + 1 = a := by
  rw [dec64, if_neg (Nat.ne_of_gt h)]
  omega

theorem add64_eq {a b : Nat} (h : a + b < 2 ^ 64) : add64 a b = a + b := Nat.mod_eq_of_lt h

theorem sub64_eq {a b : Nat} (hle : b ≤ a) (hlt : a < 2 ^ 64) : sub64 a b = a - b := by
  rw [sub64, show a + 2 ^ 64 - b = a - b + 2 ^ 64 by omega, Nat.add_mod_right,
    Nat.mod_eq_of_lt (by omega)]

theorem toInt32_eq {n : Nat} (h : n < 2 ^ 31) : toInt32 n = n := by
  unfold toInt32
  omega

theorem toInt32_le (n : Nat) : toInt32 n ≤ n := by
  unfold toInt32
  omega

theorem toInt32_add (a b : Int) : toInt32 (toInt32 a + b) = toInt32 (a + b) := by
  unfold toInt32
  omega

end Sylar
