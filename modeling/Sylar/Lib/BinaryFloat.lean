import Mathlib.Data.Int.Log
import Mathlib.Data.Rat.Floor
import Mathlib.Tactic.Linarith
import Mathlib.Tactic.Ring
import Mathlib.Tactic.FieldSimp
import Mathlib.Tactic.Positivity

/-!
# Binary floating-point numbers of a given precision

`toBinary p q` is the binary floating-point number with a `p`-bit
significand nearest to the rational `q`, ties to even: the value that
an integer-to-`double` conversion or a `double` division delivers for
`p = 53`, as long as the exponent stays in range.

Three facts are used elsewhere. Integers below `2 ^ p` are represented
exactly (`toBinary_natCast`); rounding a quotient of two such integers
never moves it onto or across an integer from above, so the ceiling of
the rounded quotient is the ceiling of the exact one
(`ceil_toBinary_div`); and if only the divisor is larger, the ceiling
is 1, as it should be (`ceil_toBinary_div_toBinary`).
-/

namespace Sylar

namespace BinaryFloat

/-- The nearest integer, ties to even. -/
def roundEven (q : ℚ) : ℤ :=
  if q - ⌊q⌋ < 1 / 2 then ⌊q⌋
  else if 1 / 2 < q - ⌊q⌋ then ⌊q⌋ + 1
  else if ⌊q⌋ % 2 = 0 then ⌊q⌋
  else ⌊q⌋ + 1

theorem abs_roundEven_sub_le (q : ℚ) : |(roundEven q : ℚ) - q| ≤ 1 / 2 := by
  have hlo := Int.floor_le q
  have hhi := Int.lt_floor_add_one q
  unfold roundEven
  split
  · rw [abs_le]
    constructor <;> linarith
  · split
    · push_cast
      rw [abs_le]
      constructor <;> linarith
    · split
      · rw [abs_le]
        constructor <;> linarith
      · push_cast
        rw [abs_le]
        constructor <;> linarith

/-- Rounding does not cross an integer upwards. -/
theorem roundEven_le {q : ℚ} {k : ℤ} (h : q ≤ k) : roundEven q ≤ k := by
  have hr := (abs_le.mp (abs_roundEven_sub_le q)).2
  have : (roundEven q : ℚ) < ((k + 1 : ℤ) : ℚ) := by push_cast; linarith
  exact Int.lt_add_one_iff.mp (by exact_mod_cast this)

@[simp] theorem roundEven_intCast (k : ℤ) : roundEven (k : ℚ) = k := by
  simp [roundEven]

/-- The weight of the last significand bit of `q`. -/
def ulp (p : ℕ) (q : ℚ) : ℚ := 2 ^ (Int.log 2 q - (p - 1 : ℤ))

/-- The binary floating-point number of precision `p` nearest to `q`. -/
def toBinary (p : ℕ) (q : ℚ) : ℚ :=
  if q ≤ 0 then 0 else roundEven (q / ulp p q) * ulp p q

theorem ulp_pos (p : ℕ) (q : ℚ) : 0 < ulp p q :=
  zpow_pos (by norm_num) _

theorem ulp_le {p : ℕ} {q : ℚ} (hq : 0 < q) : ulp p q ≤ q * 2 / 2 ^ p := by
  have hlog : ((2 : ℕ) : ℚ) ^ Int.log 2 q ≤ q := Int.zpow_log_le_self (by decide) hq
  have hsplit : ulp p q = ((2 : ℕ) : ℚ) ^ Int.log 2 q * 2 / 2 ^ p := by
    unfold ulp
    rw [zpow_sub₀ (by norm_num), zpow_sub₀ (by norm_num)]
    push_cast
    rw [zpow_natCast]
    field_simp
  rw [hsplit]
  gcongr

/-- An integer below `2 ^ p` is a whole number of last-bit weights of
any rational below `2 ^ p`. -/
theorem exists_int_div_ulp {p : ℕ} {q : ℚ} (hq : 0 < q) (hlt : q < 2 ^ p) (k : ℤ) :
    ∃ m : ℤ, (k : ℚ) / ulp p q = m := by
  have hlog : Int.log 2 q < p := by
    have hle : ((2 : ℕ) : ℚ) ^ Int.log 2 q ≤ q := Int.zpow_log_le_self (by decide) hq
    have h2 : ((2 : ℕ) : ℚ) ^ Int.log 2 q < ((2 : ℕ) : ℚ) ^ (p : ℤ) := by
      rw [zpow_natCast]
      exact lt_of_le_of_lt hle (by exact_mod_cast hlt)
    exact (zpow_lt_zpow_iff_right₀ (by norm_num)).mp h2
  obtain ⟨n, hn⟩ : ∃ n : ℕ, Int.log 2 q - (p - 1 : ℤ) = -n :=
    ⟨((p - 1 : ℤ) - Int.log 2 q).toNat, by omega⟩
  refine ⟨k * 2 ^ n, ?_⟩
  unfold ulp
  rw [hn, zpow_neg, zpow_natCast]
  push_cast
  field_simp

theorem toBinary_le {p : ℕ} {q : ℚ} {k : ℤ} (hk : 0 ≤ k) (hlt : q < 2 ^ p) (h : q ≤ k) :
    toBinary p q ≤ k := by
  unfold toBinary
  split
  · exact_mod_cast hk
  · rename_i hq
    push Not at hq
    have hu := ulp_pos p q
    obtain ⟨m, hm⟩ := exists_int_div_ulp hq hlt k
    have hle : roundEven (q / ulp p q) ≤ m :=
      roundEven_le (by rw [← hm]; gcongr)
    calc (roundEven (q / ulp p q) : ℚ) * ulp p q
        ≤ m * ulp p q := by gcongr
      _ = k := by rw [← hm]; field_simp

theorem le_toBinary {p : ℕ} {q : ℚ} (hq : 0 < q) : q - q / 2 ^ p ≤ toBinary p q := by
  have hu := ulp_pos p q
  have hr := (abs_le.mp (abs_roundEven_sub_le (q / ulp p q))).1
  have hsmall : ulp p q ≤ q * 2 / 2 ^ p := ulp_le hq
  rw [toBinary, if_neg (not_le.mpr hq)]
  calc q - q / 2 ^ p
      = q - (q * 2 / 2 ^ p) / 2 := by ring
    _ ≤ q - ulp p q / 2 := by linarith
    _ = (q / ulp p q - 1 / 2) * ulp p q := by field_simp
    _ ≤ roundEven (q / ulp p q) * ulp p q := by
        gcongr
        linarith

/-- Integers that fit the significand are represented exactly. -/
theorem toBinary_natCast {p n : ℕ} (h : n < 2 ^ p) : toBinary p (n : ℚ) = n := by
  rcases Nat.eq_zero_or_pos n with rfl | hpos
  · simp [toBinary]
  · have hq : (0 : ℚ) < n := by exact_mod_cast hpos
    have hu := ulp_pos p (n : ℚ)
    obtain ⟨m, hm⟩ := exists_int_div_ulp hq (by exact_mod_cast h) (n : ℤ)
    push_cast at hm
    rw [toBinary, if_neg (not_le.mpr hq), hm, roundEven_intCast, ← hm]
    field_simp

/-- The ceiling of a rounded quotient is exact. -/
theorem ceil_toBinary_div {p n d : ℕ} (hd : 0 < d) (hn : n < 2 ^ p) :
    ⌈toBinary p ((n : ℚ) / d)⌉ = ⌈(n : ℚ) / d⌉ := by
  have hd' : (0 : ℚ) < d := by exact_mod_cast hd
  rcases Nat.eq_zero_or_pos n with rfl | hpos
  · simp [toBinary]
  have hq : (0 : ℚ) < n / d := by
    have : (0 : ℚ) < n := by exact_mod_cast hpos
    positivity
  have hn' : (n : ℚ) < 2 ^ p := by exact_mod_cast hn
  have hlt : (n : ℚ) / d < 2 ^ p := by
    have hone : (1 : ℚ) ≤ d := by exact_mod_cast hd
    calc (n : ℚ) / d ≤ n := div_le_self (by positivity) hone
      _ < 2 ^ p := hn'
  have hceil := Int.le_ceil ((n : ℚ) / d)
  have hpred : (⌈(n : ℚ) / d⌉ : ℚ) - 1 < n / d := by
    have := Int.ceil_lt_add_one ((n : ℚ) / d)
    linarith
  rw [Int.ceil_eq_iff]
  refine ⟨?_, toBinary_le (by positivity) hlt hceil⟩
  -- `n / d` exceeds the integer below it by at least `1 / d`; the
  -- rounding error is smaller than that.
  have hgap : (⌈(n : ℚ) / d⌉ : ℚ) - 1 + 1 / d ≤ n / d := by
    rw [lt_div_iff₀ hd'] at hpred
    have hint : (⌈(n : ℚ) / d⌉ - 1) * (d : ℤ) + 1 ≤ (n : ℤ) := by
      have : (⌈(n : ℚ) / d⌉ - 1) * (d : ℤ) < (n : ℤ) := by exact_mod_cast hpred
      omega
    rw [le_div_iff₀ hd', add_mul, one_div, inv_mul_cancel₀ hd'.ne']
    exact_mod_cast hint
  have herr : (n : ℚ) / d / 2 ^ p < 1 / d := by
    rw [div_div, mul_comm, ← div_div, div_lt_div_iff_of_pos_right hd', div_lt_one (by positivity)]
    exact hn'
  have := le_toBinary (p := p) hq
  linarith

theorem toBinary_pos {p : ℕ} {q : ℚ} (hp : 0 < p) (hq : 0 < q) : 0 < toBinary p q := by
  have hle := le_toBinary (p := p) hq
  have hlt : q / 2 ^ p < q := div_lt_self hq (one_lt_pow₀ (by norm_num) hp.ne')
  linarith

/-- With a divisor too large to be exact the rounded quotient is still
not above 1. -/
theorem ceil_toBinary_div_toBinary {p n d : ℕ} (hp : 0 < p) (hpos : 0 < n) (hn : n < 2 ^ p)
    (hd : 2 ^ p ≤ d) : ⌈toBinary p ((n : ℚ) / toBinary p d)⌉ = 1 := by
  have hn' : (n : ℚ) + 1 ≤ 2 ^ p := by exact_mod_cast hn
  have hd' : (2 : ℚ) ^ p ≤ d := by exact_mod_cast hd
  have hpow : (0 : ℚ) < 2 ^ p := by positivity
  have hone : (1 : ℚ) ≤ n := by exact_mod_cast hpos
  -- the divisor is rounded by a `2 ^ p`-th of it at most
  have hdiv : (n : ℚ) ≤ toBinary p d := by
    have hle := le_toBinary (p := p) (show (0 : ℚ) < d by linarith)
    have hround : (2 : ℚ) ^ p - 1 ≤ d - d / 2 ^ p := by
      have hq : (1 : ℚ) ≤ d / 2 ^ p := (one_le_div hpow).mpr hd'
      have heq : (d : ℚ) - d / 2 ^ p = d / 2 ^ p * (2 ^ p - 1) := by field_simp
      rw [heq]
      exact le_mul_of_one_le_left (by linarith) hq
    linarith
  have htb : (0 : ℚ) < toBinary p d := by linarith
  have hq : (0 : ℚ) < n / toBinary p d := div_pos (by linarith) htb
  have hq1 : (n : ℚ) / toBinary p d ≤ 1 := (div_le_one htb).mpr hdiv
  rw [Int.ceil_eq_iff]
  refine ⟨?_, toBinary_le (k := 1) (by norm_num) ?_ (by exact_mod_cast hq1)⟩
  · simpa using toBinary_pos hp hq
  · calc (n : ℚ) / toBinary p d ≤ 1 := hq1
      _ < 2 ^ p := one_lt_pow₀ (by norm_num) hp.ne'

end BinaryFloat

end Sylar
