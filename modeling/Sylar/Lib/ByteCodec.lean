import Mathlib.Data.Fintype.EquivFin
import Mathlib.Data.List.Basic
import Mathlib.Tactic.Common
import Mathlib.Tactic.Ring

/-!
# Integers as bytes, and zigzag

`toLE n x` are the `n` bytes of `x`, the lowest first, and `byteswap`
reverses the bytes of a bit vector. `zigzag` folds the signed integers
onto the unsigned ones so that small magnitudes stay small.
-/

namespace Sylar

/-! ## Little-endian -/

def toLE : Nat → Nat → List UInt8
  | 0, _ => []
  | n + 1, x => UInt8.ofNat x :: toLE n (x / 256)

def ofLE : List UInt8 → Nat
  | [] => 0
  | b :: bs => b.toNat + 256 * ofLE bs

@[simp] theorem length_toLE : ∀ n x : Nat, (toLE n x).length = n
  | 0, _ => rfl
  | n + 1, x => by rw [toLE, List.length_cons, length_toLE]

theorem ofLE_toLE : ∀ {n x : Nat}, x < 2 ^ (8 * n) → ofLE (toLE n x) = x
  | 0, x, h => by
      have : x < 1 := h
      rw [toLE, ofLE]
      omega
  | n + 1, x, h => by
      have hdiv : x / 256 < 2 ^ (8 * n) := by
        rw [Nat.mul_succ, Nat.pow_add] at h
        exact Nat.div_lt_of_lt_mul (by rw [Nat.mul_comm]; exact h)
      have hbyte : (UInt8.ofNat x).toNat = x % 256 := UInt8.toNat_ofNat'
      rw [toLE, ofLE, ofLE_toLE hdiv, hbyte]
      omega

theorem ofLE_lt : ∀ bs : List UInt8, ofLE bs < 2 ^ (8 * bs.length)
  | [] => Nat.one_pos
  | b :: bs => by
      have hrest := ofLE_lt bs
      have hb := b.toNat_lt
      rw [ofLE, List.length_cons, Nat.mul_succ, Nat.pow_add]
      omega

theorem toLE_ofLE : ∀ bs : List UInt8, toLE bs.length (ofLE bs) = bs
  | [] => rfl
  | b :: bs => by
      have hb := b.toNat_lt
      have hdiv : (b.toNat + 256 * ofLE bs) / 256 = ofLE bs := by omega
      have hbyte : UInt8.ofNat (b.toNat + 256 * ofLE bs) = b := by
        apply UInt8.toNat_inj.mp
        rw [UInt8.toNat_ofNat']
        omega
      rw [List.length_cons, ofLE, toLE, hdiv, hbyte, toLE_ofLE bs]

/-- `bswap_16`, `bswap_32` and `bswap_64`. -/
def byteswap {n : Nat} (v : BitVec (8 * n)) : BitVec (8 * n) :=
  BitVec.ofNat _ (ofLE (toLE n v.toNat).reverse)

theorem byteswap_byteswap {n : Nat} (v : BitVec (8 * n)) : byteswap (byteswap v) = v := by
  have hlt : ofLE (toLE n v.toNat).reverse < 2 ^ (8 * n) := by
    have := ofLE_lt (toLE n v.toNat).reverse
    rwa [List.length_reverse, length_toLE] at this
  have hback : toLE n (ofLE (toLE n v.toNat).reverse) = (toLE n v.toNat).reverse := by
    have := toLE_ofLE (toLE n v.toNat).reverse
    rwa [List.length_reverse, length_toLE] at this
  rw [byteswap, byteswap, BitVec.toNat_ofNat, Nat.mod_eq_of_lt hlt, hback, List.reverse_reverse,
    ofLE_toLE v.isLt, BitVec.ofNat_toNat, BitVec.setWidth_eq]

/-! ## Zigzag -/

def zigzag {w : Nat} (v : BitVec w) : BitVec w := if v.msb then -v * 2#w - 1#w else v * 2#w

def unzigzag {w : Nat} (u : BitVec w) : BitVec w := (u >>> 1) ^^^ -(u &&& 1#w)

theorem unzigzag_even {w : Nat} {u v : BitVec w} (h : u.toNat = 2 * v.toNat) :
    unzigzag u = v := by
  have hbit : u &&& 1#w = 0#w := by
    apply BitVec.eq_of_toNat_eq
    rcases Nat.eq_zero_or_pos w with rfl | hw
    · exact congrArg BitVec.toNat (Subsingleton.elim (u &&& 1#0) 0#0)
    · rw [BitVec.toNat_and, BitVec.toNat_one hw, Nat.and_one_is_mod, h, BitVec.toNat_ofNat,
        Nat.mul_mod_right, Nat.zero_mod]
  rw [unzigzag, hbit, BitVec.neg_zero, BitVec.xor_zero]
  apply BitVec.eq_of_toNat_eq
  rw [BitVec.toNat_ushiftRight, h, Nat.shiftRight_one, Nat.mul_div_cancel_left _ Nat.two_pos]

/-- `2 * m - 1` stands for `-m`. -/
theorem unzigzag_odd {w : Nat} {u v : BitVec w} (hw : 0 < w)
    (h : u.toNat = 2 * (2 ^ w - v.toNat) - 1) : unzigzag u = v := by
  have hv := v.isLt
  have hbit : u &&& 1#w = 1#w := by
    apply BitVec.eq_of_toNat_eq
    rw [BitVec.toNat_and, BitVec.toNat_one hw, Nat.and_one_is_mod, h]
    omega
  rw [unzigzag, hbit, BitVec.neg_one_eq_allOnes, BitVec.xor_allOnes]
  apply BitVec.eq_of_toNat_eq
  rw [BitVec.toNat_not, BitVec.toNat_ushiftRight, h, Nat.shiftRight_one]
  omega

/-- The code of a negative integer. -/
theorem toNat_zigzag_neg {w : Nat} {v : BitVec w} (hneg : v.msb = true) :
    (zigzag v).toNat = 2 * (2 ^ w - v.toNat) - 1 := by
  have hv := v.isLt
  have hw : 0 < w := by
    rcases Nat.eq_zero_or_pos w with rfl | hw
    · rw [Subsingleton.elim v 0#0] at hneg
      cases hneg
    · exact hw
  obtain ⟨k, rfl⟩ : ∃ k, w = k + 1 := ⟨w - 1, by omega⟩
  have hpow : 2 ^ (k + 1) = 2 * 2 ^ k := Nat.pow_succ'
  have htwo : (2#(k + 1)).toNat = 2 % 2 ^ (k + 1) := rfl
  have hge : 2 ^ k ≤ v.toNat := by
    rw [BitVec.msb_eq_decide, Nat.add_sub_cancel] at hneg
    exact of_decide_eq_true hneg
  have hm : (-v).toNat = 2 ^ (k + 1) - v.toNat := by
    rw [BitVec.toNat_neg, Nat.mod_eq_of_lt]
    have : 0 < 2 ^ k := Nat.two_pow_pos k
    omega
  rw [zigzag, if_pos hneg, BitVec.toNat_sub, BitVec.toNat_mul, hm, htwo, BitVec.toNat_one hw,
    Nat.mul_mod_mod]
  set m := 2 ^ (k + 1) - v.toNat
  rcases Nat.lt_or_ge m (2 ^ k) with hlt | hle
  · rw [Nat.mod_eq_of_lt (a := m * 2) (by omega),
      show 2 ^ (k + 1) - 1 + m * 2 = 2 * m - 1 + 2 ^ (k + 1) by omega, Nat.add_mod_right,
      Nat.mod_eq_of_lt (by omega)]
  · -- the least integer
    have hm' : m * 2 = 2 ^ (k + 1) := by omega
    rw [hm', Nat.mod_self, Nat.add_zero, Nat.mod_eq_of_lt (by omega)]
    omega

theorem toNat_zigzag_nonneg {w : Nat} {v : BitVec w} (hpos : v.msb = false) :
    (zigzag v).toNat = 2 * v.toNat := by
  have hlt : 2 * v.toNat < 2 ^ w := by
    rcases Nat.eq_zero_or_pos w with rfl | hw
    · rw [Subsingleton.elim v 0#0]
      decide
    · have hhalf := BitVec.toNat_lt_of_msb_false hpos
      have hpow : 2 ^ w = 2 * 2 ^ (w - 1) := by
        rw [← Nat.pow_succ', Nat.succ_eq_add_one, Nat.sub_add_cancel hw]
      omega
  have htwo : (2#w).toNat = 2 % 2 ^ w := rfl
  rw [zigzag, if_neg (Bool.eq_false_iff.mp hpos), BitVec.toNat_mul, htwo, Nat.mul_mod_mod,
    Nat.mod_eq_of_lt (by omega), Nat.mul_comm]

theorem unzigzag_zigzag {w : Nat} (v : BitVec w) : unzigzag (zigzag v) = v := by
  rcases Nat.eq_zero_or_pos w with rfl | hw
  · exact Subsingleton.elim _ _
  cases hmsb : v.msb with
  | true => exact unzigzag_odd hw (toNat_zigzag_neg hmsb)
  | false => exact unzigzag_even (toNat_zigzag_nonneg hmsb)

/-- There are as many codes as integers. -/
theorem zigzag_unzigzag {w : Nat} (u : BitVec w) : zigzag (unzigzag u) = u := by
  have hleft : Function.LeftInverse (unzigzag (w := w)) zigzag := unzigzag_zigzag
  have hfinite : Finite (BitVec w) :=
    Finite.of_injective BitVec.toFin fun _ _ h => BitVec.eq_of_toFin_eq h
  exact hleft.rightInverse_of_surjective (Finite.surjective_of_injective hleft.injective) u

/-- The code as an integer. -/
theorem toInt_zigzag {w : Nat} (v : BitVec w) :
    ((zigzag v).toNat : Int) = if v.toInt < 0 then -(2 * v.toInt) - 1 else 2 * v.toInt := by
  have hv := v.isLt
  have hmsb : v.msb = decide (v.toInt < 0) := BitVec.msb_eq_toInt
  have hint := BitVec.toInt_eq_msb_cond v
  cases h : v.msb with
  | true =>
      rw [h] at hmsb hint
      rw [toNat_zigzag_neg h, if_pos (of_decide_eq_true hmsb.symm), hint, if_pos rfl]
      omega
  | false =>
      rw [h] at hmsb hint
      rw [toNat_zigzag_nonneg h, if_neg (of_decide_eq_false hmsb.symm), hint,
        if_neg Bool.false_ne_true]
      omega

/-- Short codes are those of small magnitudes. -/
theorem zigzag_lt_iff {w k : Nat} (v : BitVec w) (hk : 1 ≤ k) :
    (zigzag v).toNat < 2 ^ k ↔ -2 ^ (k - 1) ≤ v.toInt ∧ v.toInt < 2 ^ (k - 1) := by
  obtain ⟨j, rfl⟩ : ∃ j, k = j + 1 := ⟨k - 1, by omega⟩
  have hcode := toInt_zigzag v
  have hpow : ((2 ^ (j + 1) : Nat) : Int) = 2 * 2 ^ j := by
    rw [Nat.pow_succ']
    push_cast
    rfl
  rw [Nat.add_sub_cancel]
  generalize (2 : Int) ^ j = m at *
  split at hcode <;> omega

end Sylar
