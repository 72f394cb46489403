import Sylar.Lib.ByteCodec

/-!
# Masks of the low bits, and the bits of swapped bytes

`lowMask w n` has the low `n` bits set. The bits of a number are counted
from the top when it is read as bytes with the highest first
(`getMsbD`); reversing the bytes moves whole bytes (`getLsbD_byteswap`)
and so commutes with the operations on bits.
-/

namespace Sylar

/-- `(1 << n) - 1`. -/
def lowMask (w n : Nat) : BitVec w := BitVec.twoPow w n - 1#w

theorem getLsbD_lowMask {w n i : Nat} (hn : n ≤ w) :
    (lowMask w n).getLsbD i = decide (i < n) := by
  have hpow : 2 ^ n ≤ 2 ^ w := Nat.pow_le_pow_right Nat.two_pos hn
  have hpos : 0 < 2 ^ n := Nat.two_pow_pos n
  have hvalue : (lowMask w n).toNat = 2 ^ n - 1 := by
    rcases Nat.eq_zero_or_pos w with rfl | hw
    · obtain rfl := Nat.le_zero.mp hn
      rfl
    rw [lowMask, BitVec.toNat_sub, BitVec.toNat_one hw, BitVec.toNat_twoPow]
    rcases Nat.lt_or_ge n w with hlt | hge
    · have hlt' : 2 ^ n < 2 ^ w := Nat.pow_lt_pow_right (by decide) hlt
      rw [Nat.mod_eq_of_lt hlt', show 2 ^ w - 1 + 2 ^ n = 2 ^ n - 1 + 2 ^ w by omega,
        Nat.add_mod_right, Nat.mod_eq_of_lt (by omega)]
    · obtain rfl := Nat.le_antisymm hn hge
      rw [Nat.mod_self, Nat.add_zero, Nat.mod_eq_of_lt (by omega)]
  rw [BitVec.getLsbD, hvalue, Nat.testBit_two_pow_sub_one]

/-- Counted from the top, the low bits are the last ones. -/
theorem getMsbD_lowMask {w n i : Nat} (hn : n ≤ w) (hi : i < w) :
    (lowMask w n).getMsbD i = decide (w - n ≤ i) := by
  rw [BitVec.getMsbD_eq_getLsbD, getLsbD_lowMask hn, decide_eq_true hi, Bool.true_and]
  exact decide_eq_decide.mpr (by omega)

/-! ## Bytes -/

theorem testBit_ofLE : ∀ (bs : List UInt8) (i : Nat),
    (ofLE bs).testBit i = (bs.getD (i / 8) 0).toNat.testBit (i % 8)
  | [], i => by
      rw [ofLE, List.getD_nil, Nat.zero_testBit]
      exact (Nat.zero_testBit _).symm
  | b :: bs, i => by
      have hsum : ofLE (b :: bs) = 2 ^ 8 * ofLE bs + b.toNat := by
        rw [ofLE]
        omega
      rw [hsum, Nat.testBit_two_pow_mul_add _ b.toNat_lt]
      rcases Nat.lt_or_ge i 8 with hlt | hge
      · rw [if_pos hlt, Nat.div_eq_of_lt hlt, Nat.mod_eq_of_lt hlt, List.getD_cons_zero]
      · obtain ⟨j, rfl⟩ : ∃ j, i = j + 8 := ⟨i - 8, by omega⟩
        rw [if_neg (by omega), Nat.add_sub_cancel, testBit_ofLE bs j,
          Nat.add_div_right j (by decide), Nat.add_mod_right, List.getD_cons_succ]

theorem testBit_toLE : ∀ {n j k : Nat} (x : Nat), j < n → k < 8 →
    ((toLE n x).getD j 0).toNat.testBit k = x.testBit (8 * j + k)
  | n + 1, 0, k, x, _, hk => by
      have hbyte : (UInt8.ofNat x).toNat = x % 2 ^ 8 := UInt8.toNat_ofNat'
      rw [toLE, List.getD_cons_zero, hbyte, Nat.testBit_mod_two_pow, decide_eq_true hk,
        Bool.true_and, Nat.mul_zero, Nat.zero_add]
  | n + 1, j + 1, k, x, hj, hk => by
      rw [toLE, List.getD_cons_succ, testBit_toLE (x / 256) (Nat.lt_of_succ_lt_succ hj) hk]
      exact (Nat.testBit_div_two_pow (n := 8) x (8 * j + k)).trans (by congr 1; omega)

/-- Byte `j` becomes byte `n - 1 - j`. -/
theorem getLsbD_byteswap {n : Nat} (v : BitVec (8 * n)) {i : Nat} (hi : i < 8 * n) :
    (byteswap v).getLsbD i = v.getLsbD (8 * (n - 1 - i / 8) + i % 8) := by
  have hj : i / 8 < n := by omega
  have hbyte : (toLE n v.toNat).reverse.getD (i / 8) 0 =
      (toLE n v.toNat).getD (n - 1 - i / 8) 0 := by
    rw [List.getD_eq_getElem?_getD, List.getD_eq_getElem?_getD,
      List.getElem?_reverse (by rwa [length_toLE]), length_toLE]
  rw [byteswap, BitVec.getLsbD_ofNat, decide_eq_true hi, Bool.true_and, testBit_ofLE, hbyte,
    testBit_toLE v.toNat (by omega) (Nat.mod_lt i (by decide))]
  rfl

section

variable {n : Nat} (v u : BitVec (8 * n))

theorem byteswap_and : byteswap (v &&& u) = byteswap v &&& byteswap u := by
  apply BitVec.eq_of_getLsbD_eq
  intro i hi
  simp only [BitVec.getLsbD_and, getLsbD_byteswap _ hi]

theorem byteswap_or : byteswap (v ||| u) = byteswap v ||| byteswap u := by
  apply BitVec.eq_of_getLsbD_eq
  intro i hi
  simp only [BitVec.getLsbD_or, getLsbD_byteswap _ hi]

theorem byteswap_not : byteswap (~~~v) = ~~~byteswap v := by
  apply BitVec.eq_of_getLsbD_eq
  intro i hi
  have hin : 8 * (n - 1 - i / 8) + i % 8 < 8 * n := by omega
  simp only [BitVec.getLsbD_not, getLsbD_byteswap _ hi, decide_eq_true hi, decide_eq_true hin,
    Bool.true_and]

end

end Sylar
