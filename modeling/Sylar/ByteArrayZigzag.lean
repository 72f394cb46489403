import Sylar.ByteArrayCodec

/-!
# Zigzag in `int32_t` and `int64_t`

With `-v` and `v * 2` taken modulo `2 ^ w` the encoders and the decoders
of `bytearray.cc` are inverse to each other, and an integer of `k` bits
has a code of `k` bits (`encodeZigzag_exact`).

But both are operations of a signed type, and have no value where the
result is not of that type. `encodeSigned32` and `encodeSigned64` are the
encoders with that in mind. A negative integer is converted to the
unsigned type before it is doubled, the others are not.
-/

namespace Sylar

namespace ByteArray

/-- The encoder and the decoder are inverse to each other; the codes of
`k` bits are those of the integers of `k` bits. -/
structure ZigzagExact {w : Nat} (encode decode : BitVec w → BitVec w) : Prop where
  decode_encode : ∀ v, decode (encode v) = v
  encode_decode : ∀ u, encode (decode u) = u
  short : ∀ v k, 1 ≤ k → k ≤ w →
    ((encode v).toNat < 2 ^ k ↔ -2 ^ (k - 1) ≤ v.toInt ∧ v.toInt < 2 ^ (k - 1))

theorem zigzag_exact (w : Nat) : ZigzagExact (w := w) zigzag unzigzag where
  decode_encode := unzigzag_zigzag
  encode_decode := zigzag_unzigzag
  short v _ hk _ := zigzag_lt_iff v hk

/-- **Zigzag at both widths.** -/
theorem encodeZigzag_exact : ZigzagExact encodeZigzag32 decodeZigzag32 ∧
    ZigzagExact encodeZigzag64 decodeZigzag64 :=
  ⟨zigzag_exact 32, zigzag_exact 64⟩

/-! ## Signed operations -/

/-- An operation of a signed type with this result; none if the type does
not have it. -/
def signed (w : Nat) (x : Int) : Option Int :=
  if -2 ^ (w - 1) ≤ x ∧ x < 2 ^ (w - 1) then some x else none

/-- `EncodeZigzag`; the conversion to the unsigned type and what is done
there are modulo `2 ^ w`. -/
def encodeSigned {w : Nat} (v : BitVec w) : Option (BitVec w) :=
  if v.toInt < 0 then do
    let m ← signed w (-v.toInt)
    return BitVec.ofInt w m * 2#w - 1#w
  else do
    let m ← signed w (v.toInt * 2)
    return BitVec.ofInt w m

def encodeSigned32 (v : BitVec 32) : Option (BitVec 32) := encodeSigned v

def encodeSigned64 (v : BitVec 64) : Option (BitVec 64) := encodeSigned v

section

variable (heap : Nat → Nat → UInt8) (ba : ByteArray)

/-- `writeInt32`, if it has a value. -/
def writeSigned32 (value : BitVec 32) : Option (Res Unit) :=
  (encodeSigned32 value).map (ba.writeUint32 heap)

/-- `writeInt64`, if it has a value. -/
def writeSigned64 (value : BitVec 64) : Option (Res Unit) :=
  (encodeSigned64 value).map (ba.writeUint64 heap)

end

/-- Where it has a value it is the one modulo `2 ^ w`. -/
theorem encodeSigned_eq {w : Nat} (v : BitVec w) : encodeSigned v =
    if -2 ^ (w - 1) < v.toInt ∧ 2 * v.toInt < 2 ^ (w - 1) then some (zigzag v) else none := by
  have hpos : (0 : Int) < 2 ^ (w - 1) := by positivity
  have hmsb : v.msb = decide (v.toInt < 0) := BitVec.msb_eq_toInt
  rw [encodeSigned, signed, signed]
  generalize (2 : Int) ^ (w - 1) = m at *
  split
  · rename_i hneg
    rw [decide_eq_true hneg] at hmsb
    have hvalue : BitVec.ofInt w (-v.toInt) = -v := by rw [BitVec.ofInt_neg, BitVec.ofInt_toInt]
    by_cases hlow : -m < v.toInt
    · rw [if_pos ⟨by omega, by omega⟩, if_pos ⟨hlow, by omega⟩, zigzag, if_pos hmsb, ← hvalue]
      rfl
    · rw [if_neg (by omega), if_neg fun h => hlow h.1]
      rfl
  · rename_i hneg
    rw [decide_eq_false hneg] at hmsb
    have hvalue : BitVec.ofInt w (v.toInt * 2) = v * 2#w := by
      rw [BitVec.ofInt_mul, BitVec.ofInt_toInt]
      rfl
    by_cases hhigh : 2 * v.toInt < m
    · rw [if_pos ⟨by omega, by omega⟩, if_pos ⟨by omega, hhigh⟩, zigzag,
        if_neg (Bool.eq_false_iff.mp hmsb), ← hvalue]
      rfl
    · rw [if_neg (by omega), if_neg fun h => hhigh h.2]
      rfl

variable {heap : Nat → Nat → UInt8} {ba : ByteArray}

theorem writeSigned32_eq (value : BitVec 32) : ba.writeSigned32 heap value =
    if -2 ^ 31 < value.toInt ∧ value.toInt < 2 ^ 30 then some (ba.writeInt32 heap value)
    else none := by
  rw [writeSigned32, encodeSigned32, encodeSigned_eq]
  by_cases h : -2 ^ 31 < value.toInt ∧ value.toInt < 2 ^ 30
  · rw [if_pos h, if_pos ⟨h.1, by omega⟩]
    rfl
  · rw [if_neg h, if_neg fun h' => h ⟨h'.1, by omega⟩]
    rfl

theorem writeSigned64_eq (value : BitVec 64) : ba.writeSigned64 heap value =
    if -2 ^ 63 < value.toInt ∧ value.toInt < 2 ^ 62 then some (ba.writeInt64 heap value)
    else none := by
  rw [writeSigned64, encodeSigned64, encodeSigned_eq]
  by_cases h : -2 ^ 63 < value.toInt ∧ value.toInt < 2 ^ 62
  · rw [if_pos h, if_pos ⟨h.1, by omega⟩]
    rfl
  · rw [if_neg h, if_neg fun h' => h ⟨h'.1, by omega⟩]
    rfl

/-- **When no signed operation overflows**: for all but the least integer
and the upper half of the positive ones. -/
theorem writeSigned_iff (heap : Nat → Nat → UInt8) (ba : ByteArray) :
    (∀ value : BitVec 32, (ba.writeSigned32 heap value).isSome = true ↔
      -2 ^ 31 < value.toInt ∧ value.toInt < 2 ^ 30) ∧
    ∀ value : BitVec 64, (ba.writeSigned64 heap value).isSome = true ↔
      -2 ^ 63 < value.toInt ∧ value.toInt < 2 ^ 62 := by
  refine ⟨fun value => ?_, fun value => ?_⟩
  · rw [writeSigned32_eq]
    split
    · rename_i h
      exact iff_of_true rfl h
    · rename_i h
      exact iff_of_false Bool.false_ne_true h
  · rw [writeSigned64_eq]
    split
    · rename_i h
      exact iff_of_true rfl h
    · rename_i h
      exact iff_of_false Bool.false_ne_true h

/-- `2 ^ 30` is doubled in `int32_t`. -/
theorem not_writeSigned : ¬∀ (heap : Nat → Nat → UInt8) (ba : ByteArray),
    (∀ value : BitVec 32, (ba.writeSigned32 heap value).isSome = true) ∧
      ∀ value : BitVec 64, (ba.writeSigned64 heap value).isSome = true := by
  intro h
  have hsome := (h (fun _ _ => 0) (new 2 fun _ _ => 0)).1 0x40000000
  rw [writeSigned32, Option.isSome_map] at hsome
  revert hsome
  decide

end ByteArray

end Sylar
