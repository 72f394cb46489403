import Sylar.ByteArrayCodec
import Sylar.ByteArrayFlat

/-!
# What is written is read back

`encoded` are the bytes a typed value is written as. Each write is one
`write` of them (`writeKind_spec`), and each read, where they are next,
returns the value and consumes them (`readKind_spec`); for the varints
that is the loop, which is described for any bytes
(`readVarint_bytes`). A stream of typed values is read back by induction
over the list (`typed_round_trip`). A string is read back unless its
length does not fit the prefix, or it is empty and its prefix ends where
the last block does: then `m_cur` is null and `read` follows it even for
no byte at all (`string_round_trip`).
-/

namespace Sylar

namespace ByteArray

/-! ## Reading on -/

/-- What is left to read. -/
def unread (ba : ByteArray) : List UInt8 := ba.content.drop ba.position

theorem Linked.length_unread {ba : ByteArray} (h : Linked ba) :
    ba.unread.length = ba.getReadSize := by
  rw [unread, List.length_drop, h.length_content, getReadSize]

/-- `ba'` is `ba` with the bytes `x` consumed. -/
structure Consumed (ba ba' : ByteArray) (x rest : List UInt8) : Prop where
  linked : Linked ba'
  unread : ba'.unread = rest
  position : ba'.position = ba.position + x.length
  endian : ba'.endian = ba.endian
  baseSize : ba'.baseSize = ba.baseSize
  capacity : ba'.capacity = ba.capacity

theorem Consumed.refl (h : Linked ba) : Consumed ba ba [] ba.unread :=
  ⟨h, rfl, rfl, rfl, rfl, rfl⟩

theorem Consumed.trans {a b c : ByteArray} {x y r s : List UInt8} (h : Consumed a b x r)
    (h' : Consumed b c y s) : Consumed a c (x ++ y) s where
  linked := h'.linked
  unread := h'.unread
  position := by rw [h'.position, h.position, List.length_append, Nat.add_assoc]
  endian := h'.endian.trans h.endian
  baseSize := h'.baseSize.trans h.baseSize
  capacity := h'.capacity.trans h.capacity

theorem read_prefix {ba : ByteArray} (h : Linked ba) {x rest : List UInt8} (hx : x ≠ [])
    (hu : ba.unread = x ++ rest) :
    ∃ ba', ba.read x.length = (.ok x, ba') ∧ Consumed ba ba' x rest := by
  have hlen := h.length_unread
  rw [hu, List.length_append] at hlen
  have hpos := List.length_pos_of_ne_nil hx
  obtain ⟨ba', hr, hL, hc, hp, -, hb, he, hcap⟩ := read_spec h hpos (by omega)
  have hgot : (ba.content.drop ba.position).take x.length = x := by
    rw [← unread, hu, List.take_left]
  refine ⟨ba', by rw [hr, hgot], hL, ?_, hp, he, hb, hcap⟩
  rw [unread, hc, hp, ← List.drop_drop, ← unread, hu, List.drop_left]

/-! ## Fixed width -/

section

variable (host : Endian) {heap : Nat → Nat → UInt8} {ba : ByteArray}

theorem length_memory {n : Nat} (v : BitVec (8 * n)) : (memory host v).length = n := by
  cases host with
  | little => exact length_toLE n _
  | big => rw [memory, List.length_reverse, length_toLE]

theorem ofMemory_memory {n : Nat} (v : BitVec (8 * n)) : ofMemory host n (memory host v) = v := by
  cases host with
  | little =>
      rw [ofMemory, memory, ofLE_toLE v.isLt, BitVec.ofNat_toNat, BitVec.setWidth_eq]
  | big =>
      rw [ofMemory, memory, List.reverse_reverse, ofLE_toLE v.isLt, BitVec.ofNat_toNat,
        BitVec.setWidth_eq]

theorem order_order {n : Nat} (v : BitVec (8 * n)) : ba.order host (ba.order host v) = v := by
  rw [order, order]
  split
  · exact byteswap_byteswap v
  · rfl

theorem order_congr {ba' : ByteArray} (h : ba'.endian = ba.endian) {n : Nat}
    (v : BitVec (8 * n)) : ba'.order host v = ba.order host v := by
  rw [order, order, h]

theorem readFixed_memory (h : Linked ba) {n : Nat} (hn : 0 < n) {v : BitVec (8 * n)}
    {rest : List UInt8} (hu : ba.unread = memory host (ba.order host v) ++ rest) :
    ∃ ba', ba.readFixed host n = (.ok v, ba') ∧
      Consumed ba ba' (memory host (ba.order host v)) rest := by
  have hlen := length_memory host (ba.order host v)
  obtain ⟨ba', hr, hcons⟩ := read_prefix h (List.ne_nil_of_length_pos (by omega)) hu
  rw [hlen] at hr
  refine ⟨ba', ?_, hcons⟩
  rw [readFixed, hr, Res.bind_ok, ofMemory_memory, order_congr host hcons.endian, order_order]

theorem readByte_memory (h : Linked ba) {v : BitVec 8} {rest : List UInt8}
    (hu : ba.unread = memory host (n := 1) v ++ rest) :
    ∃ ba', ba.readFuint8 host = (.ok v, ba') ∧ Consumed ba ba' (memory host (n := 1) v) rest := by
  have hlen := length_memory host (n := 1) v
  obtain ⟨ba', hr, hcons⟩ := read_prefix h (List.ne_nil_of_length_pos (by omega)) hu
  rw [hlen] at hr
  refine ⟨ba', ?_, hcons⟩
  rw [readFuint8, hr, Res.bind_ok, ofMemory_memory host (n := 1) v]

theorem readFuint8_cons (h : Linked ba) {b : UInt8} {rest : List UInt8}
    (hu : ba.unread = b :: rest) :
    ∃ ba', ba.readFuint8 host = (.ok b.toBitVec, ba') ∧ Consumed ba ba' [b] rest := by
  have hbyte : memory host (n := 1) b.toBitVec = [b] := by
    have hle : toLE 1 b.toBitVec.toNat = [b] := by
      rw [toLE, toLE, UInt8.toNat_toBitVec, UInt8.ofNat_toNat]
    cases host with
    | little => exact hle
    | big => rw [memory, hle, List.reverse_singleton]
  rw [← hbyte]
  exact readByte_memory host h (by rw [hbyte]; exact hu)

/-! ## Varints -/

/-- The bytes of a varint, up to the first below 0x80 and `room` at most,
if they are all there. -/
def takeVarint : Nat → List UInt8 → Option (List UInt8)
  | 0, _ => some []
  | _ + 1, [] => none
  | room + 1, b :: bs => if b < 0x80 then some [b] else (takeVarint room bs).map (b :: ·)

/-- The number that they stand for. -/
def varintValue : List UInt8 → Nat
  | [] => 0
  | b :: bs => b.toNat % 128 + 128 * varintValue bs

/-- A value of `7 * room` bits does not overrun `tmp`. -/
theorem fillTmp_spec : ∀ {room v : Nat}, 0 < room → v < 2 ^ (7 * room) →
    ∃ bs, fillTmp room v = .ok bs ∧ bs ≠ [] ∧ bs.length ≤ room
  | room + 1, v, _, hv => by
      rw [fillTmp]
      split
      · rename_i hbig
        rw [Nat.mul_succ, Nat.pow_add] at hv
        have hshift : v >>> 7 < 2 ^ (7 * room) := by
          rw [Nat.shiftRight_eq_div_pow]
          exact Nat.div_lt_of_lt_mul (by rw [Nat.mul_comm]; exact hv)
        have hroom : 0 < room := by
          rcases Nat.eq_zero_or_pos room with rfl | hroom
          · omega
          · exact hroom
        obtain ⟨bs, hbs, -, hlen⟩ := fillTmp_spec hroom hshift
        refine ⟨_, by rw [hbs]; rfl, List.cons_ne_nil _ _, ?_⟩
        rw [List.length_cons]
        omega
      · exact ⟨_, rfl, List.cons_ne_nil _ _, Nat.succ_le_succ (Nat.zero_le _)⟩

theorem and_seven (v : Nat) : v &&& 0x7F = v % 128 := Nat.and_two_pow_sub_one_eq_mod v 7

/-- A byte of a varint that is not its last one. -/
theorem toNat_more (v : Nat) :
    (UInt8.ofNat ((v &&& 0x7F) ||| 0x80)).toBitVec.toNat = v % 128 + 128 := by
  have hor : (v % 128) ||| 0x80 = v % 128 + 128 := by
    have hadd := Nat.two_pow_add_eq_or_of_lt (i := 7) (Nat.mod_lt v (by decide)) 1
    rw [Nat.or_comm, Nat.add_comm]
    exact hadd.symm
  rw [and_seven, hor, UInt8.toNat_toBitVec, UInt8.toNat_ofNat', Nat.mod_eq_of_lt (by omega)]

/-- The bits that a byte adds, cut off at the width. -/
theorem or_shiftLeft_mod {w i : Nat} {result : BitVec w} (hi : i < w) (hr : result.toNat < 2 ^ i)
    (b : BitVec 8) : (result ||| b.setWidth w <<< i).toNat =
      (result.toNat + b.toNat * 2 ^ i) % 2 ^ w := by
  have hpow : 0 < 2 ^ i := Nat.two_pow_pos i
  have hw : 2 ^ w = 2 ^ i * 2 ^ (w - i) := by rw [← Nat.pow_add, Nat.add_sub_cancel' hi.le]
  have hshift : (b.setWidth w <<< i).toNat = 2 ^ i * (b.toNat % 2 ^ (w - i)) := by
    rw [BitVec.toNat_shiftLeft, BitVec.toNat_setWidth, Nat.shiftLeft_eq, Nat.mod_mul_mod, hw,
      Nat.mul_comm b.toNat, Nat.mul_mod_mul_left]
  have hsum : (result.toNat + b.toNat * 2 ^ i) % 2 ^ w =
      result.toNat + 2 ^ i * (b.toNat % 2 ^ (w - i)) := by
    rw [hw, Nat.mod_mul, Nat.add_mul_mod_self_right, Nat.mod_eq_of_lt hr,
      Nat.add_mul_div_right _ _ hpow, Nat.div_eq_of_lt hr, Nat.zero_add]
  rw [BitVec.toNat_or, hshift, hsum, Nat.or_comm, ← Nat.two_pow_add_eq_or_of_lt hr, Nat.add_comm]

/-- The seven bits that a byte which is not the last one adds. -/
theorem or_low {w i : Nat} {result : BitVec w} (hi : i < w) (hr : result.toNat < 2 ^ i)
    (b : UInt8) : (result ||| (b.toBitVec &&& 0x7f).setWidth w <<< i).toNat =
      (result.toNat + b.toNat % 128 * 2 ^ i) % 2 ^ w := by
  have hlow : (b.toBitVec &&& 0x7f).toNat = b.toNat % 128 := by
    rw [BitVec.toNat_and]
    exact and_seven b.toNat
  rw [or_shiftLeft_mod hi hr, hlow]

theorem or_low_lt {w i : Nat} {result : BitVec w} (hi : i < w) (hr : result.toNat < 2 ^ i)
    (b : UInt8) :
    (result ||| (b.toBitVec &&& 0x7f).setWidth w <<< i).toNat < 2 ^ (i + 7) := by
  have hmod := Nat.mod_le (result.toNat + b.toNat % 128 * 2 ^ i) (2 ^ w)
  have hle : b.toNat % 128 * 2 ^ i ≤ 127 * 2 ^ i := Nat.mul_le_mul_right _ (by omega)
  rw [or_low hi hr, Nat.pow_add]
  omega

/-- The loop: with the bytes of a varint it returns, and else it throws
when it has taken all there was. -/
theorem readVarint_bytes {w : Nat} : ∀ {room rounds i : Nat} {result : BitVec w} {ba : ByteArray},
    Linked ba → room ≤ rounds → room = (w - i + 6) / 7 → result.toNat < 2 ^ i →
    (∀ bs, takeVarint room ba.unread = some bs →
      ∃ v ba', readVarint host rounds i result ba = (.ok v, ba') ∧
        v.toNat = (result.toNat + varintValue bs * 2 ^ i) % 2 ^ w ∧
        Consumed ba ba' bs (ba.unread.drop bs.length)) ∧
    (takeVarint room ba.unread = none →
      ∃ ba', readVarint host rounds i result ba = (.error (.outOfRange "not enough len"), ba') ∧
        ba'.position = ba.position + ba.unread.length ∧ (ba.unread = [] → ba' = ba))
  | 0, rounds, i, result, ba, h, _, hroom, _ => by
      have hi : ¬i < w := by omega
      have hread : readVarint host rounds i result ba = (.ok result, ba) := by
        cases rounds with
        | zero => rfl
        | succ rounds => exact if_neg hi
      constructor
      · rintro bs hbs
        obtain rfl := Option.some.inj hbs
        refine ⟨result, ba, hread, ?_, .refl h⟩
        rw [varintValue, Nat.zero_mul, Nat.add_zero, Nat.mod_eq_of_lt result.isLt]
      · intro hnone
        cases hnone
  | room + 1, rounds, i, result, ba, h, hrounds, hroom, hr => by
      have hi : i < w := by omega
      obtain ⟨rounds, rfl⟩ := Nat.exists_eq_add_one_of_ne_zero (show rounds ≠ 0 by omega)
      rw [readVarint, if_pos hi]
      cases hu : ba.unread with
      | nil =>
          have hshort : ba.getReadSize < 1 := by rw [← h.length_unread, hu]; exact Nat.one_pos
          have hread : ba.readFuint8 host = (.error (.outOfRange "not enough len"), ba) := by
            rw [readFuint8, read_short hshort]
            rfl
          refine ⟨fun bs hbs => (by cases hbs), fun _ => ⟨ba, ?_, rfl, fun _ => rfl⟩⟩
          rw [hread]
          rfl
      | cons b rest =>
          obtain ⟨ba₁, hread, hcons⟩ := readFuint8_cons host h hu
          rw [hread, Res.bind_ok, takeVarint]
          have hsame : b.toBitVec < 0x80 ↔ b < 0x80 := Iff.rfl
          by_cases hlast : b < 0x80
          · rw [if_pos hlast, if_pos (hsame.mpr hlast)]
            refine ⟨fun bs hbs => ?_, fun hnone => by cases hnone⟩
            obtain rfl := Option.some.inj hbs
            have hvalue : varintValue [b] = b.toNat := by
              have hlt : b.toNat < 128 := hlast
              rw [varintValue, varintValue, Nat.mod_eq_of_lt hlt, Nat.mul_zero, Nat.add_zero]
            refine ⟨_, ba₁, rfl, ?_, hcons⟩
            rw [or_shiftLeft_mod hi hr, hvalue]
            rfl
          · rw [if_neg hlast, if_neg fun hno => hlast (hsame.mp hno)]
            have hvalue := or_low hi hr b
            have hlt := or_low_lt hi hr b
            generalize result ||| (b.toBitVec &&& 0x7f).setWidth w <<< i = next at hvalue hlt ⊢
            obtain ⟨hsome, hnone⟩ := @readVarint_bytes w room rounds (i + 7) next ba₁ hcons.linked
              (by omega) (by omega) hlt
            rw [hcons.unread] at hsome hnone
            constructor
            · intro bs hbs
              obtain ⟨bs', hbs', rfl⟩ := Option.map_eq_some_iff.mp hbs
              obtain ⟨v, ba', hloop, hv, hcons'⟩ := hsome bs' hbs'
              refine ⟨v, ba', hloop, ?_, hcons.trans hcons'⟩
              rw [hv, hvalue, Nat.mod_add_mod, varintValue, Nat.pow_add]
              congr 1
              ring
            · intro hrest
              obtain ⟨ba', hloop, hposition, -⟩ := hnone (Option.map_eq_none_iff.mp hrest)
              refine ⟨ba', hloop, ?_, fun hno => by cases hno⟩
              have hfirst : ba₁.position = ba.position + 1 := hcons.position
              rw [hposition, hfirst, List.length_cons]
              omega

/-- The loop from the start. -/
theorem readVarint_spec {w room : Nat} (h : Linked ba) (hroom : room = (w + 6) / 7)
    (hle : room ≤ w) :
    (∀ bs, takeVarint room ba.unread = some bs →
      ∃ v ba', readVarint host w 0 (0 : BitVec w) ba = (.ok v, ba') ∧
        v.toNat = varintValue bs % 2 ^ w ∧ Consumed ba ba' bs (ba.unread.drop bs.length)) ∧
    (takeVarint room ba.unread = none →
      ∃ ba', readVarint host w 0 (0 : BitVec w) ba =
          (.error (.outOfRange "not enough len"), ba') ∧
        ba'.position = ba.position + ba.unread.length ∧ (ba.unread = [] → ba' = ba)) := by
  have hzero : (0 : BitVec w).toNat = 0 := BitVec.toNat_zero
  obtain ⟨hsome, hnone⟩ := readVarint_bytes host h hle (by rw [Nat.sub_zero]; exact hroom)
    (show (0 : BitVec w).toNat < 2 ^ 0 by rw [hzero]; exact Nat.one_pos)
  refine ⟨fun bs hbs => ?_, hnone⟩
  obtain ⟨v, ba', hread, hv, hcons⟩ := hsome bs hbs
  refine ⟨v, ba', hread, hv.trans ?_, hcons⟩
  rw [hzero, Nat.zero_add, Nat.pow_zero, Nat.mul_one]

/-- The bytes that `fillTmp` writes are a varint. -/
theorem takeVarint_fillTmp (rest : List UInt8) : ∀ {room v : Nat} {bs : List UInt8},
    fillTmp room v = .ok bs → takeVarint room (bs ++ rest) = some bs ∧ varintValue bs = v
  | room + 1, v, bs, hfill => by
      rw [fillTmp] at hfill
      split at hfill
      · obtain ⟨bs', hbs', hfill⟩ := bind_eq_ok.mp hfill
        obtain rfl := Except.ok.inj hfill
        obtain ⟨htake, hvalue⟩ := takeVarint_fillTmp rest hbs'
        have hb : (UInt8.ofNat ((v &&& 0x7F) ||| 0x80)).toNat = v % 128 + 128 := toNat_more v
        have hmore : ¬UInt8.ofNat ((v &&& 0x7F) ||| 0x80) < 0x80 := by
          rw [UInt8.lt_iff_toNat_lt, hb]
          show ¬v % 128 + 128 < 128
          omega
        constructor
        · rw [List.cons_append, takeVarint, if_neg hmore, htake]
          rfl
        · rw [varintValue, hb, hvalue, Nat.shiftRight_eq_div_pow]
          omega
      · rename_i hsmall
        obtain rfl := Except.ok.inj hfill
        have hb : (UInt8.ofNat v).toNat = v := by
          rw [UInt8.toNat_ofNat', Nat.mod_eq_of_lt (by omega)]
        have hlast : UInt8.ofNat v < 0x80 := by
          rw [UInt8.lt_iff_toNat_lt, hb]
          exact Nat.lt_of_not_le hsmall
        constructor
        · rw [List.singleton_append, takeVarint, if_pos hlast]
        · rw [varintValue, varintValue, hb]
          omega

theorem readVarint_fillTmp {w room : Nat} {v : BitVec w} {bs rest : List UInt8}
    (hroom : room = (w + 6) / 7) (hle : room ≤ w) (hfill : fillTmp room v.toNat = .ok bs)
    (h : Linked ba) (hu : ba.unread = bs ++ rest) :
    ∃ ba', readVarint host w 0 0 ba = (.ok v, ba') ∧ Consumed ba ba' bs rest := by
  obtain ⟨htake, hvalue⟩ := takeVarint_fillTmp rest hfill
  rw [← hu] at htake
  obtain ⟨u, ba', hread, hsame, hcons⟩ := (readVarint_spec host h hroom hle).1 bs htake
  rw [hvalue, Nat.mod_eq_of_lt v.isLt] at hsame
  rw [hu, List.drop_left] at hcons
  obtain rfl := BitVec.eq_of_toNat_eq hsame
  exact ⟨ba', hread, hcons⟩

theorem readUint32_fillTmp {v : BitVec 32} {bs rest : List UInt8}
    (hfill : fillTmp 5 v.toNat = .ok bs) (h : Linked ba) (hu : ba.unread = bs ++ rest) :
    ∃ ba', ba.readUint32 host = (.ok v, ba') ∧ Consumed ba ba' bs rest :=
  readVarint_fillTmp host (by decide) (by decide) hfill h hu

theorem readUint64_fillTmp {v : BitVec 64} {bs rest : List UInt8}
    (hfill : fillTmp 10 v.toNat = .ok bs) (h : Linked ba) (hu : ba.unread = bs ++ rest) :
    ∃ ba', ba.readUint64 host = (.ok v, ba') ∧ Consumed ba ba' bs rest :=
  readVarint_fillTmp host (by decide) (by decide) hfill h hu

/-! ## Values of any type -/

/-- The bytes a value is written as. -/
def encoded (host : Endian) (ba : ByteArray) :
    (k : Kind) → BitVec k.bits → Except Fault (List UInt8)
  | .Fint8, v | .Fuint8, v => .ok (memory host (n := 1) v)
  | .Fint16, v | .Fuint16, v => .ok (memory host (n := 2) (ba.order host (n := 2) v))
  | .Fint32, v | .Fuint32, v | .Float, v => .ok (memory host (n := 4) (ba.order host (n := 4) v))
  | .Fint64, v | .Fuint64, v | .Double, v => .ok (memory host (n := 8) (ba.order host (n := 8) v))
  | .Uint32, v => fillTmp 5 v.toNat
  | .Int32, v => fillTmp 5 (encodeZigzag32 v).toNat
  | .Uint64, v => fillTmp 10 v.toNat
  | .Int64, v => fillTmp 10 (encodeZigzag64 v).toNat

theorem encoded_congr {ba' : ByteArray} (h : ba'.endian = ba.endian) {k : Kind}
    (v : BitVec k.bits) : encoded host ba' k v = encoded host ba k v := by
  cases k <;> simp only [encoded, order, h]

/-- There is at least one byte, and at most ten. -/
theorem encoded_spec (host : Endian) (ba : ByteArray) {k : Kind} (v : BitVec k.bits) :
    ∃ bs, encoded host ba k v = .ok bs ∧ bs ≠ [] ∧ bs.length ≤ 10 := by
  have hmemory {n : Nat} (u : BitVec (8 * n)) (hpos : 0 < n) (hle : n ≤ 10) :
      ∃ bs, Except.ok (ε := Fault) (memory host u) = .ok bs ∧ bs ≠ [] ∧ bs.length ≤ 10 := by
    have hlen := length_memory host u
    exact ⟨_, rfl, List.ne_nil_of_length_pos (by omega), by omega⟩
  have hfill {w : Nat} (u : BitVec w) (room : Nat) (hpos : 0 < room) (hle : room ≤ 10)
      (hw : 2 ^ w ≤ 2 ^ (7 * room)) :
      ∃ bs, fillTmp room u.toNat = .ok bs ∧ bs ≠ [] ∧ bs.length ≤ 10 := by
    obtain ⟨bs, hbs, hne, hlen⟩ := fillTmp_spec hpos (Nat.lt_of_lt_of_le u.isLt hw)
    exact ⟨bs, hbs, hne, hlen.trans hle⟩
  cases k with
  | Fint8 | Fuint8 => exact hmemory (n := 1) _ (by decide) (by decide)
  | Fint16 | Fuint16 => exact hmemory (n := 2) _ (by decide) (by decide)
  | Fint32 | Fuint32 | Float => exact hmemory (n := 4) _ (by decide) (by decide)
  | Fint64 | Fuint64 | Double => exact hmemory (n := 8) _ (by decide) (by decide)
  | Uint32 => exact hfill (w := 32) _ 5 (by decide) (by decide) (by decide)
  | Int32 => exact hfill (encodeZigzag32 v) 5 (by decide) (by decide) (by decide)
  | Uint64 => exact hfill (w := 64) _ 10 (by decide) (by decide) (by decide)
  | Int64 => exact hfill (encodeZigzag64 v) 10 (by decide) (by decide) (by decide)

theorem writeVarint_fillTmp {room v : Nat} {bs : List UInt8} (h : fillTmp room v = .ok bs) :
    ba.writeVarint heap room v = ba.write heap bs := by
  rw [writeVarint, h]

theorem writeKind_encoded {k : Kind} {v : BitVec k.bits} {bs : List UInt8}
    (h : encoded host ba k v = .ok bs) : ba.writeKind host heap k v = ba.write heap bs := by
  cases k with
  | Fint8 | Fuint8 | Fint16 | Fuint16 | Fint32 | Fuint32 | Fint64 | Fuint64 | Float | Double =>
      obtain rfl := Except.ok.inj h
      rfl
  | Uint32 | Uint64 | Int32 | Int64 => exact writeVarint_fillTmp h

theorem readKind_encoded {k : Kind} {v : BitVec k.bits} {bs rest : List UInt8}
    (he : encoded host ba k v = .ok bs) (h : Linked ba) (hu : ba.unread = bs ++ rest) :
    ∃ ba', ba.readKind host k = (.ok v, ba') ∧ Consumed ba ba' bs rest := by
  cases k with
  | Fint8 | Fuint8 =>
      obtain rfl := Except.ok.inj he
      exact readByte_memory host h hu
  | Fint16 | Fuint16 =>
      obtain rfl := Except.ok.inj he
      exact readFixed_memory host h (by decide) hu
  | Fint32 | Fuint32 | Float =>
      obtain rfl := Except.ok.inj he
      exact readFixed_memory host h (by decide) hu
  | Fint64 | Fuint64 | Double =>
      obtain rfl := Except.ok.inj he
      exact readFixed_memory host h (by decide) hu
  | Uint32 => exact readUint32_fillTmp host he h hu
  | Int32 =>
      obtain ⟨ba', hr, hcons⟩ := readUint32_fillTmp host he h hu
      refine ⟨ba', ?_, hcons⟩
      rw [readKind, readInt32, hr, Res.bind_ok]
      exact congrArg (fun u => (Except.ok u, ba')) (unzigzag_zigzag (w := 32) v)
  | Uint64 => exact readUint64_fillTmp host he h hu
  | Int64 =>
      obtain ⟨ba', hr, hcons⟩ := readUint64_fillTmp host he h hu
      refine ⟨ba', ?_, hcons⟩
      rw [readKind, readInt64, hr, Res.bind_ok]
      exact congrArg (fun u => (Except.ok u, ba')) (unzigzag_zigzag (w := 64) v)

theorem Linked.setIsLittleEndian (h : Linked ba) (little : Bool) :
    Linked (ba.setIsLittleEndian little) :=
  ⟨h.base_pos, h.node_size, h.nodes_pos, h.capacity_eq, h.position_le, h.size_le, h.cur_eq⟩

/-- `bs` is what the items are written as, one behind the other. -/
def Encodes : List Item → List UInt8 → Prop
  | [], bs => bs = []
  | x :: xs, bs => ∃ b rest, bs = b ++ rest ∧ Encodes xs rest ∧
      ∀ ba : ByteArray, encoded host (ba.setIsLittleEndian x.little) x.kind x.value = .ok b

/-- Writing at the end. -/
theorem writeItems_spec (heap : Nat → Nat → UInt8) : ∀ (items : List Item) {ba : ByteArray},
    Linked ba → ba.position = ba.size → ∃ bs ba', Encodes host items bs ∧
      writeItems host heap items ba = (.ok (), ba') ∧ Linked ba' ∧ ba'.position = ba'.size ∧
      ba'.content = ba.content ++ bs
  | [], ba, h, hend => ⟨[], ba, rfl, rfl, h, hend, (List.append_nil _).symm⟩
  | x :: xs, ba, h, hend => by
      obtain ⟨b, hb, -, hlen⟩ := encoded_spec host (ba.setIsLittleEndian x.little) x.value
      obtain ⟨ba₁, hw, hwrote⟩ := write_spec (h.setIsLittleEndian x.little) heap
        (show b.length < 2 ^ 53 from Nat.lt_of_le_of_lt hlen (by norm_num))
      have hposition : ba₁.position = ba.position + b.length := hwrote.position
      have hsize : ba₁.size = max ba.size (ba.position + b.length) := hwrote.size
      have hcontent : ba₁.content = ba.content ++ b := by
        have hsplice : ba₁.content = splice ba.content ba.position b := hwrote.content
        rw [hsplice, hend, ← h.length_content, splice_length]
      obtain ⟨bs, ba', henc, hws, hL, hend', hc⟩ := writeItems_spec heap xs hwrote.linked
        (by omega)
      refine ⟨b ++ bs, ba', ⟨b, bs, rfl, henc, fun ba' => ?_⟩, ?_, hL, hend', ?_⟩
      · have hsame : encoded host (ba'.setIsLittleEndian x.little) x.kind x.value =
            encoded host (ba.setIsLittleEndian x.little) x.kind x.value :=
          encoded_congr host rfl x.value
        rw [hsame]
        exact hb
      · rw [writeItems, writeKind_encoded host hb, hw, Res.bind_ok, hws]
      · rw [hc, hcontent, List.append_assoc]

theorem readItems_spec : ∀ {items : List Item} {bs rest : List UInt8} {ba : ByteArray},
    Encodes host items bs → Linked ba → ba.unread = bs ++ rest →
    ∃ ba', readItems host (items.map fun x => (x.little, x.kind)) ba = (.ok items, ba') ∧
      Linked ba' ∧ ba'.unread = rest
  | [], bs, rest, ba, henc, h, hu => by
      obtain rfl : bs = [] := henc
      exact ⟨ba, rfl, h, hu⟩
  | x :: xs, bs, rest, ba, henc, h, hu => by
      obtain ⟨b, bs', rfl, henc', hb⟩ := henc
      rw [List.append_assoc] at hu
      obtain ⟨ba₁, hr, hcons⟩ := readKind_encoded host (hb ba) (h.setIsLittleEndian x.little) hu
      obtain ⟨ba', hrs, hL, hrest⟩ := readItems_spec henc' hcons.linked hcons.unread
      refine ⟨ba', ?_, hL, hrest⟩
      rw [List.map_cons, readItems, hr, Res.bind_ok, hrs]
      rfl

/-- **A stream of typed values is read back as it was written**, for any
block size and any byte order of each value. -/
theorem typed_round_trip {base : Nat} (hpos : 1 ≤ base) (host : Endian)
    (heap heap' : Nat → Nat → UInt8) (items : List Item) :
    ∃ written, writeItems host heap' items (new base heap) = (.ok (), written) ∧
      ∃ rewound, written.setPosition 0 = (.ok (), rewound) ∧
        ∃ ba, readItems host (items.map fun x => (x.little, x.kind)) rewound = (.ok items, ba) ∧
          ba.getReadSize = 0 := by
  obtain ⟨bs, written, henc, hw, hL, hend, hc⟩ := writeItems_spec host heap' items (new_linked hpos heap)
    rfl
  obtain ⟨rewound, hset, hL', hc', hp, hs, -⟩ := setPosition_spec hL (Nat.zero_le _)
  have hcontent : rewound.content = bs := by
    have hall : rewound.content.take written.size = rewound.content := by
      rw [List.take_of_length_le]
      rw [hL'.length_content, hs, Nat.max_zero]
    have hnew : (new base heap).content = [] := List.take_zero
    rw [← hall, hc', hc, hnew, List.nil_append]
  obtain ⟨ba, hr, hL'', hrest⟩ := readItems_spec host henc hL'
    (by rw [unread, hcontent, hp, List.drop_zero, List.append_nil])
  refine ⟨written, hw, rewound, hset, ba, hr, ?_⟩
  rw [← hL''.length_unread, hrest, List.length_nil]

/-- One-byte blocks, a varint of the least integer and a swapped word. -/
theorem typed_round_trip_bytes : ∃ written,
    writeItems .little (fun _ _ => 0) [⟨true, .Int32, 0x80000000⟩, ⟨false, .Fuint16, 0x0102⟩]
      (new 1 fun _ _ => 0) = (.ok (), written) ∧
    ∃ rewound, written.setPosition 0 = (.ok (), rewound) ∧
      ∃ ba, readItems .little [(true, .Int32), (false, .Fuint16)] rewound =
          (.ok [⟨true, .Int32, 0x80000000⟩, ⟨false, .Fuint16, 0x0102⟩], ba) ∧
        ba.getReadSize = 0 :=
  typed_round_trip (Nat.le_refl 1) .little _ _ _

/-! ## Strings -/

def StringKind.kind : StringKind → Kind
  | .F16 => .Fuint16
  | .F32 => .Fuint32
  | .F64 => .Fuint64
  | .Vint => .Uint64

/-- The number of bytes in front of an empty string. -/
def StringKind.width : StringKind → Nat
  | .F16 => 2
  | .F32 => 4
  | .F64 => 8
  | .Vint => 1

/-- The length fits the prefix, and if the string is empty, its prefix
does not end where the last block does. -/
def Restorable (ba : ByteArray) (f : StringKind) (value : StdString) : Prop :=
  (f = .F16 → value.1.length < 2 ^ 16) ∧
    ¬(value.1 = [] ∧ ba.baseSize ∣ ba.position + f.width ∧ ba.capacity ≤ ba.position + f.width)

theorem writeString_eq (f : StringKind) (value : StdString) :
    ba.writeString host heap f value =
      Res.bind (ba.writeKind host heap f.kind (BitVec.ofNat _ value.1.length)) fun _ ba =>
        ba.write heap value.1 := by
  cases f <;> rfl

theorem readString_eq (f : StringKind) :
    ba.readString host f = Res.bind (ba.readKind host f.kind) fun len ba => ba.read len.toNat := by
  cases f <;> rfl

theorem length_prefix {f : StringKind} {b : List UInt8}
    (hb : encoded host ba f.kind (BitVec.ofNat _ 0) = .ok b) : b.length = f.width := by
  cases f with
  | F16 | F32 | F64 =>
      obtain rfl := Except.ok.inj hb
      exact length_memory host _
  | Vint =>
      obtain rfl := Except.ok.inj hb
      rfl

theorem toNat_length {f : StringKind} {value : StdString}
    (hF32 : f = .F32 → value.1.length < 2 ^ 32) :
    (BitVec.ofNat f.kind.bits value.1.length).toNat = value.1.length ↔
      (f = .F16 → value.1.length < 2 ^ 16) := by
  have hmax := value.2
  rw [BitVec.toNat_ofNat]
  cases f with
  | F16 =>
      show value.1.length % 2 ^ 16 = _ ↔ _
      constructor
      · intro heq _
        rw [← heq]
        exact Nat.mod_lt _ (by decide)
      · exact fun h => Nat.mod_eq_of_lt (h rfl)
  | F32 => exact ⟨(fun _ h => nomatch h), fun _ => Nat.mod_eq_of_lt (hF32 rfl)⟩
  | F64 => exact ⟨(fun _ h => nomatch h), fun _ => Nat.mod_eq_of_lt (hmax.trans (by decide))⟩
  | Vint => exact ⟨(fun _ h => nomatch h), fun _ => Nat.mod_eq_of_lt (hmax.trans (by decide))⟩

/-- What a string is written as, and the state behind its prefix after
seeking back and reading that. -/
theorem readString_prefix {ba' : ByteArray} {f : StringKind} {value : StdString} (h : Linked ba)
    (hw : ba.writeString host heap f value = (.ok (), ba')) :
    ∃ (b : List UInt8) (rewound ba₂ : ByteArray) (rest : List UInt8),
      encoded host ba f.kind (BitVec.ofNat _ value.1.length) = .ok b ∧
      ba'.position = ba.position + b.length + value.1.length ∧
      (value.1 = [] → ba'.capacity = (ba.addCapacity heap b.length).capacity) ∧
      ba'.setPosition ba.position = (.ok (), rewound) ∧
      rewound.readString host f = ba₂.read (BitVec.ofNat f.kind.bits value.1.length).toNat ∧
      ba₂.Linked ∧ ba₂.unread = value.1 ++ rest ∧ ba₂.position = ba.position + b.length ∧
      ba₂.capacity = ba'.capacity := by
  obtain ⟨b, hb, hne, hlen⟩ := encoded_spec host ba (BitVec.ofNat f.kind.bits value.1.length)
  have hsmall : b.length < 2 ^ 53 := Nat.lt_of_le_of_lt hlen (by norm_num)
  obtain ⟨ba₁, hw₁, hwrote₁, hcap₁⟩ := write_grown h heap hne (addCapacity_room h heap hsmall)
  rw [writeString_eq, writeKind_encoded host hb, hw₁, Res.bind_ok] at hw
  have hwrote := write_ok hwrote₁.linked hw
  have hposition := hwrote.position
  have hposition₁ := hwrote₁.position
  have hsize := hwrote.size
  have hcontent : ba'.content = splice ba.content ba.position (b ++ value.1) := by
    rw [hwrote.content, hwrote₁.content, hposition₁, splice_splice]
    rw [h.length_content]
    exact h.position_le
  obtain ⟨rewound, hset, hL, hc, hp, hs, -, he, hcap⟩ :=
    setPosition_spec hwrote.linked (v := ba.position) (by
      have := hwrote.linked.size_le
      omega)
  have hsame : rewound.content = ba'.content := by
    rw [← hc, List.take_of_length_le]
    rw [hL.length_content, hs]
    omega
  have hunread : rewound.unread = b ++ (value.1 ++
      ba.content.drop (ba.position + (b ++ value.1).length)) := by
    rw [unread, hsame, hp, hcontent, drop_splice_self, List.append_assoc]
    rw [h.length_content]
    exact h.position_le
  have hendian : rewound.endian = ba.endian := he.trans (hwrote.endian.trans hwrote₁.endian)
  obtain ⟨ba₂, hr, hcons⟩ := readKind_encoded host
    ((encoded_congr host hendian (BitVec.ofNat f.kind.bits value.1.length)).trans hb) hL hunread
  refine ⟨b, rewound, ba₂, _, hb, by omega, fun hempty => ?_, hset, ?_, hcons.linked, hcons.unread,
    by rw [hcons.position, hp], hcons.capacity.trans hcap⟩
  · rw [hempty] at hw
    obtain rfl : ba₁ = ba' := by simpa [write] using hw
    exact hcap₁
  · rw [readString_eq, hr, Res.bind_ok]

/-- **A string is read back as it was written** exactly when its length
fits the prefix and `read` does not find `m_cur` null. -/
theorem string_round_trip {ba ba' : ByteArray} (h : Linked ba) (host : Endian)
    (heap : Nat → Nat → UInt8) (f : StringKind) (value : StdString)
    (hF32 : f = .F32 → value.1.length < 2 ^ 32)
    (hw : ba.writeString host heap f value = (.ok (), ba')) :
    (∃ rewound after, ba'.setPosition ba.position = (.ok (), rewound) ∧
        rewound.readString host f = (.ok value.1, after) ∧ after.position = ba'.position) ↔
      ba.Restorable f value := by
  obtain ⟨b, rewound, ba₂, rest, hb, hpos, hcap, hset, hread, hL, hunread, hpos₂, hcap₂⟩ :=
    readString_prefix host h hw
  have hlength := toNat_length hF32
  -- where the cursor of an empty string is after the prefix
  have hfull (hempty : value.1 = []) : ba₂.position = ba₂.capacity ↔
      ba.baseSize ∣ ba.position + f.width ∧ ba.capacity ≤ ba.position + f.width := by
    rw [hempty, List.length_nil] at hb
    have hwidth := length_prefix host hb
    have hwidth_pos : 0 < f.width := by cases f <;> decide
    have hwidth_lt : f.width < 2 ^ 53 := by cases f <;> decide
    rw [hpos₂, hcap₂, hcap hempty, hwidth, ← addCapacity_full h heap hwidth_pos hwidth_lt]
    exact eq_comm
  constructor
  · rintro ⟨rewound', ba'', hset', hread', -⟩
    obtain rfl := (Prod.mk.inj (hset.symm.trans hset')).2
    rw [hread] at hread'
    have hlen := length_of_read hL hread'
    refine ⟨hlength.mp hlen.symm, fun ⟨hempty, hat⟩ => ?_⟩
    have hzero := read_zero hL
    rw [if_pos ((hfull hempty).mpr hat)] at hzero
    rw [← hlen, hempty, List.length_nil, hzero] at hread'
    cases (Prod.mk.inj hread').1
  · rintro ⟨hfits, hcur⟩
    rw [hlength.mpr hfits] at hread
    by_cases hempty : value.1 = []
    · have hzero := read_zero hL
      rw [if_neg fun hat => hcur ⟨hempty, (hfull hempty).mp hat⟩] at hzero
      refine ⟨rewound, ba₂, hset, ?_, ?_⟩
      · rw [hread, hempty, List.length_nil, hzero]
      · rw [hpos₂, hpos, hempty, List.length_nil, Nat.add_zero]
    · obtain ⟨ba'', hr, hcons⟩ := read_prefix hL hempty hunread
      exact ⟨rewound, ba'', hset, hread.trans hr, by rw [hcons.position, hpos₂, hpos]⟩

/-- Prefix and string fill the block. -/
theorem string_round_trip_two : ∃ written rewound after,
    (new 4 fun _ _ => 0).writeString .little (fun _ _ => 0) .F16 ⟨[97, 98], by decide⟩ =
        (.ok (), written) ∧
      written.setPosition 0 = (.ok (), rewound) ∧
      rewound.readString .little .F16 = (.ok [97, 98], after) ∧
      after.position = written.position := by
  have hlinked : Linked (new 4 fun _ _ => 0) := new_linked (by decide) _
  have hfits : (new 4 fun _ _ => 0).Restorable .F16 ⟨[97, 98], by decide⟩ :=
    ⟨fun _ => show 2 < 2 ^ 16 by decide, fun h => absurd h.1 (List.cons_ne_nil _ _)⟩
  obtain ⟨rewound, after, hset, hread, hpos⟩ := (string_round_trip hlinked .little
    (fun _ _ => 0) .F16 ⟨[97, 98], by decide⟩ (fun h => nomatch h) rfl).mpr hfits
  exact ⟨_, rewound, after, rfl, hset, hread, hpos⟩

/-- The prefix of an empty string fills the only block. -/
theorem empty_string_not_read : ∃ written rewound,
    (new 2 fun _ _ => 0).writeString .little (fun _ _ => 0) .F16 ⟨[], by decide⟩ =
        (.ok (), written) ∧
      written.setPosition 0 = (.ok (), rewound) ∧
      (rewound.readString .little .F16).1 = .error .nullDeref :=
  ⟨_, _, rfl, rfl, by decide⟩

end

end ByteArray

end Sylar
