import Sylar.Address

/-!
# The addresses of a prefix

A prefix of `n` bits is told by the bits of an address, counted in the
order of the network. `subnetMask` has the first `n` set and
`broadcastAddress` sets the others; both fail at the lengths where
`CreateMask` shifts by the width of `int` or `s6_addr` ends
(`prefixed_iff`). `networdAddress` keeps with the mask of the host what
it is to clear, so that it is right only for addresses that have nothing
there (`networks_iff`).
-/

namespace Sylar

/-! ## Bits in the order of the network -/

/-- Byte `i` of an address. -/
def byteAt (a : Vector UInt8 16) (i : Nat) : UInt8 := (a[i]?).getD 0

namespace IPAddress

def width : IPAddress → Nat
  | .ipv4 _ => 32
  | .ipv6 _ => 128

/-- Bit `i` of the address, the first one being the highest. -/
def bit (host : Endian) : IPAddress → Nat → Bool
  | .ipv4 a, i => (byteswapOnLittleEndian host (n := 4) a.addr.addr).getMsbD i
  | .ipv6 a, i => (byteAt a.addr.addr (i / 8)).toBitVec.getMsbD (i % 8)

/-- `b` is `a` with other bits: `f i` is bit `i`. -/
structure SameBut (host : Endian) (a b : IPAddress) (f : Nat → Bool) : Prop where
  width : b.width = a.width
  bit : ∀ i < a.width, b.bit host i = f i
  family : b.getFamily = a.getFamily
  port : b.getPort host = a.getPort host

end IPAddress

/-! ## Masks -/

theorem createMask_eq {w bits : Nat} (hle : bits ≤ w) (hw : w ≤ 32) (hshift : w - bits < 32) :
    createMask w bits = .ok (lowMask w (w - bits)) := by
  have hn : sub64 w bits = w - bits := sub64_eq hle (by omega)
  have hmask : (1#32 <<< (w - bits) - 1#32).setWidth w = lowMask w (w - bits) := by
    apply BitVec.eq_of_getLsbD_eq
    intro i hi
    have hlow : (1#32 <<< (w - bits) - 1#32).getLsbD i = decide (i < w - bits) := by
      rw [← BitVec.twoPow_eq]
      exact getLsbD_lowMask (w := 32) (by omega)
    rw [BitVec.getLsbD_setWidth, hlow, getLsbD_lowMask (by omega), decide_eq_true hi,
      Bool.true_and]
  rw [createMask, hn, if_neg (by omega), hmask]

/-- The shift is too wide at 0 for an IPv4 mask, and beyond its width. -/
theorem createMask_shift {bits : Nat} (h : bits = 0 ∨ 32 < bits) (hlt : bits < 2 ^ 32) :
    createMask 32 bits = .error .shiftCount := by
  have hn : 32 ≤ sub64 32 bits := by
    obtain rfl | h := h
    · decide
    · unfold sub64
      omega
  rw [createMask, if_pos hn]

namespace IPv4Address

variable (host : Endian) (a : IPv4Address) {prefixLen : UInt32}

theorem not_gt_width (hle : prefixLen.toNat ≤ 32) : ¬prefixLen > 32 := by
  rw [GT.gt, UInt32.lt_iff_toNat_lt]
  exact Nat.not_lt.mpr hle

theorem broadcastAddress_eq (hpos : 1 ≤ prefixLen.toNat) (hle : prefixLen.toNat ≤ 32) :
    a.broadcastAddress host prefixLen = .ok (some ⟨{ a.addr with
      addr := a.addr.addr |||
        byteswapOnLittleEndian host (n := 4) (lowMask 32 (32 - prefixLen.toNat)) }⟩) := by
  rw [broadcastAddress, if_neg (not_gt_width hle), createMask_eq hle (Nat.le_refl _) (by omega)]
  rfl

theorem networdAddress_eq (hpos : 1 ≤ prefixLen.toNat) (hle : prefixLen.toNat ≤ 32) :
    a.networdAddress host prefixLen = .ok (some ⟨{ a.addr with
      addr := a.addr.addr &&&
        byteswapOnLittleEndian host (n := 4) (lowMask 32 (32 - prefixLen.toNat)) }⟩) := by
  rw [networdAddress, if_neg (not_gt_width hle), createMask_eq hle (Nat.le_refl _) (by omega)]
  rfl

theorem subnetMask_eq (hpos : 1 ≤ prefixLen.toNat) (hle : prefixLen.toNat ≤ 32) :
    a.subnetMask host prefixLen = .ok (some ⟨{
      family := afInet, port := 0
      addr := ~~~byteswapOnLittleEndian host (n := 4) (lowMask 32 (32 - prefixLen.toNat)) }⟩) := by
  rw [subnetMask, createMask_eq hle (Nat.le_refl _) (by omega)]
  rfl

/-- There is no other mask. -/
theorem subnetMask_shift (h : prefixLen.toNat = 0 ∨ 32 < prefixLen.toNat) :
    a.subnetMask host prefixLen = .error .shiftCount := by
  rw [subnetMask, createMask_shift h prefixLen.toNat_lt]
  rfl

end IPv4Address

/-! ## Arrays of sixteen bytes -/

theorem byteAt_set {a : Vector UInt8 16} {i : Nat} {v : UInt8} (hi : i < 16) (j : Nat) :
    byteAt (a.set i v hi) j = if j = i then v else byteAt a j := by
  rw [byteAt, byteAt, Vector.getElem?_set]
  by_cases hj : j = i
  · rw [if_pos hj.symm, if_pos hj]
    rfl
  · rw [if_neg (Ne.symm hj), if_neg hj]

theorem storeAt_ok {a : Vector UInt8 16} {i : Nat} {v : UInt8} (hi : i < 16) :
    storeAt a i v = .ok (a.set i v hi) := dif_pos hi

theorem loadAt_ok {a : Vector UInt8 16} {i : Nat} (hi : i < 16) :
    loadAt a i = .ok (byteAt a i) := by
  rw [loadAt, dif_pos hi, byteAt, Vector.getElem?_eq_getElem hi]
  rfl

theorem storeRange_spec (v : UInt8) : ∀ {n i : Nat} (a : Vector UInt8 16), i + n ≤ 16 →
    ∃ b, storeRange v n i a = .ok b ∧
      ∀ j, byteAt b j = if i ≤ j ∧ j < i + n then v else byteAt a j
  | 0, i, a, _ => ⟨a, rfl, fun j => by rw [if_neg (by omega)]⟩
  | n + 1, i, a, h => by
      have hi : i < 16 := by omega
      obtain ⟨b, hb, hbyte⟩ := storeRange_spec v (n := n) (i := i + 1) (a.set i v hi) (by omega)
      refine ⟨b, ?_, fun j => ?_⟩
      · rw [storeRange, storeAt_ok hi]
        exact hb
      · rw [hbyte, byteAt_set]
        by_cases hrest : i + 1 ≤ j ∧ j < i + 1 + n
        · rw [if_pos hrest, if_pos (by omega)]
        · rw [if_neg hrest]
          by_cases hj : j = i
          · rw [if_pos hj, if_pos (by omega)]
          · rw [if_neg hj, if_neg (by omega)]

theorem byteAt_ext {a b : Vector UInt8 16} (h : ∀ j < 16, byteAt a j = byteAt b j) : a = b := by
  refine Vector.ext fun j hj => ?_
  have hbyte := h j hj
  rwa [byteAt, byteAt, Vector.getElem?_eq_getElem hj, Vector.getElem?_eq_getElem hj] at hbyte

/-- One byte, and all behind it. -/
theorem storeTail_spec (a : Vector UInt8 16) {i : Nat} (hi : i < 16) (v fill : UInt8) :
    ∃ b, storeAt a i v = .ok (a.set i v hi) ∧
      storeRange fill (16 - (i + 1)) (i + 1) (a.set i v hi) = .ok b ∧
      ∀ j < 16, byteAt b j = if j < i then byteAt a j else if j = i then v else fill := by
  obtain ⟨b, hrange, hbyte⟩ := storeRange_spec fill (n := 16 - (i + 1)) (i := i + 1)
    (a.set i v hi) (by omega)
  refine ⟨b, storeAt_ok hi, hrange, fun j hj => ?_⟩
  rw [hbyte, byteAt_set]
  rcases Nat.lt_trichotomy j i with hlt | rfl | hgt
  · rw [if_neg (by omega), if_neg (by omega), if_pos hlt]
  · rw [if_neg (by omega), if_pos rfl, if_neg (by omega), if_pos rfl]
  · rw [if_pos (by omega), if_neg (by omega), if_neg (by omega)]

namespace IPv6Address

variable (a : IPv6Address) {prefixLen : UInt32}

/-- The mask of the byte in which the prefix ends. -/
theorem createMask_byte (n : Nat) : createMask 8 (n % 8) = .ok (lowMask 8 (8 - n % 8)) :=
  createMask_eq (Nat.le_of_lt (Nat.mod_lt _ (by decide))) (by decide) (by omega)

theorem broadcastAddress_spec (h : prefixLen.toNat ≤ 127) :
    ∃ s6, a.broadcastAddress prefixLen = .ok (some ⟨{ a.addr with addr := s6 }⟩) ∧
      ∀ j < 16, byteAt s6 j =
        if j < prefixLen.toNat / 8 then byteAt a.addr.addr j
        else if j = prefixLen.toNat / 8 then
          byteAt a.addr.addr (prefixLen.toNat / 8) |||
            UInt8.ofBitVec (lowMask 8 (8 - prefixLen.toNat % 8))
        else 0xff := by
  have hi : prefixLen.toNat / 8 < 16 := by omega
  obtain ⟨s6, hstore, hrange, hbyte⟩ := storeTail_spec a.addr.addr hi
    (byteAt a.addr.addr (prefixLen.toNat / 8) |||
      UInt8.ofBitVec (lowMask 8 (8 - prefixLen.toNat % 8))) 0xff
  refine ⟨s6, ?_, hbyte⟩
  simp only [broadcastAddress, createMask_byte, loadAt_ok hi]
  show (storeAt _ _ _ >>= _) = _
  rw [hstore]
  show (storeRange _ _ _ _ >>= _) = _
  rw [hrange]
  rfl

theorem networdAddress_spec (h : prefixLen.toNat ≤ 127) :
    ∃ s6, a.networdAddress prefixLen = .ok (some ⟨{ a.addr with addr := s6 }⟩) ∧
      ∀ j < 16, byteAt s6 j =
        if j < prefixLen.toNat / 8 then byteAt a.addr.addr j
        else if j = prefixLen.toNat / 8 then
          byteAt a.addr.addr (prefixLen.toNat / 8) &&&
            UInt8.ofBitVec (lowMask 8 (8 - prefixLen.toNat % 8))
        else 0x00 := by
  have hi : prefixLen.toNat / 8 < 16 := by omega
  obtain ⟨s6, hstore, hrange, hbyte⟩ := storeTail_spec a.addr.addr hi
    (byteAt a.addr.addr (prefixLen.toNat / 8) &&&
      UInt8.ofBitVec (lowMask 8 (8 - prefixLen.toNat % 8))) 0x00
  refine ⟨s6, ?_, hbyte⟩
  simp only [networdAddress, createMask_byte, loadAt_ok hi]
  show (storeAt _ _ _ >>= _) = _
  rw [hstore]
  show (storeRange _ _ _ _ >>= _) = _
  rw [hrange]
  rfl

theorem byteAt_zero (j : Nat) : byteAt zero.addr.addr j = 0 := by
  show ((Vector.replicate 16 (0 : UInt8))[j]?).getD 0 = 0
  rw [Vector.getElem?_replicate]
  split <;> rfl

theorem subnetMask_spec (h : prefixLen.toNat ≤ 127) :
    ∃ s6, a.subnetMask prefixLen = .ok (some ⟨{ zero.addr with addr := s6 }⟩) ∧
      ∀ j < 16, byteAt s6 j =
        if j < prefixLen.toNat / 8 then 0xff
        else if j = prefixLen.toNat / 8 then
          ~~~UInt8.ofBitVec (lowMask 8 (8 - prefixLen.toNat % 8))
        else 0x00 := by
  have hi : prefixLen.toNat / 8 < 16 := by omega
  obtain ⟨s6, hrange, hbyte⟩ := storeRange_spec 0xff (n := prefixLen.toNat / 8) (i := 0)
    (zero.addr.addr.set (prefixLen.toNat / 8)
      (~~~UInt8.ofBitVec (lowMask 8 (8 - prefixLen.toNat % 8))) hi) (by omega)
  refine ⟨s6, ?_, fun j hj => ?_⟩
  · simp only [subnetMask, createMask_byte]
    show (storeAt _ _ _ >>= _) = _
    rw [storeAt_ok hi]
    show (storeRange _ _ _ _ >>= _) = _
    rw [hrange]
    rfl
  · rw [hbyte, byteAt_set, byteAt_zero]
    by_cases hlt : j < prefixLen.toNat / 8
    · rw [if_pos (by omega), if_pos hlt]
    · rw [if_neg (by omega), if_neg hlt]

/-- There is no byte 16. -/
theorem badIndex (h : 128 ≤ prefixLen.toNat) :
    a.broadcastAddress prefixLen = .error .badIndex ∧
      a.subnetMask prefixLen = .error .badIndex := by
  have hi : ¬prefixLen.toNat / 8 < 16 := by omega
  constructor
  · simp only [broadcastAddress, createMask_byte, loadAt, dif_neg hi]
    rfl
  · simp only [subnetMask, createMask_byte, storeAt, dif_neg hi]
    rfl

end IPv6Address

/-! ## Bits of the results -/

theorem getMsbD_byte {n i : Nat} :
    (lowMask 8 (8 - n % 8)).getMsbD (i % 8) = decide (n % 8 ≤ i % 8) := by
  rw [getMsbD_lowMask (Nat.sub_le ..) (Nat.mod_lt _ (by decide))]
  exact decide_eq_decide.mpr (by omega)

namespace IPAddress

/-- The prefix lengths there is a mask for. -/
def HasMask : IPAddress → Nat → Prop
  | .ipv4 _, n => 1 ≤ n ∧ n ≤ 32
  | .ipv6 _, n => n ≤ 127

/-- What `networdAddress` leaves of bit `i`. -/
def kept (host : Endian) (a : IPAddress) (n i : Nat) : Bool :=
  match a with
  | .ipv4 _ => a.bit host i && decide (n ≤ i)
  | .ipv6 _ =>
      if i / 8 < n / 8 then a.bit host i
      else if i / 8 = n / 8 then a.bit host i && decide (n ≤ i)
      else false

variable (host : Endian) {a b : IPAddress} {prefixLen : UInt32}

theorem subnetMask_bits (h : a.HasMask prefixLen.toNat) :
    ∃ m, a.subnetMask host prefixLen = .ok (some m) ∧ m.width = a.width ∧
      ∀ i < a.width, m.bit host i = decide (i < prefixLen.toNat) := by
  cases a with
  | ipv4 a =>
      obtain ⟨hpos, hle⟩ := h
      refine ⟨_, congrArg (Except.map (Option.map ipv4)) (a.subnetMask_eq host hpos hle), rfl,
        fun i hi => ?_⟩
      have hi' : i < 32 := hi
      have hlow := getMsbD_lowMask (w := 32) (n := 32 - prefixLen.toNat) (by omega) hi'
      rw [bit, byteswapOnLittleEndian_not, byteswapOnLittleEndian_self]
      show (~~~lowMask 32 (32 - prefixLen.toNat)).getMsbD i = _
      rw [BitVec.getMsbD_not, hlow, decide_eq_true hi', Bool.true_and, ← decide_not]
      exact decide_eq_decide.mpr (by omega)
  | ipv6 a =>
      obtain ⟨s6, heq, hbyte⟩ := a.subnetMask_spec h
      refine ⟨_, congrArg (Except.map (Option.map ipv6)) heq, rfl, fun i hi => ?_⟩
      have hi' : i < 128 := hi
      rw [bit]
      simp only [hbyte (i / 8) (by omega)]
      rcases Nat.lt_trichotomy (i / 8) (prefixLen.toNat / 8) with hlt | heq | hgt
      · rw [if_pos hlt, decide_eq_true (by omega)]
        show (BitVec.allOnes 8).getMsbD (i % 8) = true
        rw [BitVec.getMsbD_allOnes, decide_eq_true (by omega)]
      · rw [if_neg (by omega), if_pos heq]
        show (~~~lowMask 8 (8 - prefixLen.toNat % 8)).getMsbD (i % 8) = _
        rw [BitVec.getMsbD_not, getMsbD_byte, decide_eq_true (by omega), Bool.true_and,
          ← decide_not]
        exact decide_eq_decide.mpr (by omega)
      · rw [if_neg (by omega), if_neg (by omega), decide_eq_false (by omega)]
        exact BitVec.getMsbD_zero

theorem broadcastAddress_bits (h : a.HasMask prefixLen.toNat) :
    ∃ b, a.broadcastAddress host prefixLen = .ok (some b) ∧
      SameBut host a b fun i => a.bit host i || decide (prefixLen.toNat ≤ i) := by
  cases a with
  | ipv4 a =>
      obtain ⟨hpos, hle⟩ := h
      refine ⟨_, congrArg (Except.map (Option.map ipv4)) (a.broadcastAddress_eq host hpos hle),
        ⟨rfl, fun i hi => ?_, rfl, rfl⟩⟩
      have hi' : i < 32 := hi
      have hlow := getMsbD_lowMask (w := 32) (n := 32 - prefixLen.toNat) (by omega) hi'
      rw [bit, byteswapOnLittleEndian_or, byteswapOnLittleEndian_self, BitVec.getMsbD_or]
      show (_ || (lowMask 32 (32 - prefixLen.toNat)).getMsbD i) = _
      rw [hlow, show 32 - (32 - prefixLen.toNat) = prefixLen.toNat by omega]
      rfl
  | ipv6 a =>
      obtain ⟨s6, heq, hbyte⟩ := a.broadcastAddress_spec h
      refine ⟨_, congrArg (Except.map (Option.map ipv6)) heq, ⟨rfl, fun i hi => ?_, rfl, rfl⟩⟩
      have hi' : i < 128 := hi
      rw [bit]
      simp only [hbyte (i / 8) (by omega)]
      rcases Nat.lt_trichotomy (i / 8) (prefixLen.toNat / 8) with hlt | heq | hgt
      · rw [if_pos hlt, decide_eq_false (by omega), Bool.or_false]
        rfl
      · rw [if_neg (by omega), if_pos heq, ← heq, UInt8.toBitVec_or, BitVec.getMsbD_or]
        show (_ || (lowMask 8 (8 - prefixLen.toNat % 8)).getMsbD (i % 8)) = _
        rw [getMsbD_byte]
        exact congrArg (_ || ·) (decide_eq_decide.mpr (by omega))
      · rw [if_neg (by omega), if_neg (by omega), decide_eq_true (by omega), Bool.or_true]
        show (BitVec.allOnes 8).getMsbD (i % 8) = true
        rw [BitVec.getMsbD_allOnes, decide_eq_true (by omega)]

theorem networdAddress_bits (h : a.HasMask prefixLen.toNat) :
    ∃ b, a.networdAddress host prefixLen = .ok (some b) ∧
      SameBut host a b (a.kept host prefixLen.toNat) := by
  cases a with
  | ipv4 a =>
      obtain ⟨hpos, hle⟩ := h
      refine ⟨_, congrArg (Except.map (Option.map ipv4)) (a.networdAddress_eq host hpos hle),
        ⟨rfl, fun i hi => ?_, rfl, rfl⟩⟩
      have hi' : i < 32 := hi
      have hlow := getMsbD_lowMask (w := 32) (n := 32 - prefixLen.toNat) (by omega) hi'
      rw [bit, byteswapOnLittleEndian_and, byteswapOnLittleEndian_self, BitVec.getMsbD_and]
      show (_ && (lowMask 32 (32 - prefixLen.toNat)).getMsbD i) = _
      rw [hlow, show 32 - (32 - prefixLen.toNat) = prefixLen.toNat by omega]
      rfl
  | ipv6 a =>
      obtain ⟨s6, heq, hbyte⟩ := a.networdAddress_spec h
      refine ⟨_, congrArg (Except.map (Option.map ipv6)) heq, ⟨rfl, fun i hi => ?_, rfl, rfl⟩⟩
      have hi' : i < 128 := hi
      rw [bit, kept]
      simp only [hbyte (i / 8) (by omega)]
      rcases Nat.lt_trichotomy (i / 8) (prefixLen.toNat / 8) with hlt | heq | hgt
      · rw [if_pos hlt, if_pos hlt]
        rfl
      · rw [if_neg (by omega), if_pos heq, if_neg (by omega), if_pos heq, ← heq,
          UInt8.toBitVec_and, BitVec.getMsbD_and]
        show (_ && (lowMask 8 (8 - prefixLen.toNat % 8)).getMsbD (i % 8)) = _
        rw [getMsbD_byte]
        exact congrArg (_ && ·) (decide_eq_decide.mpr (by omega))
      · rw [if_neg (by omega), if_neg (by omega), if_neg (by omega), if_neg (by omega)]
        exact BitVec.getMsbD_zero

/-! ## Which prefixes have their addresses -/

/-- The mask and the broadcast address of a prefix are what they are to
be, and there are none of a longer one. -/
structure Prefixed (host : Endian) (a : IPAddress) (prefixLen : UInt32) : Prop where
  mask : prefixLen.toNat ≤ a.width →
    ∃ m, a.subnetMask host prefixLen = .ok (some m) ∧ m.width = a.width ∧
      ∀ i < a.width, m.bit host i = decide (i < prefixLen.toNat)
  broadcast : prefixLen.toNat ≤ a.width →
    ∃ b, a.broadcastAddress host prefixLen = .ok (some b) ∧
      SameBut host a b fun i => a.bit host i || decide (prefixLen.toNat ≤ i)
  longer : a.width < prefixLen.toNat →
    a.subnetMask host prefixLen = .ok none ∧ a.broadcastAddress host prefixLen = .ok none

/-- Elsewhere the mask is not even computed. -/
theorem subnetMask_fault (h : ¬a.HasMask prefixLen.toNat) :
    ∃ e, a.subnetMask host prefixLen = .error e := by
  cases a with
  | ipv4 a =>
      have hlen : prefixLen.toNat = 0 ∨ 32 < prefixLen.toNat := by
        have hnot : ¬(1 ≤ prefixLen.toNat ∧ prefixLen.toNat ≤ 32) := h
        omega
      exact ⟨_, by rw [subnetMask, a.subnetMask_shift host hlen]; rfl⟩
  | ipv6 a =>
      exact ⟨_, by rw [subnetMask, (a.badIndex (Nat.lt_of_not_le h)).2]; rfl⟩

/-- **The prefixes with a mask and a broadcast address**: 1 to 32 bits of
an IPv4 address and up to 127 of an IPv6 address. -/
theorem prefixed_iff (host : Endian) (a : IPAddress) (prefixLen : UInt32) :
    Prefixed host a prefixLen ↔ a.HasMask prefixLen.toNat := by
  constructor
  · intro h
    by_contra hnot
    obtain ⟨e, herror⟩ := subnetMask_fault host hnot
    rcases Nat.lt_or_ge a.width prefixLen.toNat with hlt | hle
    · rw [(h.longer hlt).1] at herror
      cases herror
    · obtain ⟨m, hmask, -⟩ := h.mask hle
      rw [hmask] at herror
      cases herror
  · intro h
    refine ⟨fun _ => subnetMask_bits host h, fun _ => broadcastAddress_bits host h, fun hlt => ?_⟩
    cases a with
    | ipv4 a => exact absurd h.2 (Nat.not_le.mpr hlt)
    | ipv6 a => exact absurd (show prefixLen.toNat ≤ 127 from h) (by rw [width] at hlt; omega)

/-- No bit of an IPv4 address, and all of an IPv6 address. -/
theorem not_prefixed : ¬Prefixed .little (.ipv4 (.new .little 0x0a000001 80)) 0 ∧
    ¬Prefixed .little (.ipv6 .zero) 128 := by
  constructor
  · intro h
    obtain ⟨m, hmask, -⟩ := h.mask (by decide)
    cases hmask
  · intro h
    obtain ⟨m, hmask, -⟩ := h.mask (by decide)
    cases hmask

/-! ## The network address -/

/-- The network address is what the mask leaves of the address, and stays
so. -/
structure Networks (host : Endian) (a : IPAddress) (prefixLen : UInt32) : Prop where
  masked : ∃ b m, a.networdAddress host prefixLen = .ok (some b) ∧
    a.subnetMask host prefixLen = .ok (some m) ∧
    (SameBut host a b fun i => a.bit host i && m.bit host i) ∧
    ∀ i < a.width, m.bit host i = decide (i < prefixLen.toNat)
  idempotent : ∀ b, a.networdAddress host prefixLen = .ok (some b) →
    b.networdAddress host prefixLen = .ok (some b)

/-- Addresses with the same prefix have the same network address. -/
def Agree (host : Endian) (a b : IPAddress) (prefixLen : UInt32) : Prop :=
  (∀ i < prefixLen.toNat, a.bit host i = b.bit host i) →
    ∃ a' b', a.networdAddress host prefixLen = .ok (some a') ∧
      b.networdAddress host prefixLen = .ok (some b') ∧
      ∀ i < a.width, a'.bit host i = b'.bit host i

/-- There is nothing that the wrong mask would keep or clear: the whole of
an IPv4 address, and the byte of an IPv6 address the prefix ends in. -/
def Vanishes (host : Endian) (a : IPAddress) (n : Nat) : Prop :=
  match a with
  | .ipv4 _ => ∀ i < 32, a.bit host i = false
  | .ipv6 _ => ∀ i, i / 8 = n / 8 → a.bit host i = false

/-- The bits kept are those of the prefix. -/
theorem kept_iff {n : Nat} (h : a.HasMask n) :
    (∀ i < a.width, a.kept host n i = (a.bit host i && decide (i < n))) ↔ Vanishes host a n := by
  cases a with
  | ipv4 a =>
      refine forall₂_congr fun i _ => ?_
      rw [kept]
      rcases Nat.lt_or_ge i n with hlt | hge
      · rw [decide_eq_true hlt, decide_eq_false (Nat.not_le.mpr hlt), Bool.and_false, Bool.and_true]
        exact eq_comm
      · rw [decide_eq_false (Nat.not_lt.mpr hge), decide_eq_true hge, Bool.and_false, Bool.and_true]
  | ipv6 a =>
      have hn : n ≤ 127 := h
      constructor
      · intro hkept i hi
        have hbit := hkept i (show i < 128 by omega)
        rw [kept] at hbit
        rw [if_neg (by omega), if_pos hi] at hbit
        rcases Nat.lt_or_ge i n with hlt | hge
        · rw [decide_eq_true hlt, decide_eq_false (Nat.not_le.mpr hlt), Bool.and_false,
            Bool.and_true] at hbit
          exact hbit.symm
        · rwa [decide_eq_false (Nat.not_lt.mpr hge), decide_eq_true hge, Bool.and_false,
            Bool.and_true] at hbit
      · intro hzero i _
        rw [kept]
        rcases Nat.lt_trichotomy (i / 8) (n / 8) with hlt | heq | hgt
        · rw [if_pos hlt, decide_eq_true (by omega), Bool.and_true]
        · rw [if_neg (by omega), if_pos heq, hzero i heq, Bool.false_and, Bool.false_and]
        · rw [if_neg (by omega), if_neg (by omega), decide_eq_false (by omega), Bool.and_false]

/-- Masking twice is masking once. -/
theorem networdAddress_idempotent (h : a.HasMask prefixLen.toNat)
    (hb : a.networdAddress host prefixLen = .ok (some b)) :
    b.networdAddress host prefixLen = .ok (some b) := by
  cases a with
  | ipv4 a =>
      obtain ⟨hpos, hle⟩ := h
      have heq := congrArg (Except.map (Option.map ipv4)) (a.networdAddress_eq host hpos hle)
      obtain rfl := Option.some.inj (Except.ok.inj (heq.symm.trans hb))
      refine (congrArg (Except.map (Option.map ipv4))
        (IPv4Address.networdAddress_eq host _ hpos hle)).trans ?_
      simp only [BitVec.and_assoc, BitVec.and_self]
      rfl
  | ipv6 a =>
      obtain ⟨s6, heq, hbyte⟩ := a.networdAddress_spec h
      have hs6 := congrArg (Except.map (Option.map ipv6)) heq
      obtain rfl := Option.some.inj (Except.ok.inj (hs6.symm.trans hb))
      obtain ⟨t6, heq', hbyte'⟩ :=
        IPv6Address.networdAddress_spec ⟨{ a.addr with addr := s6 }⟩ h
      have hsame : t6 = s6 := by
        refine byteAt_ext fun j hj => ?_
        rw [hbyte' j hj]
        simp only [hbyte j hj, hbyte (prefixLen.toNat / 8) (show _ < 16 by
          have hn : prefixLen.toNat ≤ 127 := h
          omega), Nat.lt_irrefl, if_false, if_true]
        split
        · rfl
        · split
          · rw [UInt8.and_assoc, UInt8.and_self]
          · rfl
      rw [← hsame] at heq' ⊢
      exact congrArg (Except.map (Option.map ipv6)) heq'

theorem networks_iff_vanishes (h : a.HasMask prefixLen.toNat) :
    Networks host a prefixLen ↔ Vanishes host a prefixLen.toNat := by
  obtain ⟨b, hb, hkept⟩ := networdAddress_bits host h
  obtain ⟨m, hm, -, hmask⟩ := subnetMask_bits host h
  rw [← kept_iff host h]
  constructor
  · intro hnet i hi
    obtain ⟨b', m', hb', hm', hsame, -⟩ := hnet.masked
    obtain rfl := Option.some.inj (Except.ok.inj (hb.symm.trans hb'))
    obtain rfl := Option.some.inj (Except.ok.inj (hm.symm.trans hm'))
    rw [← hkept.bit i hi, hsame.bit i hi, hmask i hi]
  · intro hbits
    refine ⟨⟨b, m, hb, hm, ⟨hkept.width, fun i hi => ?_, hkept.family, hkept.port⟩, hmask⟩,
      fun b' hb' => networdAddress_idempotent host h hb'⟩
    rw [hkept.bit i hi, hbits i hi, hmask i hi]

/-- **Which network addresses are right**: of two addresses of a kind,
those that vanish where the prefix ends. -/
theorem networks_iff (host : Endian) (a b : IPAddress) (prefixLen : UInt32)
    (hkind : b.width = a.width) (ha : a.HasMask prefixLen.toNat) (hb : b.HasMask prefixLen.toNat) :
    (Networks host a prefixLen ∧ Networks host b prefixLen ∧ Agree host a b prefixLen) ↔
      Vanishes host a prefixLen.toNat ∧ Vanishes host b prefixLen.toNat := by
  rw [← networks_iff_vanishes host ha, ← networks_iff_vanishes host hb]
  constructor
  · exact fun h => ⟨h.1, h.2.1⟩
  · rintro ⟨hneta, hnetb⟩
    refine ⟨hneta, hnetb, fun hagree => ?_⟩
    obtain ⟨a', m, ha', -, hsame, hmask⟩ := hneta.masked
    obtain ⟨b', m', hb', -, hsame', hmask'⟩ := hnetb.masked
    refine ⟨a', b', ha', hb', fun i hi => ?_⟩
    rw [hsame.bit i hi, hsame'.bit i (hkind ▸ hi), hmask i hi, hmask' i (hkind ▸ hi)]
    rcases Nat.lt_or_ge i prefixLen.toNat with hlt | hge
    · rw [hagree i hlt]
    · rw [decide_eq_false (Nat.not_lt.mpr hge), Bool.and_false, Bool.and_false]

/-- `2001:db8::1` or `2001:db8::2`. -/
def documentation (last : UInt8) : IPAddress :=
  .ipv6 (.new .little #v[0x20, 0x01, 0x0d, 0xb8, 0, 0, 0, 0, 0, 0, 0, 0, 0, 0, 0, last] 80)

theorem documentation_vanishes (last : UInt8) : Vanishes .little (documentation last) 64 := by
  intro i hi
  show (byteAt _ (i / 8)).toBitVec.getMsbD (i % 8) = false
  rw [hi]
  exact BitVec.getMsbD_zero

/-- Half of an address, with nothing behind it. -/
theorem networks_iff_half : Networks .little (documentation 1) 64 ∧
    Networks .little (documentation 2) 64 ∧
    Agree .little (documentation 1) (documentation 2) 64 :=
  (networks_iff .little (documentation 1) (documentation 2) 64 rfl
    (show 64 ≤ 127 by decide) (show 64 ≤ 127 by decide)).mpr
    ⟨documentation_vanishes 1, documentation_vanishes 2⟩

/-- The network of 10.1.2.3/8 is 0.1.2.3. -/
theorem not_networks : ¬Networks .little (.ipv4 (.new .little 0x0a010203 80)) 8 := by
  have hmask : HasMask (.ipv4 (.new .little 0x0a010203 80)) (8 : UInt32).toNat :=
    show 1 ≤ 8 ∧ 8 ≤ 32 by decide
  rw [networks_iff_vanishes .little hmask]
  intro h
  exact absurd (h 4 (by decide)) (by decide)

end IPAddress

end Sylar
