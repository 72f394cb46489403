import Sylar.StreamTransfer

/-!
# Reading a ByteArray at a position

`read(buf, size, position)` and `getReadBuffers(buffers, len, position)`
leave the cursor where it is. They are to serve any position, but the
first begins its walk in the block of the cursor, and the second cuts
`len` down to what there is behind the cursor.

What a request for no bytes does depends on whether it is noticed
before the node of the cursor is looked at.

A run is any calls, as long as the memory of the array stays
addressable: `new` throws before it exceeds `2 ^ 63` bytes.
-/

namespace Sylar

namespace ByteArray

/-- `read(buf, size, position)`; the bytes are what it leaves in `buf`. -/
def readAt (ba : ByteArray) (size position : Nat) : Except Fault (List UInt8) :=
  if size > sub64 ba.size position then .error (.outOfRange "not enough len")
  else
    match ba.cur with
    | none => .error .nullDeref
    | some i =>
        (readFrom (ba.nodes.drop i) (position % ba.baseSize) size).map Prod.fst

/-- `toString()`. -/
def toString (ba : ByteArray) : Except Fault (List UInt8) :=
  if ba.getReadSize = 0 then .ok [] else ba.readAt ba.getReadSize ba.position

/-- `getReadBuffers(buffers, len, position)`: what it returns, and what it
appends. -/
def getReadBuffersAt (ba : ByteArray) (len position : Nat) : Except Fault (Nat × List Iovec) :=
  let len := if len > ba.getReadSize then ba.getReadSize else len
  if len = 0 then .ok (0, [])
  else do
    let count := position / ba.baseSize
    let iovs ← buffersFrom (ba.nodes.drop count) count (position % ba.baseSize) len
    return (len, iovs)

/-- The memory of an array is addressable. -/
def Addressable (ba : ByteArray) (op : Op) : Prop := (ba.call op).2.capacity < 2 ^ 63

instance (ba : ByteArray) (op : Op) : Decidable (ba.Addressable op) :=
  inferInstanceAs (Decidable (_ < _))

variable {ba ba' : ByteArray} {base n q len : Nat}

/-! ## Every run -/

/-- A `write` that fails has grown the chain. -/
theorem write_failed {heap : Nat → Nat → UInt8} {buf : List UInt8} {e : Fault}
    (hw : ba.write heap buf = (.error e, ba')) : ba' = ba.addCapacity heap buf.length := by
  rw [write] at hw
  split at hw
  · cases (Prod.mk.inj hw).1
  · dsimp only at hw
    split at hw
    · exact (Prod.mk.inj hw).2.symm
    · split at hw
      · exact (Prod.mk.inj hw).2.symm
      · cases (Prod.mk.inj hw).1

/-- A call keeps the chain linked, whatever its argument. -/
theorem call_linked (h : Linked ba) (op : Op) :
    Linked (ba.call op).2 ∧ (ba.call op).2.baseSize = ba.baseSize := by
  cases op with
  | write heap buf =>
      show Linked (ba.write heap buf).2 ∧ (ba.write heap buf).2.baseSize = _
      rcases hw : ba.write heap buf with ⟨e | u, ba'⟩
      · have hgrown := (addCapacity_grown h heap buf.length).1
        rw [write_failed hw]
        exact ⟨hgrown.linked, hgrown.baseSize⟩
      · have hwrote := write_ok h hw
        exact ⟨hwrote.linked, hwrote.baseSize⟩
  | read n =>
      rcases Nat.lt_or_ge ba.getReadSize n with hshort | hle
      · rw [call, read_short hshort]
        exact ⟨h, rfl⟩
      · rcases Nat.eq_zero_or_pos n with rfl | hpos
        · have hzero := read_zero h
          split at hzero
          · rw [call, hzero]
            exact ⟨h, rfl⟩
          · rw [call, hzero]
            exact ⟨h, rfl⟩
        · obtain ⟨ba', hr, hL, -, -, -, hbase, -⟩ := read_spec h hpos hle
          rw [call, hr]
          exact ⟨hL, hbase⟩
  | setPosition v =>
      rcases Nat.lt_or_ge ba.capacity v with hshort | hle
      · rw [call, setPosition_short hshort]
        exact ⟨h, rfl⟩
      · obtain ⟨ba', hset, hL, -, -, -, hbase, -⟩ := setPosition_spec h hle
        rw [call, hset]
        exact ⟨hL, hbase⟩
  | clear => exact ⟨clear_linked h, rfl⟩

/-- Every run keeps the chain linked. -/
theorem reachable_linked_any (hpos : 1 ≤ base) (h : (system base).Reachable ba) :
    Linked ba ∧ ba.baseSize = base := by
  refine h.invariant (P := fun ba => Linked ba ∧ ba.baseSize = base) ?_ ?_
  · rintro _ ⟨heap, rfl⟩
    exact ⟨new_linked hpos heap, rfl⟩
  · rintro ba op ba' ⟨hL, hb⟩ - hstep
    obtain rfl := Option.some.inj hstep
    obtain ⟨hL', hb'⟩ := call_linked hL op
    exact ⟨hL', hb'.trans hb⟩

theorem reachable_addressable (hpos : 1 ≤ base) (hlt : base < 2 ^ 63)
    (h : (system base).ReachableBy Addressable ba) :
    Linked ba ∧ ba.baseSize = base ∧ ba.capacity < 2 ^ 63 := by
  obtain ⟨hL, hb⟩ := reachable_linked_any hpos (h.mono fun _ _ _ => trivial)
  refine ⟨hL, hb, h.invariant (P := fun ba => ba.capacity < 2 ^ 63) ?_ ?_⟩
  · rintro _ ⟨heap, rfl⟩
    exact hlt
  · rintro ba op ba' - hop hstep
    obtain rfl := Option.some.inj hstep
    exact hop

/-! ## Reading at a position -/

/-- The memory from where `readAt` begins: the offset of `q` in its block,
but in the block of the cursor. -/
def besideCursor (ba : ByteArray) (q : Nat) : List UInt8 :=
  (blocks (ba.nodes.drop (ba.position / ba.baseSize))).drop (q % ba.baseSize)

theorem besideCursor_eq (h : Linked ba) (hlt : q < ba.capacity)
    (hblock : q / ba.baseSize = ba.position / ba.baseSize) :
    ba.besideCursor q = (blocks ba.nodes).drop q := by
  rw [h.drop_at hlt, besideCursor, hblock]

theorem readAt_end (h : Linked ba) (hend : ba.position = ba.capacity)
    (hle : n ≤ sub64 ba.size q) : ba.readAt n q = .error .nullDeref := by
  have hcur := h.cur_eq
  rw [if_pos hend] at hcur
  rw [readAt, if_neg (Nat.not_lt_of_le hle), hcur]

theorem readAt_zero (h : Linked ba) (hlt : ba.position < ba.capacity) :
    ba.readAt 0 q = .ok [] := by
  obtain ⟨hcur, hi, -⟩ := h.cursor_node hlt
  obtain ⟨m, rest, hdrop⟩ := List.exists_cons_of_ne_nil
    (show ba.nodes.drop (ba.position / ba.baseSize) ≠ [] from
      List.ne_nil_of_length_pos (by rw [List.length_drop]; omega))
  rw [readAt, if_neg (Nat.not_lt_zero _), hcur]
  simp only [hdrop, readFrom, if_true]
  rfl

/-- The loop of `read` only comes to its end inside the chain. -/
theorem readFrom_room {b : Nat} : ∀ {L : List Node} {npos size : Nat} {r : List UInt8 × Nat},
    (∀ m ∈ L, m.size = b) → npos < b → 0 < size → readFrom L npos size = .ok r →
    npos + size ≤ b * L.length
  | [], _, _, _, _, _, _, hr => nomatch hr
  | m :: rest, npos, size, r, hsize, hnpos, hpos, hr => by
      have hm : m.size = b := hsize m (List.mem_cons_self ..)
      rw [readFrom, if_neg (Nat.ne_of_gt hpos), hm] at hr
      rw [List.length_cons, Nat.mul_succ]
      split at hr
      · omega
      · obtain ⟨bytes, -, hr⟩ := bind_eq_ok.mp hr
        obtain ⟨r', hr', -⟩ := bind_eq_ok.mp hr
        have := readFrom_room (fun k hk => hsize k (List.mem_cons_of_mem _ hk)) (by omega)
          (by omega) hr'
        omega

theorem load_ne_outOfRange (m : Node) (off len : Nat) (what : String) :
    m.load off len ≠ .error (.outOfRange what) := by
  unfold Node.load
  split
  · exact fun h => nomatch h
  · exact fun h => nomatch h

/-- The loop of `read` throws nothing. -/
theorem readFrom_ne_outOfRange (what : String) : ∀ {L : List Node} {npos size : Nat},
    readFrom L npos size ≠ .error (.outOfRange what)
  | [], _, _, h => nomatch h
  | m :: rest, npos, size, h => by
      rw [readFrom] at h
      split at h
      · cases h
      · split at h
        · rcases bind_eq_error.mp h with hload | ⟨bytes, -, hret⟩
          · exact load_ne_outOfRange _ _ _ _ hload
          · cases hret
        · rcases bind_eq_error.mp h with hload | ⟨bytes, -, hmore⟩
          · exact load_ne_outOfRange _ _ _ _ hload
          · rcases bind_eq_error.mp hmore with hmore | ⟨r, -, hret⟩
            · exact readFrom_ne_outOfRange what hmore
            · cases hret

/-- What `readAt` reads, if it does not leave the chain. -/
theorem readAt_eq_ok (h : Linked ba) (hlt : ba.position < ba.capacity) (hn : 0 < n)
    (hle : n ≤ sub64 ba.size q) {bytes : List UInt8} :
    ba.readAt n q = .ok bytes ↔
      bytes = (ba.besideCursor q).take n ∧ ((ba.besideCursor q).take n).length = n := by
  obtain ⟨hcur, hi, -⟩ := h.cursor_node hlt
  have hoff : q % ba.baseSize < ba.baseSize := Nat.mod_lt _ h.base_pos
  have hsize : ∀ m ∈ ba.nodes.drop (ba.position / ba.baseSize), m.size = ba.baseSize :=
    fun m hm => h.node_size m (List.mem_of_mem_drop hm)
  have hlen := length_blocks hsize
  have hroom : ((ba.besideCursor q).take n).length = n ↔ q % ba.baseSize + n ≤
      ba.baseSize * (ba.nodes.drop (ba.position / ba.baseSize)).length := by
    rw [besideCursor, List.length_take, List.length_drop, hlen]
    omega
  have hread : ba.readAt n q = (readFrom (ba.nodes.drop (ba.position / ba.baseSize))
      (q % ba.baseSize) n).map Prod.fst := by
    rw [readAt, if_neg (Nat.not_lt_of_le hle), hcur]
  rw [hread, hroom]
  constructor
  · intro hok
    cases hloop : readFrom (ba.nodes.drop (ba.position / ba.baseSize)) (q % ba.baseSize) n with
    | error e =>
        rw [hloop] at hok
        cases hok
    | ok r =>
        have hin := readFrom_room hsize hoff hn hloop
        rw [readFrom_spec _ n hsize hoff hn hin] at hloop hok
        exact ⟨(Except.ok.inj hok).symm, hin⟩
  · rintro ⟨rfl, hin⟩
    rw [readFrom_spec _ n hsize hoff hn hin]
    rfl

/-- What the positional read is to do. -/
def ReadsAt (ba : ByteArray) (n q : Nat) : Prop :=
  ba.readAt n q = if ba.size < q + n then .error (.outOfRange "not enough len")
    else .ok ((ba.content.drop q).take n)

/-- The check finds that there are not enough bytes. -/
theorem readAt_short (hsize : ba.size < 2 ^ 64) (hn : n < 2 ^ 64) (hq : q < 2 ^ 64)
    (hshort : ba.size < q + n) : ba.ReadsAt n q ↔ q ≤ ba.size ∨ ba.size + 2 ^ 64 < q + n := by
  have hiff : n > sub64 ba.size q ↔ q ≤ ba.size ∨ ba.size + 2 ^ 64 < q + n := by
    unfold sub64
    omega
  rw [ReadsAt, if_pos hshort, ← hiff]
  constructor
  · intro hthrow
    by_contra hle
    rw [readAt, if_neg hle] at hthrow
    split at hthrow
    · cases hthrow
    · rename_i i hcur
      cases hloop : readFrom (ba.nodes.drop i) (q % ba.baseSize) n with
      | error e =>
          rw [hloop] at hthrow
          obtain rfl : e = _ := Except.error.inj hthrow
          exact absurd hloop (readFrom_ne_outOfRange _)
      | ok r =>
          rw [hloop] at hthrow
          cases hthrow
  · intro hgt
    exact if_pos hgt

/-- The check lets a read of bytes that are there pass. -/
theorem readAt_there (h : Linked ba) (hsize : ba.size < 2 ^ 64) (hthere : q + n ≤ ba.size) :
    ba.ReadsAt n q ↔ ba.position < ba.capacity ∧
      (n = 0 ∨ q / ba.baseSize = ba.position / ba.baseSize ∨
        (ba.besideCursor q).take n = (ba.content.drop q).take n) := by
  have hle : n ≤ sub64 ba.size q := by
    rw [sub64_eq (by omega) hsize]
    omega
  have hpc : ba.position ≤ ba.capacity := Nat.le_trans h.position_le h.size_le
  have hsc := h.size_le
  rw [ReadsAt, if_neg (Nat.not_lt_of_le hthere)]
  rcases Nat.eq_or_lt_of_le hpc with hend | hlt
  · rw [readAt_end h hend hle]
    constructor
    · intro hnull
      cases hnull
    · rintro ⟨hlt, -⟩
      omega
  · rcases Nat.eq_zero_or_pos n with rfl | hn
    · rw [readAt_zero h hlt, List.take_zero]
      exact ⟨fun _ => ⟨hlt, .inl rfl⟩, fun _ => rfl⟩
    · have hlength : ((ba.content.drop q).take n).length = n := by
        rw [List.length_take, List.length_drop, h.length_content]
        omega
      rw [readAt_eq_ok h hlt hn hle]
      constructor
      · rintro ⟨heq, -⟩
        exact ⟨hlt, .inr (.inr heq.symm)⟩
      · rintro ⟨-, hzero | hblock | hsame⟩
        · omega
        · have hslice : (ba.besideCursor q).take n = (ba.content.drop q).take n := by
            rw [besideCursor_eq h (by omega) hblock, content_slice hthere]
          exact ⟨hslice.symm, hslice ▸ hlength⟩
        · exact ⟨hsame.symm, hsame ▸ hlength⟩

/-- **When the positional read is one**: of bytes that are there, the
cursor is not past the last block and its block is that of `q`, or
happens to hold the same bytes; else `m_size - position` has not wrapped
around, or `size` is larger still. -/
theorem readAt_iff (hpos : 1 ≤ base) (hbase : base < 2 ^ 63)
    (h : (system base).ReachableBy Addressable ba) (hn : n < 2 ^ 64) (hq : q < 2 ^ 64) :
    ba.ReadsAt n q ↔
      if ba.size < q + n then q ≤ ba.size ∨ ba.size + 2 ^ 64 < q + n
      else ba.position < ba.capacity ∧
        (n = 0 ∨ q / ba.baseSize = ba.position / ba.baseSize ∨
          (ba.besideCursor q).take n = (ba.content.drop q).take n) := by
  obtain ⟨hL, -, hcap⟩ := reachable_addressable hpos hbase h
  have hsc := hL.size_le
  split
  · rename_i hshort
    exact readAt_short (by omega) hn hq hshort
  · rename_i hthere
    exact readAt_there hL (by omega) (Nat.le_of_not_lt hthere)

/-- What is made of three bytes in blocks of two, and of them with the cursor
on the second byte. -/
theorem three_checked :
    (Addressable (new 2 fun _ _ => 0) (.write (fun _ _ => 0) [7, 8, 9]) ∧
      Addressable ((new 2 fun _ _ => 0).write (fun _ _ => 0) [7, 8, 9]).2 (.setPosition 1)) ∧
    (((new 2 fun _ _ => 0).write (fun _ _ => 0) [7, 8, 9]).2.readAt 1 0 = .ok [9] ∧
      ((new 2 fun _ _ => 0).write (fun _ _ => 0) [7, 8, 9]).2.content = [7, 8, 9] ∧
      ((new 2 fun _ _ => 0).write (fun _ _ => 0) [7, 8, 9]).2.size = 3 ∧
      ((new 2 fun _ _ => 0).write (fun _ _ => 0) [7, 8, 9]).2.position = 3 ∧
      ((new 2 fun _ _ => 0).write (fun _ _ => 0) [7, 8, 9]).2.capacity = 4 ∧
      ((new 2 fun _ _ => 0).write (fun _ _ => 0) [7, 8, 9]).2.baseSize = 2) ∧
    ((((new 2 fun _ _ => 0).write (fun _ _ => 0) [7, 8, 9]).2.setPosition 1).2.position = 1 ∧
      (((new 2 fun _ _ => 0).write (fun _ _ => 0) [7, 8, 9]).2.setPosition 1).2.size = 3 ∧
      (((new 2 fun _ _ => 0).write (fun _ _ => 0) [7, 8, 9]).2.setPosition
        1).2.getReadBuffersAt 5 2 = .ok (2, [⟨1, 0, 2⟩])) := by
  decide +kernel

/-- Three bytes in blocks of two, with the cursor in the second. -/
theorem three_reachable : (system 2).ReachableBy Addressable
    (((new 2 fun _ _ => 0).write (fun _ _ => 0) [7, 8, 9]).2) := by
  have hinit : (system 2).ReachableBy Addressable (new 2 fun _ _ => 0) := .init ⟨_, rfl⟩
  exact hinit.step three_checked.1.1 rfl

/-- Byte 2 is in the block of the cursor. -/
theorem readAt_iff_same :
    ((new 2 fun _ _ => 0).write (fun _ _ => 0) [7, 8, 9]).2.ReadsAt 1 2 := by
  obtain ⟨-, ⟨-, -, hsize, hposition, hcapacity, hbase⟩, -⟩ := three_checked
  refine (readAt_iff (by decide) (by decide) three_reachable (by decide) (by decide)).mpr ?_
  rw [hsize, hposition, hcapacity, hbase, if_neg (by decide)]
  exact ⟨by decide, .inr (.inl (by decide))⟩

/-- Byte 0 is not. -/
theorem readAt_other_block :
    (system 2).ReachableBy Addressable (((new 2 fun _ _ => 0).write (fun _ _ => 0) [7, 8, 9]).2) ∧
      ((new 2 fun _ _ => 0).write (fun _ _ => 0) [7, 8, 9]).2.readAt 1 0 = .ok [9] ∧
      ¬((new 2 fun _ _ => 0).write (fun _ _ => 0) [7, 8, 9]).2.ReadsAt 1 0 := by
  obtain ⟨-, ⟨hread, hcontent, hsize, -⟩, -⟩ := three_checked
  refine ⟨three_reachable, hread, fun hreads => ?_⟩
  rw [ReadsAt, hread, hcontent, hsize] at hreads
  revert hreads
  decide

/-! ## Gathering at a position -/

/-- What the positional `getReadBuffers` is to do. -/
def GathersAt (ba : ByteArray) (len q : Nat) : Prop :=
  ∃ iovs, ba.getReadBuffersAt len q = .ok (min len (ba.size - q), iovs) ∧
    gather ba.nodes iovs = .ok ((ba.content.drop q).take (min len (ba.size - q)))

theorem min_readSize (ba : ByteArray) (len : Nat) :
    (if len > ba.getReadSize then ba.getReadSize else len) = min len ba.getReadSize := by
  split <;> omega

/-- The length that is asked for is cut to what is behind the cursor. -/
theorem getReadBuffersAt_len {r : Nat × List Iovec} (hr : ba.getReadBuffersAt len q = .ok r) :
    r.1 = min len (ba.size - ba.position) := by
  rw [getReadBuffersAt, min_readSize, getReadSize] at hr
  dsimp only at hr
  split at hr
  · rename_i hzero
    rw [← Except.ok.inj hr, hzero]
  · obtain ⟨iovs, -, hret⟩ := bind_eq_ok.mp hr
    rw [← Except.ok.inj hret]

/-- Cut so, it is gathered at `q` when there are as many bytes behind `q`. -/
theorem getReadBuffersAt_spec (h : Linked ba) (hq : q ≤ ba.size)
    (hlen : min len (ba.size - ba.position) ≤ ba.size - q) :
    ∃ iovs, ba.getReadBuffersAt len q = .ok (min len (ba.size - ba.position), iovs) ∧
      gather ba.nodes iovs =
        .ok ((ba.content.drop q).take (min len (ba.size - ba.position))) := by
  have hsc := h.size_le
  rw [getReadBuffersAt, min_readSize, getReadSize]
  dsimp only
  split
  · rename_i hzero
    refine ⟨[], by rw [hzero], ?_⟩
    rw [hzero, List.take_zero]
    rfl
  · have hin : q + min len (ba.size - ba.position) ≤ ba.capacity := by omega
    obtain ⟨iovs, hiovs, -, hgather, -⟩ := h.buffers_spec (by omega) hin
    refine ⟨iovs, by rw [hiovs]; rfl, ?_⟩
    rw [hgather, content_slice (by omega)]

/-- **When the positional gather is one**: at the cursor, or if there are
`len` bytes behind the cursor and behind `q`. -/
theorem gathersAt_iff (hpos : 1 ≤ base) (hbase : base < 2 ^ 63)
    (h : (system base).ReachableBy Addressable ba) (hq : q ≤ ba.size) :
    ba.GathersAt len q ↔
      q = ba.position ∨ len ≤ min (ba.size - ba.position) (ba.size - q) := by
  obtain ⟨hL, -, -⟩ := reachable_addressable hpos hbase h
  have hps := hL.position_le
  have hiff : min len (ba.size - q) = min len (ba.size - ba.position) ↔
      q = ba.position ∨ len ≤ min (ba.size - ba.position) (ba.size - q) := by omega
  rw [← hiff, GathersAt]
  constructor
  · rintro ⟨iovs, hok, -⟩
    exact getReadBuffersAt_len hok
  · intro hmin
    rw [hmin]
    exact getReadBuffersAt_spec hL hq (by omega)

/-- Three bytes in blocks of two, with the cursor on the second byte. -/
theorem rewound_reachable : (system 2).ReachableBy Addressable
    ((((new 2 fun _ _ => 0).write (fun _ _ => 0) [7, 8, 9]).2.setPosition 1).2) :=
  three_reachable.step three_checked.1.2 rfl

/-- One byte is asked for where there are two. -/
theorem gathersAt_iff_both :
    ((((new 2 fun _ _ => 0).write (fun _ _ => 0) [7, 8, 9]).2.setPosition 1).2).GathersAt 1 2 := by
  obtain ⟨-, -, hposition, hsize, -⟩ := three_checked
  have hq : 2 ≤ (((new 2 fun _ _ => 0).write (fun _ _ => 0) [7, 8, 9]).2.setPosition 1).2.size := by
    rw [hsize]
    decide
  refine (gathersAt_iff (by decide) (by decide) rewound_reachable hq).mpr (.inr ?_)
  rw [hposition, hsize]
  decide

/-- Everything is asked for behind byte 2: one byte, but two are
gathered, and the second was never written. -/
theorem gathersAt_past_size :
    (system 2).ReachableBy Addressable
        ((((new 2 fun _ _ => 0).write (fun _ _ => 0) [7, 8, 9]).2.setPosition 1).2) ∧
      ((((new 2 fun _ _ => 0).write (fun _ _ => 0) [7, 8, 9]).2.setPosition 1).2).size = 3 ∧
      ((((new 2 fun _ _ => 0).write (fun _ _ => 0) [7, 8, 9]).2.setPosition 1).2).getReadBuffersAt
        5 2 = .ok (2, [⟨1, 0, 2⟩]) ∧
      ¬((((new 2 fun _ _ => 0).write (fun _ _ => 0) [7, 8, 9]).2.setPosition 1).2).GathersAt
        5 2 := by
  obtain ⟨-, -, -, hsize, hcall⟩ := three_checked
  refine ⟨rewound_reachable, hsize, hcall, ?_⟩
  rintro ⟨iovs, hok, -⟩
  rw [hcall, hsize] at hok
  cases (Prod.mk.inj (Except.ok.inj hok)).1

/-! ## Requests for nothing -/

/-- What requests for no bytes are to do. -/
structure Quiet (ba : ByteArray) : Prop where
  read : ba.read 0 = (.ok [], ba)
  readAt : ∀ q ≤ ba.size, ba.readAt 0 q = .ok []
  write : ∀ heap, ba.write heap [] = (.ok (), ba)
  getReadBuffers : ∀ len, len = 0 ∨ ba.getReadSize = 0 → ba.getReadBuffers len = .ok []
  getReadBuffersAt : ∀ len q, len = 0 ∨ ba.getReadSize = 0 →
    ba.getReadBuffersAt len q = .ok (0, [])
  getWriteBuffers : ∀ heap, ba.getWriteBuffers heap 0 = (.ok [], ba)
  toString : ∃ bytes, ba.toString = .ok bytes

theorem toString_eq (h : Linked ba) (hsize : ba.size < 2 ^ 64) :
    ba.toString = .ok (ba.content.drop ba.position) := by
  have hps := h.position_le
  have hsc := h.size_le
  have hlen := h.length_content
  have hread : ba.getReadSize = ba.size - ba.position := rfl
  rw [toString]
  split
  · rw [List.drop_of_length_le (by omega)]
  · have hthere : ba.position + ba.getReadSize ≤ ba.size := by omega
    have hreads := (readAt_there h hsize hthere).mpr ⟨by omega, .inr (.inl rfl)⟩
    rw [ReadsAt, if_neg (Nat.not_lt_of_le hthere)] at hreads
    rw [hreads, List.take_of_length_le]
    rw [List.length_drop]
    omega

/-- **When requests for nothing are safe**: unless the cursor is at the
end of the memory. The two `read` look at the node of the cursor first. -/
theorem quiet_iff (hpos : 1 ≤ base) (hbase : base < 2 ^ 63)
    (h : (system base).ReachableBy Addressable ba) :
    ba.Quiet ↔ ba.position < ba.capacity := by
  obtain ⟨hL, -, hcap⟩ := reachable_addressable hpos hbase h
  have hps := hL.position_le
  have hsc := hL.size_le
  constructor
  · intro hquiet
    by_contra hend
    have hzero := read_zero hL
    rw [if_pos (by omega), hquiet.read] at hzero
    cases (Prod.mk.inj hzero).1
  · intro hlt
    have hnone (len : Nat) (hlen : len = 0 ∨ ba.getReadSize = 0) :
        (if len > ba.getReadSize then ba.getReadSize else len) = 0 := by
      split <;> omega
    have hzero := read_zero hL
    rw [if_neg (by omega)] at hzero
    refine ⟨hzero, fun _ _ => readAt_zero hL hlt, fun _ => rfl, ?_, ?_, fun _ => rfl,
      _, toString_eq hL (by omega)⟩
    · intro len hlen
      exact if_pos (hnone len hlen)
    · intro len q hlen
      exact if_pos (hnone len hlen)

/-- Three bytes, with the cursor on the second. -/
theorem quiet_iff_rewound :
    ((((new 2 fun _ _ => 0).write (fun _ _ => 0) [7, 8, 9]).2.setPosition 1).2).Quiet := by
  obtain ⟨-, -, hposition, hsize, -⟩ := three_checked
  obtain ⟨hL, -, -⟩ := reachable_addressable (by decide) (by decide) rewound_reachable
  have hle := hL.size_le
  refine (quiet_iff (by decide) (by decide) rewound_reachable).mpr ?_
  rw [hsize] at hle
  rw [hposition]
  omega

/-- One block, filled: the cursor is at the end of the memory. -/
theorem full_not_quiet :
    (system 2).ReachableBy Addressable ((new 2 fun _ _ => 0).write (fun _ _ => 0) [7, 8]).2 ∧
      ((new 2 fun _ _ => 0).write (fun _ _ => 0) [7, 8]).2.read 0 =
        (.error .nullDeref, ((new 2 fun _ _ => 0).write (fun _ _ => 0) [7, 8]).2) ∧
      ((new 2 fun _ _ => 0).write (fun _ _ => 0) [7, 8]).2.readAt 0 0 = .error .nullDeref ∧
      ¬((new 2 fun _ _ => 0).write (fun _ _ => 0) [7, 8]).2.Quiet := by
  have hinit : (system 2).ReachableBy Addressable (new 2 fun _ _ => 0) := .init ⟨_, rfl⟩
  have hroom : Addressable (new 2 fun _ _ => 0) (.write (fun _ _ => 0) [7, 8]) := by
    show _ < 2 ^ 63
    decide
  have hread : ((new 2 fun _ _ => 0).write (fun _ _ => 0) [7, 8]).2.read 0 =
      (.error .nullDeref, ((new 2 fun _ _ => 0).write (fun _ _ => 0) [7, 8]).2) := by
    decide
  refine ⟨hinit.step hroom rfl, hread, by decide, fun hquiet => ?_⟩
  have hok := hquiet.read
  rw [hread] at hok
  cases (Prod.mk.inj hok).1

end ByteArray

end Sylar
