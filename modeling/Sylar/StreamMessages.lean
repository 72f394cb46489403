import Sylar.ByteArrayRoundTrip
import Sylar.StreamTransfer

/-!
# Typed messages over a connection

What `bytearray.cc` and `stream.cc` are for together: an array is filled
with typed values, rewound and handed to `writeFixSize`, and at the other
end of the connection `readFixSize` fills an array, which is rewound and
read.

The two ends may be machines of different byte orders, and their arrays
have blocks of different sizes: of the bytes of a value neither is to be
seen (`encoded_wire`). However the connection splits what is sent, and
wherever it breaks, what is received are the first of the messages that
the sender has been told are sent (`messages_delivered`).
-/

namespace Sylar

/-! ## The bytes of a value -/

namespace ByteArray

/-- An unsigned integer, seven bits a byte. -/
def varint : Nat → Nat → List UInt8
  | 0, _ => []
  | room + 1, v =>
      if v < 128 then [UInt8.ofNat v]
      else UInt8.ofNat (v % 128 + 128) :: varint room (v / 128)

/-- The bytes of a value in the byte order given. -/
def wire (order : Endian) : (k : Kind) → BitVec k.bits → List UInt8
  | .Fint8, v | .Fuint8, v => memory order (n := 1) v
  | .Fint16, v | .Fuint16, v => memory order (n := 2) v
  | .Fint32, v | .Fuint32, v | .Float, v => memory order (n := 4) v
  | .Fint64, v | .Fuint64, v | .Double, v => memory order (n := 8) v
  | .Uint32, v => varint 5 v.toNat
  | .Int32, v => varint 5 (zigzag v).toNat
  | .Uint64, v => varint 10 v.toNat
  | .Int64, v => varint 10 (zigzag v).toNat

/-- The bytes of a message. -/
def wireItems (items : List Item) : List UInt8 :=
  items.flatMap fun x => wire (if x.little then .little else .big) x.kind x.value

/-- The swap and the order in memory cancel. -/
theorem memory_order (host : Endian) (ba : ByteArray) {n : Nat} (v : BitVec (8 * n)) :
    memory host (ba.order host v) = memory ba.endian v := by
  have hback : toLE n (byteswap v).toNat = (toLE n v.toNat).reverse := by
    have hlt := ofLE_lt (toLE n v.toNat).reverse
    have hle := toLE_ofLE (toLE n v.toNat).reverse
    rw [List.length_reverse, length_toLE] at hlt hle
    rw [byteswap, BitVec.toNat_ofNat, Nat.mod_eq_of_lt hlt, hle]
  rw [order]
  cases host <;> cases ba.endian <;> simp [memory, hback]

/-- A single byte has no order. -/
theorem memory_byte (host order : Endian) (v : BitVec 8) :
    memory host (n := 1) v = memory order (n := 1) v := by
  cases host <;> cases order <;> simp [memory, toLE]

theorem fillTmp_varint : ∀ {room v : Nat} {bs : List UInt8}, fillTmp room v = .ok bs →
    bs = varint room v
  | room + 1, v, bs, h => by
      rw [fillTmp] at h
      rw [varint]
      split at h
      · rename_i hbig
        obtain ⟨bs', hbs', h⟩ := bind_eq_ok.mp h
        obtain rfl := Except.ok.inj h
        have hbyte : UInt8.ofNat ((v &&& 0x7F) ||| 0x80) = UInt8.ofNat (v % 128 + 128) := by
          apply UInt8.toNat_inj.mp
          have hmore : (UInt8.ofNat ((v &&& 0x7F) ||| 0x80)).toNat = v % 128 + 128 := toNat_more v
          rw [hmore, UInt8.toNat_ofNat']
          omega
        rw [if_neg (by omega), hbyte, fillTmp_varint hbs', Nat.shiftRight_eq_div_pow]
      · obtain rfl := Except.ok.inj h
        rw [if_pos (by omega)]

/-- The bytes of a value depend on the order it is written in alone. -/
theorem encoded_wire (host : Endian) (ba : ByteArray) {k : Kind} (v : BitVec k.bits) :
    encoded host ba k v = .ok (wire ba.endian k v) := by
  obtain ⟨bs, hbs, -⟩ := encoded_spec host ba v
  cases k with
  | Fint8 | Fuint8 => exact congrArg Except.ok (memory_byte host ba.endian v)
  | Fint16 | Fuint16 | Fint32 | Fuint32 | Fint64 | Fuint64 | Float | Double =>
      exact congrArg Except.ok (memory_order host ba _)
  | Uint32 | Int32 | Uint64 | Int64 => exact hbs.trans (congrArg Except.ok (fillTmp_varint hbs))

theorem encodes_wire (host : Endian) : ∀ {items : List Item} {bs : List UInt8},
    Encodes host items bs ↔ bs = wireItems items
  | [], bs => Iff.rfl
  | x :: xs, bs => by
      rw [Encodes, wireItems, List.flatMap_cons]
      constructor
      · rintro ⟨b, rest, rfl, hrest, hb⟩
        obtain rfl := Except.ok.inj ((hb (new 1 fun _ _ => 0)).symm.trans (encoded_wire host _ _))
        rw [(encodes_wire host).mp hrest]
        rfl
      · rintro rfl
        exact ⟨_, _, rfl, (encodes_wire host).mpr rfl, fun ba => encoded_wire host _ _⟩

theorem wireItems_ne_nil {items : List Item} (h : items ≠ []) : wireItems items ≠ [] := by
  obtain ⟨x, xs, rfl⟩ := List.exists_cons_of_ne_nil h
  obtain ⟨bs, hbs, hne, -⟩ := encoded_spec .little ((new 1 fun _ _ => 0).setIsLittleEndian x.little)
    x.value
  obtain rfl := Except.ok.inj ((encoded_wire ..).symm.trans hbs)
  rw [wireItems, List.flatMap_cons]
  exact List.append_ne_nil_of_left_ne_nil hne _

theorem setPosition_zero {ba : ByteArray} (h : ba.Linked) :
    ∃ ba', ba.setPosition 0 = (.ok (), ba') ∧ ba'.Linked ∧ ba'.content = ba.content ∧
      ba'.position = 0 ∧ ba'.size = ba.size := by
  obtain ⟨ba', hset, hL, hc, hp, hs, -⟩ := setPosition_spec h (Nat.zero_le _)
  rw [Nat.max_zero] at hs
  refine ⟨ba', hset, hL, ?_, hp, hs⟩
  rw [← hc, List.take_of_length_le]
  rw [hL.length_content, hs]

end ByteArray

/-! ## One call at each end -/

namespace Stream

/-- One end of a connection: the byte order of the machine, and the size of
the blocks of the arrays it makes. -/
structure End where
  host : Endian
  base : Nat
  base_pos : 1 ≤ base
  heap : Nat → Nat → UInt8

namespace End

variable (e : End)

/-- A new array with the items, rewound. -/
def fill (items : List ByteArray.Item) : ByteArray.Res Unit :=
  ByteArray.Res.bind (ByteArray.writeItems e.host e.heap items (.new e.base e.heap)) fun _ ba =>
    ba.setPosition 0

/-- `writeFixSize` of all that is in the array. -/
def sendItems (items : List ByteArray.Item) (p : Peer) : Except Fault Int × Peer :=
  match e.fill items with
  | (.error f, _) => (.error f, p)
  | (.ok (), ba) =>
      match writeFixSize ba p ba.getReadSize with
      | (rt, _, p) => (rt, p)

/-- `readFixSize` of `n` bytes into a new array, and the values in it. -/
def recvItems (kinds : List (Bool × ByteArray.Kind)) (n : Nat) (p : Peer) :
    Except Fault (Option (List ByteArray.Item)) × Peer :=
  match readFixSize e.heap (.new e.base e.heap) p n with
  | (.error f, _, p) => (.error f, p)
  | (.ok rt, ba, p) =>
      if rt ≤ 0 then (.ok none, p)
      else
        match ByteArray.Res.bind (ba.setPosition 0) fun _ ba =>
          ByteArray.readItems e.host kinds ba with
        | (.error f, _) => (.error f, p)
        | (.ok items, _) => (.ok (some items), p)

end End

variable {ba : ByteArray} {p : Peer} {n : Nat}

/-- `writeFixSize` sends from the cursor on. -/
theorem writeFixSize_sent (h : ba.Linked) (p : Peer) (hn : n ≤ ba.getReadSize) :
    ∃ k rt ba' p', writeFixSize ba p n = (.ok rt, ba', p') ∧
      (k = n ∧ rt = toInt32 n ∨ k < n ∧ rt ≤ 0) ∧ Sent ba p k ba' p' :=
  fixSize_spec write n (P := fun ba left => ba.Linked ∧ left ≤ ba.getReadSize) (T := Sent)
    (fun hP => .refl hP.1 rfl) (fun _ hT hT' => hT.trans hT')
    (fun ba p left hP hleft => by
      obtain ⟨rt, ba', p', hcall, hle, hT⟩ := write_spec hP.1 p hleft hP.2
      refine ⟨rt, ba', p', hcall, hle, hT, hT.linked, ?_⟩
      have hroom := hP.2
      simp only [ByteArray.getReadSize, hT.size, hT.position] at hroom ⊢
      omega)
    n ba p n ⟨h, hn⟩ (Nat.le_refl n)

/-- `readFixSize` stores from the cursor on. -/
theorem readFixSize_received (h : ba.Linked) (heap : Nat → Nat → UInt8) (p : Peer)
    (hn : n < 2 ^ 53) :
    ∃ k rt ba' p', readFixSize heap ba p n = (.ok rt, ba', p') ∧
      (k = n ∧ rt = toInt32 n ∨ k < n ∧ rt ≤ 0) ∧ Received ba p k ba' p' :=
  fixSize_spec (read heap) n (P := fun ba left => ba.Linked ∧ left < 2 ^ 53) (T := Received)
    (fun hP => .refl hP.1 rfl) (fun hP hT hT' => hT.trans hP.1 hT')
    (fun ba p left hP hleft => by
      obtain ⟨rt, ba', p', hcall, hle, hT⟩ := read_spec hP.1 heap p hleft hP.2
      exact ⟨rt, ba', p', hcall, hle, hT, hT.wrote.linked, by omega⟩)
    n ba p n ⟨h, hn⟩ (Nat.le_refl n)

open Sylar.ByteArray (wireItems)

namespace End

variable {e : End}

theorem fill_spec (e : End) (items : List ByteArray.Item) : ∃ ba, e.fill items = (.ok (), ba) ∧
    ba.Linked ∧ ba.content = wireItems items ∧ ba.position = 0 ∧
      ba.getReadSize = (wireItems items).length := by
  obtain ⟨bs, written, henc, hw, hL, -, hc⟩ := ByteArray.writeItems_spec e.host e.heap items
    (ByteArray.new_linked e.base_pos e.heap) rfl
  obtain ⟨ba, hset, hL', hc', hp, -⟩ := ByteArray.setPosition_zero hL
  have hcontent : ba.content = wireItems items := by
    rw [hc', hc, ← (ByteArray.encodes_wire e.host).mp henc]
    rfl
  refine ⟨ba, by rw [fill, hw, ByteArray.Res.bind_ok, hset], hL', hcontent, hp, ?_⟩
  rw [← hL'.length_unread, ByteArray.unread, hp, List.drop_zero, hcontent]

/-- A message of less than 2 GiB: the result is positive if all its bytes
have been sent. -/
theorem sendItems_spec (e : End) (items : List ByteArray.Item) (p : Peer)
    (hsize : (wireItems items).length < 2 ^ 31) :
    ∃ k rt p', e.sendItems items p = (.ok rt, p') ∧
      (k = (wireItems items).length ∧ rt = k ∨ k < (wireItems items).length ∧ rt ≤ 0) ∧
      p'.sent = p.sent ++ (wireItems items).take k := by
  obtain ⟨ba, hfill, hL, hcontent, hpos, hread⟩ := e.fill_spec items
  obtain ⟨k, rt, ba', p', hrun, hend, hsent⟩ := writeFixSize_sent hL p (Nat.le_refl _)
  rw [hread, toInt32_eq hsize] at hend
  refine ⟨k, rt, p', ?_, by omega, ?_⟩
  · rw [sendItems, hfill]
    simp only [hrun]
  · rw [hsent.sent, hcontent, hpos, List.drop_zero]

/-- The bytes of a message come first in the stream, or the first of them
do and then it ends. -/
theorem recvItems_spec (e : End) {items : List ByteArray.Item} {more : List UInt8} {q : Peer}
    (hsize : (wireItems items).length < 2 ^ 31) (hin : q.incoming <+: wireItems items ++ more) :
    ∃ k r q', e.recvItems (items.map fun x => (x.little, x.kind)) (wireItems items).length q =
        (.ok r, q') ∧ k ≤ q.incoming.length ∧ q'.incoming = q.incoming.drop k ∧
      (k = (wireItems items).length ∧ 0 < k ∧ r = some items ∨
        (k < (wireItems items).length ∨ k = 0) ∧ r = none) := by
  have hnew := ByteArray.new_linked e.base_pos e.heap
  obtain ⟨k, rt, ba, q', hrun, hend, hgot⟩ := readFixSize_received hnew e.heap q
    (n := (wireItems items).length) (by omega)
  rw [toInt32_eq hsize] at hend
  rw [recvItems, hrun]
  simp only
  split
  · exact ⟨k, none, q', rfl, hgot.le, hgot.incoming, .inr ⟨by omega, rfl⟩⟩
  rename_i hpos
  obtain ⟨rfl, -⟩ : k = (wireItems items).length ∧ rt = (wireItems items).length := by omega
  obtain ⟨more', hmore⟩ := hin
  have htake : q.incoming.take (wireItems items).length = wireItems items := by
    have hprefix := congrArg (List.take (wireItems items).length) hmore
    rwa [List.take_append_of_le_length hgot.le, List.take_left] at hprefix
  have hcontent : ba.content = wireItems items := by
    rw [hgot.wrote.content, htake]
    exact splice_length [] _
  obtain ⟨rewound, hset, hL, hc, hp, -⟩ := ByteArray.setPosition_zero hgot.wrote.linked
  have hunread : rewound.unread = wireItems items ++ [] := by
    rw [ByteArray.unread, hc, hp, hcontent, List.drop_zero, List.append_nil]
  obtain ⟨after, hitems, -⟩ :=
    ByteArray.readItems_spec e.host ((ByteArray.encodes_wire e.host).mpr rfl) hL hunread
  rw [hset, ByteArray.Res.bind_ok, hitems]
  exact ⟨_, _, q', rfl, hgot.le, hgot.incoming, .inl ⟨rfl, by omega, rfl⟩⟩

end End

/-! ## Calls that do not fail -/

/-- No call to come fails. -/
def Steady (p : Peer) : Prop := ∀ r ∈ p.results, ∃ k : Int, r = some k ∧ 0 < k

theorem Steady.tail {q : Peer} (h : Steady p) (hq : q.results = p.results.tail) : Steady q :=
  fun r hr => h r (List.mem_of_mem_tail (hq ▸ hr))

theorem Steady.isConnected (h : Steady p) : p.isConnected = true := by
  obtain ⟨incoming, sent, results⟩ := p
  cases results with
  | nil => rfl
  | cons r rest =>
      obtain ⟨k, rfl, -⟩ := h r (List.mem_cons_self ..)
      rfl

theorem Steady.result_pos (h : Steady p) (hn : 0 < n) : 0 < p.result n := by
  obtain ⟨incoming, sent, results⟩ := p
  cases results with
  | nil => exact Int.natCast_pos.mpr hn
  | cons r rest =>
      obtain ⟨k, rfl, hk⟩ := h r (List.mem_cons_self ..)
      exact lt_min hk (Int.natCast_pos.mpr hn)

/-- A loop whose calls all transfer something does all it is to do. -/
theorem fixSize_complete (step : ByteArray → Peer → Nat → Res) (length : Nat)
    {P : ByteArray → Peer → Nat → Prop}
    (hstep : ∀ ba p left, P ba p left → 0 < left → ∃ rt ba' p', step ba p left = (.ok rt, ba', p') ∧
      0 < rt ∧ rt.toNat ≤ left ∧ P ba' p' (left - rt.toNat)) :
    ∀ (fuel : Nat) (ba : ByteArray) (p : Peer) (left : Nat), P ba p left → left ≤ fuel →
      ∃ ba' p', fixSize step length fuel ba p left = (.ok (toInt32 length), ba', p') ∧ P ba' p' 0
  | 0, ba, p, left, hP, hfuel => by
      obtain rfl : left = 0 := by omega
      exact ⟨ba, p, rfl, hP⟩
  | fuel + 1, ba, p, left, hP, hfuel => by
      rw [fixSize]
      split
      · rename_i hzero
        subst hzero
        exact ⟨ba, p, rfl, hP⟩
      · rename_i hleft
        obtain ⟨rt, ba', p', hcall, hpos, hle, hP'⟩ := hstep ba p left hP (by omega)
        simp only [hcall]
        rw [if_neg (by omega)]
        exact fixSize_complete step length hstep fuel ba' p' _ hP' (by omega)

theorem advance_ok {rt rt' : Int} {ba' : ByteArray} {p' : Peer}
    (h : advance ba p rt = (.ok rt', ba', p')) : rt' = rt ∧ p' = p := by
  unfold advance at h
  split at h
  · split at h
    · cases (Prod.mk.inj h).1
    · cases h
      exact ⟨rfl, rfl⟩
  · cases h
    exact ⟨rfl, rfl⟩

/-- What a call does at a connected socket. -/
theorem write_advance (h : ba.Linked) (hconn : p.isConnected = true) (hn : 0 < n)
    (hle : n ≤ ba.getReadSize) :
    write ba p n = advance ba (p.send ((ba.content.drop ba.position).take n)).2 (p.result n) := by
  have hread : ba.getReadSize = ba.size - ba.position := rfl
  have hsc := h.size_le
  obtain ⟨iovs, hiovs, -, hgather, -⟩ := h.buffers_spec (q := ba.position) hn (by omega)
  have hbuffers : ba.cursorBuffers n = .ok iovs := (h.cursorBuffers_eq (by omega) n).trans hiovs
  rw [ByteArray.content_slice (by omega)] at hgather
  have hlen : ((ba.content.drop ba.position).take n).length = n := by
    rw [List.length_take, List.length_drop, h.length_content]
    omega
  rw [write, if_neg (by simp [hconn]), ByteArray.getReadBuffers]
  simp only [if_neg (Nat.not_lt_of_le hle), if_neg (Nat.ne_of_gt hn), hbuffers, hgather, Peer.send,
    hlen]

theorem read_advance (h : ba.Linked) (heap : Nat → Nat → UInt8) (hconn : p.isConnected = true)
    (hn : 0 < n) (hlt : n < 2 ^ 53) :
    ∃ ba₁, read heap ba p n = advance ba₁ (p.recv n).2.2 (p.recv n).1 := by
  have ⟨hL, _, _, hpos, _, _, _⟩ := (ByteArray.addCapacity_grown h heap n).1
  have hroom := ByteArray.addCapacity_room h heap hlt
  rw [read, if_neg (by simp [hconn]), ByteArray.getWriteBuffers, if_neg (Nat.ne_of_gt hn)]
  set g := ba.addCapacity heap n
  obtain ⟨iovs, hiovs, hsum, -, hscatter⟩ := hL.buffers_spec (q := g.position) hn (by omega)
  have hbuffers : g.cursorBuffers n = .ok iovs := (hL.cursorBuffers_eq (by omega) n).trans hiovs
  have hle := result_le p (min n p.incoming.length)
  have hgot : (p.recv n).2.1.length ≤ n := by
    show (p.incoming.take (p.result (min n p.incoming.length)).toNat).length ≤ n
    rw [List.length_take]
    omega
  obtain ⟨nodes, hL', -⟩ := hscatter (p.recv n).2.1 hgot
  simp only [hbuffers, hsum, hL']
  exact ⟨_, rfl⟩

theorem writeFixSize_complete (h : ba.Linked) (hp : Steady p) (hn : n ≤ ba.getReadSize) :
    ∃ ba' p', writeFixSize ba p n = (.ok (toInt32 n), ba', p') ∧ Steady p' := by
  obtain ⟨ba', p', hrun, -, -, hsteady⟩ := fixSize_complete write n
    (P := fun ba p left => ba.Linked ∧ left ≤ ba.getReadSize ∧ Steady p)
    (fun ba p left hP hleft => by
      obtain ⟨hL, hroom, hp⟩ := hP
      obtain ⟨rt, ba', p', hcall, hle, hT⟩ := write_spec hL p hleft hroom
      obtain ⟨rfl, rfl⟩ := advance_ok
        ((write_advance hL hp.isConnected hleft hroom).symm.trans hcall)
      refine ⟨_, ba', _, hcall, hp.result_pos hleft, hle, hT.linked, ?_, hp.tail rfl⟩
      simp only [ByteArray.getReadSize, hT.size, hT.position] at hroom ⊢
      omega)
    n ba p n ⟨h, hn, hp⟩ (Nat.le_refl n)
  exact ⟨ba', p', hrun, hsteady⟩

theorem readFixSize_complete (h : ba.Linked) (heap : Nat → Nat → UInt8) (hp : Steady p)
    (hn : n < 2 ^ 53) (hin : n ≤ p.incoming.length) :
    ∃ ba' p', readFixSize heap ba p n = (.ok (toInt32 n), ba', p') ∧ Steady p' := by
  obtain ⟨ba', p', hrun, -, -, -, hsteady⟩ := fixSize_complete (read heap) n
    (P := fun ba p left => ba.Linked ∧ left < 2 ^ 53 ∧ left ≤ p.incoming.length ∧ Steady p)
    (fun ba p left hP hleft => by
      obtain ⟨hL, hlt, hin, hp⟩ := hP
      obtain ⟨rt, ba', p', hcall, hle, hT⟩ := read_spec hL heap p hleft hlt
      obtain ⟨ba₁, hadvance⟩ := read_advance hL heap hp.isConnected hleft hlt
      obtain ⟨hrt, hpeer⟩ := advance_ok (hadvance.symm.trans hcall)
      refine ⟨rt, ba', p', hcall, ?_, hle, hT.wrote.linked, by omega, ?_, hp.tail ?_⟩
      · rw [hrt]
        exact hp.result_pos (by omega)
      · rw [hT.incoming, List.length_drop]
        omega
      · rw [hpeer]
        rfl)
    n ba p n ⟨h, hn, hin, hp⟩ (Nat.le_refl n)
  exact ⟨ba', p', hrun, hsteady⟩

/-! ## Any number of messages -/

namespace End

variable (e : End)

/-- Messages one after the other, up to the first whose result is not
positive: the ones in front of it. -/
def sendAll : List (List ByteArray.Item) → Peer → Except Fault (List (List ByteArray.Item)) × Peer
  | [], p => (.ok [], p)
  | items :: rest, p =>
      match e.sendItems items p with
      | (.error f, p) => (.error f, p)
      | (.ok rt, p) =>
          if rt ≤ 0 then (.ok [], p)
          else
            match sendAll rest p with
            | (r, p) => (r.map (items :: ·), p)

/-- The messages that are read, up to the first that is not. -/
def recvAll : List (List (Bool × ByteArray.Kind) × Nat) → Peer →
    Except Fault (List (List ByteArray.Item)) × Peer
  | [], p => (.ok [], p)
  | (kinds, n) :: rest, p =>
      match e.recvItems kinds n p with
      | (.error f, p) => (.error f, p)
      | (.ok none, p) => (.ok [], p)
      | (.ok (some items), p) =>
          match recvAll rest p with
          | (r, p) => (r.map (items :: ·), p)

/-- What the receiver of a message knows of it. -/
def shape (items : List ByteArray.Item) : List (Bool × ByteArray.Kind) × Nat :=
  (items.map fun x => (x.little, x.kind), (wireItems items).length)

variable {e}

theorem sendItems_complete (e : End) {items : List ByteArray.Item} {p : Peer} (hp : Steady p)
    (hsize : (wireItems items).length < 2 ^ 31) :
    ∃ p', e.sendItems items p = (.ok (wireItems items).length, p') ∧ Steady p' := by
  obtain ⟨ba, hfill, hL, -, -, hread⟩ := e.fill_spec items
  obtain ⟨ba', p', hrun, hp'⟩ := writeFixSize_complete hL hp (Nat.le_refl _)
  rw [hread, toInt32_eq hsize] at hrun
  refine ⟨p', ?_, hp'⟩
  rw [sendItems, hfill]
  simp only [hread, hrun]

/-- All the bytes of a message are there. -/
theorem recvItems_complete (e : End) {items : List ByteArray.Item} {more : List UInt8} {q : Peer}
    (hq : Steady q) (hne : wireItems items ≠ []) (hsize : (wireItems items).length < 2 ^ 31)
    (hin : q.incoming = wireItems items ++ more) :
    ∃ q', e.recvItems (items.map fun x => (x.little, x.kind)) (wireItems items).length q =
        (.ok (some items), q') ∧ q'.incoming = more ∧ Steady q' := by
  have hpos := List.length_pos_of_ne_nil hne
  obtain ⟨ba, q', hrun, hq'⟩ := readFixSize_complete (n := (wireItems items).length)
    (ByteArray.new_linked e.base_pos e.heap) e.heap hq (by omega) (by simp [hin])
  have hprefix : q.incoming <+: wireItems items ++ more := by rw [hin]
  obtain ⟨k, r, q'', hrecv, -, hdrop, hend⟩ := e.recvItems_spec hsize hprefix
  rw [toInt32_eq hsize] at hrun
  have hall : ∃ r', e.recvItems (items.map fun x => (x.little, x.kind)) (wireItems items).length q =
      (r', q') ∧ r' ≠ .ok none := by
    rw [recvItems, hrun]
    simp only
    rw [if_neg (by omega)]
    split
    · exact ⟨_, rfl, fun h => nomatch h⟩
    · exact ⟨_, rfl, fun h => nomatch h⟩
  obtain ⟨r', hrecv', hsome⟩ := hall
  obtain ⟨rfl, rfl⟩ := Prod.mk.inj (hrecv.symm.trans hrecv')
  obtain ⟨rfl, -, rfl⟩ := hend.resolve_right fun h => hsome (congrArg Except.ok h.2)
  refine ⟨q'', hrecv, ?_, hq'⟩
  rw [hdrop, hin, List.drop_left]

/-- **What is received has been sent.** Whatever the calls at both ends
return, the messages received are the first of those that the sender has
been told are sent, and these are the first of all; where no call fails,
none is missing. -/
theorem messages_delivered (a b : End) : ∀ {messages : List (List ByteArray.Item)} {p : Peer},
    (∀ items ∈ messages, (wireItems items).length < 2 ^ 31) →
    ∃ sent p' bs, a.sendAll messages p = (.ok sent, p') ∧ sent <+: messages ∧
      p'.sent = p.sent ++ bs ∧ (Steady p → [] ∉ messages → sent = messages) ∧
      ∀ q : Peer, q.incoming <+: bs → ∃ got q', b.recvAll (messages.map shape) q = (.ok got, q') ∧
        got <+: sent ∧ (Steady q → q.incoming = bs → got = sent)
  | [], p, _ => by
      refine ⟨[], p, [], rfl, List.prefix_rfl, by simp, fun _ _ => rfl, fun q _ => ?_⟩
      exact ⟨[], q, rfl, List.prefix_rfl, fun _ _ => rfl⟩
  | items :: rest, p, hsize => by
      have hone := hsize items (List.mem_cons_self ..)
      have hrest := fun m hm => hsize m (List.mem_cons_of_mem _ hm)
      obtain ⟨k, rt, p₁, hcall, hend, hsent⟩ := a.sendItems_spec items p hone
      rw [sendAll, hcall]
      simp only
      split
      · -- the last call: what it has sent is not the whole message, or there is none
        rename_i hstop
        refine ⟨[], p₁, (wireItems items).take k, rfl, List.nil_prefix, hsent, ?_, fun q hq => ?_⟩
        · intro hp hnil
          obtain ⟨p', hdone, -⟩ := a.sendItems_complete hp hone
          obtain ⟨hrt, -⟩ := Prod.mk.inj (hcall.symm.trans hdone)
          have hpos := List.length_pos_of_ne_nil
            (ByteArray.wireItems_ne_nil fun hempty => hnil (hempty ▸ List.mem_cons_self ..))
          have hrt := Except.ok.inj hrt
          omega
        · have hshort : q.incoming <+: wireItems items ++ [] := by
            rw [List.append_nil]
            exact hq.trans (List.take_prefix ..)
          obtain ⟨k', r, q', hrecv, hle, -, hend'⟩ := b.recvItems_spec hone hshort
          have hlen := hq.length_le
          rw [List.length_take] at hlen
          obtain rfl : r = none := (hend'.resolve_left fun h => by omega).2
          refine ⟨[], q', ?_, List.prefix_rfl, fun _ _ => rfl⟩
          rw [List.map_cons, shape, recvAll, hrecv]
      · rename_i hgo
        obtain ⟨rfl, -⟩ : k = (wireItems items).length ∧ rt = k := by omega
        rw [List.take_length] at hsent
        obtain ⟨sent, p', bs, hall, hprefix, hbytes, hsteady, hgot⟩ :=
          messages_delivered a b (p := p₁) hrest
        rw [hall]
        refine ⟨items :: sent, p', wireItems items ++ bs, rfl, ?_, ?_, ?_, fun q hq => ?_⟩
        · exact List.cons_prefix_cons.mpr ⟨rfl, hprefix⟩
        · rw [hbytes, hsent, List.append_assoc]
        · intro hp hnil
          obtain ⟨p₂, hdone, hp₂⟩ := a.sendItems_complete hp hone
          obtain ⟨-, rfl⟩ := Prod.mk.inj (hcall.symm.trans hdone)
          rw [hsteady hp₂ fun hmem => hnil (List.mem_cons_of_mem _ hmem)]
        · obtain ⟨k, r, q', hrecv, hle, hdrop, hend'⟩ := b.recvItems_spec hone hq
          rw [List.map_cons, shape, recvAll, hrecv]
          have hcomplete (hq' : Steady q) (heq : q.incoming = wireItems items ++ bs) :
              r = some items ∧ q'.incoming = bs ∧ Steady q' := by
            obtain ⟨q₂, hdone, hin, hq₂⟩ := b.recvItems_complete hq'
              (List.ne_nil_of_length_pos (by omega)) hone heq
            obtain ⟨hr, rfl⟩ := Prod.mk.inj (hrecv.symm.trans hdone)
            exact ⟨Except.ok.inj hr, hin, hq₂⟩
          obtain ⟨rfl, -, rfl⟩ | ⟨-, rfl⟩ := hend'
          · obtain ⟨got, q₂, hmore, hgots, hwhole⟩ := hgot q' (by
              obtain ⟨t, ht⟩ := hq
              refine ⟨t, ?_⟩
              rw [hdrop, ← List.drop_append_of_le_length hle, ht, List.drop_left])
            simp only [hmore]
            refine ⟨items :: got, q₂, rfl, List.cons_prefix_cons.mpr ⟨rfl, hgots⟩, ?_⟩
            intro hq' heq
            obtain ⟨-, hin, hq₂⟩ := hcomplete hq' heq
            rw [hwhole hq₂ hin]
          · exact ⟨[], q', rfl, List.nil_prefix, fun hq' heq => nomatch (hcomplete hq' heq).1⟩

def sampleMessages : List (List ByteArray.Item) :=
  [[⟨true, .Int32, 300⟩, ⟨false, .Fuint16, 0x0102⟩], [⟨true, .Double, 1⟩]]

/-- Between machines of different byte orders, a byte or two at a time. -/
theorem messages_delivered_two : ∃ p' q',
    (⟨.little, 2, by decide, fun _ _ => 0⟩ : End).sendAll sampleMessages
      ⟨[], [], [some 1, some 3]⟩ = (.ok sampleMessages, p') ∧
    (⟨.big, 3, by decide, fun _ _ => 0⟩ : End).recvAll (sampleMessages.map shape)
      ⟨p'.sent, [], [some 2, some 1]⟩ = (.ok sampleMessages, q') := by
  have hsizes : ∀ items ∈ sampleMessages, (wireItems items).length < 2 ^ 31 := by decide
  obtain ⟨sent, p', bs, hsend, -, hbytes, hall, hrecv⟩ :=
    messages_delivered ⟨.little, 2, by decide, fun _ _ => 0⟩ ⟨.big, 3, by decide, fun _ _ => 0⟩
      (p := ⟨[], [], [some 1, some 3]⟩) hsizes
  obtain rfl := hall (by simp [Steady]) (by simp [sampleMessages])
  obtain ⟨got, q', hgot, -, hwhole⟩ := hrecv ⟨bs, [], [some 2, some 1]⟩ List.prefix_rfl
  obtain rfl := hwhole (by simp [Steady]) rfl
  refine ⟨p', q', hsend, ?_⟩
  rw [hbytes]
  exact hgot

end End

end Stream

end Sylar
