import Sylar.ByteArrayFlat
import Sylar.HttpMessage

/-!
# Transfers between a socket and a ByteArray

`Stream::readFixSize` and `writeFixSize` with a `ByteArray`, over the
two scatter/gather vectors of `bytearray.cc`. A `Peer` is what is behind
the socket: the bytes of the stream that no call has returned yet, those
that have been sent, and what each call to come returns at most. An
entry that is not positive is the result of a call that fails, for
whatever reason; `none` is a call that finds the socket not connected.

One call transfers as many bytes as it says, at the cursor, whatever
blocks they lie in (`read_spec`, `write_spec`); the loops are runs of
such steps.
-/

namespace Sylar

structure Iovec where
  node : Nat
  off : Nat
  len : Nat
deriving Repr, DecidableEq

namespace ByteArray

/-- The loop of `getReadBuffers` and `getWriteBuffers`, from node `i` on. -/
def buffersFrom : List Node → Nat → Nat → Nat → Except Fault (List Iovec)
  | [], _, _, _ => .error .nullDeref
  | n :: rest, i, npos, len =>
      if len ≤ n.size - npos then .ok [⟨i, npos, len⟩]
      else do
        let ncap := n.size - npos
        let iovs ← buffersFrom rest (i + 1) 0 (len - ncap)
        return ⟨i, npos, ncap⟩ :: iovs

/-- The buffers for `len` bytes from the cursor on. -/
def cursorBuffers (ba : ByteArray) (len : Nat) : Except Fault (List Iovec) :=
  match ba.cur with
  | none => .error .nullDeref
  | some i => buffersFrom (ba.nodes.drop i) i (ba.position % ba.baseSize) len

/-- `getReadBuffers(buffers, len)`. -/
def getReadBuffers (ba : ByteArray) (len : Nat) : Except Fault (List Iovec) :=
  let len := if len > ba.getReadSize then ba.getReadSize else len
  if len = 0 then .ok [] else ba.cursorBuffers len

/-- `getWriteBuffers(buffers, len)`. -/
def getWriteBuffers (heap : Nat → Nat → UInt8) (ba : ByteArray) (len : Nat) :
    Res (List Iovec) :=
  if len = 0 then (.ok [], ba)
  else
    let ba := ba.addCapacity heap len
    (ba.cursorBuffers len, ba)

/-- The bytes of the buffers, in order. -/
def gather (nodes : List Node) : List Iovec → Except Fault (List UInt8)
  | [] => .ok []
  | v :: vs =>
      match nodes[v.node]? with
      | none => .error .badAccess
      | some n => do
          let bytes ← n.load v.off v.len
          let more ← gather nodes vs
          return bytes ++ more

/-- Fill the buffers, in order, with as many bytes as there are. -/
def scatter (nodes : List Node) : List Iovec → List UInt8 → Except Fault (List Node)
  | [], _ => .ok nodes
  | v :: vs, bytes =>
      match nodes[v.node]? with
      | none => .error .badAccess
      | some n => do
          let n' ← n.store v.off (bytes.take v.len)
          scatter (nodes.set v.node n') vs (bytes.drop v.len)

end ByteArray

/-! ## The buffers are a stretch of the content -/

namespace ByteArray

theorem getElem?_append_length {pre rest : List Node} {n : Node} :
    (pre ++ n :: rest)[pre.length]? = some n := by
  rw [List.getElem?_append_right (Nat.le_refl _), Nat.sub_self]
  rfl

theorem set_append_length {pre rest : List Node} {n n' : Node} :
    (pre ++ n :: rest).set pre.length n' = pre ++ n' :: rest := by
  rw [List.set_append_right _ _ (Nat.le_refl _), Nat.sub_self]
  rfl

/-- The buffers for `len` bytes from position `npos` of the blocks `L`
on: what they hold, and what filling them does. -/
theorem buffersFrom_spec {b : Nat} : ∀ {L : List Node} (i npos len : Nat),
    (∀ n ∈ L, n.size = b) → npos < b → 0 < len → npos + len ≤ b * L.length →
    ∃ iovs, buffersFrom L i npos len = .ok iovs ∧ (iovs.map Iovec.len).sum = len ∧
      ∀ pre : List Node, pre.length = i →
        gather (pre ++ L) iovs = .ok (((blocks L).drop npos).take len) ∧
        ∀ bytes : List UInt8, bytes.length ≤ len → ∃ L',
          scatter (pre ++ L) iovs bytes = .ok (pre ++ L') ∧ (∀ n ∈ L', n.size = b) ∧
          L'.length = L.length ∧ blocks L' = splice (blocks L) npos bytes
  | [], i, npos, len, _, _, hlen, hroom => by
      simp only [List.length_nil, Nat.mul_zero] at hroom
      omega
  | n :: rest, i, npos, len, hsize, hnpos, hlen, hroom => by
      have hn : n.size = b := hsize n (List.mem_cons_self ..)
      have hptr : n.ptr.length = b := hn
      have hrest : ∀ m ∈ rest, m.size = b := fun m hm => hsize m (List.mem_cons_of_mem _ hm)
      have hdrop : (n.ptr ++ blocks rest).drop npos = n.ptr.drop npos ++ blocks rest :=
        List.drop_append_of_le_length (by omega)
      have hdroplen : (n.ptr.drop npos).length = b - npos := by rw [List.length_drop, hptr]
      rw [buffersFrom, hn, blocks_cons, hdrop]
      split
      · rename_i hfit
        refine ⟨_, rfl, rfl, fun pre hpre => ⟨?_, fun bytes hbytes => ?_⟩⟩
        · rw [gather, ← hpre, getElem?_append_length]
          simp only [Node.load, if_pos (show npos + len ≤ n.size by omega), gather, bind,
            Except.bind, pure, Except.pure, List.append_nil, Except.ok.injEq]
          rw [List.take_append_of_le_length (by omega)]
        · obtain ⟨hst, hst'⟩ := store_spec (n := n) (p := npos) (x := bytes) (by omega)
          refine ⟨⟨splice n.ptr npos bytes⟩ :: rest, ?_, ?_, rfl, ?_⟩
          · rw [scatter, ← hpre, getElem?_append_length]
            simp only [List.take_of_length_le hbytes, hst, bind, Except.bind, scatter,
              set_append_length]
          · intro m hm
            rcases List.mem_cons.mp hm with rfl | hm
            · rw [hst', hn]
            · exact hrest m hm
          · exact (splice_append_left (by omega)).symm
      · rename_i hfit
        obtain ⟨iovs, hiovs, hsum, hspec⟩ := buffersFrom_spec (L := rest) (i + 1) 0
          (len - (b - npos)) hrest (by omega) (by omega)
          (by rw [List.length_cons, Nat.mul_succ] at hroom; omega)
        refine ⟨⟨i, npos, b - npos⟩ :: iovs, by simp only [hiovs]; rfl, ?_, fun pre hpre => ?_⟩
        · rw [List.map_cons, List.sum_cons, hsum]
          show b - npos + _ = len
          omega
        have hcons (m : Node) : pre ++ m :: rest = (pre ++ [m]) ++ rest := by simp
        have hlen' (m : Node) : (pre ++ [m]).length = i + 1 := by simp [hpre]
        refine ⟨?_, fun bytes hbytes => ?_⟩
        · have hmore := (hspec (pre ++ [n]) (hlen' n)).1
          rw [← hcons, List.drop_zero] at hmore
          rw [gather, ← hpre, getElem?_append_length]
          simp only [Node.load, if_pos (show npos + (b - npos) ≤ n.size by omega), hmore, bind,
            Except.bind, pure, Except.pure, Except.ok.injEq]
          rw [List.take_append, hdroplen, List.take_of_length_le (by omega),
            List.take_of_length_le (l := n.ptr.drop npos) (by omega)]
        · have htake : (bytes.take (b - npos)).length ≤ b - npos := List.length_take_le ..
          obtain ⟨hst, hst'⟩ := store_spec (n := n) (p := npos) (x := bytes.take (b - npos))
            (by omega)
          obtain ⟨L', hL, hL', hLlen, hblocks⟩ :=
            (hspec (pre ++ [⟨splice n.ptr npos (bytes.take (b - npos))⟩]) (hlen' _)).2
              (bytes.drop (b - npos)) (by rw [List.length_drop]; omega)
          refine ⟨⟨splice n.ptr npos (bytes.take (b - npos))⟩ :: L', ?_, ?_, ?_, ?_⟩
          · rw [scatter, ← hpre, getElem?_append_length]
            simp only [hst, bind, Except.bind, set_append_length]
            rw [hcons, hL, List.append_assoc]
            rfl
          · intro m hm
            rcases List.mem_cons.mp hm with rfl | hm
            · rw [hst', hn]
            · exact hL' m hm
          · rw [List.length_cons, List.length_cons, hLlen]
          · rw [blocks_cons, hblocks]
            rcases Nat.lt_or_ge bytes.length (b - npos) with hshort | hlong
            · rw [List.take_of_length_le (Nat.le_of_lt hshort),
                List.drop_eq_nil_of_le (Nat.le_of_lt hshort), splice_nil,
                splice_append_left (by omega)]
            · have hsplit := splice_append_across (a := n.ptr) (b := blocks rest) (p := npos)
                (x := bytes.take (b - npos)) (y := bytes.drop (b - npos))
                (by rw [List.length_take]; omega)
              rw [List.take_append_drop] at hsplit
              exact hsplit.symm

/-- The buffers for the bytes from `q` on. -/
theorem Linked.buffers_spec {ba : ByteArray} (h : Linked ba) {q len : Nat} (hlen : 0 < len)
    (hroom : q + len ≤ ba.capacity) :
    ∃ iovs, buffersFrom (ba.nodes.drop (q / ba.baseSize)) (q / ba.baseSize) (q % ba.baseSize) len =
        .ok iovs ∧ (iovs.map Iovec.len).sum = len ∧
      gather ba.nodes iovs = .ok (((blocks ba.nodes).drop q).take len) ∧
      ∀ bytes : List UInt8, bytes.length ≤ len → ∃ nodes,
        scatter ba.nodes iovs bytes = .ok nodes ∧ Linked { ba with nodes := nodes } ∧
        blocks nodes = splice (blocks ba.nodes) q bytes := by
  have hlt : q < ba.capacity := by omega
  obtain ⟨hi, hoff⟩ := h.node_at hlt
  have hdrop := h.drop_at hlt
  obtain ⟨hpre, hsplit⟩ := h.blocks_split (Nat.le_of_lt hi)
  have hdm := Nat.div_add_mod q ba.baseSize
  obtain ⟨iovs, hiovs, hsum, hspec⟩ := buffersFrom_spec (L := ba.nodes.drop (q / ba.baseSize))
    (q / ba.baseSize) (q % ba.baseSize) len (fun m hm => h.node_size m (List.mem_of_mem_drop hm))
    hoff hlen ((h.room_at hlt).mpr hroom)
  have htake : (ba.nodes.take (q / ba.baseSize)).length = q / ba.baseSize := by
    rw [List.length_take]
    omega
  obtain ⟨hgather, hscatter⟩ := hspec _ htake
  rw [List.take_append_drop] at hgather
  refine ⟨iovs, hiovs, hsum, by rw [hgather, hdrop], fun bytes hbytes => ?_⟩
  obtain ⟨L', hL', hsize', hlen', hblocks⟩ := hscatter bytes hbytes
  rw [List.take_append_drop] at hL'
  have hnodes : (ba.nodes.take (q / ba.baseSize) ++ L').length = ba.nodes.length := by
    rw [List.length_append, hlen', htake, List.length_drop]
    omega
  refine ⟨_, hL', ⟨h.base_pos, fun m hm => (List.mem_append.mp hm).elim
      (fun hm => h.node_size m (List.mem_of_mem_take hm)) (hsize' m), hnodes ▸ h.nodes_pos,
      hnodes ▸ h.capacity_eq, h.position_le, h.size_le, h.cur_eq⟩, ?_⟩
  rw [blocks_append, hblocks, hsplit, ← splice_append_right, hpre, hdm]

theorem Linked.cursorBuffers_eq {ba : ByteArray} (h : Linked ba) (hlt : ba.position < ba.capacity)
    (len : Nat) : ba.cursorBuffers len = buffersFrom (ba.nodes.drop (ba.position / ba.baseSize))
      (ba.position / ba.baseSize) (ba.position % ba.baseSize) len := by
  rw [cursorBuffers, (h.cursor_node hlt).1]

/-- Bytes stored behind the cursor of an array that has grown are in its
content once the cursor is moved over them. -/
theorem Grown.content_splice {ba g : ByteArray} (h : Linked ba) (hg : Grown ba g)
    {bytes : List UInt8} (hroom : ba.position + bytes.length ≤ g.capacity) :
    (splice (blocks g.nodes) g.position bytes).take (max ba.size (ba.position + bytes.length)) =
      splice ba.content ba.position bytes := by
  obtain ⟨new, hnew⟩ := hg.nodes
  have hold : (blocks g.nodes).take ba.size = ba.content := by
    have hle : ba.size ≤ (blocks ba.nodes).length := h.length_blocks ▸ h.size_le
    rw [hnew, blocks_append, List.take_append_of_le_length hle, content]
  rw [← hold, hg.position]
  exact take_max_splice h.position_le (by rw [hg.linked.length_blocks]; exact hroom)

end ByteArray

/-! ## The socket -/

structure Peer where
  incoming : List UInt8
  sent : List UInt8
  results : List (Option Int)
deriving Repr, DecidableEq

namespace Peer

def isConnected (p : Peer) : Bool :=
  p.results.head? != some none

/-- What a call that could transfer `n` bytes returns. -/
def result (p : Peer) (n : Nat) : Int :=
  match p.results with
  | some r :: _ => min r n
  | _ => n

/-- `recvmsg` into buffers of `n` bytes; 0 at the end of the stream. -/
def recv (p : Peer) (n : Nat) : Int × List UInt8 × Peer :=
  let rt := p.result (min n p.incoming.length)
  (rt, p.incoming.take rt.toNat,
    { p with incoming := p.incoming.drop rt.toNat, results := p.results.tail })

/-- `sendmsg` of `bytes`. -/
def send (p : Peer) (bytes : List UInt8) : Int × Peer :=
  let rt := p.result bytes.length
  (rt, { p with sent := p.sent ++ bytes.take rt.toNat, results := p.results.tail })

end Peer

namespace Stream

/-- An outcome, the array and the peer. -/
abbrev Res := Except Fault Int × ByteArray × Peer

/-- The rest of `SocketStream::read` and `write`, after `rt` bytes. -/
def advance (ba : ByteArray) (p : Peer) (rt : Int) : Res :=
  if rt > 0 then
    match ba.setPosition (ba.position + rt.toNat) with
    | (.error e, ba) => (.error e, ba, p)
    | (.ok (), ba) => (.ok rt, ba, p)
  else (.ok rt, ba, p)

/-- `SocketStream::read(ba, length)`. -/
def read (heap : Nat → Nat → UInt8) (ba : ByteArray) (p : Peer) (length : Nat) : Res :=
  if !p.isConnected then (.ok (-1), ba, { p with results := p.results.tail })
  else
    match ba.getWriteBuffers heap length with
    | (.error e, ba) => (.error e, ba, p)
    | (.ok iovs, ba) =>
        match p.recv (iovs.map Iovec.len).sum with
        | (rt, bytes, p) =>
            match ByteArray.scatter ba.nodes iovs bytes with
            | .error e => (.error e, ba, p)
            | .ok nodes => advance { ba with nodes := nodes } p rt

/-- `SocketStream::write(ba, length)`. -/
def write (ba : ByteArray) (p : Peer) (length : Nat) : Res :=
  if !p.isConnected then (.ok (-1), ba, { p with results := p.results.tail })
  else
    match ba.getReadBuffers length with
    | .error e => (.error e, ba, p)
    | .ok iovs =>
        match ByteArray.gather ba.nodes iovs with
        | .error e => (.error e, ba, p)
        | .ok bytes =>
            match p.send bytes with
            | (rt, p) => advance ba p rt

/-- The loop of `readFixSize` and `writeFixSize`; each round transfers
a byte at least, or ends the loop. -/
def fixSize (step : ByteArray → Peer → Nat → Res) (length : Nat) :
    Nat → ByteArray → Peer → Nat → Res
  | 0, ba, p, _ => (.ok (toInt32 length), ba, p)
  | fuel + 1, ba, p, left =>
      if left = 0 then (.ok (toInt32 length), ba, p)
      else
        match step ba p left with
        | (.error e, ba, p) => (.error e, ba, p)
        | (.ok len, ba, p) =>
            if len ≤ 0 then (.ok len, ba, p)
            else fixSize step length fuel ba p (left - len.toNat)

/-- `readFixSize(ba, length)`. -/
def readFixSize (heap : Nat → Nat → UInt8) (ba : ByteArray) (p : Peer) (length : Nat) : Res :=
  fixSize (read heap) length length ba p length

/-- `writeFixSize(ba, length)`. -/
def writeFixSize (ba : ByteArray) (p : Peer) (length : Nat) : Res :=
  fixSize write length length ba p length

/-! ## One call -/

variable {ba : ByteArray} {p : Peer} {n : Nat}

theorem result_le (p : Peer) (n : Nat) : p.result n ≤ n := by
  unfold Peer.result
  split
  · exact Int.min_le_right ..
  · exact Int.le_refl _

/-- `k` bytes of the stream have been written at the cursor. -/
structure Received (ba : ByteArray) (p : Peer) (k : Nat) (ba' : ByteArray) (p' : Peer) : Prop where
  le : k ≤ p.incoming.length
  wrote : ba.Wrote ba' (p.incoming.take k)
  incoming : p'.incoming = p.incoming.drop k

/-- `k` bytes at the cursor have been sent. -/
structure Sent (ba : ByteArray) (p : Peer) (k : Nat) (ba' : ByteArray) (p' : Peer) : Prop where
  le : k ≤ ba.getReadSize
  linked : ba'.Linked
  content : ba'.content = ba.content
  position : ba'.position = ba.position + k
  size : ba'.size = ba.size
  sent : p'.sent = p.sent ++ (ba.content.drop ba.position).take k

theorem Received.refl (h : ba.Linked) {p p' : Peer} (hp : p'.incoming = p.incoming) :
    Received ba p 0 ba p' :=
  ⟨Nat.zero_le _, by simpa using ByteArray.Wrote.refl h, by simpa using hp⟩

theorem Sent.refl (h : ba.Linked) {p p' : Peer} (hp : p'.sent = p.sent) :
    Sent ba p 0 ba p' :=
  ⟨Nat.zero_le _, h, rfl, rfl, rfl, by simpa using hp⟩

theorem read_spec (h : ba.Linked) (heap : Nat → Nat → UInt8) (p : Peer) (hn : 0 < n)
    (hlt : n < 2 ^ 53) :
    ∃ rt ba' p', read heap ba p n = (.ok rt, ba', p') ∧ rt.toNat ≤ n ∧
      Received ba p rt.toNat ba' p' := by
  by_cases hconn : p.isConnected = false
  · refine ⟨-1, ba, { p with results := p.results.tail }, ?_, Nat.zero_le _, ?_⟩
    · rw [read, if_pos (by rw [hconn]; rfl)]
    · exact .refl h rfl
  have hgrown := (ByteArray.addCapacity_grown h heap n).1
  have ⟨hL, _, hbase, hpos, hsize, hendian, hcap⟩ := hgrown
  have hroom := ByteArray.addCapacity_room h heap hlt
  have hrt := result_le p (min n p.incoming.length)
  have hrecv : p.recv n = (p.result (min n p.incoming.length),
    p.incoming.take (p.result (min n p.incoming.length)).toNat,
    { p with
      incoming := p.incoming.drop (p.result (min n p.incoming.length)).toNat
      results := p.results.tail }) := rfl
  rw [read, if_neg (by simpa using hconn), ByteArray.getWriteBuffers, if_neg (Nat.ne_of_gt hn)]
  set g := ba.addCapacity heap n
  set rt := p.result (min n p.incoming.length)
  obtain ⟨iovs, hiovs, hsum, -, hscatter⟩ := hL.buffers_spec (q := g.position) hn (by omega)
  have hbuffers : g.cursorBuffers n = .ok iovs := (hL.cursorBuffers_eq (by omega) n).trans hiovs
  have hbytes : (p.incoming.take rt.toNat).length = rt.toNat := by
    rw [List.length_take]
    omega
  -- the array with the filled buffers, before the cursor moves
  obtain ⟨nodes, hL', hfilled, hall⟩ := hscatter (p.incoming.take rt.toNat) (by omega)
  have hcontent : (ByteArray.blocks nodes).take (max ba.size (ba.position + rt.toNat)) =
      splice ba.content ba.position (p.incoming.take rt.toNat) := by
    have hstay : ba.position + (p.incoming.take rt.toNat).length ≤ g.capacity := by omega
    have hsplice := hgrown.content_splice h hstay
    rw [hall, ← hsplice, hbytes]
  simp only [hbuffers, hsum, hrecv, hL', advance]
  by_cases hgot : rt > 0
  · obtain ⟨ba', hset, hlinked, -, hp, hs, hb, he, hc⟩ :=
      ByteArray.setPosition_spec hfilled (v := g.position + rt.toNat) (by
        show _ ≤ g.capacity
        omega)
    have hsame : ba'.nodes = nodes := by
      have hsn := @ByteArray.setPosition_nodes { g with nodes := nodes } (g.position + rt.toNat)
      rwa [hset] at hsn
    have hs' : ba'.size = max ba.size (ba.position + rt.toNat) := by
      rw [hs, hpos]
      exact congrArg (max · _) hsize
    rw [if_pos hgot, hset]
    refine ⟨rt, ba', _, rfl, by omega, by omega, ⟨hlinked, ?_, ?_, ?_, hb.trans hbase,
      he.trans hendian, hcap.trans (Nat.le_of_eq hc.symm)⟩, rfl⟩
    · rw [ByteArray.content, hsame, hs', hcontent]
    · rw [hp, hpos, hbytes]
    · rw [hs', hbytes]
  · have hzero : rt.toNat = 0 := by omega
    have hposle := h.position_le
    rw [if_neg hgot]
    refine ⟨rt, _, _, rfl, by omega, by omega, ⟨hfilled, ?_, ?_, ?_, hbase, hendian, hcap⟩, rfl⟩
    · rw [← hcontent, hzero, Nat.add_zero, Nat.max_eq_left hposle]
      exact congrArg (List.take · _) hsize
    · rw [hbytes, hzero]
      exact hpos
    · rw [hbytes, hzero, Nat.add_zero, Nat.max_eq_left hposle]
      exact hsize

theorem write_spec (h : ba.Linked) (p : Peer) (hn : 0 < n) (hle : n ≤ ba.getReadSize) :
    ∃ rt ba' p', write ba p n = (.ok rt, ba', p') ∧ rt.toNat ≤ n ∧
      Sent ba p rt.toNat ba' p' := by
  by_cases hconn : p.isConnected = false
  · refine ⟨-1, ba, { p with results := p.results.tail }, ?_, Nat.zero_le _, ?_⟩
    · rw [write, if_pos (by rw [hconn]; rfl)]
    · exact .refl h rfl
  have hread : ba.getReadSize = ba.size - ba.position := rfl
  have hsc := h.size_le
  have hps := h.position_le
  rw [write, if_neg (by simpa using hconn), ByteArray.getReadBuffers]
  simp only [if_neg (Nat.not_lt_of_le hle), if_neg (Nat.ne_of_gt hn)]
  obtain ⟨iovs, hiovs, -, hgather, -⟩ := h.buffers_spec (q := ba.position) hn (by omega)
  have hbuffers : ba.cursorBuffers n = .ok iovs := (h.cursorBuffers_eq (by omega) n).trans hiovs
  rw [ByteArray.content_slice (by omega)] at hgather
  have hlen : ((ba.content.drop ba.position).take n).length = n := by
    rw [List.length_take, List.length_drop, h.length_content]
    omega
  simp only [hbuffers, hgather, Peer.send, hlen, advance]
  have hrt := result_le p n
  set rt := p.result n
  have hsent : ((ba.content.drop ba.position).take n).take rt.toNat =
      (ba.content.drop ba.position).take rt.toNat := by
    rw [List.take_take, Nat.min_eq_left (by omega)]
  rw [hsent]
  by_cases hgot : rt > 0
  · obtain ⟨ba', hset, hlinked, hcontent, hp, hs, -⟩ :=
      ByteArray.setPosition_spec h (v := ba.position + rt.toNat) (by omega)
    have hs' : ba'.size = ba.size := by
      rw [hs]
      omega
    rw [if_pos hgot, hset]
    refine ⟨rt, ba', _, rfl, by omega, by omega, hlinked, ?_, hp, hs', rfl⟩
    rw [← hcontent, List.take_of_length_le]
    rw [hlinked.length_content, hs']
  · rw [if_neg hgot]
    exact ⟨rt, _, _, rfl, by omega, by omega, h, rfl, by omega, rfl, rfl⟩

/-! ## Any number of calls -/

theorem Received.trans {a b c : ByteArray} {p q r : Peer} {i j : Nat} (ha : a.Linked)
    (h : Received a p i b q) (h' : Received b q j c r) : Received a p (i + j) c r where
  le := by
    have hle := h.le
    have hle' := h'.le
    rw [h.incoming, List.length_drop] at hle'
    omega
  wrote := by
    have hwrote := h.wrote.trans ha h'.wrote
    rwa [h.incoming, ← List.take_add] at hwrote
  incoming := by rw [h'.incoming, h.incoming, List.drop_drop]

theorem Sent.trans {a b c : ByteArray} {p q r : Peer} {i j : Nat} (h : Sent a p i b q)
    (h' : Sent b q j c r) : Sent a p (i + j) c r where
  le := by
    have hle := h.le
    have hle' := h'.le
    simp only [ByteArray.getReadSize, h.position, h.size] at hle hle' ⊢
    omega
  linked := h'.linked
  content := h'.content.trans h.content
  position := by rw [h'.position, h.position, Nat.add_assoc]
  size := h'.size.trans h.size
  sent := by
    rw [h'.sent, h.sent, h.content, h.position, List.append_assoc, ← List.drop_drop,
      ← List.take_add]

/-- The loop makes calls `T` as long as they transfer something: in the
end all of `left` is transferred, or a call has returned nothing. `P` is
what a call relies on. -/
theorem fixSize_spec (step : ByteArray → Peer → Nat → Res) (length : Nat)
    {P : ByteArray → Nat → Prop} {T : ByteArray → Peer → Nat → ByteArray → Peer → Prop}
    (hrefl : ∀ {ba p left}, P ba left → T ba p 0 ba p)
    (htrans : ∀ {a b c p q r i j left}, P a left → T a p i b q → T b q j c r → T a p (i + j) c r)
    (hstep : ∀ ba p left, P ba left → 0 < left → ∃ rt ba' p', step ba p left = (.ok rt, ba', p') ∧
      rt.toNat ≤ left ∧ T ba p rt.toNat ba' p' ∧ P ba' (left - rt.toNat)) :
    ∀ (fuel : Nat) (ba : ByteArray) (p : Peer) (left : Nat), P ba left → left ≤ fuel →
      ∃ k rt ba' p', fixSize step length fuel ba p left = (.ok rt, ba', p') ∧
        (k = left ∧ rt = toInt32 length ∨ k < left ∧ rt ≤ 0) ∧ T ba p k ba' p'
  | 0, ba, p, left, hP, hfuel => by
      obtain rfl : left = 0 := by omega
      exact ⟨0, _, ba, p, rfl, .inl ⟨rfl, rfl⟩, hrefl hP⟩
  | fuel + 1, ba, p, left, hP, hfuel => by
      rw [fixSize]
      split
      · rename_i hzero
        subst hzero
        exact ⟨0, _, ba, p, rfl, .inl ⟨rfl, rfl⟩, hrefl hP⟩
      · rename_i hleft
        obtain ⟨rt, ba', p', hcall, hle, hT, hP'⟩ := hstep ba p left hP (by omega)
        simp only [hcall]
        split
        · rename_i hstop
          exact ⟨rt.toNat, rt, ba', p', rfl, .inr ⟨by omega, hstop⟩, hT⟩
        · obtain ⟨k, rt', ba'', p'', hrun, hend, hT'⟩ := fixSize_spec step length hrefl
            htrans hstep fuel ba' p' (left - rt.toNat) hP' (by omega)
          exact ⟨rt.toNat + k, rt', ba'', p'', hrun, by omega, htrans hP hT hT'⟩

/-- The loop gets from one place to another by calls that transfer
something. -/
inductive Calls (step : ByteArray → Peer → Nat → Res) :
    ByteArray → Peer → Nat → ByteArray → Peer → Nat → Prop
  | refl {ba : ByteArray} {p : Peer} {left : Nat} : Calls step ba p left ba p left
  | call {ba ba₁ ba' : ByteArray} {p p₁ p' : Peer} {left left' : Nat} {len : Int} : 0 < left →
      step ba p left = (.ok len, ba₁, p₁) → 0 < len →
      Calls step ba₁ p₁ (left - len.toNat) ba' p' left' → Calls step ba p left ba' p' left'

/-- A result other than the length is that of a call which has returned
nothing, when there was something left. -/
theorem fixSize_short {step : ByteArray → Peer → Nat → Res} {length : Nat} {rt : Int} :
    ∀ {fuel : Nat} {ba ba' : ByteArray} {p p' : Peer} {left : Nat},
      fixSize step length fuel ba p left = (.ok rt, ba', p') → rt ≠ toInt32 length →
      rt ≤ 0 ∧ ∃ ba₀ p₀ left₀, Calls step ba p left ba₀ p₀ left₀ ∧ 0 < left₀ ∧
        step ba₀ p₀ left₀ = (.ok rt, ba', p')
  | 0, ba, ba', p, p', left, h, hrt => by
      rw [fixSize] at h
      exact absurd (Except.ok.inj (Prod.mk.inj h).1).symm hrt
  | fuel + 1, ba, ba', p, p', left, h, hrt => by
      rw [fixSize] at h
      split at h
      · exact absurd (Except.ok.inj (Prod.mk.inj h).1).symm hrt
      rename_i hleft
      cases hcall : step ba p left with
      | mk result rest =>
          obtain ⟨ba₁, p₁⟩ := rest
          cases result with
          | error e =>
              rw [hcall] at h
              cases (Prod.mk.inj h).1
          | ok len =>
              simp only [hcall] at h
              split at h
              · rename_i hstop
                obtain ⟨hlen, hrest⟩ := Prod.mk.inj h
                obtain rfl := Except.ok.inj hlen
                obtain ⟨rfl, rfl⟩ := Prod.mk.inj hrest
                exact ⟨hstop, ba, p, left, .refl, Nat.pos_of_ne_zero hleft, hcall⟩
              · rename_i hgo
                obtain ⟨hle, ba₀, p₀, left₀, hcalls, hpos, hlast⟩ := fixSize_short h hrt
                exact ⟨hle, ba₀, p₀, left₀, .call (Nat.pos_of_ne_zero hleft) hcall
                  (Int.not_le.mp hgo) hcalls, hpos, hlast⟩

/-- Whatever the socket answers, `readFixSize` puts the next `k` bytes
of the stream at the cursor and `writeFixSize` sends the `k` bytes at
it, and moves the cursor by `k`; it succeeds exactly when that is all of
`n`. -/
theorem fixSize_exact (h : ba.Linked) (heap : Nat → Nat → UInt8) (p : Peer) (hn : n < 2 ^ 31) :
    (∃ k rt ba' p', readFixSize heap ba p n = (.ok rt, ba', p') ∧
      (k = n ∧ rt = n ∨ k < n ∧ rt ≤ 0) ∧ k ≤ p.incoming.length ∧
      ba'.content.take ba.position = ba.content.take ba.position ∧
      (ba'.content.drop ba.position).take k = p.incoming.take k ∧
      ba'.position = ba.position + k ∧ p'.incoming = p.incoming.drop k) ∧
    (n ≤ ba.getReadSize → ∃ k rt ba' p', writeFixSize ba p n = (.ok rt, ba', p') ∧
      (k = n ∧ rt = n ∨ k < n ∧ rt ≤ 0) ∧ ba'.content = ba.content ∧
      p'.sent = p.sent ++ (ba.content.drop ba.position).take k ∧
      ba'.position = ba.position + k) := by
  have hint : toInt32 n = n := toInt32_eq hn
  constructor
  · obtain ⟨k, rt, ba', p', hrun, hend, hT⟩ := fixSize_spec (read heap) n
      (P := fun ba left => ba.Linked ∧ left < 2 ^ 31) (T := Received)
      (fun hP => .refl hP.1 rfl) (fun hP hT hT' => hT.trans hP.1 hT')
      (fun ba p left hP hleft => by
        obtain ⟨rt, ba', p', hcall, hle, hT⟩ := read_spec hP.1 heap p hleft (by omega)
        exact ⟨rt, ba', p', hcall, hle, hT, hT.wrote.linked, by omega⟩)
      n ba p n ⟨h, hn⟩ (Nat.le_refl n)
    have hk : (p.incoming.take k).length = k := by
      rw [List.length_take]
      exact Nat.min_eq_left hT.le
    have hpos : ba.position ≤ ba.content.length := by
      rw [h.length_content]
      exact h.position_le
    refine ⟨k, rt, ba', p', hrun, hint ▸ hend, hT.le, ?_, ?_, ?_, hT.incoming⟩
    · rw [hT.wrote.content, take_splice hpos]
    · have hslice := take_drop_splice (x := p.incoming.take k) hpos
      rwa [hk, ← hT.wrote.content] at hslice
    · rw [hT.wrote.position, hk]
  · intro hle
    obtain ⟨k, rt, ba', p', hrun, hend, hT⟩ := fixSize_spec write n
      (P := fun ba left => ba.Linked ∧ left ≤ ba.getReadSize) (T := Sent)
      (fun hP => .refl hP.1 rfl) (fun _ hT hT' => hT.trans hT')
      (fun ba p left hP hleft => by
        obtain ⟨rt, ba', p', hcall, hle, hT⟩ := write_spec hP.1 p hleft hP.2
        refine ⟨rt, ba', p', hcall, hle, hT, hT.linked, ?_⟩
        have := hP.2
        simp only [ByteArray.getReadSize, hT.size, hT.position] at this ⊢
        omega)
      n ba p n ⟨h, hle⟩ (Nat.le_refl n)
    exact ⟨k, rt, ba', p', hrun, hint ▸ hend, hT.content, hT.sent, hT.position⟩

/-- Three bytes in blocks of two, at the cursor. -/
def three : ByteArray :=
  { baseSize := 2, position := 0, capacity := 4, size := 3, endian := .big
    nodes := [⟨[7, 8]⟩, ⟨[9, 0]⟩], cur := some 0 }

theorem three_linked : three.Linked where
  base_pos := Nat.zero_lt_two
  node_size := by decide
  nodes_pos := Nat.zero_lt_two
  capacity_eq := rfl
  position_le := Nat.zero_le 3
  size_le := by decide
  cur_eq := rfl

/-- Three of four bytes come in two calls, into blocks of two, before
the connection is gone; three bytes are sent in two calls; and two of
them, before the third call fails. -/
theorem fixSize_exact_interrupted :
    (∃ ba' p', readFixSize (fun _ _ => 0) (.new 2 fun _ _ => 0)
      ⟨[1, 2, 3, 4], [], [some 1, some 5, none]⟩ 3 = (.ok 3, ba', p') ∧
      ba'.content.take 3 = [1, 2, 3] ∧ ba'.position = 3 ∧ p'.incoming = [4]) ∧
    (∃ ba' p', writeFixSize three ⟨[], [], [some 1, some 5]⟩ 3 = (.ok 3, ba', p') ∧
      p'.sent = [7, 8, 9] ∧ ba'.position = 3) ∧
    ∃ ba' p', writeFixSize three ⟨[], [], [some 1, some 1, some (-1)]⟩ 3 = (.ok (-1), ba', p') ∧
      p'.sent = [7, 8] ∧ ba'.position = 2 := by
  refine ⟨?_, ?_, ?_⟩
  · obtain ⟨⟨k, rt, ba', p', hrun, hend, -, -, hbytes, hpos, hin⟩, -⟩ :=
      fixSize_exact (ByteArray.new_linked Nat.zero_lt_two fun _ _ => 0) (fun _ _ => 0)
        ⟨[1, 2, 3, 4], [], [some 1, some 5, none]⟩ (n := 3) (by decide)
    have hrt : (readFixSize (fun _ _ => 0) (.new 2 fun _ _ => 0)
        ⟨[1, 2, 3, 4], [], [some 1, some 5, none]⟩ 3).1 = .ok 3 := by decide +kernel
    obtain rfl : rt = 3 := by simpa [hrun] using hrt
    obtain rfl : k = 3 := by omega
    exact ⟨ba', p', hrun, hbytes, hpos, hin⟩
  · obtain ⟨k, rt, ba', p', hrun, hend, -, hsent, hpos⟩ :=
      (fixSize_exact three_linked (fun _ _ => 0) ⟨[], [], [some 1, some 5]⟩ (n := 3)
        (by decide)).2 (by decide)
    have hrt : (writeFixSize three ⟨[], [], [some 1, some 5]⟩ 3).1 = .ok 3 := by decide +kernel
    obtain rfl : rt = 3 := by simpa [hrun] using hrt
    obtain rfl : k = 3 := by omega
    exact ⟨ba', p', hrun, hsent, hpos⟩
  · obtain ⟨k, rt, ba', p', hrun, -, -, hsent, hpos⟩ :=
      (fixSize_exact three_linked (fun _ _ => 0) ⟨[], [], [some 1, some 1, some (-1)]⟩ (n := 3)
        (by decide)).2 (by decide)
    have hrun' : (writeFixSize three ⟨[], [], [some 1, some 1, some (-1)]⟩ 3).1 = .ok (-1) ∧
        (writeFixSize three ⟨[], [], [some 1, some 1, some (-1)]⟩ 3).2.1.position = 2 := by
      decide +kernel
    rw [hrun] at hrun'
    obtain rfl : rt = -1 := by simpa using hrun'.1
    obtain rfl : k = 2 := by
      have hk := hrun'.2
      simp only [hpos, three] at hk
      omega
    exact ⟨ba', p', hrun, hsent, hpos⟩

end Stream

end Sylar
