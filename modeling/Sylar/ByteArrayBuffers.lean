import Sylar.ByteArrayPositional

/-!
# Scatter and gather against plain `read` and `write`

What `getReadBuffers` gathers is what `read` of as many bytes would
return, and what is stored through `getWriteBuffers` is, once the cursor
is moved over it, what `write` would have written. Both take it for
granted that `addCapacity` has made room, which is a matter of its
arithmetic: the number of blocks is computed in `double`.
-/

namespace Sylar

namespace ByteArray

/-- `getReadBuffers(buffers, len)`: what it returns, and what it appends. -/
def getReadBuffersLen (ba : ByteArray) (len : Nat) : Except Fault (Nat × List Iovec) := do
  let iovs ← ba.getReadBuffers len
  return (if len > ba.getReadSize then ba.getReadSize else len, iovs)

/-- `getWriteBuffers(buffers, len)`, likewise. -/
def getWriteBuffersLen (heap : Nat → Nat → UInt8) (ba : ByteArray) (len : Nat) :
    Res (Nat × List Iovec) :=
  (ba.getWriteBuffers heap len).map (Except.map fun iovs => (len, iovs)) id

variable {ba g : ByteArray} {heap : Nat → Nat → UInt8} {base len : Nat}

/-! ## Walking the chain -/

/-- The loop of the buffers only comes to its end inside the chain. -/
theorem buffersFrom_room {b : Nat} : ∀ {L : List Node} {i npos len : Nat} {iovs : List Iovec},
    (∀ m ∈ L, m.size = b) → npos < b → 0 < len → buffersFrom L i npos len = .ok iovs →
    npos + len ≤ b * L.length
  | [], _, _, _, _, _, _, _, hok => nomatch hok
  | m :: rest, i, npos, len, iovs, hsize, hnpos, hlen, hok => by
      have hm : m.size = b := hsize m (List.mem_cons_self ..)
      rw [buffersFrom, hm] at hok
      rw [List.length_cons, Nat.mul_succ]
      split at hok
      · omega
      · obtain ⟨more, hmore, -⟩ := bind_eq_ok.mp hok
        have := buffersFrom_room (fun k hk => hsize k (List.mem_cons_of_mem _ hk)) (by omega)
          (by omega) hmore
        omega

/-- Each buffer is in a node of its own. -/
theorem buffersFrom_nodes : ∀ {L : List Node} {i npos len : Nat} {iovs : List Iovec},
    buffersFrom L i npos len = .ok iovs →
    (∀ v ∈ iovs, i ≤ v.node) ∧ iovs.Pairwise fun v w => v.node < w.node
  | [], _, _, _, _, hok => nomatch hok
  | m :: rest, i, npos, len, iovs, hok => by
      rw [buffersFrom] at hok
      split at hok
      · obtain rfl := Except.ok.inj hok
        simp
      · obtain ⟨more, hmore, hret⟩ := bind_eq_ok.mp hok
        obtain rfl := Except.ok.inj hret
        obtain ⟨hge, hpair⟩ := buffersFrom_nodes hmore
        refine ⟨?_, List.pairwise_cons.mpr ⟨hge, hpair⟩⟩
        intro v hv
        rcases List.mem_cons.mp hv with rfl | hv
        · exact Nat.le_refl _
        · exact Nat.le_of_succ_le (hge v hv)

/-- `addCapacity` has made room exactly if it computes enough blocks. -/
theorem addCapacity_enough (h : Linked ba) (hlen : 0 < len) :
    ba.position + len ≤ (ba.addCapacity heap len).capacity ↔ len ≤ ba.getCapacity ∨
      len - ba.getCapacity ≤ ba.baseSize * nodeCount (len - ba.getCapacity) ba.baseSize := by
  have hpc : ba.position ≤ ba.capacity := Nat.le_trans h.position_le h.size_le
  have hroomdef : ba.getCapacity = ba.capacity - ba.position := rfl
  obtain ⟨hgrown, hcap⟩ := addCapacity_grown h heap len
  have hle := hgrown.capacity
  rcases Nat.lt_or_ge ba.getCapacity len with hmore | hfree
  · rw [hcap hlen hmore]
    omega
  · omega

/-- Growing leaves the content as it is. -/
theorem Grown.content (h : Linked ba) (hg : Grown ba g) : g.content = ba.content := by
  obtain ⟨new, hnew⟩ := hg.nodes
  have hle : ba.size ≤ (blocks ba.nodes).length := h.length_blocks ▸ h.size_le
  rw [ByteArray.content, ByteArray.content, hg.size, hnew, blocks_append,
    List.take_append_of_le_length hle]

/-! ## Gathering -/

/-- What is gathered is what would be read. A `read` of nothing may not
return. -/
def GathersRead (ba : ByteArray) (len : Nat) : Prop :=
  ∃ iovs bytes, ba.getReadBuffersLen len = .ok (min len ba.getReadSize, iovs) ∧
    gather ba.nodes iovs = .ok bytes ∧
    bytes = (ba.content.drop ba.position).take (min len ba.getReadSize) ∧
    (0 < min len ba.getReadSize → (ba.read (min len ba.getReadSize)).1 = .ok bytes) ∧
    ∀ more, (ba.read (min len ba.getReadSize)).1 = .ok more → more = bytes

theorem gathersRead (h : Linked ba) (len : Nat) : ba.GathersRead len := by
  have hps := h.position_le
  have hsc := h.size_le
  have hread : ba.getReadSize = ba.size - ba.position := rfl
  rw [GathersRead, getReadBuffersLen, getReadBuffers, min_readSize]
  split
  · rename_i hzero
    refine ⟨[], [], rfl, rfl, by rw [hzero]; rfl, fun hpos => by omega, fun more hmore => ?_⟩
    have hlength := length_of_read h (Prod.ext hmore rfl)
    exact List.eq_nil_of_length_eq_zero (hlength.trans hzero)
  · have hin : ba.position + min len ba.getReadSize ≤ ba.capacity := by omega
    obtain ⟨iovs, hiovs, -, hgather, -⟩ := h.buffers_spec (by omega) hin
    obtain ⟨ba', hok, -⟩ := read_spec h (n := min len ba.getReadSize) (by omega) (by omega)
    rw [content_slice (by omega)] at hgather
    refine ⟨iovs, _, ?_, hgather, rfl, fun _ => by rw [hok], fun more hmore => ?_⟩
    · rw [h.cursorBuffers_eq (by omega), hiovs]
      rfl
    · rw [hok] at hmore
      exact (Except.ok.inj hmore).symm

/-! ## Scattering -/

/-- The buffers share no memory. -/
def Apart (v w : Iovec) : Prop :=
  v.node ≠ w.node ∨ v.off + v.len ≤ w.off ∨ w.off + w.len ≤ v.off

/-- What is stored through the buffers is what would be written, and
nothing is changed before. -/
structure StoresWrite (heap : Nat → Nat → UInt8) (ba : ByteArray) (len : Nat) (iovs : List Iovec)
    (g : ByteArray) : Prop where
  total : (iovs.map Iovec.len).sum = len
  apart : iovs.Pairwise Apart
  content : g.content = ba.content
  position : g.position = ba.position
  size : g.size = ba.size
  store : ∀ bytes : List UInt8, bytes.length = len → ∃ nodes ba₁ ba₂,
    scatter g.nodes iovs bytes = .ok nodes ∧
    ({ g with nodes := nodes }.setPosition (ba.position + len)) = (.ok (), ba₁) ∧
    ba.write heap bytes = (.ok (), ba₂) ∧ ba₁.content = ba₂.content ∧ ba₁.size = ba₂.size ∧
    ba₁.position = ba₂.position ∧ ba₁.cur = ba₂.cur

/-- `getWriteBuffers` returns, with buffers of that kind. -/
def ScattersWrite (heap : Nat → Nat → UInt8) (ba : ByteArray) (len : Nat) : Prop :=
  ∃ iovs g, ba.getWriteBuffersLen heap len = (.ok (len, iovs), g) ∧
    StoresWrite heap ba len iovs g

/-- It only returns if there is room. -/
theorem getWriteBuffers_room (h : Linked ba) (hlen : 0 < len) {r : Nat × List Iovec}
    (hok : ba.getWriteBuffersLen heap len = (.ok r, g)) :
    ba.position + len ≤ (ba.addCapacity heap len).capacity := by
  have hgrown := (addCapacity_grown h heap len).1
  have hL := hgrown.linked
  rw [getWriteBuffersLen, getWriteBuffers, if_neg (Nat.ne_of_gt hlen)] at hok
  rw [← hgrown.position]
  set big := ba.addCapacity heap len
  dsimp only at hok
  rcases Nat.lt_or_ge big.position big.capacity with hlt | hend
  · rw [hL.cursorBuffers_eq hlt] at hok
    have hok := (Prod.mk.inj hok).1
    cases hloop : buffersFrom (big.nodes.drop (big.position / big.baseSize))
        (big.position / big.baseSize) (big.position % big.baseSize) len with
    | error e =>
        rw [hloop] at hok
        cases hok
    | ok iovs =>
        refine (hL.room_at hlt).mp (buffersFrom_room (fun m hm =>
          hL.node_size m (List.mem_of_mem_drop hm)) (hL.node_at hlt).2 hlen hloop)
  · have hps := hL.position_le
    have hsc := hL.size_le
    have hcur := hL.cur_eq
    rw [if_pos (by omega)] at hcur
    rw [cursorBuffers, hcur] at hok
    cases (Prod.mk.inj hok).1

theorem storesWrite (h : Linked ba) (hlen : 0 < len)
    (hroom : ba.position + len ≤ (ba.addCapacity heap len).capacity) :
    ba.ScattersWrite heap len := by
  have hgrown := (addCapacity_grown h heap len).1
  have ⟨hL, _, hbase, hpos, hsize, _, _⟩ := hgrown
  have hps := h.position_le
  rw [ScattersWrite, getWriteBuffersLen, getWriteBuffers, if_neg (Nat.ne_of_gt hlen)]
  have hwrite (bytes : List UInt8) (hbytes : bytes.length = len) :
      ∃ ba₂, ba.write heap bytes = (.ok (), ba₂) ∧ Wrote ba ba₂ bytes ∧
        ba₂.capacity = (ba.addCapacity heap len).capacity := by
    subst hbytes
    exact write_grown h heap (List.ne_nil_of_length_pos hlen) hroom
  set big := ba.addCapacity heap len
  obtain ⟨iovs, hiovs, hsum, -, hscatter⟩ := hL.buffers_spec (q := big.position) hlen (by omega)
  obtain ⟨-, hpair⟩ := buffersFrom_nodes hiovs
  refine ⟨iovs, big, ?_, hsum, hpair.imp fun hlt => .inl (Nat.ne_of_lt hlt), hgrown.content h,
    hpos, hsize, fun bytes hbytes => ?_⟩
  · dsimp only
    rw [hL.cursorBuffers_eq (by omega), hiovs]
    rfl
  · obtain ⟨nodes, hstored, hfilled, hall⟩ := hscatter bytes (Nat.le_of_eq hbytes)
    obtain ⟨ba₁, hset, hL₁, -, hp₁, hs₁, hb₁, -, hc₁⟩ :=
      setPosition_spec hfilled (v := ba.position + len) hroom
    obtain ⟨ba₂, hw, hwrote, hc₂⟩ := hwrite bytes hbytes
    have hsame : ba₁.nodes = nodes := by
      have hsn := @setPosition_nodes { big with nodes := nodes } (ba.position + len)
      rwa [hset] at hsn
    have hs₁' : ba₁.size = max ba.size (ba.position + len) := by
      rw [hs₁]
      exact congrArg (max · _) hsize
    have hpeq : ba₁.position = ba₂.position := by rw [hp₁, hwrote.position, hbytes]
    refine ⟨nodes, ba₁, ba₂, hstored, hset, hw, ?_, ?_, hpeq, ?_⟩
    · have hstay : ba.position + bytes.length ≤ big.capacity := by omega
      have hsplice := hgrown.content_splice h hstay
      rw [hbytes] at hsplice
      rw [hwrote.content, content, hsame, hs₁', hall, hsplice]
    · rw [hs₁', hwrote.size, hbytes]
    · have hceq : ba₁.capacity = ba₂.capacity := hc₁.trans hc₂.symm
      have hbeq : ba₁.baseSize = ba₂.baseSize := (hb₁.trans hbase).trans hwrote.baseSize.symm
      rw [hL₁.cur_eq, hwrote.linked.cur_eq, hpeq, hceq, hbeq]

/-- No buffers for no bytes. -/
theorem scattersWrite_zero (h : Linked ba) : ba.ScattersWrite heap 0 := by
  refine ⟨[], ba, rfl, rfl, .nil, rfl, rfl, rfl, fun bytes hbytes => ?_⟩
  obtain rfl := List.eq_nil_of_length_eq_zero hbytes
  obtain ⟨ba₁, hset, hL₁, hc₁, hp₁, hs₁, hb₁, -, hcap₁⟩ :=
    setPosition_spec h (Nat.le_trans h.position_le h.size_le)
  have hsize : ba₁.size = ba.size := by rw [hs₁, Nat.max_eq_left h.position_le]
  refine ⟨ba.nodes, ba₁, ba, rfl, hset, rfl, ?_, hsize, hp₁, ?_⟩
  · rw [← hc₁, List.take_of_length_le]
    rw [hL₁.length_content, hsize]
  · rw [hL₁.cur_eq, h.cur_eq, hp₁, hcap₁, hb₁]

/-- **When scatter and gather agree with plain `read` and `write`**: if
the blocks that `addCapacity` computes are enough for the bytes that do
not fit. -/
theorem buffers_agree_iff (hpos : 1 ≤ base) (h : (system base).Reachable ba)
    (heap : Nat → Nat → UInt8) (len : Nat) :
    ba.GathersRead len ∧ ba.ScattersWrite heap len ↔ len ≤ ba.getCapacity ∨
      len - ba.getCapacity ≤ ba.baseSize * nodeCount (len - ba.getCapacity) ba.baseSize := by
  obtain ⟨hL, -⟩ := reachable_linked_any hpos h
  constructor
  · rintro ⟨-, iovs, g, hok, -⟩
    rcases Nat.eq_zero_or_pos len with rfl | hlen
    · exact .inl (Nat.zero_le _)
    · exact (addCapacity_enough hL hlen).mp (getWriteBuffers_room hL hlen hok)
  · intro henough
    refine ⟨gathersRead hL len, ?_⟩
    rcases Nat.eq_zero_or_pos len with rfl | hlen
    · exact scattersWrite_zero hL
    · exact storesWrite hL hlen ((addCapacity_enough hL hlen).mpr henough)

/-- Five bytes for a fresh array with blocks of two. -/
theorem buffers_agree_iff_five :
    (new 2 fun _ _ => 0).GathersRead 5 ∧ (new 2 fun _ _ => 0).ScattersWrite (fun _ _ => 0) 5 :=
  (buffers_agree_iff (by decide) (.init ⟨_, rfl⟩) _ 5).mpr (.inr (by decide +kernel))

/-- Two blocks of `2 ^ 53` bytes are one too few for `2 ^ 54 + 1`, but the
`double` next to `2 ^ 53 + 1` is `2 ^ 53`. -/
theorem buffers_one_short :
    (system (2 ^ 53)).Reachable (new (2 ^ 53) fun _ _ => 0) ∧
      nodeCount (2 ^ 53 + 1) (2 ^ 53) = 1 ∧
      ¬(new (2 ^ 53) fun _ _ => 0).ScattersWrite (fun _ _ => 0) (2 ^ 54 + 1) := by
  have hcount : nodeCount (2 ^ 53 + 1) (2 ^ 53) = 1 := by decide +kernel
  refine ⟨.init ⟨_, rfl⟩, hcount, ?_⟩
  rintro ⟨iovs, g, hok, -⟩
  have hL : Linked (new (2 ^ 53) fun _ _ => 0) := new_linked (by norm_num) _
  have hfree : (new (2 ^ 53) fun _ _ => 0).getCapacity = 2 ^ 53 := rfl
  have hlen : 0 < 2 ^ 54 + 1 := Nat.succ_pos _
  have hroom := (addCapacity_enough hL hlen).mp (getWriteBuffers_room hL hlen hok)
  rw [hfree] at hroom
  have hbase : (new (2 ^ 53) fun _ _ => 0).baseSize = 2 ^ 53 := rfl
  rw [hbase, show 2 ^ 54 + 1 - 2 ^ 53 = 2 ^ 53 + 1 from rfl, hcount] at hroom
  omega

end ByteArray

end Sylar
