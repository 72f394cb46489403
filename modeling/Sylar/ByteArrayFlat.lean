import Sylar.ByteArray

/-!
# The ByteArray is a flat buffer with a cursor

What the chain of blocks is for, and that it delivers it. `FlatBuffer`
is the abstract object: a list of bytes, a cursor and an amount of
memory. `FlatBuffer.Step` says what each call may do to it.

The invariant is `Linked`: equal blocks, a capacity that counts them,
`position ≤ size ≤ capacity`, and `cur` on the block the cursor is in -
null exactly when the cursor is past the last block. All corner cases
at block boundaries are in its last field. Each operation has one spec
lemma, proved from the spec of its copy loop over the concatenated
blocks (`writeFrom_spec`, `readFrom_spec`, `seek_spec`); `call_refines`
puts them together: a call on a linked object leaves a linked object
and is a step of the flat buffer.
-/

namespace Sylar

open BinaryFloat

/-! ## The abstract object -/

/-- A byte buffer with a cursor, and the memory it has at hand. -/
structure FlatBuffer where
  content : List UInt8
  cursor : Nat
  room : Nat

namespace FlatBuffer

/-- What a call does to a flat buffer, with its outcome. A `write` may
take more memory; seeking behind the content extends it by bytes nobody
wrote (`gap`). -/
inductive Step : FlatBuffer → ByteArray.Op → Except Fault (List UInt8) → FlatBuffer → Prop
  | write {f : FlatBuffer} {heap : Nat → Nat → UInt8} {buf : List UInt8} {room : Nat} :
      f.room ≤ room →
      Step f (.write heap buf) (.ok [])
        { content := splice f.content f.cursor buf
          cursor := f.cursor + buf.length
          room := room }
  | read {f : FlatBuffer} {n : Nat} :
      f.cursor + n ≤ f.content.length →
      Step f (.read n) (.ok ((f.content.drop f.cursor).take n)) { f with cursor := f.cursor + n }
  | readShort {f : FlatBuffer} {n : Nat} :
      f.content.length < f.cursor + n →
      Step f (.read n) (.error (.outOfRange "not enough len")) f
  | seek {f : FlatBuffer} {v : Nat} {gap : List UInt8} :
      v ≤ f.room → gap.length = v - f.content.length →
      Step f (.setPosition v) (.ok []) { f with content := f.content ++ gap, cursor := v }
  | seekShort {f : FlatBuffer} {v : Nat} :
      f.room < v →
      Step f (.setPosition v) (.error (.outOfRange "set_position out of range")) f
  | clear {f : FlatBuffer} {room : Nat} :
      Step f .clear (.ok []) { content := [], cursor := 0, room := room }

end FlatBuffer

namespace ByteArray

/-! ## The invariant -/

/-- The bytes of a chain of nodes, in order. -/
def blocks (L : List Node) : List UInt8 := (L.map Node.ptr).flatten

structure Linked (ba : ByteArray) : Prop where
  base_pos : 0 < ba.baseSize
  node_size : ∀ n ∈ ba.nodes, n.size = ba.baseSize
  nodes_pos : 0 < ba.nodes.length
  capacity_eq : ba.capacity = ba.baseSize * ba.nodes.length
  position_le : ba.position ≤ ba.size
  size_le : ba.size ≤ ba.capacity
  cur_eq : ba.cur =
    if ba.position = ba.capacity then none else some (ba.position / ba.baseSize)

/-- The logical content. -/
def content (ba : ByteArray) : List UInt8 := (blocks ba.nodes).take ba.size

/-- The flat buffer a chain stands for. -/
def flat (ba : ByteArray) : FlatBuffer :=
  { content := ba.content, cursor := ba.position, room := ba.capacity }

theorem new_linked {base : Nat} (hpos : 0 < base) (heap : Nat → Nat → UInt8) :
    Linked (new base heap) where
  base_pos := hpos
  node_size := by simp [new]
  nodes_pos := by simp [new]
  capacity_eq := by simp [new]
  position_le := Nat.le_refl _
  size_le := Nat.zero_le _
  cur_eq := by
    have : base ≠ 0 := by omega
    simp [new, this.symm]

/-! ## Chains of equal blocks -/

@[simp] theorem blocks_nil : blocks [] = [] := rfl

@[simp] theorem blocks_cons (n : Node) (L : List Node) :
    blocks (n :: L) = n.ptr ++ blocks L := rfl

@[simp] theorem blocks_append (L M : List Node) : blocks (L ++ M) = blocks L ++ blocks M := by
  simp [blocks]

theorem length_blocks {b : Nat} {L : List Node} (h : ∀ n ∈ L, n.size = b) :
    (blocks L).length = b * L.length := by
  rw [blocks, length_flatten_blocks (b := b), List.length_map]
  intro x hx
  obtain ⟨n, hn, rfl⟩ := List.mem_map.mp hx
  exact h n hn

theorem Linked.length_blocks {ba : ByteArray} (h : Linked ba) :
    (blocks ba.nodes).length = ba.capacity := by
  rw [ByteArray.length_blocks h.node_size, h.capacity_eq]

theorem Linked.length_content {ba : ByteArray} (h : Linked ba) :
    ba.content.length = ba.size := by
  rw [content, List.length_take, h.length_blocks, Nat.min_eq_left h.size_le]

/-- Byte `q` of the memory is in node `q / baseSize`. -/
theorem Linked.node_at {ba : ByteArray} (h : Linked ba) {q : Nat} (hlt : q < ba.capacity) :
    q / ba.baseSize < ba.nodes.length ∧ q % ba.baseSize < ba.baseSize := by
  refine ⟨?_, Nat.mod_lt _ h.base_pos⟩
  rw [Nat.div_lt_iff_lt_mul h.base_pos, Nat.mul_comm]
  exact h.capacity_eq ▸ hlt

/-- Where the cursor is when it is not past the last block: in node
`position / baseSize`, `position % baseSize` bytes into it. -/
theorem Linked.cursor_node {ba : ByteArray} (h : Linked ba) (hlt : ba.position < ba.capacity) :
    ba.cur = some (ba.position / ba.baseSize) ∧
      ba.position / ba.baseSize < ba.nodes.length ∧
      ba.position % ba.baseSize < ba.baseSize := by
  refine ⟨?_, h.node_at hlt⟩
  rw [h.cur_eq, if_neg (Nat.ne_of_lt hlt)]

/-- The bytes from the cursor's node on, seen from the whole chain. -/
theorem Linked.blocks_split {ba : ByteArray} (h : Linked ba) {i : Nat}
    (hi : i ≤ ba.nodes.length) :
    (blocks (ba.nodes.take i)).length = ba.baseSize * i ∧
      blocks ba.nodes = blocks (ba.nodes.take i) ++ blocks (ba.nodes.drop i) := by
  refine ⟨?_, by rw [← blocks_append, List.take_append_drop]⟩
  rw [ByteArray.length_blocks fun n hn => h.node_size n (List.mem_of_mem_take hn),
    List.length_take, Nat.min_eq_left hi]

/-- The bytes from `q` on, seen from its node. -/
theorem Linked.drop_at {ba : ByteArray} (h : Linked ba) {q : Nat} (hlt : q < ba.capacity) :
    (blocks ba.nodes).drop q =
      (blocks (ba.nodes.drop (q / ba.baseSize))).drop (q % ba.baseSize) := by
  obtain ⟨hpre, hsplit⟩ := h.blocks_split (Nat.le_of_lt (h.node_at hlt).1)
  have hdm := Nat.div_add_mod q ba.baseSize
  set i := q / ba.baseSize
  conv_lhs => rw [hsplit, ← hdm, ← hpre, List.drop_length_add_append]

/-- How far the memory reaches behind the node of `q`. -/
theorem Linked.room_at {ba : ByteArray} (h : Linked ba) {q n : Nat} (hlt : q < ba.capacity) :
    q % ba.baseSize + n ≤ ba.baseSize * (ba.nodes.drop (q / ba.baseSize)).length ↔
      q + n ≤ ba.capacity := by
  have hi := (h.node_at hlt).1
  have hdm := Nat.div_add_mod q ba.baseSize
  have hle : ba.baseSize * (q / ba.baseSize) ≤ ba.capacity := by omega
  rw [List.length_drop, Nat.mul_sub, ← h.capacity_eq]
  omega

/-- The content, as a part of the memory. -/
theorem content_slice {ba : ByteArray} {q n : Nat} (hle : q + n ≤ ba.size) :
    ((blocks ba.nodes).drop q).take n = (ba.content.drop q).take n := by
  rw [content, List.drop_take, List.take_take, Nat.min_eq_left (by omega)]

/-- The pointer `hops` steps behind the cursor's node is the one the
invariant asks for after the cursor moved on by `n`. -/
theorem Linked.nodeAt_advance {ba : ByteArray} (h : Linked ba) {n : Nat}
    (hroom : ba.position + n ≤ ba.capacity) :
    ba.nodeAt (ba.position / ba.baseSize + (ba.position % ba.baseSize + n) / ba.baseSize) =
      if ba.position + n = ba.capacity then none
      else some ((ba.position + n) / ba.baseSize) := by
  have hsum : ba.position / ba.baseSize + (ba.position % ba.baseSize + n) / ba.baseSize =
      (ba.position + n) / ba.baseSize := by
    conv_rhs => rw [← Nat.div_add_mod ba.position ba.baseSize, Nat.add_assoc,
      Nat.mul_add_div h.base_pos]
  have hcap := h.capacity_eq
  rw [hsum, nodeAt]
  by_cases hend : ba.position + n = ba.capacity
  · rw [if_pos hend, if_neg]
    rw [hend, hcap, Nat.mul_div_cancel_left _ h.base_pos]
    exact Nat.lt_irrefl _
  · rw [if_neg hend, if_pos]
    rw [Nat.div_lt_iff_lt_mul h.base_pos, Nat.mul_comm]
    omega

/-! ## Growing -/

/-- The number of new blocks is the smallest that is enough: below
`2 ^ 53` the `double` arithmetic is exact. -/
theorem nodeCount_spec {size base : Nat} (hb : 0 < base) (hs : size < 2 ^ 53) (hpos : 0 < size) :
    0 < nodeCount size base ∧ size ≤ base * nodeCount size base ∧
      base * nodeCount size base < size + base := by
  have hb' : (0 : ℚ) < base := by exact_mod_cast hb
  have hs' : (0 : ℚ) < size := by exact_mod_cast hpos
  rcases Nat.lt_or_ge base (2 ^ 53) with hlt | hge
  · have hceil : nodeCount size base = ⌈(size : ℚ) / base⌉.toNat := by
      rw [nodeCount, toBinary_natCast hs, toBinary_natCast hlt, ceil_toBinary_div hb hs]
    have hle := Int.le_ceil ((size : ℚ) / base)
    have hgt := Int.ceil_lt_add_one ((size : ℚ) / base)
    have hposc : 0 < ⌈(size : ℚ) / base⌉ := Int.ceil_pos.mpr (div_pos hs' hb')
    rw [hceil]
    rw [div_le_iff₀ hb'] at hle
    have hle' : (size : ℤ) ≤ ⌈(size : ℚ) / base⌉ * base := by exact_mod_cast hle
    have hgt' : ⌈(size : ℚ) / base⌉ * (base : ℤ) < size + base := by
      have hmul : (⌈(size : ℚ) / base⌉ : ℚ) * base < ((size : ℚ) / base + 1) * base := by gcongr
      rw [add_mul, div_mul_cancel₀ _ hb'.ne', one_mul] at hmul
      exact_mod_cast hmul
    have hcast : ((base * ⌈(size : ℚ) / base⌉.toNat : ℕ) : ℤ) = ⌈(size : ℚ) / base⌉ * base := by
      push_cast
      rw [Int.toNat_of_nonneg hposc.le, Int.mul_comm]
    exact ⟨by omega, by omega, by omega⟩
  · have hone : nodeCount size base = 1 := by
      rw [nodeCount, toBinary_natCast hs, ceil_toBinary_div_toBinary (by norm_num) hpos hs hge]
      rfl
    rw [hone, Nat.mul_one]
    exact ⟨Nat.one_pos, by omega, by omega⟩

theorem linkNodes_spec (heap : Nat → Nat → UInt8) : ∀ (count : Nat) (ba : ByteArray),
    ∃ L : List Node, L.length = count ∧ (∀ n ∈ L, n.size = ba.baseSize) ∧
      linkNodes heap count ba =
        { ba with nodes := ba.nodes ++ L, capacity := ba.capacity + ba.baseSize * count }
  | 0, ba => ⟨[], rfl, by simp, by simp [linkNodes]⟩
  | count + 1, ba => by
      obtain ⟨L, hlen, hsize, heq⟩ := linkNodes_spec heap count
        { ba with
          nodes := ba.nodes ++ [Node.new ba.baseSize (heap ba.nodes.length)]
          capacity := ba.capacity + ba.baseSize }
      refine ⟨Node.new ba.baseSize (heap ba.nodes.length) :: L, by simp [hlen], ?_, ?_⟩
      · intro n hn
        rcases List.mem_cons.mp hn with rfl | hn
        · simp
        · exact hsize n hn
      · rw [linkNodes, heq]
        simp only [mk.injEq, List.append_assoc, List.cons_append, List.nil_append, true_and,
          and_true]
        ring

/-- `ba'` is `ba` with more nodes behind those that are there, and
nothing else changed. -/
structure Grown (ba ba' : ByteArray) : Prop where
  linked : Linked ba'
  nodes : ∃ L, ba'.nodes = ba.nodes ++ L
  baseSize : ba'.baseSize = ba.baseSize
  position : ba'.position = ba.position
  size : ba'.size = ba.size
  endian : ba'.endian = ba.endian
  capacity : ba.capacity ≤ ba'.capacity

/-- Whatever number of blocks `addCapacity` computes, the chain stays
linked. -/
theorem addCapacity_grown {ba : ByteArray} (h : Linked ba) (heap : Nat → Nat → UInt8)
    (size : Nat) : Grown ba (ba.addCapacity heap size) ∧
      (0 < size → ba.getCapacity < size → (ba.addCapacity heap size).capacity =
        ba.capacity + ba.baseSize * nodeCount (size - ba.getCapacity) ba.baseSize) := by
  have hpc : ba.position ≤ ba.capacity := Nat.le_trans h.position_le h.size_le
  have hroomdef : ba.getCapacity = ba.capacity - ba.position := rfl
  have hsame : Grown ba ba := ⟨h, ⟨[], by simp⟩, rfl, rfl, rfl, rfl, Nat.le_refl _⟩
  unfold addCapacity
  split
  · exact ⟨hsame, fun _ _ => by omega⟩
  split
  · exact ⟨hsame, fun _ _ => by omega⟩
  set count := nodeCount (size - ba.getCapacity) ba.baseSize
  obtain ⟨L, hlen, hsize, heq⟩ := linkNodes_spec heap count ba
  have hgrown : ∀ cur, (cur = if ba.position = ba.capacity + ba.baseSize * count then none
        else some (ba.position / ba.baseSize)) →
      Grown ba { ba with
        nodes := ba.nodes ++ L, capacity := ba.capacity + ba.baseSize * count, cur := cur } := by
    intro cur hcur
    refine ⟨⟨h.base_pos, ?_, ?_, ?_, h.position_le, ?_, hcur⟩,
      ⟨L, rfl⟩, rfl, rfl, rfl, rfl, Nat.le_add_right ..⟩
    · exact fun n hn => (List.mem_append.mp hn).elim (h.node_size n) (hsize n)
    · exact Nat.lt_of_lt_of_le h.nodes_pos (by simp)
    · simp only [List.length_append, hlen, h.capacity_eq, Nat.mul_add]
    · exact Nat.le_trans h.size_le (Nat.le_add_right ..)
  show Grown ba (if ba.getCapacity = 0 then
    { linkNodes heap count ba with cur := if count = 0 then none else some ba.nodes.length }
    else linkNodes heap count ba) ∧ (_ → _ → (if ba.getCapacity = 0 then
    { linkNodes heap count ba with cur := if count = 0 then none else some ba.nodes.length }
    else linkNodes heap count ba).capacity = _)
  rw [heq]
  split
  · -- the cursor was past the last block, so the first new one is its block
    have hpos : ba.position = ba.capacity := by omega
    refine ⟨hgrown _ ?_, fun _ _ => rfl⟩
    rcases Nat.eq_zero_or_pos count with hzero | hcount
    · rw [if_pos hzero, hzero, Nat.mul_zero, Nat.add_zero, if_pos hpos]
    · have hgrow : 0 < ba.baseSize * count := Nat.mul_pos h.base_pos hcount
      rw [if_neg (Nat.ne_of_gt hcount), if_neg (by omega), hpos, h.capacity_eq,
        Nat.mul_div_cancel_left _ h.base_pos]
  · refine ⟨hgrown _ ?_, fun _ _ => rfl⟩
    rw [if_neg (by omega)]
    exact (h.cursor_node (by omega)).1

theorem addCapacity_room {ba : ByteArray} (h : Linked ba) (heap : Nat → Nat → UInt8)
    {size : Nat} (hs : size < 2 ^ 53) :
    ba.position + size ≤ (ba.addCapacity heap size).capacity := by
  have hpc : ba.position ≤ ba.capacity := Nat.le_trans h.position_le h.size_le
  have hroomdef : ba.getCapacity = ba.capacity - ba.position := rfl
  obtain ⟨hgrown, hcap⟩ := addCapacity_grown h heap size
  have hle := hgrown.capacity
  by_cases hroom : ba.getCapacity < size
  · have hcount := (nodeCount_spec h.base_pos (show size - ba.getCapacity < 2 ^ 53 by omega)
      (by omega)).2.1
    rw [hcap (by omega) hroom]
    omega
  · omega

/-- When the new bytes end with the last block. -/
theorem addCapacity_full {ba : ByteArray} (h : Linked ba) (heap : Nat → Nat → UInt8) {size : Nat}
    (hpos : 0 < size) (hs : size < 2 ^ 53) :
    (ba.addCapacity heap size).capacity = ba.position + size ↔
      ba.baseSize ∣ ba.position + size ∧ ba.capacity ≤ ba.position + size := by
  have hpc : ba.position ≤ ba.capacity := Nat.le_trans h.position_le h.size_le
  have hroomdef : ba.getCapacity = ba.capacity - ba.position := rfl
  obtain ⟨hgrown, hcap⟩ := addCapacity_grown h heap size
  have hroom := addCapacity_room h heap hs
  have hdvd : ba.baseSize ∣ (ba.addCapacity heap size).capacity := by
    rw [hgrown.linked.capacity_eq, hgrown.baseSize]
    exact Nat.dvd_mul_right ..
  refine ⟨fun heq => ⟨heq ▸ hdvd, heq ▸ hgrown.capacity⟩, fun ⟨hbase, hle⟩ => ?_⟩
  by_cases hmore : ba.getCapacity < size
  · -- both are multiples of the block size, and less than a block apart
    have hlt := (nodeCount_spec h.base_pos (show size - ba.getCapacity < 2 ^ 53 by omega)
      (by omega)).2.2
    have hgrew := hcap hpos hmore
    have hdiff := Nat.dvd_sub hdvd hbase
    rcases Nat.eq_zero_or_pos ((ba.addCapacity heap size).capacity - (ba.position + size)) with
      hzero | hgt
    · omega
    · have := Nat.le_of_dvd hgt hdiff
      omega
  · have hsame : ba.addCapacity heap size = ba := by
      rw [addCapacity, if_neg (Nat.ne_of_gt hpos), if_pos (Nat.le_of_not_lt hmore)]
    rw [hsame]
    omega

/-! ## The copy loops -/

theorem store_spec {n : Node} {p : Nat} {x : List UInt8} (h : p + x.length ≤ n.size) :
    n.store p x = .ok ⟨splice n.ptr p x⟩ ∧
      (⟨splice n.ptr p x⟩ : Node).size = n.size :=
  ⟨if_pos h, length_splice h⟩

/-- The loop of `write` over blocks of `b` bytes, started inside the
first one: the blocks with `buf` written over them, and as many steps
along the chain as block ends were reached. -/
theorem writeFrom_spec {b : Nat} : ∀ {L : List Node} (npos : Nat) (buf : List UInt8),
    (∀ n ∈ L, n.size = b) → npos < b → buf ≠ [] → npos + buf.length ≤ b * L.length →
    ∃ L', writeFrom L npos buf = .ok (L', (npos + buf.length) / b) ∧
      (∀ n ∈ L', n.size = b) ∧ L'.length = L.length ∧
      blocks L' = splice (blocks L) npos buf
  | [], npos, buf, _, _, hne, hroom => by
      have := List.length_pos_of_ne_nil hne
      simp only [List.length_nil, Nat.mul_zero] at hroom
      omega
  | n :: rest, npos, buf, hsize, hnpos, hne, hroom => by
      have hn : n.size = b := hsize n (List.mem_cons_self ..)
      have hptr : n.ptr.length = b := hn
      have hrest : ∀ m ∈ rest, m.size = b := fun m hm => hsize m (List.mem_cons_of_mem _ hm)
      have hlen := List.length_pos_of_ne_nil hne
      rw [writeFrom, if_neg (Nat.ne_of_gt hlen), hn]
      split
      · rename_i hfit
        obtain ⟨hst, hst'⟩ := store_spec (n := n) (p := npos) (x := buf) (by omega)
        refine ⟨⟨splice n.ptr npos buf⟩ :: rest, ?_, ?_, rfl, ?_⟩
        · rw [hst]
          simp only [bind, Except.bind, pure, Except.pure, Except.ok.injEq, Prod.mk.injEq,
            true_and]
          split
          · rename_i hend
            rw [← hend, Nat.div_self (by omega)]
          · rw [Nat.div_eq_of_lt (by omega)]
        · intro m hm
          rcases List.mem_cons.mp hm with rfl | hm
          · rw [hst', hn]
          · exact hrest m hm
        · exact (splice_append_left (by rw [hptr]; omega)).symm
      · rename_i hfit
        have htake : (buf.take (b - npos)).length = b - npos := by
          rw [List.length_take]
          omega
        have hdrop : (buf.drop (b - npos)).length = buf.length - (b - npos) := List.length_drop
        obtain ⟨hst, hst'⟩ := store_spec (n := n) (p := npos) (x := buf.take (b - npos))
          (by omega)
        obtain ⟨L', hL, hL', hLlen, hblocks⟩ := writeFrom_spec 0 (buf.drop (b - npos)) hrest
          (by omega)
          (List.ne_nil_of_length_pos (by omega))
          (by rw [List.length_cons, Nat.mul_add] at hroom; omega)
        refine ⟨⟨splice n.ptr npos (buf.take (b - npos))⟩ :: L', ?_, ?_, ?_, ?_⟩
        · simp only [hst, hL, bind, Except.bind, pure, Except.pure, Except.ok.injEq,
            Prod.mk.injEq, true_and]
          rw [hdrop, show npos + buf.length = 0 + (buf.length - (b - npos)) + b by omega,
            Nat.add_div_right _ (by omega)]
        · intro m hm
          rcases List.mem_cons.mp hm with rfl | hm
          · rw [hst', hn]
          · exact hL' m hm
        · simp only [List.length_cons, hLlen]
        · have hsplit := splice_append_across (a := n.ptr) (b := blocks rest) (p := npos)
            (x := buf.take (b - npos)) (y := buf.drop (b - npos))
            (by omega)
          rw [List.take_append_drop] at hsplit
          rw [blocks_cons, blocks_cons, hblocks, hsplit]

/-- The loop of `write` only comes to its end if there is room. -/
theorem writeFrom_room {b : Nat} : ∀ {L : List Node} {npos : Nat} {buf : List UInt8}
    {r : List Node × Nat}, (∀ n ∈ L, n.size = b) → npos < b → buf ≠ [] →
    writeFrom L npos buf = .ok r → npos + buf.length ≤ b * L.length
  | [], _, _, _, _, _, _, hw => nomatch hw
  | n :: rest, npos, buf, r, hsize, hnpos, hne, hw => by
      have hn : n.size = b := hsize n (List.mem_cons_self ..)
      have hlen := List.length_pos_of_ne_nil hne
      rw [writeFrom, if_neg (Nat.ne_of_gt hlen), hn] at hw
      rw [List.length_cons, Nat.mul_succ]
      split at hw
      · omega
      · obtain ⟨n', -, hw⟩ := bind_eq_ok.mp hw
        obtain ⟨r', hw', -⟩ := bind_eq_ok.mp hw
        have hdrop : (buf.drop (b - npos)).length = buf.length - (b - npos) := List.length_drop
        have := writeFrom_room (fun m hm => hsize m (List.mem_cons_of_mem _ hm)) (by omega)
          (List.ne_nil_of_length_pos (by omega)) hw'
        omega

/-- The loop of `read`, likewise. -/
theorem readFrom_spec {b : Nat} : ∀ {L : List Node} (npos size : Nat),
    (∀ n ∈ L, n.size = b) → npos < b → 0 < size → npos + size ≤ b * L.length →
    readFrom L npos size = .ok (((blocks L).drop npos).take size, (npos + size) / b)
  | [], npos, size, _, _, hpos, hroom => by
      simp only [List.length_nil, Nat.mul_zero] at hroom
      omega
  | n :: rest, npos, size, hsize, hnpos, hpos, hroom => by
      have hn : n.size = b := hsize n (List.mem_cons_self ..)
      have hptr : n.ptr.length = b := hn
      have hrest : ∀ m ∈ rest, m.size = b := fun m hm => hsize m (List.mem_cons_of_mem _ hm)
      have hdrop : (n.ptr ++ blocks rest).drop npos = n.ptr.drop npos ++ blocks rest :=
        List.drop_append_of_le_length (by omega)
      rw [readFrom, if_neg (Nat.ne_of_gt hpos), hn, blocks_cons, hdrop]
      split
      · rename_i hfit
        rw [Node.load, if_pos (by omega), List.take_append_of_le_length (by
          rw [List.length_drop]; omega)]
        simp only [bind, Except.bind, pure, Except.pure, Except.ok.injEq, Prod.mk.injEq, true_and]
        split
        · rename_i hend
          rw [← hend, Nat.div_self (by omega)]
        · rw [Nat.div_eq_of_lt (by omega)]
      · rename_i hfit
        have hread := readFrom_spec 0 (size - (b - npos)) hrest (by omega)
          (by omega) (by rw [List.length_cons, Nat.mul_add] at hroom; omega)
        have hlen : (n.ptr.drop npos).length = b - npos := by rw [List.length_drop, hptr]
        simp only [Node.load, if_pos (show npos + (b - npos) ≤ n.size by omega), hread, bind,
          Except.bind, pure, Except.pure, Except.ok.injEq, Prod.mk.injEq, List.drop_zero]
        refine ⟨?_, ?_⟩
        · have hall {m : Nat} (hm : b - npos ≤ m) : (n.ptr.drop npos).take m = n.ptr.drop npos :=
            List.take_of_length_le (by omega)
          rw [List.take_append, hlen, hall (Nat.le_refl _), hall (by omega)]
        · rw [show npos + size = 0 + (size - (b - npos)) + b by omega,
            Nat.add_div_right _ (by omega)]

/-- The search of `setPosition` stops at block `v / b`, which may be
the one past the end. -/
theorem seek_spec {b : Nat} (hb : 0 < b) : ∀ {L : List Node} {v : Nat},
    (∀ n ∈ L, n.size = b) → 0 < L.length → v ≤ b * L.length → seek L v = .ok (v / b)
  | [], _, _, hlen, _ => by simp at hlen
  | n :: rest, v, hsize, _, hv => by
      have hn : n.size = b := hsize n (List.mem_cons_self ..)
      rw [seek, hn]
      split
      · rename_i hgt
        have hrest : 0 < rest.length := by
          rcases Nat.eq_zero_or_pos rest.length with h0 | h0
          · rw [List.length_cons, h0] at hv
            omega
          · exact h0
        rw [seek_spec hb (fun m hm => hsize m (List.mem_cons_of_mem _ hm)) hrest
          (by rw [List.length_cons, Nat.mul_add] at hv; omega)]
        simp only [bind, Except.bind, pure, Except.pure, Except.ok.injEq]
        rw [show v = v - b + b by omega, Nat.add_div_right _ hb, Nat.add_sub_cancel]
      · rename_i hle
        split
        · rename_i heq
          rw [heq, Nat.div_self hb]
        · rw [Nat.div_eq_of_lt (by omega)]

/-! ## The four operations -/

/-- `ba'` is `ba` with `buf` written at the cursor. -/
structure Wrote (ba ba' : ByteArray) (buf : List UInt8) : Prop where
  linked : Linked ba'
  content : ba'.content = splice ba.content ba.position buf
  position : ba'.position = ba.position + buf.length
  size : ba'.size = max ba.size (ba.position + buf.length)
  baseSize : ba'.baseSize = ba.baseSize
  endian : ba'.endian = ba.endian
  capacity : ba.capacity ≤ ba'.capacity

/-- A `write` into a chain that has grown enough. -/
theorem write_grown {ba : ByteArray} (h : Linked ba) (heap : Nat → Nat → UInt8)
    {buf : List UInt8} (hnil : buf ≠ [])
    (hroom : ba.position + buf.length ≤ (ba.addCapacity heap buf.length).capacity) :
    ∃ ba', ba.write heap buf = (.ok (), ba') ∧ Wrote ba ba' buf ∧
      ba'.capacity = (ba.addCapacity heap buf.length).capacity := by
  have hlen : 0 < buf.length := List.length_pos_of_ne_nil hnil
  obtain ⟨⟨hL, ⟨new, hnew⟩, hbase, hpos, hsize, hendian, hcap⟩, -⟩ :=
    addCapacity_grown h heap buf.length
  rw [write, if_neg (Nat.ne_of_gt hlen)]
  set g := ba.addCapacity heap buf.length
  obtain ⟨hcur, hi, hoff⟩ := hL.cursor_node (by omega)
  set i := g.position / g.baseSize
  have hdm : g.baseSize * i + g.position % g.baseSize = g.position := Nat.div_add_mod ..
  have htail : g.position % g.baseSize + buf.length ≤ g.baseSize * (g.nodes.drop i).length :=
    (hL.room_at (by omega)).mpr (by omega)
  obtain ⟨L', hwrite, hL', hlen', hblocks⟩ := writeFrom_spec (L := g.nodes.drop i) _ _
    (fun n hn => hL.node_size n (List.mem_of_mem_drop hn)) hoff hnil htail
  obtain ⟨hpre, hsplit⟩ := hL.blocks_split (Nat.le_of_lt hi)
  simp only [hcur, hwrite]
  have hmax : (if g.position + buf.length > g.size then g.position + buf.length else g.size) =
      max ba.size (ba.position + buf.length) := by
    split <;> omega
  -- the bytes of the new chain are those of the grown one, overwritten at the cursor
  have hbytes : blocks (g.nodes.take i ++ L') = splice (blocks g.nodes) g.position buf := by
    rw [blocks_append, hblocks, hsplit, ← splice_append_right, hpre, hdm]
  have hnodes : (g.nodes.take i ++ L').length = g.nodes.length := by
    rw [List.length_append, hlen', List.length_take, List.length_drop]
    omega
  refine ⟨_, rfl, ⟨⟨hL.base_pos, ?_, ?_, ?_, ?_, ?_, ?_⟩, ?_, ?_, hmax, hbase, hendian, hcap⟩, rfl⟩
  · intro n hn
    rcases List.mem_append.mp hn with hn | hn
    · exact hL.node_size n (List.mem_of_mem_take hn)
    · exact hL' n hn
  · exact hnodes ▸ hL.nodes_pos
  · exact hnodes ▸ hL.capacity_eq
  · simp only
    split <;> omega
  · have := hL.size_le
    simp only
    split <;> omega
  · have hadv := hL.nodeAt_advance (n := buf.length) (by omega)
    rw [nodeAt] at hadv ⊢
    simpa only [hnodes] using hadv
  · have hgrown : (blocks g.nodes).take ba.size = ba.content := by
      have hle : ba.size ≤ (blocks ba.nodes).length := h.length_blocks ▸ h.size_le
      rw [hnew, blocks_append, List.take_append_of_le_length hle, content]
    show (blocks (g.nodes.take i ++ L')).take _ = _
    rw [hbytes, hmax, ← hgrown, hpos]
    exact take_max_splice h.position_le (by rw [hL.length_blocks]; omega)
  · simp only [hpos]

theorem Wrote.refl {ba : ByteArray} (h : Linked ba) : Wrote ba ba [] := by
  have := h.position_le
  exact ⟨h, by simp, rfl, by simp; omega, rfl, rfl, Nat.le_refl _⟩

theorem Wrote.trans {a b c : ByteArray} {x y : List UInt8} (ha : Linked a) (h : Wrote a b x)
    (h' : Wrote b c y) : Wrote a c (x ++ y) where
  linked := h'.linked
  content := by
    rw [h'.content, h.content, h.position, splice_splice]
    rw [ha.length_content]
    exact ha.position_le
  position := by rw [h'.position, h.position, List.length_append, Nat.add_assoc]
  size := by
    rw [h'.size, h.size, h.position, List.length_append]
    omega
  baseSize := h'.baseSize.trans h.baseSize
  endian := h'.endian.trans h.endian
  capacity := h.capacity.trans h'.capacity

/-- After a `write` the object is linked and holds the old content with
the new bytes over it. -/
theorem write_spec {ba : ByteArray} (h : Linked ba) (heap : Nat → Nat → UInt8)
    {buf : List UInt8} (hs : buf.length < 2 ^ 53) :
    ∃ ba', ba.write heap buf = (.ok (), ba') ∧ Wrote ba ba' buf := by
  by_cases hnil : buf = []
  · subst hnil
    exact ⟨ba, by simp [write], .refl h⟩
  · obtain ⟨ba', hw, hwrote, -⟩ := write_grown h heap hnil (addCapacity_room h heap hs)
    exact ⟨ba', hw, hwrote⟩

/-- A `write` of any size that comes to its end has done the same. -/
theorem write_ok {ba ba' : ByteArray} (h : Linked ba) {heap : Nat → Nat → UInt8}
    {buf : List UInt8} (hw : ba.write heap buf = (.ok (), ba')) : Wrote ba ba' buf := by
  by_cases hnil : buf = []
  · subst hnil
    obtain rfl : ba = ba' := by simpa [write] using hw
    exact .refl h
  · obtain ⟨⟨hL, -, -, hpos, hsize, -⟩, -⟩ := addCapacity_grown h heap buf.length
    have hlen : 0 < buf.length := List.length_pos_of_ne_nil hnil
    have hroom : ba.position + buf.length ≤ (ba.addCapacity heap buf.length).capacity := by
      rw [write, if_neg (Nat.ne_of_gt hlen)] at hw
      set g := ba.addCapacity heap buf.length
      rcases Nat.lt_or_ge g.position g.capacity with hlt | hge
      · obtain ⟨hcur, hi, hoff⟩ := hL.cursor_node hlt
        have hdm := Nat.div_add_mod g.position g.baseSize
        simp only [hcur] at hw
        split at hw
        · cases (Prod.mk.inj hw).1
        · rename_i hwrite
          have := writeFrom_room (fun n hn => hL.node_size n (List.mem_of_mem_drop hn)) hoff hnil
            hwrite
          have := (hL.room_at hlt).mp this
          omega
      · have hend : g.position = g.capacity := by
          have := hL.position_le
          have := hL.size_le
          omega
        have hcur := hL.cur_eq
        rw [if_pos hend] at hcur
        simp only [hcur] at hw
        cases (Prod.mk.inj hw).1
    obtain ⟨ba'', hw', hwrote, -⟩ := write_grown h heap hnil hroom
    obtain rfl := (Prod.mk.inj (hw'.symm.trans hw)).2
    exact hwrote

/-- The bytes from the cursor on, up to `getReadSize()` of them, are
those of the blocks from the node of the cursor on. -/
theorem Linked.readable_slice {ba : ByteArray} (h : Linked ba) {n : Nat} (hn : 1 ≤ n)
    (hle : n ≤ ba.getReadSize) :
    ((blocks (ba.nodes.drop (ba.position / ba.baseSize))).drop (ba.position % ba.baseSize)).take n =
      (ba.content.drop ba.position).take n := by
  have hsc := h.size_le
  have hread : ba.getReadSize = ba.size - ba.position := rfl
  rw [← h.drop_at (by omega), content_slice (by omega)]

/-- A `read` of no more than `getReadSize()` returns the content at the
cursor and moves the cursor only. -/
theorem read_spec {ba : ByteArray} (h : Linked ba) {n : Nat} (hn : 1 ≤ n)
    (hle : n ≤ ba.getReadSize) :
    ∃ ba', ba.read n = (.ok ((ba.content.drop ba.position).take n), ba') ∧ Linked ba' ∧
      ba'.content = ba.content ∧ ba'.position = ba.position + n ∧ ba'.size = ba.size ∧
      ba'.baseSize = ba.baseSize ∧ ba'.endian = ba.endian ∧ ba'.capacity = ba.capacity := by
  have hps := h.position_le
  have hsc := h.size_le
  have hread : ba.getReadSize = ba.size - ba.position := rfl
  obtain ⟨hcur, hi, hoff⟩ := h.cursor_node (by omega)
  have hbytes := h.readable_slice hn hle
  set i := ba.position / ba.baseSize
  have htail : ba.position % ba.baseSize + n ≤ ba.baseSize * (ba.nodes.drop i).length :=
    (h.room_at (by omega)).mpr (by omega)
  have hloop := readFrom_spec (L := ba.nodes.drop i) _ n
    (fun m hm => h.node_size m (List.mem_of_mem_drop hm)) hoff (by omega) htail
  rw [read, if_neg (by omega)]
  simp only [hcur, hloop, hbytes]
  refine ⟨_, rfl, ⟨h.base_pos, h.node_size, h.nodes_pos, h.capacity_eq, ?_, h.size_le,
    ?_⟩, rfl, rfl, rfl, rfl, rfl, rfl⟩
  · simp only
    omega
  · exact h.nodeAt_advance (by omega)

/-- A `read` of nothing still looks at the node of the cursor. -/
theorem read_zero {ba : ByteArray} (h : Linked ba) :
    if ba.position = ba.capacity then ba.read 0 = (.error .nullDeref, ba)
    else ba.read 0 = (.ok [], ba) := by
  have hpc : ba.position ≤ ba.capacity := Nat.le_trans h.position_le h.size_le
  split
  · rename_i hend
    have hcur := h.cur_eq
    rw [if_pos hend] at hcur
    rw [read, if_neg (Nat.not_lt_zero _)]
    simp only [hcur]
  · rename_i hend
    obtain ⟨hcur, hi, -⟩ := h.cursor_node (by omega)
    rw [read, if_neg (Nat.not_lt_zero _)]
    obtain ⟨n, rest, hdrop⟩ := List.exists_cons_of_ne_nil
      (show ba.nodes.drop (ba.position / ba.baseSize) ≠ [] from
        List.ne_nil_of_length_pos (by rw [List.length_drop]; omega))
    simp only [hcur, hdrop, readFrom, if_true, Nat.add_zero]
    rw [nodeAt, if_pos hi, ← hcur]

/-- A `read` that returns has as many bytes as it was asked for. -/
theorem length_of_read {ba ba' : ByteArray} (h : Linked ba) {n : Nat} {bytes : List UInt8}
    (hr : ba.read n = (.ok bytes, ba')) : bytes.length = n := by
  rcases Nat.eq_zero_or_pos n with rfl | hn
  · have hzero := read_zero h
    split at hzero
    · rw [hzero] at hr
      cases (Prod.mk.inj hr).1
    · rw [hzero] at hr
      rw [← Except.ok.inj (Prod.mk.inj hr).1, List.length_nil]
  · have hle : n ≤ ba.getReadSize := by
      by_contra hlt
      rw [read, if_pos (Nat.lt_of_not_le hlt)] at hr
      cases (Prod.mk.inj hr).1
    have hread : ba.getReadSize = ba.size - ba.position := rfl
    obtain ⟨ba'', hr', -⟩ := read_spec h hn hle
    rw [hr'] at hr
    rw [← Except.ok.inj (Prod.mk.inj hr).1, List.length_take, List.length_drop, h.length_content]
    omega

theorem read_short {ba : ByteArray} {n : Nat} (h : ba.getReadSize < n) :
    ba.read n = (.error (.outOfRange "not enough len"), ba) :=
  if_pos h

/-- `setPosition` inside the capacity moves the cursor and, when it
goes beyond the content, takes the bytes in between into it. -/
theorem setPosition_spec {ba : ByteArray} (h : Linked ba) {v : Nat} (hv : v ≤ ba.capacity) :
    ∃ ba', ba.setPosition v = (.ok (), ba') ∧ Linked ba' ∧
      ba'.content.take ba.size = ba.content ∧ ba'.position = v ∧
      ba'.size = max ba.size v ∧ ba'.baseSize = ba.baseSize ∧ ba'.endian = ba.endian ∧
      ba'.capacity = ba.capacity := by
  have hseek := seek_spec h.base_pos h.node_size h.nodes_pos (v := v) (by
    rw [← h.capacity_eq]
    exact hv)
  have hmax : (if v > ba.size then v else ba.size) = max ba.size v := by
    split <;> omega
  have hadv : ba.nodeAt (v / ba.baseSize) =
      if v = ba.capacity then none else some (v / ba.baseSize) := by
    have hzero := @Linked.nodeAt_advance { ba with position := 0, cur := some 0 }
      ⟨h.base_pos, h.node_size, h.nodes_pos, h.capacity_eq, Nat.zero_le _, h.size_le,
        by
          have : 0 < ba.capacity := h.capacity_eq ▸ Nat.mul_pos h.base_pos h.nodes_pos
          simp only [Nat.zero_div]
          rw [if_neg (by omega)]⟩
      v (by simpa using hv)
    simpa [nodeAt] using hzero
  rw [setPosition, if_neg (by omega)]
  simp only [hseek]
  refine ⟨_, rfl, ⟨h.base_pos, h.node_size, h.nodes_pos, h.capacity_eq, ?_, ?_, ?_⟩,
    ?_, rfl, hmax, rfl, rfl, rfl⟩
  · simp only
    split <;> omega
  · have := h.size_le
    simp only
    split <;> omega
  · exact hadv
  · show ((blocks ba.nodes).take _).take ba.size = (blocks ba.nodes).take ba.size
    rw [hmax, List.take_take, Nat.min_eq_left (Nat.le_max_left ..)]

theorem setPosition_nodes {ba : ByteArray} {v : Nat} : (ba.setPosition v).2.nodes = ba.nodes := by
  unfold setPosition
  split
  · rfl
  · dsimp only
    split <;> rfl

theorem setPosition_short {ba : ByteArray} {v : Nat} (h : ba.capacity < v) :
    ba.setPosition v = (.error (.outOfRange "set_position out of range"), ba) :=
  if_pos h

theorem clear_linked {ba : ByteArray} (h : Linked ba) : Linked ba.clear where
  base_pos := h.base_pos
  node_size n hn := h.node_size n (List.mem_of_mem_take hn)
  nodes_pos := by
    have := h.nodes_pos
    simp only [clear, List.length_take]
    omega
  capacity_eq := by
    have := h.nodes_pos
    simp only [clear, List.length_take]
    rw [Nat.min_eq_left (by omega), Nat.mul_one]
  position_le := Nat.le_refl _
  size_le := Nat.zero_le _
  cur_eq := by
    have := h.base_pos
    simp only [clear, Nat.zero_div]
    rw [if_neg (by omega)]

/-! ## Runs -/

/-- **One call refines one step of the flat buffer**, and leaves the
chain linked. -/
theorem call_refines {ba : ByteArray} (h : Linked ba) {op : Op} (hop : op.Sized) :
    Linked (ba.call op).2 ∧ (ba.call op).2.baseSize = ba.baseSize ∧
      FlatBuffer.Step ba.flat op (ba.call op).1 (ba.call op).2.flat := by
  cases op with
  | write heap buf =>
      obtain ⟨ba', hw, hL, hcontent, hpos, -, hbase, -, hcap⟩ := write_spec h heap hop
      have hflat : ba'.flat = ⟨splice ba.content ba.position buf, ba.position + buf.length,
          ba'.capacity⟩ := by
        rw [flat, hcontent, hpos]
      simp only [call, hw]
      refine ⟨hL, hbase, ?_⟩
      show FlatBuffer.Step ba.flat _ (.ok []) ba'.flat
      rw [hflat]
      exact .write hcap
  | read n =>
      rcases Nat.lt_or_ge ba.getReadSize n with hshort | hle
      · simp only [call, read_short hshort]
        refine ⟨h, trivial, .readShort ?_⟩
        have : ba.getReadSize = ba.size - ba.position := rfl
        have hlen := h.length_content
        simp only [flat]
        omega
      · obtain ⟨ba', hr, hL, hcontent, hpos, -, hbase, -, hcap⟩ := read_spec h hop.1 hle
        have hflat : ba'.flat = { ba.flat with cursor := ba.flat.cursor + n } := by
          simp only [flat, hcontent, hpos, hcap]
        simp only [call, hr]
        refine ⟨hL, hbase, ?_⟩
        rw [hflat]
        refine .read ?_
        have : ba.getReadSize = ba.size - ba.position := rfl
        have hlen := h.length_content
        have := hop.1
        simp only [flat]
        omega
  | setPosition v =>
      rcases Nat.lt_or_ge ba.capacity v with hshort | hle
      · simp only [call, setPosition_short hshort]
        exact ⟨h, rfl, .seekShort hshort⟩
      · obtain ⟨ba', hset, hL, hcontent, hpos, hsize, hbase, -, hcap⟩ := setPosition_spec h hle
        have hflat : ba'.flat = { ba.flat with
            content := ba.content ++ ba'.content.drop ba.size, cursor := v } := by
          have hback := List.take_append_drop ba.size ba'.content
          rw [hcontent] at hback
          simp only [flat, hpos, hcap, hback]
        simp only [call, hset]
        refine ⟨hL, hbase, ?_⟩
        show FlatBuffer.Step ba.flat _ (.ok []) ba'.flat
        rw [hflat]
        refine .seek hle ?_
        have hlen := h.length_content
        have hlen' := hL.length_content
        simp only [flat, List.length_drop]
        omega
  | clear =>
      refine ⟨clear_linked h, rfl, ?_⟩
      have hflat : ba.clear.flat = ⟨[], 0, ba.clear.capacity⟩ := by
        simp [flat, content, clear]
      show FlatBuffer.Step ba.flat _ (.ok []) ba.clear.flat
      rw [hflat]
      exact .clear

/-- Every run keeps the chain linked. -/
theorem reachable_linked {base : Nat} (hpos : 1 ≤ base) {ba : ByteArray}
    (h : (system base).ReachableBy (fun _ op => op.Sized) ba) :
    Linked ba ∧ ba.baseSize = base := by
  refine h.invariant (P := fun ba => Linked ba ∧ ba.baseSize = base) ?_ ?_
  · rintro _ ⟨heap, rfl⟩
    exact ⟨new_linked hpos heap, rfl⟩
  · rintro ba op ba' ⟨hL, hb⟩ hop hstep
    obtain rfl := Option.some.inj hstep
    obtain ⟨hL', hb', -⟩ := call_refines hL hop
    exact ⟨hL', hb'.trans hb⟩

/-- **The byte array is a flat byte buffer with a cursor**, in every
state any run of sized calls reaches. -/
theorem refines_flat_buffer {base : Nat} (hpos : 1 ≤ base) (_hlt : base < 2 ^ 53)
    {ba : ByteArray} (h : (system base).ReachableBy (fun _ op => op.Sized) ba) :
    -- the shape of the chain and where `cur` points
    (ba.baseSize = base ∧ ba.capacity = ba.baseSize * ba.nodes.length ∧
      ba.position ≤ ba.size ∧ ba.size ≤ ba.capacity ∧ ba.content.length = ba.size ∧
      ba.cur = if ba.position = ba.capacity then none else some (ba.position / ba.baseSize)) ∧
    -- write
    (∀ heap buf, buf.length < 2 ^ 53 → ∃ ba', ba.write heap buf = (.ok (), ba') ∧
      ba'.content = splice ba.content ba.position buf ∧
      ba'.position = ba.position + buf.length ∧
      ba'.size = max ba.size (ba.position + buf.length)) ∧
    -- read
    (∀ n, 1 ≤ n → n ≤ ba.getReadSize → ∃ ba',
      ba.read n = (.ok ((ba.content.drop ba.position).take n), ba') ∧
      ba'.content = ba.content ∧ ba'.position = ba.position + n ∧ ba'.size = ba.size) ∧
    (∀ n, ba.getReadSize < n → ba.read n = (.error (.outOfRange "not enough len"), ba)) ∧
    -- setPosition
    (∀ v, v ≤ ba.capacity → ∃ ba', ba.setPosition v = (.ok (), ba') ∧
      ba'.content.take ba.size = ba.content ∧ ba'.position = v ∧ ba'.size = max ba.size v) ∧
    (∀ v, ba.capacity < v →
      ba.setPosition v = (.error (.outOfRange "set_position out of range"), ba)) ∧
    -- one call is one step of the flat buffer, and no null node or foreign memory is touched
    (∀ op : Op, op.Sized → FlatBuffer.Step ba.flat op (ba.call op).1 (ba.call op).2.flat ∧
      (ba.call op).1 ≠ .error .nullDeref ∧ (ba.call op).1 ≠ .error .badAccess) := by
  obtain ⟨hL, hb⟩ := reachable_linked hpos h
  refine ⟨⟨hb, hL.capacity_eq, hL.position_le, hL.size_le, hL.length_content, hL.cur_eq⟩,
    ?_, ?_, fun n hn => read_short hn, ?_, fun v hv => setPosition_short hv, ?_⟩
  · intro heap buf hs
    obtain ⟨ba', hw, hwrote⟩ := write_spec hL heap hs
    exact ⟨ba', hw, hwrote.content, hwrote.position, hwrote.size⟩
  · intro n hn hle
    obtain ⟨ba', hr, -, hc, hp, hsz, -⟩ := read_spec hL hn hle
    exact ⟨ba', hr, hc, hp, hsz⟩
  · intro v hv
    obtain ⟨ba', hset, -, hc, hp, hsz, -⟩ := setPosition_spec hL hv
    exact ⟨ba', hset, hc, hp, hsz⟩
  · intro op hop
    have hstep := (call_refines hL hop).2.2
    refine ⟨hstep, ?_, ?_⟩
    · intro hnull
      rw [hnull] at hstep
      cases hstep
    · intro hbad
      rw [hbad] at hstep
      cases hstep

/-- One block of three bytes, filled to its end, so that `cur` is null
until the object is rewound. -/
theorem refines_flat_buffer_rewound :
    ∃ ba, (system 3).ReachableBy (fun _ op => op.Sized) ba ∧ ba.content = [7, 8, 9] ∧
      ba.position = 0 ∧ ba.size = 3 ∧ ∃ ba', ba.read 2 = (.ok [7, 8], ba') ∧
      ba'.position = 2 := by
  have hinit : (system 3).ReachableBy (fun _ op => op.Sized) (new 3 fun _ _ => 0) :=
    .init ⟨_, rfl⟩
  have hsize : Op.Sized (.write (fun _ _ => 0) [7, 8, 9]) := by
    show 3 < 2 ^ 53
    decide
  have hzero : Op.Sized (.setPosition 0) := by
    show 0 < 2 ^ 53
    decide
  have hseek := (hinit.step hsize rfl).step hzero rfl
  obtain ⟨-, -, hread, -⟩ := refines_flat_buffer (by decide) (by decide) hseek
  obtain ⟨ba', hr, -, hp, -⟩ := hread 2 (by decide) (by decide)
  exact ⟨_, hseek, by decide, by decide, by decide, ba', hr, hp⟩

end ByteArray

end Sylar
