import Sylar.ByteArrayBuffers

/-!
# Dumping a ByteArray to a file and loading it

`writeToFile` hands the memory from the cursor on to a stream, block by
block; `readFromFile` reads a file in pieces of the block size and
writes each at the cursor. A file is the bytes in it, as the stream has
stored them.

`writeToFile` takes the offset in the block off the length of the piece
even where the piece ends before the block does, so the last bytes of a
block can only be dumped from its beginning on. Loading is right for
every file: a piece is at most one block long, for which `addCapacity`
never computes too little.
-/

namespace Sylar

open BinaryFloat

namespace ByteArray

/-- The loop of `writeToFile`, from node `i` on: the memory that it
hands to the stream. A piece of negative length is no memory. -/
def dumpFrom (baseSize : Nat) : List Node → Nat → Nat → Nat → Except Fault (List Iovec)
  | [], _, readSize, _ => if readSize = 0 then .ok [] else .error .nullDeref
  | n :: rest, i, readSize, pos =>
      if readSize = 0 then .ok []
      else
        let diff := toInt32 (pos % baseSize : Nat)
        let len := (if readSize > baseSize then baseSize else readSize : Nat) - diff
        if diff < 0 ∨ len < 0 ∨ n.size < diff + len then .error .badAccess
        else do
          let more ← dumpFrom baseSize rest (i + 1) (readSize - len.toNat) (pos + len.toNat)
          return ⟨i, diff.toNat, len.toNat⟩ :: more

/-- `writeToFile(name)`; `opens` is whether the file could be opened. -/
def writeToFile (ba : ByteArray) (opens : Bool) : Except Fault (Bool × List Iovec) :=
  if !opens then .ok (false, [])
  else do
    let nodes := match ba.cur with
      | none => []
      | some i => ba.nodes.drop i
    let iovs ← dumpFrom ba.baseSize nodes (ba.cur.getD 0) ba.getReadSize ba.position
    return (true, iovs)

/-- The loop of `readFromFile`, with `file` still to be read. The end of
the file is only noticed by a `read` that gets less than it asked for;
no array has blocks of no bytes. -/
def loadFrom (heap : Nat → Nat → UInt8) (piece : Nat) (ba : ByteArray) (file : List UInt8) :
    Res Unit :=
  match ba.write heap (file.take piece) with
  | (.error e, ba) => (.error e, ba)
  | (.ok (), ba) =>
      if file.length < piece ∨ piece = 0 then (.ok (), ba)
      else loadFrom heap piece ba (file.drop piece)
termination_by file.length
decreasing_by
  rw [List.length_drop]
  omega

/-- `readFromFile(name)`; no file if it could not be opened. -/
def readFromFile (heap : Nat → Nat → UInt8) (ba : ByteArray) : Option (List UInt8) → Res Bool
  | none => (.ok false, ba)
  | some file => (loadFrom heap ba.baseSize ba file).map (Except.map fun _ => true) id

variable {ba : ByteArray} {base b : Nat}

/-! ## Which memory it is -/

/-- The positions of the bytes of a buffer. -/
def positions (b : Nat) (v : Iovec) : List Nat := List.range' (b * v.node + v.off) v.len

/-- The buffers for `len` bytes from `npos` on are at the next `len` positions. -/
theorem buffersFrom_positions : ∀ {L : List Node} {i npos len : Nat} {iovs : List Iovec},
    (∀ m ∈ L, m.size = b) → npos ≤ b → buffersFrom L i npos len = .ok iovs →
    iovs.flatMap (positions b) = List.range' (b * i + npos) len
  | [], _, _, _, _, _, _, hok => nomatch hok
  | m :: rest, i, npos, len, iovs, hsize, hnpos, hok => by
      have hm : m.size = b := hsize m (List.mem_cons_self ..)
      rw [buffersFrom, hm] at hok
      split at hok
      · obtain rfl := Except.ok.inj hok
        simp [positions]
      · obtain ⟨more, hmore, hret⟩ := bind_eq_ok.mp hok
        obtain rfl := Except.ok.inj hret
        have ih := buffersFrom_positions (fun k hk => hsize k (List.mem_cons_of_mem _ hk))
          (Nat.zero_le _) hmore
        have hend : b * (i + 1) + 0 = b * i + npos + (b - npos) := by
          rw [Nat.mul_succ]
          omega
        rw [List.flatMap_cons, ih, positions]
        dsimp only
        rw [hend, List.range'_append_1]
        congr 1
        omega

/-- The pieces from node `i` on are not in front of it. -/
theorem le_of_mem_dumpFrom : ∀ {L : List Node} {i readSize pos k : Nat} {iovs : List Iovec},
    dumpFrom b L i readSize pos = .ok iovs → k ∈ iovs.flatMap (positions b) → b * i ≤ k
  | [], i, readSize, pos, k, iovs, hok, hk => by
      rw [dumpFrom] at hok
      split at hok
      · rw [← Except.ok.inj hok] at hk
        simp at hk
      · cases hok
  | m :: rest, i, readSize, pos, k, iovs, hok, hk => by
      rw [dumpFrom] at hok
      split at hok
      · rw [← Except.ok.inj hok] at hk
        simp at hk
      · dsimp only at hok
        generalize toInt32 _ = diff at hok
        generalize ((if readSize > b then b else readSize : Nat) : Int) - diff = len at hok
        split at hok
        · cases hok
        · obtain ⟨more, hmore, hret⟩ := bind_eq_ok.mp hok
          rw [← Except.ok.inj hret, List.flatMap_cons, List.mem_append] at hk
          rcases hk with hk | hk
          · rw [positions, List.mem_range'_1] at hk
            dsimp only at hk
            omega
          · have ih := le_of_mem_dumpFrom hmore hk
            rw [Nat.mul_succ] at ih
            omega

/-- From the beginning of a block, or with a block to go, the pieces are
the buffers for the bytes. -/
theorem dumpFrom_eq (hb : 0 < b) : ∀ {L : List Node} {i readSize pos : Nat},
    (∀ m ∈ L, m.size = b) → pos % b < 2 ^ 31 → (pos % b = 0 ∨ b ≤ readSize) → 0 < readSize →
    dumpFrom b L i readSize pos = buffersFrom L i (pos % b) readSize
  | [], i, readSize, pos, _, _, _, hpos => by
      rw [dumpFrom, if_neg (Nat.ne_of_gt hpos), buffersFrom]
  | m :: rest, i, readSize, pos, hsize, hint, halign, hpos => by
      have hm : m.size = b := hsize m (List.mem_cons_self ..)
      have hoff : pos % b < b := Nat.mod_lt _ hb
      rw [dumpFrom, if_neg (Nat.ne_of_gt hpos), buffersFrom, hm, toInt32_eq hint]
      dsimp only
      rcases Nat.lt_or_ge b (readSize + pos % b) with hmore | hfit
      · -- the piece ends with the block
        have hlen : ((if readSize > b then b else readSize : Nat) : Int) - (pos % b : Nat) =
            (b - pos % b : Nat) := by
          split <;> omega
        have halign' : (pos + (b - pos % b)) % b = 0 := by
          have hdm := Nat.div_add_mod pos b
          rw [show pos + (b - pos % b) = b * (pos / b + 1) by rw [Nat.mul_succ]; omega]
          exact Nat.mul_mod_right ..
        have ih : dumpFrom b rest (i + 1) (readSize - (b - pos % b)) (pos + (b - pos % b)) = _ :=
          dumpFrom_eq hb (fun k hk => hsize k (List.mem_cons_of_mem _ hk)) (by omega)
            (.inl halign') (by omega)
        rw [halign'] at ih
        rw [hlen, if_neg (by omega), if_neg (by omega), Int.toNat_natCast, Int.toNat_natCast, ih]
      · -- the piece is the last one
        have hzero : pos % b = 0 := by omega
        have hlen : ((if readSize > b then b else readSize : Nat) : Int) - (pos % b : Nat) =
            readSize := by
          split <;> omega
        rw [hlen, if_neg (by omega), if_pos (by omega), Int.toNat_natCast, Int.toNat_natCast,
          Nat.sub_self]
        have hdone : dumpFrom b rest (i + 1) 0 (pos + readSize) = .ok [] := by
          cases rest <;> rfl
        rw [hdone]
        rfl

/-- Pieces that begin with the byte at `pos` and go on with the next
`readSize` come from there. -/
theorem dumpFrom_inv (hb : 0 < b) {m : Node} {rest : List Node} {i readSize pos : Nat}
    {iovs : List Iovec} (hi : i = pos / b) (hpos : 0 < readSize)
    (hok : dumpFrom b (m :: rest) i readSize pos = .ok iovs)
    (hall : iovs.flatMap (positions b) = List.range' pos readSize) :
    pos % b < 2 ^ 31 ∧ (pos % b = 0 ∨ b ≤ readSize) := by
  have hdm := Nat.div_add_mod pos b
  have hoff : pos % b < b := Nat.mod_lt _ hb
  rw [← hi] at hdm
  rw [dumpFrom, if_neg (Nat.ne_of_gt hpos)] at hok
  dsimp only at hok
  have hbound : toInt32 (pos % b : Nat) < 2 ^ 31 := by
    unfold toInt32
    omega
  generalize toInt32 (pos % b : Nat) = diff at hok hbound
  generalize hlen : ((if readSize > b then b else readSize : Nat) : Int) - diff = len at hok
  split at hok
  · cases hok
  · rename_i hin
    obtain ⟨more, hmore, hret⟩ := bind_eq_ok.mp hok
    obtain rfl := Except.ok.inj hret
    -- the other pieces are behind the first block
    have hbehind (k : Nat) (hk : k ∈ more.flatMap (positions b)) : b * i + b ≤ k :=
      le_of_mem_dumpFrom hmore hk
    rw [List.flatMap_cons, positions] at hall
    dsimp only at hall
    have hsome : 0 < len.toNat := by
      by_contra hzero
      rw [Nat.eq_zero_of_not_pos hzero, List.range'_zero, List.nil_append] at hall
      have := hbehind pos (hall ▸ List.mem_range'_1.mpr ⟨Nat.le_refl _, by omega⟩)
      omega
    obtain ⟨k, hk⟩ := Nat.exists_eq_succ_of_ne_zero (Nat.ne_of_gt hsome)
    obtain ⟨r, hr⟩ := Nat.exists_eq_succ_of_ne_zero (Nat.ne_of_gt hpos)
    have hhead := hall
    rw [hk, hr, List.range'_succ, List.range'_succ, List.cons_append] at hhead
    have hfirst : b * i + diff.toNat = pos := (List.cons.inj hhead).1
    have hle : len.toNat ≤ readSize := by
      have := congrArg List.length hall
      simp only [List.length_append, List.length_range'] at this
      omega
    have hrest : more.flatMap (positions b) =
        List.range' (pos + len.toNat) (readSize - len.toNat) := by
      rw [hfirst, show readSize = len.toNat + (readSize - len.toNat) by omega,
        ← List.range'_append_1, List.append_cancel_left_eq] at hall
      rw [hall]
    have hdiff : diff = (pos % b : Nat) := by omega
    refine ⟨by omega, ?_⟩
    by_contra hnot
    rw [if_neg (by omega)] at hlen
    have := hbehind (pos + len.toNat) (hrest ▸ List.mem_range'_1.mpr ⟨Nat.le_refl _, by omega⟩)
    omega

/-! ## Loading -/

theorem nodeCount_pos {size : Nat} (hb : 0 < b) (hs : 0 < size) : 0 < nodeCount size b := by
  have hsize : 0 < toBinary 53 (size : ℚ) := toBinary_pos (by norm_num) (by exact_mod_cast hs)
  have hbase : 0 < toBinary 53 (b : ℚ) := toBinary_pos (by norm_num) (by exact_mod_cast hb)
  have hquot := toBinary_pos (p := 53) (by norm_num) (div_pos hsize hbase)
  have hceil : 0 < ⌈toBinary 53 (toBinary 53 (size : ℚ) / toBinary 53 (b : ℚ))⌉ :=
    Int.ceil_pos.mpr hquot
  rw [nodeCount]
  omega

/-- One more block is room for the bytes of a block. -/
theorem write_piece (h : Linked ba) (heap : Nat → Nat → UInt8) {buf : List UInt8}
    (hle : buf.length ≤ ba.baseSize) :
    ∃ ba', ba.write heap buf = (.ok (), ba') ∧ Wrote ba ba' buf := by
  by_cases hnil : buf = []
  · subst hnil
    exact ⟨ba, rfl, .refl h⟩
  · have hlen : 0 < buf.length := List.length_pos_of_ne_nil hnil
    have henough : buf.length ≤ ba.getCapacity ∨ buf.length - ba.getCapacity ≤
        ba.baseSize * nodeCount (buf.length - ba.getCapacity) ba.baseSize := by
      rcases Nat.lt_or_ge ba.getCapacity buf.length with hmore | hfree
      · have hone := Nat.mul_le_mul_left ba.baseSize
          (nodeCount_pos h.base_pos (Nat.sub_pos_of_lt hmore))
        exact .inr (by omega)
      · exact .inl hfree
    obtain ⟨ba', hw, hwrote, -⟩ :=
      write_grown h heap hnil ((addCapacity_enough h hlen).mpr henough)
    exact ⟨ba', hw, hwrote⟩

theorem loadFrom_spec (heap : Nat → Nat → UInt8) (hb : 0 < b) (ba : ByteArray)
    (file : List UInt8) (h : Linked ba) (hbase : ba.baseSize = b) :
    ∃ ba', loadFrom heap b ba file = (.ok (), ba') ∧ Wrote ba ba' file := by
  have hpiece : (file.take b).length ≤ ba.baseSize := by
    rw [List.length_take, hbase]
    exact Nat.min_le_left ..
  obtain ⟨mid, hw, hwrote⟩ := write_piece h heap hpiece
  rw [loadFrom, hw]
  dsimp only
  split
  · rename_i hlast
    rw [List.take_of_length_le (by omega)] at hwrote
    exact ⟨mid, rfl, hwrote⟩
  · obtain ⟨ba', hload, hmore⟩ := loadFrom_spec heap hb mid (file.drop b) hwrote.linked
      (hwrote.baseSize.trans hbase)
    refine ⟨ba', hload, ?_⟩
    have hall := hwrote.trans h hmore
    rwa [List.take_append_drop] at hall
termination_by file.length
decreasing_by
  rw [List.length_drop]
  omega

/-- Every file is written at the cursor. -/
theorem readFromFile_spec (heap : Nat → Nat → UInt8) (h : Linked ba) (file : List UInt8) :
    ∃ ba', ba.readFromFile heap (some file) = (.ok true, ba') ∧ Wrote ba ba' file := by
  obtain ⟨ba', hload, hwrote⟩ := loadFrom_spec heap h.base_pos ba file h rfl
  exact ⟨ba', by rw [readFromFile, hload]; rfl, hwrote⟩

/-! ## Dumping and loading -/

/-- What dumping an array and loading the file is to do. -/
structure RoundTrips (ba : ByteArray) (iovs : List Iovec) (file : List UInt8) : Prop where
  dumped : ba.writeToFile true = .ok (true, iovs)
  positions : iovs.flatMap (positions ba.baseSize) = List.range' ba.position ba.getReadSize
  gathered : gather ba.nodes iovs = .ok file
  file_eq : file = ba.content.drop ba.position
  appended : ∀ (base : Nat) (dst : ByteArray) (heap : Nat → Nat → UInt8), 1 ≤ base →
    (system base).Reachable dst →
    ∃ dst', dst.readFromFile heap (some file) = (.ok true, dst') ∧ Wrote dst dst' file
  restored : ∀ (base : Nat) (heap heap' : Nat → Nat → UInt8), 1 ≤ base → ∃ dst dst',
    (new base heap).readFromFile heap' (some file) = (.ok true, dst) ∧
    dst.setPosition 0 = (.ok (), dst') ∧ dst'.toString = ba.toString

/-- A file is loaded as it is, and an empty array that has loaded it
shows it. -/
theorem roundTrips_of_dumped (h : Linked ba) (hsize : ba.size < 2 ^ 64) {iovs : List Iovec}
    (hdump : ba.writeToFile true = .ok (true, iovs))
    (hpositions : iovs.flatMap (positions ba.baseSize) = List.range' ba.position ba.getReadSize)
    (hgather : gather ba.nodes iovs = .ok (ba.content.drop ba.position)) :
    RoundTrips ba iovs (ba.content.drop ba.position) := by
  refine ⟨hdump, hpositions, hgather, rfl, fun base dst heap hpos hdst => ?_,
    fun base heap heap' hpos => ?_⟩
  · exact readFromFile_spec heap (reachable_linked_any hpos hdst).1 _
  · have hnew := new_linked hpos heap
    obtain ⟨dst, hload, hwrote⟩ := readFromFile_spec heap' hnew (ba.content.drop ba.position)
    obtain ⟨dst', hset, hL, hcontent, hp, hs, -⟩ :=
      setPosition_spec hwrote.linked (Nat.zero_le _)
    refine ⟨dst, dst', hload, hset, ?_⟩
    have hlen : (ba.content.drop ba.position).length = ba.size - ba.position := by
      rw [List.length_drop, h.length_content]
    have hzero : (new base heap).position = 0 ∧ (new base heap).size = 0 := ⟨rfl, rfl⟩
    have hsize' : dst'.size = ba.size - ba.position := by
      rw [hs, hwrote.size, hlen, hzero.1, hzero.2]
      omega
    have hsame : dst'.content = ba.content.drop ba.position := by
      have hall : dst'.content = dst.content := by
        rw [← hcontent, List.take_of_length_le]
        rw [hL.length_content, hs]
        omega
      rw [hall, hwrote.content, hzero.1]
      have hnil : (new base heap).content = [] := rfl
      rw [hnil, splice, List.take_nil, List.drop_nil, List.nil_append, List.append_nil]
    rw [toString_eq hL (by omega), toString_eq h hsize, hp, List.drop_zero, hsame]

/-- The memory from the cursor on, when there is nothing to dump and
when there is. -/
theorem writeToFile_eq (h : Linked ba) (hlt : ba.position < ba.capacity) :
    ba.writeToFile true = (dumpFrom ba.baseSize (ba.nodes.drop (ba.position / ba.baseSize))
      (ba.position / ba.baseSize) ba.getReadSize ba.position).map fun iovs => (true, iovs) := by
  rw [writeToFile, (h.cursor_node hlt).1]
  rfl

theorem writeToFile_empty (hread : ba.getReadSize = 0) : ba.writeToFile true = .ok (true, []) := by
  have hdone (L : List Node) (i pos : Nat) : dumpFrom ba.baseSize L i 0 pos = .ok [] := by
    cases L <;> rfl
  rw [writeToFile, hread]
  dsimp only
  rw [hdone]
  rfl

/-- **When a ByteArray is dumped and loaded**: if there is nothing to
dump, or the cursor is at the beginning of a block, or a block and more
is behind it, and its offset in the block is an `int`. -/
theorem file_round_trip_iff (hpos : 1 ≤ base) (hbase : base < 2 ^ 63)
    (h : (system base).ReachableBy Addressable ba) :
    (∃ iovs file, RoundTrips ba iovs file) ↔ ba.getReadSize = 0 ∨
      ba.position % ba.baseSize < 2 ^ 31 ∧
        (ba.position % ba.baseSize = 0 ∨ ba.baseSize ≤ ba.getReadSize) := by
  obtain ⟨hL, -, hcap⟩ := reachable_addressable hpos hbase h
  have hps := hL.position_le
  have hsc := hL.size_le
  have hread : ba.getReadSize = ba.size - ba.position := rfl
  rcases Nat.eq_zero_or_pos ba.getReadSize with hzero | hsome
  · refine ⟨fun _ => .inl hzero, fun _ => ⟨[], _, roundTrips_of_dumped hL (by omega)
      (writeToFile_empty hzero) (by rw [hzero]; rfl) ?_⟩⟩
    rw [List.drop_of_length_le (by rw [hL.length_content]; omega)]
    rfl
  have hlt : ba.position < ba.capacity := by omega
  obtain ⟨hi, -⟩ := hL.node_at hlt
  have hnodes : ∀ m ∈ ba.nodes.drop (ba.position / ba.baseSize), m.size = ba.baseSize :=
    fun m hm => hL.node_size m (List.mem_of_mem_drop hm)
  constructor
  · rintro ⟨iovs, file, hround⟩
    have hdump := hround.dumped
    obtain ⟨m, rest, hdrop⟩ := List.exists_cons_of_ne_nil
      (show ba.nodes.drop (ba.position / ba.baseSize) ≠ [] from
        List.ne_nil_of_length_pos (by rw [List.length_drop]; omega))
    rw [writeToFile_eq hL hlt, hdrop] at hdump
    cases hloop : dumpFrom ba.baseSize (m :: rest) (ba.position / ba.baseSize) ba.getReadSize
        ba.position with
    | error e =>
        rw [hloop] at hdump
        cases hdump
    | ok iovs' =>
        rw [hloop] at hdump
        obtain rfl := (Prod.mk.inj (Except.ok.inj hdump)).2
        exact .inr (dumpFrom_inv hL.base_pos rfl hsome hloop hround.positions)
  · rintro (hzero | ⟨hint, halign⟩)
    · omega
    · obtain ⟨iovs, hiovs, -, hgather, -⟩ := hL.buffers_spec (q := ba.position) hsome (by omega)
      have hdm := Nat.div_add_mod ba.position ba.baseSize
      have hpositions := buffersFrom_positions hnodes (hL.node_at hlt).2.le hiovs
      rw [hdm] at hpositions
      rw [content_slice (by omega), List.take_of_length_le (by
        rw [List.length_drop, hL.length_content]
        omega)] at hgather
      refine ⟨iovs, _, roundTrips_of_dumped hL (by omega) ?_ hpositions hgather⟩
      rw [writeToFile_eq hL hlt, dumpFrom_eq hL.base_pos hnodes hint halign hsome, hiovs]
      rfl

/-- From the second byte of a block of two, two bytes. -/
theorem file_round_trip_iff_two : ∃ iovs file,
    RoundTrips (((new 2 fun _ _ => 0).write (fun _ _ => 0) [7, 8, 9]).2.setPosition 1).2 iovs file :=
  (file_round_trip_iff (by decide) (by decide) rewound_reachable).mpr
    (.inr (by decide +kernel))

/-- Three bytes from the second of a block of four: the first piece has
two of them, and there is no next block. -/
theorem dump_past_block :
    (system 4).ReachableBy Addressable
        (((new 4 fun _ _ => 0).write (fun _ _ => 0) [7, 8, 9, 10]).2.setPosition 1).2 ∧
      (((new 4 fun _ _ => 0).write (fun _ _ => 0) [7, 8, 9, 10]).2.setPosition 1).2.writeToFile
        true = .error .nullDeref ∧
      ¬∃ iovs file, RoundTrips
        (((new 4 fun _ _ => 0).write (fun _ _ => 0) [7, 8, 9, 10]).2.setPosition 1).2
        iovs file := by
  have hinit : (system 4).ReachableBy Addressable (new 4 fun _ _ => 0) := .init ⟨_, rfl⟩
  have hroom : Addressable (new 4 fun _ _ => 0) (.write (fun _ _ => 0) [7, 8, 9, 10]) := by
    show _ < 2 ^ 63
    decide
  have hroom' : Addressable ((new 4 fun _ _ => 0).write (fun _ _ => 0) [7, 8, 9, 10]).2
      (.setPosition 1) := by
    show _ < 2 ^ 63
    decide
  have hdump : (((new 4 fun _ _ => 0).write (fun _ _ => 0) [7, 8, 9, 10]).2.setPosition
      1).2.writeToFile true = .error .nullDeref := by
    decide
  refine ⟨(hinit.step hroom rfl).step hroom' rfl, hdump, ?_⟩
  rintro ⟨iovs, file, hround⟩
  have hok := hround.dumped
  rw [hdump] at hok
  cases hok

end ByteArray

end Sylar
