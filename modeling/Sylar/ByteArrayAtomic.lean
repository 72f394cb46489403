import Sylar.ByteArrayPositional
import Sylar.ByteArrayRoundTrip

/-!
# Reads that fail

`read` checks its bound before it does anything. A reader that calls it
more than once is in the middle of its value when a later call throws:
the bytes of a varint, or the length in front of a string, are consumed
by then. `atomic_iff` says for which bytes a reader succeeds or has no
effect.
-/

namespace Sylar

namespace ByteArray

/-- The typed readers. -/
inductive Reader where
  | value (k : Kind)
  | string (f : StringKind)
deriving Repr, DecidableEq

/-- A call on `ba` that succeeds, or throws `std::out_of_range` and leaves
the object as it was. -/
def Unharmed {α : Type} (ba : ByteArray) (r : Res α) : Prop :=
  (∃ a, r.1 = .ok a) ∨ (∃ what, r.1 = .error (.outOfRange what)) ∧ r.2 = ba

def Reader.Atomic (host : Endian) (ba : ByteArray) : Reader → Prop
  | .value k => Unharmed ba (ba.readKind host k)
  | .string f => Unharmed ba (ba.readString host f)

/-! ## What there is to read -/

/-- How many bytes the loop of a reader takes at most; 0 for those without
a loop. -/
def Kind.rounds : Kind → Nat
  | .Int32 | .Uint32 => 5
  | .Int64 | .Uint64 => 10
  | _ => 0

/-- The bytes of the length in front of a string, if they are all there. -/
def StringKind.takeLength : StringKind → List UInt8 → Option (List UInt8)
  | .Vint, bs => takeVarint 10 bs
  | f, bs => if f.width ≤ bs.length then some (bs.take f.width) else none

/-- The length that they stand for. -/
def lengthValue (host : Endian) (ba : ByteArray) : StringKind → List UInt8 → Nat
  | .F16, bs => (ba.order host (ofMemory host 2 bs)).toNat
  | .F32, bs => (ba.order host (ofMemory host 4 bs)).toNat
  | .F64, bs => (ba.order host (ofMemory host 8 bs)).toNat
  | .Vint, bs => varintValue bs % 2 ^ 64

/-- A varint is there as a whole, or nothing is. Of a string, nothing of
the length is taken; or the length is there and so is the string, and if
that is empty, the length does not end where the memory does. -/
def Reader.Complete (host : Endian) (ba : ByteArray) : Reader → Prop
  | .value k => ba.unread = [] ∨ takeVarint k.rounds ba.unread ≠ none
  | .string f =>
      f.takeLength ba.unread = none ∧ (f = .Vint → ba.unread = []) ∨
        ∃ bs, f.takeLength ba.unread = some bs ∧
          bs.length + lengthValue host ba f bs ≤ ba.unread.length ∧
            ¬(lengthValue host ba f bs = 0 ∧ ba.position + bs.length = ba.capacity)

/-! ## One read -/

section

variable {host : Endian} {ba ba' : ByteArray} {n : Nat}

theorem Consumed.ne {x rest : List UInt8} (h : Consumed ba ba' x rest) (hx : x ≠ []) :
    ba' ≠ ba := by
  rintro rfl
  have hpos := List.length_pos_iff.mpr hx
  have hposition := h.position
  omega

/-- The next `n` bytes. -/
theorem read_take (h : Linked ba) (hn : 0 < n) (hle : n ≤ ba.unread.length) :
    ∃ ba', ba.read n = (.ok (ba.unread.take n), ba') ∧
      Consumed ba ba' (ba.unread.take n) (ba.unread.drop n) := by
  have hlen : (ba.unread.take n).length = n := by rw [List.length_take, Nat.min_eq_left hle]
  obtain ⟨ba', hr, hcons⟩ := read_prefix h (List.ne_nil_of_length_pos (by omega))
    (List.take_append_drop n ba.unread).symm
  rw [hlen] at hr
  exact ⟨ba', hr, hcons⟩

/-- A `read` that does not return leaves the object as it was. -/
theorem read_failed {e : Fault} (hr : ba.read n = (.error e, ba')) : ba' = ba := by
  rw [read] at hr
  split at hr
  · exact (Prod.mk.inj hr).2.symm
  · split at hr
    · exact (Prod.mk.inj hr).2.symm
    · split at hr
      · exact (Prod.mk.inj hr).2.symm
      · cases (Prod.mk.inj hr).1

theorem read_ok_iff (h : Linked ba) :
    (∃ bytes, (ba.read n).1 = .ok bytes) ↔
      n ≤ ba.unread.length ∧ ¬(n = 0 ∧ ba.position = ba.capacity) := by
  rcases Nat.eq_zero_or_pos n with rfl | hn
  · have hzero := read_zero h
    split at hzero
    · rename_i hend
      rw [hzero]
      refine iff_of_false ?_ fun hno => hno.2 ⟨rfl, hend⟩
      rintro ⟨bytes, hok⟩
      cases hok
    · rename_i hend
      rw [hzero]
      exact iff_of_true ⟨[], rfl⟩ ⟨Nat.zero_le _, fun hno => hend hno.2⟩
  · rcases Nat.lt_or_ge ba.unread.length n with hlt | hle
    · rw [read_short (h.length_unread ▸ hlt)]
      refine iff_of_false ?_ fun hno => by omega
      rintro ⟨bytes, hok⟩
      cases hok
    · obtain ⟨ba', hr, -⟩ := read_take h hn hle
      rw [hr]
      exact iff_of_true ⟨_, rfl⟩ ⟨hle, fun hno => by omega⟩

/-- A single `read` of something. -/
theorem unharmed_read (h : Linked ba) (hn : 0 < n) : Unharmed ba (ba.read n) := by
  rcases Nat.lt_or_ge ba.unread.length n with hlt | hle
  · rw [read_short (h.length_unread ▸ hlt)]
    exact .inr ⟨⟨_, rfl⟩, rfl⟩
  · exact .inl ((read_ok_iff h).mpr ⟨hle, fun hno => by omega⟩)

/-- A `read` behind another one. -/
theorem unharmed_read_behind {ba₀ : ByteArray} (h : Linked ba) (hne : ba ≠ ba₀) :
    Unharmed ba₀ (ba.read n) ↔ n ≤ ba.unread.length ∧ ¬(n = 0 ∧ ba.position = ba.capacity) := by
  rw [← read_ok_iff h, Unharmed]
  refine or_iff_left ?_
  rintro ⟨⟨what, hwhat⟩, hsame⟩
  have hleft := read_failed (show ba.read n = (.error (.outOfRange what), (ba.read n).2) from
    Prod.ext hwhat rfl)
  exact hne (hleft.symm.trans hsame)

/-- What is made of the value does not matter. -/
theorem unharmed_bind {α β : Type} {ba : ByteArray} (r : Res α) (f : α → ByteArray → β) :
    Unharmed ba (Res.bind r fun a ba => (.ok (f a ba), ba)) ↔ Unharmed ba r := by
  obtain ⟨e | a, ba'⟩ := r
  · rw [Unharmed, Unharmed, Res.bind]
    simp only [reduceCtorEq, exists_false, false_or, Except.error.injEq]
  · rw [Res.bind_ok]
    exact iff_of_true (.inl ⟨_, rfl⟩) (.inl ⟨_, rfl⟩)

end

/-! ## Varints -/

section

variable (host : Endian) {ba : ByteArray}

theorem takeVarint_isPrefix : ∀ {room : Nat} {bs taken : List UInt8},
    takeVarint room bs = some taken → taken <+: bs
  | 0, bs, taken, h => by
      rw [← Option.some.inj h]
      exact List.nil_prefix
  | room + 1, [], taken, h => by cases h
  | room + 1, b :: bs, taken, h => by
      rw [takeVarint] at h
      split at h
      · rw [← Option.some.inj h]
        exact ⟨bs, rfl⟩
      · obtain ⟨rest, hrest, rfl⟩ := Option.map_eq_some_iff.mp h
        exact List.cons_prefix_cons.mpr ⟨rfl, takeVarint_isPrefix hrest⟩

theorem takeVarint_ne_nil {room : Nat} {bs taken : List UInt8}
    (h : takeVarint (room + 1) bs = some taken) : taken ≠ [] := by
  cases bs with
  | nil => cases h
  | cons b bs =>
      rw [takeVarint] at h
      split at h
      · rw [← Option.some.inj h]
        exact List.cons_ne_nil _ _
      · obtain ⟨rest, -, rfl⟩ := Option.map_eq_some_iff.mp h
        exact List.cons_ne_nil _ _

/-- The loop as a whole. -/
theorem varint_atomic_iff {w room : Nat} (h : Linked ba) (hroom : room = (w + 6) / 7)
    (hle : room ≤ w) :
    Unharmed ba (readVarint host w 0 (0 : BitVec w) ba) ↔
      ba.unread = [] ∨ takeVarint room ba.unread ≠ none := by
  obtain ⟨hsome, hnone⟩ := readVarint_spec host h hroom hle
  cases htake : takeVarint room ba.unread with
  | some bs =>
      obtain ⟨v, ba', hread, -⟩ := hsome bs htake
      rw [hread]
      exact iff_of_true (.inl ⟨v, rfl⟩) (.inr (Option.some_ne_none bs))
  | none =>
      obtain ⟨ba', hread, hposition, hnil⟩ := hnone htake
      rw [hread, or_iff_left (fun hno => hno rfl)]
      constructor
      · rintro (⟨a, ha⟩ | ⟨-, hsame⟩)
        · cases ha
        · rw [show ba' = ba from hsame] at hposition
          exact List.length_eq_zero_iff.mp (by omega)
      · exact fun hu => .inr ⟨⟨_, rfl⟩, hnil hu⟩

/-! ## Lengths -/

/-- A length of fixed width. -/
theorem readFixed_bytes {n : Nat} (h : Linked ba) (hn : 0 < n) :
    (∀ bs, (if n ≤ ba.unread.length then some (ba.unread.take n) else none) = some bs →
      ∃ ba', ba.readFixed host n = (.ok (ba.order host (ofMemory host n bs)), ba') ∧ bs ≠ [] ∧
        Consumed ba ba' bs (ba.unread.drop bs.length)) ∧
    ((if n ≤ ba.unread.length then some (ba.unread.take n) else none) = none →
      ba.readFixed host n = (.error (.outOfRange "not enough len"), ba)) := by
  rcases Nat.lt_or_ge ba.unread.length n with hlt | hle
  · rw [if_neg (Nat.not_le_of_lt hlt), readFixed, read_short (h.length_unread ▸ hlt)]
    exact ⟨fun bs hbs => (by cases hbs), fun _ => rfl⟩
  · obtain ⟨ba', hr, hcons⟩ := read_take h hn hle
    have hlen : (ba.unread.take n).length = n := by rw [List.length_take, Nat.min_eq_left hle]
    rw [if_pos hle]
    refine ⟨fun bs hbs => ?_, fun hnone => by cases hnone⟩
    obtain rfl := Option.some.inj hbs
    refine ⟨ba', ?_, List.ne_nil_of_length_pos (by omega), by rw [hlen]; exact hcons⟩
    rw [readFixed, hr, Res.bind_ok, order_congr host hcons.endian]

theorem takeLength_isPrefix {f : StringKind} {bs taken : List UInt8}
    (h : f.takeLength bs = some taken) : taken <+: bs := by
  have hfixed {n : Nat} (h : (if n ≤ bs.length then some (bs.take n) else none) = some taken) :
      taken <+: bs := by
    split at h
    · rw [← Option.some.inj h]
      exact List.take_prefix n bs
    · cases h
  cases f with
  | F16 | F32 | F64 => exact hfixed h
  | Vint => exact takeVarint_isPrefix h

/-- The length in front of a string. -/
theorem readLength_bytes (h : Linked ba) (f : StringKind) :
    (∀ bs, f.takeLength ba.unread = some bs →
      ∃ len ba', ba.readKind host f.kind = (.ok len, ba') ∧
        len.toNat = lengthValue host ba f bs ∧ bs ≠ [] ∧
        Consumed ba ba' bs (ba.unread.drop bs.length)) ∧
    (f.takeLength ba.unread = none →
      ∃ ba', ba.readKind host f.kind = (.error (.outOfRange "not enough len"), ba') ∧
        (ba' = ba ↔ (f = .Vint → ba.unread = []))) := by
  cases f with
  | F16 =>
      obtain ⟨hsome, hnone⟩ := readFixed_bytes host h (show 0 < 2 by decide)
      refine ⟨fun bs hbs => ?_, fun hno => ⟨ba, hnone hno, iff_of_true rfl fun hf => by cases hf⟩⟩
      obtain ⟨ba', hr, hne, hcons⟩ := hsome bs hbs
      exact ⟨_, ba', hr, rfl, hne, hcons⟩
  | F32 =>
      obtain ⟨hsome, hnone⟩ := readFixed_bytes host h (show 0 < 4 by decide)
      refine ⟨fun bs hbs => ?_, fun hno => ⟨ba, hnone hno, iff_of_true rfl fun hf => by cases hf⟩⟩
      obtain ⟨ba', hr, hne, hcons⟩ := hsome bs hbs
      exact ⟨_, ba', hr, rfl, hne, hcons⟩
  | F64 =>
      obtain ⟨hsome, hnone⟩ := readFixed_bytes host h (show 0 < 8 by decide)
      refine ⟨fun bs hbs => ?_, fun hno => ⟨ba, hnone hno, iff_of_true rfl fun hf => by cases hf⟩⟩
      obtain ⟨ba', hr, hne, hcons⟩ := hsome bs hbs
      exact ⟨_, ba', hr, rfl, hne, hcons⟩
  | Vint =>
      obtain ⟨hsome, hnone⟩ := @readVarint_spec host ba 64 10 h (by decide) (by decide)
      constructor
      · intro bs hbs
        obtain ⟨len, ba', hr, hlen, hcons⟩ := hsome bs hbs
        exact ⟨len, ba', hr, hlen, takeVarint_ne_nil hbs, hcons⟩
      · intro hno
        obtain ⟨ba', hr, hposition, hnil⟩ := hnone hno
        refine ⟨ba', hr, ?_, fun hu => hnil (hu rfl)⟩
        rintro rfl -
        exact List.length_eq_zero_iff.mp (by omega)

end

/-! ## The readers -/

section

variable {ba : ByteArray}

/-- **When a reader fails without an effect.** -/
theorem reader_atomic_iff (h : Linked ba) (host : Endian) (op : Reader) :
    op.Atomic host ba ↔ op.Complete host ba := by
  cases op with
  | value k =>
      show Unharmed ba (ba.readKind host k) ↔ ba.unread = [] ∨ takeVarint k.rounds ba.unread ≠ none
      cases k with
      | Fint8 | Fuint8 =>
          exact iff_of_true ((unharmed_bind _ _).mpr (unharmed_read h (by decide)))
            (.inr (Option.some_ne_none _))
      | Fint16 | Fuint16 =>
          exact iff_of_true ((unharmed_bind _ _).mpr (unharmed_read h (show 0 < 2 by decide)))
            (.inr (Option.some_ne_none _))
      | Fint32 | Fuint32 | Float =>
          exact iff_of_true ((unharmed_bind _ _).mpr (unharmed_read h (show 0 < 4 by decide)))
            (.inr (Option.some_ne_none _))
      | Fint64 | Fuint64 | Double =>
          exact iff_of_true ((unharmed_bind _ _).mpr (unharmed_read h (show 0 < 8 by decide)))
            (.inr (Option.some_ne_none _))
      | Uint32 => exact @varint_atomic_iff host ba 32 5 h (by decide) (by decide)
      | Int32 =>
          exact (unharmed_bind _ _).trans
            (@varint_atomic_iff host ba 32 5 h (by decide) (by decide))
      | Uint64 => exact @varint_atomic_iff host ba 64 10 h (by decide) (by decide)
      | Int64 =>
          exact (unharmed_bind _ _).trans
            (@varint_atomic_iff host ba 64 10 h (by decide) (by decide))
  | string f =>
      show Unharmed ba (ba.readString host f) ↔ _ ∨ _
      obtain ⟨hsome, hnone⟩ := readLength_bytes host h f
      rw [readString_eq]
      cases htake : f.takeLength ba.unread with
      | none =>
          obtain ⟨ba', hr, hsame⟩ := hnone htake
          rw [hr]
          constructor
          · rintro (⟨a, ha⟩ | ⟨-, heq⟩)
            · cases ha
            · exact .inl ⟨rfl, hsame.mp heq⟩
          · rintro (⟨-, hu⟩ | ⟨bs, hbs, -⟩)
            · exact .inr ⟨⟨_, rfl⟩, hsame.mpr hu⟩
            · cases hbs
      | some bs =>
          obtain ⟨len, ba', hr, hlen, hne, hcons⟩ := hsome bs htake
          have hcount := congrArg List.length (hcons.unread)
          rw [List.length_drop] at hcount
          have htotal := (takeLength_isPrefix htake).length_le
          rw [hr, Res.bind_ok, unharmed_read_behind hcons.linked (hcons.ne hne), hlen, hcount,
            hcons.position, hcons.capacity]
          constructor
          · rintro ⟨hfits, hcur⟩
            exact .inr ⟨bs, rfl, by omega, hcur⟩
          · rintro (⟨hno, -⟩ | ⟨bs', hbs', hfits, hcur⟩)
            · cases hno
            · obtain rfl := Option.some.inj hbs'
              exact ⟨by omega, hcur⟩

end

/-- In every run, and for either byte order of the array. -/
theorem atomic_iff {base : Nat} (hpos : 1 ≤ base) {ba : ByteArray}
    (h : (system base).Reachable ba) (host : Endian) (little : Bool) (op : Reader) :
    op.Atomic host (ba.setIsLittleEndian little) ↔ op.Complete host (ba.setIsLittleEndian little) :=
  reader_atomic_iff ((reachable_linked_any hpos h).1.setIsLittleEndian little) host op

/-- An array that holds `bytes`, at its beginning. -/
def holding (bytes : List UInt8) : ByteArray :=
  (((new 4 fun _ _ => 0).write (fun _ _ => 0) bytes).2.setPosition 0).2

theorem holding_reachable (bytes : List UInt8) : (system 4).Reachable (holding bytes) := by
  have hinit : (system 4).Reachable (new 4 fun _ _ => 0) := .init ⟨_, rfl⟩
  exact (hinit.next (e := .write (fun _ _ => 0) bytes) rfl).next (e := .setPosition 0) rfl

/-- A string of two bytes, and its length. -/
theorem atomic_iff_string :
    (Reader.string .Vint).Atomic .little ((holding [2, 7, 8]).setIsLittleEndian true) :=
  (atomic_iff (by decide) (holding_reachable _) ..).mpr
    (.inr ⟨[2], by decide, by decide, by decide⟩)

/-- Half a varint: the reader throws, and the byte is gone. -/
theorem not_atomic : ¬∀ (base : Nat) (ba : ByteArray) (host : Endian) (little : Bool) (op : Reader),
    1 ≤ base → (system base).Reachable ba → op.Atomic host (ba.setIsLittleEndian little) := by
  intro h
  have hatomic := h 4 _ .little true (.value .Uint32) (by decide) (holding_reachable [0x80])
  obtain hnil | hend := (atomic_iff (by decide) (holding_reachable _) ..).mp hatomic
  · exact absurd hnil (by decide)
  · exact hend (by decide)

end ByteArray

end Sylar
