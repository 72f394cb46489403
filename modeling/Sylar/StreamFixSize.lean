import Sylar.StreamTransfer

/-!
# Transfers between a stream and memory

`Stream::readFixSize(void*, length)` and `writeFixSize(const void*,
length)`, for any stream: what the calls of its `read` and `write` return
is up to the `Peer`, as long as it is an `int` and at most what is asked
for. A caller is to see from the result whether all `length` bytes have
been transferred: it is positive exactly then.

The result is `length` itself, returned as an `int`. So it says what has
been transferred if the low 32 bits of `length` are a positive `int`, or
if the transfer fails (`truthful_iff`); a complete transfer of 2 GiB has
a negative result, one of 4 GiB the result 0.
-/

namespace Sylar

namespace Stream.Buffer

def maxInt : Nat := 2 ^ 31 - 1

/-- `read(buffer + offset, n)`: the result, the memory and the peer. -/
def read (buffer : Bytes) (p : Peer) (offset n : Nat) : Int × Bytes × Peer :=
  if !p.isConnected then (-1, buffer, { p with results := p.results.tail })
  else
    match p.recv (min n maxInt) with
    | (rt, got, p) => (rt, splice buffer offset got, p)

/-- `write(buffer + offset, n)`. -/
def write (buffer : Bytes) (p : Peer) (offset n : Nat) : Int × Bytes × Peer :=
  if !p.isConnected then (-1, buffer, { p with results := p.results.tail })
  else
    match p.send ((buffer.drop offset).take (min n maxInt)) with
    | (rt, p) => (rt, buffer, p)

/-- The loop of `readFixSize` and `writeFixSize`. -/
def fixSize (call : Bytes → Peer → Nat → Nat → Int × Bytes × Peer) (length : Nat) :
    Nat → Bytes → Peer → Nat → Nat → Int × Bytes × Peer
  | 0, buffer, p, _, _ => (toInt32 length, buffer, p)
  | fuel + 1, buffer, p, offset, left =>
      if left = 0 then (toInt32 length, buffer, p)
      else
        match call buffer p offset left with
        | (len, buffer, p) =>
            if len ≤ 0 then (len, buffer, p)
            else fixSize call length fuel buffer p (offset + len.toNat) (left - len.toNat)

/-- `readFixSize(buffer, length)`; the loop is left at once when the
`int64_t` of the length is negative. -/
def readFixSize (buffer : Bytes) (p : Peer) (length : Nat) : Int × Bytes × Peer :=
  fixSize read length (toInt64 length).toNat buffer p 0 (toInt64 length).toNat

/-- `writeFixSize(buffer, length)`. -/
def writeFixSize (buffer : Bytes) (p : Peer) (length : Nat) : Int × Bytes × Peer :=
  fixSize write length (toInt64 length).toNat buffer p 0 (toInt64 length).toNat

/-! ## What the calls can transfer -/

/-- The bytes that a call with this result transfers at most. -/
def amount : Option Int → Nat
  | some r => min r.toNat maxInt
  | none => 0

/-- Calls with these results, and any number of successful ones behind
them, transfer `n` bytes before one fails. -/
def Carries (results : List (Option Int)) (n : Nat) : Prop :=
  (∀ r ∈ results, 0 < amount r) ∨
    n ≤ ((results.takeWhile fun r => decide (0 < amount r)).map amount).sum

theorem carries_zero (results : List (Option Int)) : Carries results 0 :=
  .inr (Nat.zero_le _)

theorem carries_nil (n : Nat) : Carries [] n :=
  .inl fun _ hr => absurd hr List.not_mem_nil

theorem carries_cons {r : Option Int} {results : List (Option Int)} {n : Nat} (hn : 0 < n) :
    Carries (r :: results) n ↔ 0 < amount r ∧ Carries results (n - amount r) := by
  by_cases hr : 0 < amount r
  · have hsum : (((r :: results).takeWhile fun r => decide (0 < amount r)).map amount).sum =
        amount r + ((results.takeWhile fun r => decide (0 < amount r)).map amount).sum := by
      rw [List.takeWhile_cons_of_pos (by simpa using hr), List.map_cons, List.sum_cons]
    rw [Carries, hsum, List.forall_mem_cons, and_iff_right hr, and_iff_right hr, Carries]
    exact or_congr_right (by omega)
  · have hsum : (((r :: results).takeWhile fun r => decide (0 < amount r)).map amount).sum = 0 := by
      rw [List.takeWhile_cons_of_neg (by simpa using hr)]
      rfl
    constructor
    · rintro (hall | hle)
      · exact absurd (hall r (List.mem_cons_self ..)) hr
      · rw [hsum] at hle
        omega
    · intro h
      exact absurd h.1 hr

/-- The peer sends `n` bytes, and the calls deliver them. -/
def Delivers (p : Peer) (n : Nat) : Prop := n ≤ p.incoming.length ∧ Carries p.results n

/-- A call for `n` bytes that are there fails as `Carries` says, or
leaves the rest to the calls behind it. -/
theorem carries_result {p : Peer} {n : Nat} (hconn : p.isConnected = true) (hn : 0 < n) :
    (p.result (min n maxInt) ≤ 0 ∧ ¬Carries p.results n) ∨
      (0 < p.result (min n maxInt) ∧ (Carries p.results n ↔
        Carries p.results.tail (n - (p.result (min n maxInt)).toNat))) := by
  have hmax : 0 < maxInt := by decide
  obtain ⟨incoming, sent, results⟩ := p
  cases results with
  | nil =>
    refine .inr ⟨?_, iff_of_true (carries_nil n) (carries_nil _)⟩
    show (0 : Int) < (min n maxInt : Nat)
    omega
  | cons r rest =>
    cases r with
    | none => simp [Peer.isConnected] at hconn
    | some r =>
      have hcons : Carries (some r :: rest) n ↔ _ := carries_cons hn
      have hresult : (Peer.mk incoming sent (some r :: rest)).result (min n maxInt) =
          min r (min n maxInt : Nat) := rfl
      have hamount : amount (some r) = min r.toNat maxInt := rfl
      rw [hresult, hcons, hamount]
      rcases Int.lt_or_le 0 r with hr | hr
      · refine .inr ⟨by omega, ?_⟩
        rw [and_iff_right (by omega)]
        exact iff_of_eq (congrArg (Carries rest) (by omega))
      · exact .inl ⟨by omega, fun h => absurd h.1 (by omega)⟩

theorem not_carries {p : Peer} {n : Nat} (hconn : p.isConnected = false) (hn : 0 < n) :
    ¬Carries p.results n := by
  obtain ⟨incoming, sent, results⟩ := p
  cases results with
  | nil => simp [Peer.isConnected] at hconn
  | cons r rest =>
    obtain rfl : r = none := by simpa [Peer.isConnected] using hconn
    intro h
    exact absurd ((carries_cons hn).mp h).1 (by decide)

/-! ## One call -/

/-- `k` bytes of the stream have been put at the offset. -/
structure Filled (buffer : Bytes) (p : Peer) (offset k : Nat) (buffer' : Bytes) (p' : Peer) :
    Prop where
  le : k ≤ p.incoming.length
  buffer : buffer' = splice buffer offset (p.incoming.take k)
  incoming : p'.incoming = p.incoming.drop k

/-- `k` bytes at the offset have been sent. -/
structure Drained (buffer : Bytes) (p : Peer) (offset k : Nat) (buffer' : Bytes) (p' : Peer) :
    Prop where
  le : offset + k ≤ buffer.length
  same : buffer' = buffer
  sent : p'.sent = p.sent ++ (buffer.drop offset).take k

theorem Filled.refl {buffer : Bytes} {p p' : Peer} {offset : Nat}
    (hp : p'.incoming = p.incoming) : Filled buffer p offset 0 buffer p' :=
  ⟨Nat.zero_le _, by simp, by simpa using hp⟩

theorem Drained.refl {buffer : Bytes} {p p' : Peer} {offset : Nat} (hle : offset ≤ buffer.length)
    (hp : p'.sent = p.sent) : Drained buffer p offset 0 buffer p' :=
  ⟨hle, rfl, by simpa using hp⟩

theorem Filled.trans {a b c : Bytes} {p q r : Peer} {offset i j : Nat}
    (hle : offset ≤ a.length) (h : Filled a p offset i b q)
    (h' : Filled b q (offset + i) j c r) : Filled a p offset (i + j) c r where
  le := by
    have hfirst := h.le
    have hmore := h'.le
    rw [h.incoming, List.length_drop] at hmore
    omega
  buffer := by
    have hlen : (p.incoming.take i).length = i := List.length_take_of_le h.le
    have hboth := splice_splice (x := p.incoming.take i) (y := q.incoming.take j) hle
    rw [hlen] at hboth
    rw [h'.buffer, h.buffer, hboth, h.incoming, ← List.take_add]
  incoming := by rw [h'.incoming, h.incoming, List.drop_drop]

theorem Drained.trans {a b c : Bytes} {p q r : Peer} {offset i j : Nat}
    (h : Drained a p offset i b q) (h' : Drained b q (offset + i) j c r) :
    Drained a p offset (i + j) c r where
  le := by
    have hmore := h'.le
    rw [h.same] at hmore
    omega
  same := h'.same.trans h.same
  sent := by
    rw [h'.sent, h.sent, h.same, List.append_assoc, ← List.drop_drop, ← List.take_add]

/-- What a call does for the loop: it fails and the transfer `D` is not
to be had, or it transfers bytes and leaves the rest to be had. -/
def Proceeds (D : Peer → Nat → Prop) (T : Bytes → Peer → Nat → Nat → Bytes → Peer → Prop)
    (buffer : Bytes) (p : Peer) (offset left : Nat) (out : Int × Bytes × Peer) : Prop :=
  out.1.toNat ≤ left ∧ T buffer p offset out.1.toNat out.2.1 out.2.2 ∧
    (out.1 ≤ 0 ∧ ¬D p left ∨ 0 < out.1 ∧ (D p left ↔ D out.2.2 (left - out.1.toNat)))

theorem read_proceeds (buffer : Bytes) (p : Peer) (offset : Nat) {left : Nat} (hleft : 0 < left) :
    Proceeds Delivers Filled buffer p offset left (read buffer p offset left) := by
  by_cases hconn : p.isConnected = false
  · rw [read, if_pos (by rw [hconn]; rfl)]
    exact ⟨Nat.zero_le _, .refl rfl, .inl ⟨by simp, fun hD => not_carries hconn hleft hD.2⟩⟩
  rw [read, if_neg (by simpa using hconn)]
  simp only [Peer.recv]
  have hle := result_le p (min (min left maxInt) p.incoming.length)
  set rt := p.result (min (min left maxInt) p.incoming.length) with hrt
  refine ⟨by show rt.toNat ≤ left; omega, ⟨by show rt.toNat ≤ _; omega, rfl, rfl⟩, ?_⟩
  show rt ≤ 0 ∧ _ ∨ 0 < rt ∧ _
  rcases Nat.lt_or_ge p.incoming.length left with hshort | hlong
  · -- the stream ends before `left` bytes, whatever is returned until then
    have hnot : ¬Delivers p left := fun hD => absurd hD.1 (by omega)
    rcases Int.lt_or_le 0 rt with hpos | hstop
    · refine .inr ⟨hpos, iff_of_false hnot fun hD => absurd hD.1 ?_⟩
      show ¬left - rt.toNat ≤ (p.incoming.drop rt.toNat).length
      rw [List.length_drop]
      omega
    · exact .inl ⟨hstop, hnot⟩
  · have hall : min (min left maxInt) p.incoming.length = min left maxInt :=
      Nat.min_eq_left ((Nat.min_le_left ..).trans hlong)
    rw [hall] at hrt
    rcases hrt ▸ carries_result (by simpa using hconn) hleft with ⟨hstop, hnot⟩ | ⟨hpos, hiff⟩
    · exact .inl ⟨hstop, fun hD => hnot hD.2⟩
    · refine .inr ⟨hpos, and_congr (iff_of_true hlong ?_) hiff⟩
      show left - rt.toNat ≤ (p.incoming.drop rt.toNat).length
      rw [List.length_drop]
      omega

theorem write_proceeds {buffer : Bytes} (p : Peer) {offset left : Nat} (hleft : 0 < left)
    (hle : offset + left ≤ buffer.length) :
    Proceeds (fun p => Carries p.results) Drained buffer p offset left
      (write buffer p offset left) := by
  by_cases hconn : p.isConnected = false
  · rw [write, if_pos (by rw [hconn]; rfl)]
    exact ⟨Nat.zero_le _, .refl (by omega) rfl,
      .inl ⟨by simp, fun hD => not_carries hconn hleft hD⟩⟩
  have hlen : ((buffer.drop offset).take (min left maxInt)).length = min left maxInt := by
    rw [List.length_take, List.length_drop]
    omega
  rw [write, if_neg (by simpa using hconn)]
  simp only [Peer.send, hlen]
  have hrt := result_le p (min left maxInt)
  refine ⟨by show Int.toNat _ ≤ left; omega, ⟨by show offset + Int.toNat _ ≤ _; omega, rfl, ?_⟩,
    carries_result (by simpa using hconn) hleft⟩
  show p.sent ++ ((buffer.drop offset).take (min left maxInt)).take _ = _
  rw [List.take_take, Nat.min_eq_left (by omega)]

/-! ## Any number of calls -/

/-- The loop transfers all of `left` if that is to be had, and otherwise
ends with the result of the call that failed. -/
theorem fixSize_spec {call : Bytes → Peer → Nat → Nat → Int × Bytes × Peer} (length : Nat)
    {D : Peer → Nat → Prop} {T : Bytes → Peer → Nat → Nat → Bytes → Peer → Prop}
    {P : Bytes → Nat → Nat → Prop} (hzero : ∀ p, D p 0)
    (hrefl : ∀ {buffer p offset left}, P buffer offset left → T buffer p offset 0 buffer p)
    (htrans : ∀ {a b c p q r offset i j left}, P a offset left → T a p offset i b q →
      T b q (offset + i) j c r → T a p offset (i + j) c r)
    (hcall : ∀ buffer p offset left, P buffer offset left → 0 < left →
      Proceeds D T buffer p offset left (call buffer p offset left) ∧
        P (call buffer p offset left).2.1 (offset + (call buffer p offset left).1.toNat)
          (left - (call buffer p offset left).1.toNat)) :
    ∀ (fuel : Nat) (buffer : Bytes) (p : Peer) (offset left : Nat), P buffer offset left →
      left ≤ fuel → ∃ k rt buffer' p',
        fixSize call length fuel buffer p offset left = (rt, buffer', p') ∧
        T buffer p offset k buffer' p' ∧
        (D p left ∧ k = left ∧ rt = toInt32 length ∨ ¬D p left ∧ k < left ∧ rt ≤ 0) := by
  intro fuel
  induction fuel with
  | zero =>
    intro buffer p offset left hP hfuel
    obtain rfl : left = 0 := by omega
    exact ⟨0, _, _, _, rfl, hrefl hP, .inl ⟨hzero p, rfl, rfl⟩⟩
  | succ fuel ih =>
    intro buffer p offset left hP hfuel
    rw [fixSize]
    split
    · rename_i hleft
      subst hleft
      exact ⟨0, _, _, _, rfl, hrefl hP, .inl ⟨hzero p, rfl, rfl⟩⟩
    · rename_i hleft
      obtain ⟨⟨hle, hT, hD⟩, hP'⟩ := hcall buffer p offset left hP (by omega)
      generalize call buffer p offset left = out at hle hT hD hP'
      obtain ⟨rt, buffer', p'⟩ := out
      simp only at hle hT hD hP' ⊢
      rcases hD with ⟨hstop, hnot⟩ | ⟨hpos, hiff⟩
      · rw [if_pos hstop]
        exact ⟨_, _, _, _, rfl, hT, .inr ⟨hnot, by omega, hstop⟩⟩
      · rw [if_neg (by omega)]
        obtain ⟨k, rt', buffer'', p'', hrun, hT', hend⟩ := ih buffer' p' (offset + rt.toNat)
          (left - rt.toNat) hP' (by omega)
        refine ⟨rt.toNat + k, rt', buffer'', p'', hrun, htrans hP hT hT', ?_⟩
        rw [hiff]
        exact hend.imp (fun ⟨h, hk, hrt⟩ => ⟨h, by omega, hrt⟩)
          fun ⟨h, hk, hrt⟩ => ⟨h, by omega, hrt⟩

variable {length : Nat}

theorem readFixSize_spec {buffer : Bytes} (p : Peer) (hlt : length < 2 ^ 63)
    (hle : length ≤ buffer.length) :
    ∃ k rt buffer' p', readFixSize buffer p length = (rt, buffer', p') ∧
      Filled buffer p 0 k buffer' p' ∧
      (Delivers p length ∧ k = length ∧ rt = toInt32 length ∨
        ¬Delivers p length ∧ k < length ∧ rt ≤ 0) := by
  have hint : (toInt64 length).toNat = length := by
    rw [toInt64, if_pos hlt, Int.toNat_natCast]
  rw [readFixSize, hint]
  exact fixSize_spec (P := fun buffer offset left => offset + left ≤ buffer.length) length
    (fun p => ⟨Nat.zero_le _, carries_zero _⟩) (fun _ => .refl rfl)
    (fun hP hT hT' => hT.trans (by omega) hT')
    (fun buffer p offset left hP hleft => by
      have hstep := read_proceeds buffer p offset hleft
      refine ⟨hstep, ?_⟩
      obtain ⟨hk, hT, -⟩ := hstep
      have hlen := List.length_take_of_le hT.le
      rw [hT.buffer, length_splice (by omega)]
      omega)
    length buffer p 0 length (by omega) (Nat.le_refl _)

theorem writeFixSize_spec {buffer : Bytes} (p : Peer) (hlt : length < 2 ^ 63)
    (hle : length ≤ buffer.length) :
    ∃ k rt buffer' p', writeFixSize buffer p length = (rt, buffer', p') ∧
      Drained buffer p 0 k buffer' p' ∧
      (Carries p.results length ∧ k = length ∧ rt = toInt32 length ∨
        ¬Carries p.results length ∧ k < length ∧ rt ≤ 0) := by
  have hint : (toInt64 length).toNat = length := by
    rw [toInt64, if_pos hlt, Int.toNat_natCast]
  rw [writeFixSize, hint]
  exact fixSize_spec (D := fun p => Carries p.results)
    (P := fun buffer offset left => offset + left ≤ buffer.length) length
    (fun p => carries_zero _) (fun hP => .refl (by omega) rfl)
    (fun _ hT hT' => hT.trans hT')
    (fun buffer p offset left hP hleft => by
      have hstep := write_proceeds p hleft hP
      refine ⟨hstep, ?_⟩
      obtain ⟨hk, hT, -⟩ := hstep
      rw [hT.same]
      omega)
    length buffer p 0 length (by omega) (Nat.le_refl _)

/-! ## What the result says -/

/-- The result is positive exactly when all `length` bytes are among the
`done` that have been transferred. -/
def Truthful (rt : Int) (done length : Nat) : Prop := 0 < rt ↔ done = length

/-- `readFixSize` and `writeFixSize` tell from their result whether all
has been transferred if the length, as an `int`, is positive, and
otherwise only when the transfer fails. -/
theorem truthful_iff (buffer : Bytes) (p : Peer) (hlt : length < 2 ^ 63)
    (hle : length ≤ buffer.length) :
    (Truthful (readFixSize buffer p length).1
        (p.incoming.length - (readFixSize buffer p length).2.2.incoming.length) length ↔
      0 < toInt32 length ∨ ¬Delivers p length) ∧
    (Truthful (writeFixSize buffer p length).1
        ((writeFixSize buffer p length).2.2.sent.length - p.sent.length) length ↔
      0 < toInt32 length ∨ ¬Carries p.results length) := by
  constructor
  · obtain ⟨k, rt, buffer', p', hrun, hT, hend⟩ := readFixSize_spec p hlt hle
    have hk : p.incoming.length - p'.incoming.length = k := by
      rw [hT.incoming, List.length_drop]
      have := hT.le
      omega
    rw [hrun, hk]
    rcases hend with ⟨hD, hall, hrt⟩ | ⟨hD, hshort, hstop⟩
    · rw [hall, hrt]
      exact ⟨fun h => .inl (h.mpr rfl),
        fun h => iff_of_true (h.resolve_right (not_not_intro hD)) rfl⟩
    · exact iff_of_true (iff_of_false (by omega) (by omega)) (.inr hD)
  · obtain ⟨k, rt, buffer', p', hrun, hT, hend⟩ := writeFixSize_spec p hlt hle
    have hk : p'.sent.length - p.sent.length = k := by
      have := hT.le
      rw [hT.sent, List.length_append, List.length_take, List.length_drop]
      omega
    rw [hrun, hk]
    rcases hend with ⟨hD, hall, hrt⟩ | ⟨hD, hshort, hstop⟩
    · rw [hall, hrt]
      exact ⟨fun h => .inl (h.mpr rfl),
        fun h => iff_of_true (h.resolve_right (not_not_intro hD)) rfl⟩
    · exact iff_of_true (iff_of_false (by omega) (by omega)) (.inr hD)

/-- Three bytes come in two calls; of three to be sent, the second call
sends none. -/
theorem truthful_iff_three :
    (Truthful (readFixSize [0, 0, 0] ⟨[1, 2, 3, 4], [], [some 1]⟩ 3).1
        (4 - (readFixSize [0, 0, 0] ⟨[1, 2, 3, 4], [], [some 1]⟩ 3).2.2.incoming.length) 3) ∧
      Truthful (writeFixSize [1, 2, 3] ⟨[], [], [some 1, some 0]⟩ 3).1
        ((writeFixSize [1, 2, 3] ⟨[], [], [some 1, some 0]⟩ 3).2.2.sent.length - 0) 3 :=
  ⟨(truthful_iff [0, 0, 0] ⟨[1, 2, 3, 4], [], [some 1]⟩ (by decide : 3 < 2 ^ 63)
      (by decide)).1.mpr (.inl (by decide)),
    (truthful_iff [1, 2, 3] ⟨[], [], [some 1, some 0]⟩ (by decide : 3 < 2 ^ 63)
      (by decide)).2.mpr (.inl (by decide))⟩

/-- A stream that returns as much as it is asked for, up to what an `int`
can say. -/
def plenty (n : Nat) : Peer := ⟨List.replicate n 0, [], []⟩

theorem not_truthful_plenty {n : Nat} (hlt : n < 2 ^ 63) (hneg : toInt32 n ≤ 0) :
    ¬Truthful (readFixSize (List.replicate n 0) (plenty n) n).1
      ((plenty n).incoming.length -
        (readFixSize (List.replicate n 0) (plenty n) n).2.2.incoming.length) n := by
  have hin : (plenty n).incoming.length = n := List.length_replicate
  have hle : n ≤ (List.replicate n (0 : UInt8)).length := Nat.le_of_eq List.length_replicate.symm
  obtain ⟨k, rt, buffer', p', hrun, hT, hend⟩ := readFixSize_spec (plenty n) hlt hle
  rcases hend with ⟨-, hall, hrt⟩ | ⟨hD, -⟩
  · intro h
    have hdone : (plenty n).incoming.length - p'.incoming.length = n := by
      rw [hT.incoming, List.length_drop]
      omega
    rw [hrun, hrt] at h
    exact absurd (h.mpr hdone) (by omega)
  · exact absurd ⟨Nat.le_of_eq hin.symm, carries_nil _⟩ hD

/-- All of 2 GiB is read, in two calls, and the result is negative. -/
theorem not_truthful_two_gib :
    ¬Truthful (readFixSize (List.replicate (2 ^ 31) 0) (plenty (2 ^ 31)) (2 ^ 31)).1
      ((plenty (2 ^ 31)).incoming.length -
        (readFixSize (List.replicate (2 ^ 31) 0) (plenty (2 ^ 31)) (2 ^ 31)).2.2.incoming.length)
      (2 ^ 31) :=
  not_truthful_plenty (by decide) (by decide)

end Stream.Buffer

end Sylar
