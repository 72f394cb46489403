import Sylar.HttpMessage

/-!
# Reading from a socket

`stream.cc` and `socket_stream.cc`, as far as they read. A stream holds
what the peer has sent and no `recv` has returned yet, and how much each
`recv` will return: `sizes` has the number of bytes for the calls to
come, each capped by what is asked for and by what there is; when it is
used up, a call returns as much as it is asked for. One call transfers
`maxTransfer` bytes at most. At the end of `incoming` the peer has
closed.
-/

namespace Sylar

/-- What the kernel transfers at most in one `recv`. -/
def maxTransfer : Nat := 0x7ffff000

structure SocketStream where
  incoming : Bytes
  sizes : List Nat
  connected : Bool
deriving Repr, DecidableEq

namespace SocketStream

def close (s : SocketStream) : SocketStream := { s with connected := false }

/-- How much the next `recv(buffer, n)` returns, if the peer has sent as
much. -/
def share (s : SocketStream) (n : Nat) : Nat :=
  match s.sizes with
  | [] => min n maxTransfer
  | k :: _ => min (max k 1) (min n maxTransfer)

/-- `read(buffer, n)`; `none` for a result of 0 or below. -/
def read (s : SocketStream) (n : Nat) : Option Bytes × SocketStream :=
  if s.connected = false ∨ s.incoming = [] ∨ n = 0 then (none, s)
  else (some (s.incoming.take (s.share n)),
    { s with incoming := s.incoming.drop (s.share n), sizes := s.sizes.tail })

/-- The loop of `readFixSize`: `left` bytes in as many reads as it
takes. -/
def readLeft : Nat → SocketStream → Nat → Option Bytes × SocketStream
  | _, s, 0 => (some [], s)
  | 0, s, _ => (none, s)
  | fuel + 1, s, left =>
      match s.read left with
      | (none, s) => (none, s)
      | (some got, s) =>
          match readLeft fuel s (left - got.length) with
          | (none, s) => (none, s)
          | (some rest, s) => (some (got ++ rest), s)

/-- `readFixSize(buffer, length)`, which returns `length` as an `int`:
the result and what is in the buffer. -/
def readFixSize (s : SocketStream) (length : Nat) : Int × Bytes × SocketStream :=
  match readLeft length s length with
  | (none, s) => (0, [], s)
  | (some got, s) => (toInt32 length, got, s)

/-! ## What is read -/

variable {s : SocketStream} {n : Nat}

theorem share_pos (h : 0 < n) : 0 < s.share n := by
  unfold share
  split
  · simp only [maxTransfer]
    omega
  · simp only [maxTransfer]
    omega

theorem share_le : s.share n ≤ n := by
  unfold share
  split
  · exact Nat.min_le_left ..
  · exact (Nat.min_le_right ..).trans (Nat.min_le_left ..)

/-- As long as there is something to read, a read returns the next bytes
of the stream, one at least. -/
theorem read_eq (hc : s.connected = true) (hn : 0 < n) (hin : s.incoming ≠ []) :
    ∃ k, 0 < k ∧ k ≤ n ∧ k ≤ s.incoming.length ∧ (k = s.share n ∨ k = s.incoming.length) ∧
      s.read n = (some (s.incoming.take k), ⟨s.incoming.drop k, s.sizes.tail, true⟩) := by
  have hlen : 0 < s.incoming.length := List.length_pos_iff.mpr hin
  have hpos := share_pos (s := s) hn
  have hle := share_le (s := s) (n := n)
  refine ⟨min (s.share n) s.incoming.length, by omega, by omega, by omega, by omega, ?_⟩
  rw [read, if_neg (by simp [hc, hin]; omega)]
  congr 2
  · rw [← List.take_eq_take_min]
  · by_cases hshare : s.share n ≤ s.incoming.length
    · rw [Nat.min_eq_left hshare]
    · rw [Nat.min_eq_right (by omega), List.drop_length, List.drop_eq_nil_of_le (by omega)]

theorem read_length_le {got : Bytes} {s' : SocketStream} (h : s.read n = (some got, s')) :
    got.length ≤ n := by
  rw [read] at h
  split at h
  · cases h
  · rw [← Option.some.inj (Prod.mk.inj h).1, List.length_take]
    exact (Nat.min_le_left ..).trans share_le

/-- `readLeft` delivers what is there. -/
theorem readLeft_eq : ∀ {fuel : Nat} {s : SocketStream} {left : Nat}, s.connected = true →
    left ≤ fuel → left ≤ s.incoming.length →
    ∃ n, readLeft fuel s left =
      (some (s.incoming.take left), ⟨s.incoming.drop left, s.sizes.drop n, true⟩)
  | _, s, 0, hc, _, _ => by
      refine ⟨0, ?_⟩
      rw [readLeft, List.take_zero, List.drop_zero, List.drop_zero, ← hc]
  | fuel + 1, s, left + 1, hc, hfuel, hlen => by
      have hin : s.incoming ≠ [] := List.length_pos_iff.mp (by omega)
      obtain ⟨k, hpos, hle, hk, -, hread⟩ := read_eq hc (Nat.succ_pos left) hin
      obtain ⟨n, hrest⟩ := @readLeft_eq fuel
        ⟨s.incoming.drop k, s.sizes.tail, true⟩ (left + 1 - k) rfl (by omega) (by rw [List.length_drop]; omega)
      refine ⟨n + 1, ?_⟩
      have hgot : left + 1 - (s.incoming.take k).length = left + 1 - k := by
        rw [List.length_take, Nat.min_eq_left hk]
      rw [readLeft]
      · simp only [hread, hgot, hrest]
        rw [← List.take_add, List.drop_drop, Nat.add_sub_cancel' hle, List.drop_tail]
      · exact Nat.succ_ne_zero left

end SocketStream

end Sylar
