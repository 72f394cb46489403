import Mathlib.Data.List.Basic
import Mathlib.Data.List.TakeDrop
import Mathlib.Tactic.Common

/-!
# Overwriting a stretch of a list, and lists cut into blocks

`splice l p x` is `l` with the elements from position `p` on replaced
by `x`: what a `memcpy` into the middle of a buffer does. The lemmas
say how it distributes over a buffer that is the concatenation of two
parts, and hence over one stored as a list of blocks.
-/

namespace Sylar

variable {α : Type*}

/-- `l` with `x` written over it from position `p` on. -/
def splice (l : List α) (p : Nat) (x : List α) : List α :=
  l.take p ++ x ++ l.drop (p + x.length)

@[simp] theorem splice_nil (l : List α) (p : Nat) : splice l p [] = l := by
  simp [splice]

theorem length_splice {l : List α} {p : Nat} {x : List α}
    (h : p + x.length ≤ l.length) : (splice l p x).length = l.length := by
  simp only [splice, List.length_append, List.length_take, List.length_drop]
  omega

theorem take_splice {l : List α} {p : Nat} {x : List α} (h : p ≤ l.length) :
    (splice l p x).take p = l.take p := by
  rw [splice, List.append_assoc, List.take_append_of_le_length (by simp; omega), List.take_take,
    Nat.min_self]

theorem drop_splice {l : List α} {p : Nat} {x : List α} (h : p ≤ l.length) :
    (splice l p x).drop (p + x.length) = l.drop (p + x.length) := by
  have hlen : (l.take p ++ x).length = p + x.length := by
    simp only [List.length_append, List.length_take]
    omega
  rw [splice, ← hlen, List.drop_left, hlen]

/-- The overwritten stretch reads back as what was written. -/
theorem take_drop_splice {l : List α} {p : Nat} {x : List α} (h : p ≤ l.length) :
    ((splice l p x).drop p).take x.length = x := by
  have hlen : (l.take p).length = p := by
    simp only [List.length_take]
    omega
  rw [splice, List.append_assoc, List.drop_left' hlen, List.take_left]

/-- A write inside the first part. -/
theorem splice_append_left {a b : List α} {p : Nat} {x : List α}
    (h : p + x.length ≤ a.length) : splice (a ++ b) p x = splice a p x ++ b := by
  rw [splice, splice, List.take_append_of_le_length (by omega),
    List.drop_append_of_le_length h]
  simp only [List.append_assoc]

/-- A write inside the second part. -/
theorem splice_append_right (a b : List α) (p : Nat) (x : List α) :
    splice (a ++ b) (a.length + p) x = a ++ splice b p x := by
  rw [splice, splice, Nat.add_assoc, List.take_length_add_append, List.drop_length_add_append]
  simp only [List.append_assoc]

/-- A write over the boundary splits there. -/
theorem splice_append_across {a b : List α} {p : Nat} {x y : List α}
    (h : p + x.length = a.length) :
    splice (a ++ b) p (x ++ y) = splice a p x ++ splice b 0 y := by
  have hdrop : (a ++ b).drop (p + (x ++ y).length) = b.drop y.length := by
    rw [List.length_append, ← Nat.add_assoc, h, List.drop_length_add_append]
  have htake : (a ++ b).take p = a.take p := List.take_append_of_le_length (by omega)
  simp only [splice]
  rw [hdrop, htake, h]
  simp

/-- Seen through a prefix of length `s` that the write starts in, a
write is the write into the prefix; the prefix grows if it must. -/
theorem take_max_splice {l : List α} {p s : Nat} {x : List α} (hp : p ≤ s)
    (h : p + x.length ≤ l.length) :
    (splice l p x).take (max s (p + x.length)) = splice (l.take s) p x := by
  have hlen : (l.take p ++ x).length = p + x.length := by
    simp only [List.length_append, List.length_take]
    omega
  have htake : (l.take s).take p = l.take p := by rw [List.take_take, Nat.min_eq_left hp]
  simp only [splice]
  rw [htake, List.drop_take]
  rcases Nat.le_total s (p + x.length) with hs | hs
  · rw [Nat.max_eq_right hs, List.take_left' hlen, Nat.sub_eq_zero_of_le hs, List.take_zero,
      List.append_nil]
  · rw [Nat.max_eq_left hs, List.take_append, List.take_of_length_le (by omega), hlen]

/-- A write at the end appends. -/
theorem splice_length (l : List α) (x : List α) : splice l l.length x = l ++ x := by
  rw [splice, List.take_length, List.drop_eq_nil_of_le (Nat.le_add_right ..), List.append_nil]

theorem drop_splice_self {l : List α} {p : Nat} {x : List α} (h : p ≤ l.length) :
    (splice l p x).drop p = x ++ l.drop (p + x.length) := by
  rw [splice, List.append_assoc, List.drop_left' (by rw [List.length_take]; omega)]

/-- Two writes one behind the other are one. -/
theorem splice_splice {l : List α} {p : Nat} {x y : List α} (h : p ≤ l.length) :
    splice (splice l p x) (p + x.length) y = splice l p (x ++ y) := by
  have hlen : (l.take p ++ x).length = p + x.length := by
    simp only [List.length_append, List.length_take]
    omega
  have htake : (splice l p x).take (p + x.length) = l.take p ++ x := by
    rw [splice, ← hlen, List.take_left]
  have hdrop : (splice l p x).drop (p + x.length + y.length) = l.drop (p + (x ++ y).length) := by
    rw [← List.drop_drop, drop_splice h, List.drop_drop, List.length_append, Nat.add_assoc]
  rw [splice, htake, hdrop, splice]
  simp only [List.append_assoc]

/-! ## Lists of equally long blocks -/

/-- The total length of blocks of length `b`. -/
theorem length_flatten_blocks {b : Nat} {L : List (List α)} (h : ∀ x ∈ L, x.length = b) :
    L.flatten.length = b * L.length := by
  induction L with
  | nil => simp
  | cons x rest ih =>
      rw [List.flatten_cons, List.length_append, ih fun y hy => h y (List.mem_cons_of_mem _ hy),
        h x (List.mem_cons_self ..), List.length_cons, Nat.mul_add, Nat.mul_one, Nat.add_comm]

end Sylar
