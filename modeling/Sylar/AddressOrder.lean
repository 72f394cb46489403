import Mathlib.Data.List.Lex
import Sylar.HttpMessage

/-!
# The order of addresses

`operator<`, `operator==` and `operator!=` of `Address`, over the bytes
at `getAddr()`. They compare what the two addresses have in common and
then the lengths, and that is the lexicographic order of the byte
strings (`lt_iff`), whatever kinds of address they are.
-/

namespace Sylar

/-- `memcmp(a, b, n)`, of which only the sign means anything. -/
def memcmp : Bytes → Bytes → Nat → Int
  | a :: as, b :: bs, n + 1 => if a = b then memcmp as bs n else (a.toNat : Int) - b.toNat
  | _, _, _ => 0

/-- An address: the memory at `getAddr()` and `getAddrLen()`. A
`sockaddr_un` is longer than the part of it that counts. -/
structure Address where
  addr : Bytes
  addrLen : Nat
  le : addrLen ≤ addr.length

namespace Address

/-- The bytes that count. -/
def view (a : Address) : Bytes := a.addr.take a.addrLen

/-- `operator<`. -/
def lt (a rhs : Address) : Bool :=
  let minlen := min a.addrLen rhs.addrLen
  let result := memcmp a.addr rhs.addr minlen
  if result < 0 then true
  else if result > 0 then false
  else if a.addrLen < rhs.addrLen then true
  else false

/-- `operator==`. -/
def eq (a rhs : Address) : Bool :=
  a.addrLen == rhs.addrLen && memcmp a.addr rhs.addr a.addrLen == 0

/-- `operator!=`. -/
def ne (a rhs : Address) : Bool := !a.eq rhs

end Address

/-! ## Comparing memory -/

/-- Only the bytes in front of `n` matter. -/
theorem memcmp_take : ∀ {a b : Bytes} {n k l : Nat}, n ≤ k → n ≤ l →
    memcmp (a.take k) (b.take l) n = memcmp a b n
  | [], _, _, _, _, _, _ => by rw [List.take_nil, memcmp, memcmp] <;> simp
  | _ :: _, [], _, _, _, _, _ => by rw [List.take_nil, memcmp, memcmp] <;> simp
  | _ :: _, _ :: _, 0, _, _, _, _ => by rw [memcmp, memcmp] <;> simp
  | a :: as, b :: bs, n + 1, k, l, hk, hl => by
      obtain ⟨k, rfl⟩ := Nat.exists_eq_add_one_of_ne_zero (show k ≠ 0 by omega)
      obtain ⟨l, rfl⟩ := Nat.exists_eq_add_one_of_ne_zero (show l ≠ 0 by omega)
      rw [List.take_succ_cons, List.take_succ_cons, memcmp, memcmp,
        memcmp_take (Nat.le_of_succ_le_succ hk) (Nat.le_of_succ_le_succ hl)]

/-- The numbers of the bytes. -/
def numbers (a : Bytes) : List Nat := a.map UInt8.toNat

theorem numbers_inj {a b : Bytes} : numbers a = numbers b ↔ a = b :=
  List.map_inj_right fun _ _ => UInt8.toNat_inj.mp

theorem memcmp_eq_zero : ∀ {a b : Bytes}, a.length = b.length →
    (memcmp a b a.length = 0 ↔ a = b)
  | [], [], _ => iff_of_true rfl rfl
  | a :: as, b :: bs, h => by
      rw [List.length_cons, memcmp, List.cons.injEq]
      split
      · rename_i hab
        rw [memcmp_eq_zero (Nat.succ.inj h), and_iff_right hab]
      · rename_i hab
        have hne : a.toNat ≠ b.toNat := fun heq => hab (UInt8.toNat_inj.mp heq)
        refine iff_of_false (by omega) fun heq => hab heq.1

/-- What the two have in common decides, and then the length. -/
theorem memcmp_lt : ∀ {a b : Bytes},
    memcmp a b (min a.length b.length) < 0 ∨
      memcmp a b (min a.length b.length) = 0 ∧ a.length < b.length ↔ numbers a < numbers b
  | [], [] => by
      refine iff_of_false ?_ (lt_irrefl _)
      rintro (h | ⟨-, h⟩)
      · exact Int.lt_irrefl 0 h
      · exact Nat.lt_irrefl 0 h
  | [], b :: bs => iff_of_true (.inr ⟨rfl, Nat.succ_pos _⟩) (List.nil_lt_cons ..)
  | a :: as, [] => by
      refine iff_of_false ?_ (List.not_lt_nil _)
      rintro (h | ⟨-, h⟩)
      · exact Int.lt_irrefl 0 h
      · exact Nat.not_lt_zero _ h
  | a :: as, b :: bs => by
      have hmin : min (a :: as).length (b :: bs).length = min as.length bs.length + 1 := by
        rw [List.length_cons, List.length_cons, Nat.add_min_add_right]
      have hcons : numbers (a :: as) < numbers (b :: bs) ↔
          a.toNat < b.toNat ∨ a.toNat = b.toNat ∧ numbers as < numbers bs :=
        List.cons_lt_cons_iff
      rw [hmin, memcmp, hcons, List.length_cons, List.length_cons, Nat.add_lt_add_iff_right]
      split
      · rename_i hab
        subst hab
        rw [memcmp_lt, or_iff_right (Nat.lt_irrefl _), and_iff_right rfl]
      · rename_i hab
        have hne : a.toNat ≠ b.toNat := fun heq => hab (UInt8.toNat_inj.mp heq)
        omega

/-! ## The operators -/

namespace Address

variable {a b c : Address}

theorem length_view (a : Address) : a.view.length = a.addrLen := by
  rw [view, List.length_take, Nat.min_eq_left a.le]

theorem memcmp_view {n : Nat} (ha : n ≤ a.addrLen) (hb : n ≤ b.addrLen) :
    memcmp a.addr b.addr n = memcmp a.view b.view n :=
  (memcmp_take ha hb).symm

theorem lt_iff : a.lt b = true ↔ numbers a.view < numbers b.view := by
  have hview := memcmp_view (Nat.min_le_left a.addrLen b.addrLen) (Nat.min_le_right ..)
  rw [← memcmp_lt, length_view, length_view, ← hview, lt]
  split
  · rename_i hneg
    exact iff_of_true rfl (.inl hneg)
  · rename_i hneg
    rw [or_iff_right hneg]
    split
    · rename_i hpos
      exact iff_of_false Bool.false_ne_true fun h => by omega
    · rename_i hpos
      have hzero : memcmp a.addr b.addr (min a.addrLen b.addrLen) = 0 := by omega
      rw [and_iff_right hzero]
      split
      · rename_i hlen
        exact iff_of_true rfl hlen
      · rename_i hlen
        exact iff_of_false Bool.false_ne_true hlen

theorem eq_iff : a.eq b = true ↔ a.view = b.view := by
  rw [eq, Bool.and_eq_true, beq_iff_eq, beq_iff_eq]
  constructor
  · rintro ⟨hlen, hzero⟩
    rw [memcmp_view (Nat.le_refl _) hlen.le, ← length_view] at hzero
    exact (memcmp_eq_zero (by rw [length_view, length_view, hlen])).mp hzero
  · intro h
    have hlen : a.addrLen = b.addrLen := by rw [← length_view, h, length_view]
    refine ⟨hlen, ?_⟩
    rw [memcmp_view (Nat.le_refl _) hlen.le, ← length_view]
    exact (memcmp_eq_zero (by rw [h])).mpr h

/-- A strict total order, in which two addresses are level if they are
the same bytes. -/
structure Ordered (a b c : Address) : Prop where
  same : a.eq b = true ↔ a.view = b.view
  irrefl : a.lt a = false
  trans : a.lt b = true → b.lt c = true → a.lt c = true
  before : a.lt b = true → b.lt a = false ∧ a.eq b = false
  behind : b.lt a = true → a.lt b = false ∧ a.eq b = false
  level : a.eq b = true → a.lt b = false ∧ b.lt a = false
  total : a.lt b = true ∨ b.lt a = true ∨ a.eq b = true
  ne : a.ne b = !a.eq b

/-- **Addresses are ordered**, by their bytes. -/
theorem ordered (a b c : Address) : Ordered a b c where
  same := eq_iff
  irrefl := by
    rw [← Bool.not_eq_true, lt_iff]
    exact lt_irrefl _
  trans hab hbc := lt_iff.mpr ((lt_iff.mp hab).trans (lt_iff.mp hbc))
  before h := by
    rw [← Bool.not_eq_true, ← Bool.not_eq_true, lt_iff, eq_iff, ← numbers_inj]
    exact ⟨(lt_iff.mp h).asymm, (lt_iff.mp h).ne⟩
  behind h := by
    rw [← Bool.not_eq_true, ← Bool.not_eq_true, lt_iff, eq_iff, ← numbers_inj]
    exact ⟨(lt_iff.mp h).asymm, (lt_iff.mp h).ne'⟩
  level h := by
    rw [← Bool.not_eq_true, ← Bool.not_eq_true, lt_iff, lt_iff, eq_iff.mp h]
    exact ⟨lt_irrefl _, lt_irrefl _⟩
  total := by
    rw [lt_iff, lt_iff, eq_iff, ← numbers_inj]
    obtain h | h | h := lt_trichotomy (numbers a.view) (numbers b.view)
    · exact .inl h
    · exact .inr (.inr h)
    · exact .inr (.inl h)
  ne := rfl

end Address

end Sylar
