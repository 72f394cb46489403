import Mathlib.Data.List.Basic
import Mathlib.Data.List.TakeWhile
import Mathlib.Order.Defs.Unbundled
import Mathlib.Tactic.Common

/-!
# Sets kept in the order of a comparator

A set of distinct keys as a sorted list, with the operations of an
ordered container whose comparator is `r`: `insert` walks to the first
key that is not before the new one, `find` to the first that is not
before the one looked for, and `lowerBound` returns that place. They
are the answers of a search tree as long as the list is sorted by `r`
(`List.Pairwise r`), which is the caller's invariant: nothing stops a
caller whose comparator reads mutable keys from breaking it.

`insert` and erasing by position keep the order (`pairwise_insert`,
`List.eraseIdx_sublist`), and in an ordered set `find` finds every
member (`find_eq`).
-/

namespace Sylar

namespace OrderedSet

variable {α : Type*}

section Order

variable {r : α → α → Prop} [IsStrictTotalOrder α r]

theorem eq_of_not_rel {x y : α} (h : ¬r x y) (h' : ¬r y x) : x = y :=
  (trichotomous_of r x y).elim (absurd · h) fun h => h.elim id (absurd · h')

theorem nodup {l : List α} (h : l.Pairwise r) : l.Nodup :=
  h.imp fun {a _} hab => by
    rintro rfl
    exact irrefl_of r a hab

end Order

variable (r : α → α → Prop) [DecidableRel r]

/-- `insert(x)`: nothing happens when an equivalent key is there. -/
def insert (x : α) : List α → List α
  | [] => [x]
  | y :: ys =>
      if r y x then y :: insert x ys
      else if r x y then x :: y :: ys
      else y :: ys

/-- `find(x)`: the place of the key equivalent to `x`, `none` for
`end()`. -/
def find (x : α) : List α → Option Nat
  | [] => none
  | y :: ys =>
      if r y x then (find x ys).map (· + 1)
      else if r x y then none
      else some 0

/-- `lower_bound(x)`: how many keys come before `x`. -/
def lowerBound (x : α) (l : List α) : Nat := (l.takeWhile fun y => decide (r y x)).length

theorem of_mem_take_lowerBound {x a : α} {l : List α} (h : a ∈ l.take (lowerBound r x l)) :
    r a x := by
  have hpre : (l.takeWhile fun y => decide (r y x)) <+: l := List.takeWhile_prefix _
  rw [lowerBound, ← List.prefix_iff_eq_take.mp hpre] at h
  have hless : decide (r a x) = true :=
    List.mem_takeWhile_imp (p := fun y => decide (r y x)) h
  exact of_decide_eq_true hless

variable {r}

/-- The new key is in front, or the front has not changed. -/
theorem head_insert (x : α) (l : List α) :
    (insert r x l).head? = some x ∨ (insert r x l).head? = l.head? := by
  cases l with
  | nil => exact .inl rfl
  | cons z zs =>
      unfold insert
      split
      · exact .inr rfl
      · split
        · exact .inl rfl
        · exact .inr rfl

variable [IsStrictTotalOrder α r]

theorem mem_insert {x y : α} : ∀ {l : List α}, y ∈ insert r x l ↔ y = x ∨ y ∈ l
  | [] => by simp [insert]
  | z :: zs => by
      unfold insert
      split
      · rw [List.mem_cons, mem_insert, List.mem_cons]
        tauto
      · split
        · exact List.mem_cons
        · rename_i hzx hxz
          obtain rfl := eq_of_not_rel hxz hzx
          simp

theorem pairwise_insert {x : α} : ∀ {l : List α}, l.Pairwise r → (insert r x l).Pairwise r
  | [], _ => List.pairwise_singleton r x
  | z :: zs, h => by
      obtain ⟨hz, hzs⟩ := List.pairwise_cons.mp h
      unfold insert
      split
      · rename_i hzx
        refine List.pairwise_cons.mpr ⟨?_, pairwise_insert hzs⟩
        intro y hy
        rcases mem_insert.mp hy with rfl | hy
        · exact hzx
        · exact hz y hy
      · split
        · rename_i hxz
          refine List.pairwise_cons.mpr ⟨?_, h⟩
          intro y hy
          rcases List.mem_cons.mp hy with rfl | hy
          · exact hxz
          · exact trans_of r hxz (hz y hy)
        · exact h

/-- In an ordered set every member is found, and where it is. -/
theorem find_eq [DecidableEq α] {x : α} : ∀ {l : List α}, l.Pairwise r → x ∈ l →
    find r x l = some (l.idxOf x)
  | z :: zs, h, hx => by
      obtain ⟨hz, hzs⟩ := List.pairwise_cons.mp h
      by_cases hzx : z = x
      · subst hzx
        rw [find, if_neg (irrefl_of r z), if_neg (irrefl_of r z), List.idxOf_cons_self]
      · have hmem : x ∈ zs := (List.mem_cons.mp hx).resolve_left fun h => hzx h.symm
        rw [find, if_pos (hz x hmem), find_eq hzs hmem, List.idxOf_cons_ne _ hzx]
        rfl

end OrderedSet

end Sylar
