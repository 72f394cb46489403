import Mathlib.Data.Nat.Digits.Lemmas
import Mathlib.Tactic.Common

/-!
# The text form of an IPv6 address

RFC 4291, section 2.2: eight groups of up to four hexadecimal digits
with a colon between any two, where one run of groups that are zero may
be written as `::`. `expand` gives the groups of a text in this form; the
mixed form with the decimal numbers of an IPv4 address is left out.

A text is built from groups with `joined`, and `::` between two parts of
them. Such texts expand to the groups they were built from
(`expand_joined`, `expand_gap`).
-/

namespace Sylar

namespace Ipv6Text

/-- The value of a hexadecimal digit. -/
def digit (c : UInt8) : Option Nat :=
  if 48 ≤ c ∧ c ≤ 57 then some (c.toNat - 48)
  else if 65 ≤ c ∧ c ≤ 70 then some (c.toNat - 55)
  else if 97 ≤ c ∧ c ≤ 102 then some (c.toNat - 87)
  else none

/-- A group: one to four digits. -/
def group (t : List UInt8) : Option Nat :=
  if t = [] ∨ 4 < t.length then none
  else t.foldlM (fun v c => (digit c).map (16 * v + ·)) 0

/-- Groups with a colon between any two. -/
def groups (t : List UInt8) : Option (List Nat) :=
  if t = [] then some [] else (t.splitOn 58).mapM group

/-- The text in front of the first `::`, and behind it. -/
def gap : List UInt8 → Option (List UInt8 × List UInt8)
  | [] => none
  | c :: cs =>
      if c = 58 ∧ cs.head? = some 58 then some ([], cs.tail)
      else (gap cs).map fun p => (c :: p.1, p.2)

/-- How often `::` is there. -/
def gaps : List UInt8 → Nat
  | [] => 0
  | c :: cs => (if c = 58 ∧ cs.head? = some 58 then 1 else 0) + gaps cs

/-- The eight groups of a text. -/
def expand (t : List UInt8) : Option (List Nat) :=
  match gap t with
  | none => (groups t).filter fun gs => gs.length = 8
  | some (l, r) => do
      let gl ← groups l
      let gr ← groups r
      if gl.length + gr.length < 8 then
        some (gl ++ List.replicate (8 - gl.length - gr.length) 0 ++ gr)
      else none

/-- Parts of a text with a colon between any two. -/
def joined : List (List UInt8) → List UInt8
  | [] => []
  | [t] => t
  | t :: t' :: ts => t ++ 58 :: joined (t' :: ts)

/-! ## Texts of groups -/

variable {t ys : List UInt8} {ts : List (List UInt8)}

theorem digit_colon : digit 58 = none := by decide

/-- Nothing but digits. -/
theorem foldlM_digits : ∀ {t : List UInt8} {v g : Nat},
    t.foldlM (fun v c => (digit c).map (16 * v + ·)) v = some g → (58 : UInt8) ∉ t
  | [], _, _, _ => List.not_mem_nil
  | c :: t, v, g, h => by
      rw [List.foldlM_cons] at h
      obtain ⟨v', hv', h⟩ := Option.bind_eq_some_iff.mp h
      refine List.not_mem_cons_of_ne_of_not_mem ?_ (foldlM_digits h)
      rintro rfl
      rw [digit_colon] at hv'
      cases hv'

theorem group_spec {g : Nat} (h : group t = some g) : t ≠ [] ∧ (58 : UInt8) ∉ t := by
  rw [group] at h
  split at h
  · cases h
  · rename_i hlen
    exact ⟨fun hnil => hlen (.inl hnil), foldlM_digits h⟩

theorem head?_append_ne {t : List UInt8} (hne : t ≠ []) (hcolon : (58 : UInt8) ∉ t)
    (ys : List UInt8) : (t ++ ys).head? ≠ some 58 := by
  obtain ⟨c, cs, rfl⟩ := List.exists_cons_of_ne_nil hne
  intro h
  exact hcolon (Option.some.inj h ▸ List.mem_cons_self ..)

theorem gap_append : ∀ {t : List UInt8}, (58 : UInt8) ∉ t → ∀ ys,
    gap (t ++ ys) = (gap ys).map fun p => (t ++ p.1, p.2)
  | [], _, ys => by
      show gap ys = (gap ys).map id
      rw [Option.map_id_apply]
  | c :: t, h, ys => by
      have hc : ¬(c = 58 ∧ (t ++ ys).head? = some 58) := by
        rintro ⟨rfl, -⟩
        exact h (List.mem_cons_self ..)
      rw [List.cons_append, gap, if_neg hc, gap_append (h ∘ List.mem_cons_of_mem _),
        Option.map_map]
      rfl

theorem gaps_append : ∀ {t : List UInt8}, (58 : UInt8) ∉ t → ∀ ys, gaps (t ++ ys) = gaps ys
  | [], _, _ => rfl
  | c :: t, h, ys => by
      have hc : ¬(c = 58 ∧ (t ++ ys).head? = some 58) := by
        rintro ⟨rfl, -⟩
        exact h (List.mem_cons_self ..)
      rw [List.cons_append, gaps, if_neg hc, gaps_append (h ∘ List.mem_cons_of_mem _),
        Nat.zero_add]

/-- Each part is a group. -/
def Groups (ts : List (List UInt8)) : Prop := ∀ t ∈ ts, t ≠ [] ∧ (58 : UInt8) ∉ t

theorem head?_joined_ne (h : Groups (t :: ts)) (ys : List UInt8) :
    (joined (t :: ts) ++ ys).head? ≠ some 58 := by
  obtain ⟨hne, hcolon⟩ := h t (List.mem_cons_self ..)
  cases ts with
  | nil => exact head?_append_ne hne hcolon ys
  | cons t' ts =>
      rw [joined, List.append_assoc]
      exact head?_append_ne hne hcolon _

/-- Between groups there is no `::`. -/
theorem gap_joined : ∀ {ts : List (List UInt8)}, Groups ts → ∀ ys,
    gap (joined ts ++ ys) = (gap ys).map fun p => (joined ts ++ p.1, p.2)
  | [], _, ys => gap_append List.not_mem_nil ys
  | [t], h, ys => gap_append (h t (List.mem_cons_self ..)).2 ys
  | t :: t' :: ts, h, ys => by
      have hrest : Groups (t' :: ts) := fun u hu => h u (List.mem_cons_of_mem _ hu)
      have hcolon : ¬((58 : UInt8) = 58 ∧ (joined (t' :: ts) ++ ys).head? = some 58) :=
        fun hgap => head?_joined_ne hrest ys hgap.2
      rw [joined, List.append_assoc, List.cons_append,
        gap_append (h t (List.mem_cons_self ..)).2, gap, if_neg hcolon, gap_joined hrest,
        Option.map_map, Option.map_map]
      simp [Function.comp_def]

theorem gaps_joined : ∀ {ts : List (List UInt8)}, Groups ts → ∀ ys,
    gaps (joined ts ++ ys) = gaps ys
  | [], _, _ => rfl
  | [t], h, ys => gaps_append (h t (List.mem_cons_self ..)).2 ys
  | t :: t' :: ts, h, ys => by
      have hrest : Groups (t' :: ts) := fun u hu => h u (List.mem_cons_of_mem _ hu)
      have hcolon : ¬((58 : UInt8) = 58 ∧ (joined (t' :: ts) ++ ys).head? = some 58) :=
        fun hgap => head?_joined_ne hrest ys hgap.2
      rw [joined, List.append_assoc, List.cons_append,
        gaps_append (h t (List.mem_cons_self ..)).2, gaps, if_neg hcolon, gaps_joined hrest,
        Nat.zero_add]

theorem splitOn_joined : ∀ {ts : List (List UInt8)}, Groups ts → ts ≠ [] →
    (joined ts).splitOn 58 = ts
  | [t], h, _ => List.splitOn_eq_singleton (h t (List.mem_cons_self ..)).2
  | t :: t' :: ts, h, _ => by
      rw [joined, List.splitOn_append_cons_self_of_not_mem (h t (List.mem_cons_self ..)).2,
        splitOn_joined (fun u hu => h u (List.mem_cons_of_mem _ hu)) (List.cons_ne_nil _ _)]

theorem joined_concat (hne : ts ≠ []) (t : List UInt8) :
    joined (ts ++ [t]) = joined ts ++ 58 :: t := by
  induction ts with
  | nil => exact absurd rfl hne
  | cons u ts ih =>
      cases ts with
      | nil => rfl
      | cons u' ts =>
          have hrest := ih (List.cons_ne_nil _ _)
          rw [List.cons_append, List.cons_append, joined, joined, ← List.cons_append, hrest,
            List.append_assoc, List.cons_append]

/-! ## Texts of numbers -/

variable {print : Nat → List UInt8} {gs gl gr : List Nat}

theorem groups_print (h : ∀ g ∈ gs, group (print g) = some g) : Groups (gs.map print) := by
  intro t ht
  obtain ⟨g, hg, rfl⟩ := List.mem_map.mp ht
  exact group_spec (h g hg)

theorem groups_joined (h : ∀ g ∈ gs, group (print g) = some g) :
    groups (joined (gs.map print)) = some gs := by
  cases gs with
  | nil => rfl
  | cons g gs =>
      have hne : joined ((g :: gs).map print) ≠ [] := by
        obtain ⟨hne, -⟩ := group_spec (h g (List.mem_cons_self ..))
        cases gs with
        | nil => exact hne
        | cons g' gs => exact List.append_ne_nil_of_left_ne_nil hne _
      have hall : ∀ {gs : List Nat}, (∀ g ∈ gs, group (print g) = some g) →
          (gs.map print).mapM group = some gs := by
        intro gs
        induction gs with
        | nil => exact fun _ => rfl
        | cons g gs ih =>
            intro h
            rw [List.map_cons, List.mapM_cons, h g (List.mem_cons_self ..),
              ih fun g' hg' => h g' (List.mem_cons_of_mem _ hg')]
            rfl
      rw [groups, if_neg hne, splitOn_joined (groups_print h) (List.cons_ne_nil _ _), hall h]

/-- All groups are written. -/
theorem expand_joined (h : ∀ g ∈ gs, group (print g) = some g) (hlen : gs.length = 8) :
    expand (joined (gs.map print)) = some gs ∧ gaps (joined (gs.map print)) = 0 := by
  have hgap := gap_joined (groups_print h) []
  have hgaps := gaps_joined (groups_print h) []
  rw [List.append_nil] at hgap hgaps
  refine ⟨?_, hgaps⟩
  rw [expand, hgap]
  show (groups (joined (gs.map print))).filter _ = some gs
  rw [groups_joined h, Option.filter_some, if_pos (decide_eq_true hlen)]

/-- A run of zeros is left out. -/
theorem expand_gap (hl : ∀ g ∈ gl, group (print g) = some g)
    (hr : ∀ g ∈ gr, group (print g) = some g) {n : Nat} (hn : 0 < n)
    (hlen : gl.length + n + gr.length = 8) :
    expand (joined (gl.map print) ++ 58 :: 58 :: joined (gr.map print)) =
        some (gl ++ List.replicate n 0 ++ gr) ∧
      gaps (joined (gl.map print) ++ 58 :: 58 :: joined (gr.map print)) = 1 := by
  have hstart : (joined (gr.map print)).head? ≠ some 58 := by
    cases gr with
    | nil => simp [joined]
    | cons g gr =>
        have hhead := head?_joined_ne (groups_print hr) []
        rwa [List.append_nil] at hhead
  have hone : gaps (58 :: 58 :: joined (gr.map print)) = 1 := by
    have hgaps := gaps_joined (groups_print hr) []
    rw [List.append_nil] at hgaps
    rw [gaps, if_pos ⟨rfl, rfl⟩, gaps, if_neg fun h => hstart h.2, hgaps]
    rfl
  refine ⟨?_, by rw [gaps_joined (groups_print hl), hone]⟩
  have hgap : gap (58 :: 58 :: joined (gr.map print)) = some ([], joined (gr.map print)) := by
    rw [gap, if_pos ⟨rfl, rfl⟩]
    rfl
  rw [expand, gap_joined (groups_print hl), hgap]
  simp only [Option.map_some, List.append_nil, groups_joined hl, groups_joined hr]
  show (if gl.length + gr.length < 8 then _ else none) = _
  rw [if_pos (by omega), show 8 - gl.length - gr.length = n by omega]

end Ipv6Text

end Sylar
