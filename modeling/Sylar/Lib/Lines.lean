import Mathlib.Data.List.TakeWhile

/-!
# Lines

A text is cut into lines at each pair of two given symbols, `cr` and
`lf`. What stands in front of a cut does not matter for what is behind
it (`lines_append`). The `heading` of a list of lines ends at the first
empty one.
-/

namespace Sylar

namespace Lines

variable {α : Type} {a b : List (List α)}

/-- The lines in front of the first empty one. -/
def heading (ls : List (List α)) : List (List α) := ls.takeWhile fun l => !l.isEmpty

theorem heading_cut (h : [] ∈ a) : heading (a ++ b) = heading a := by
  induction a with
  | nil => cases h
  | cons l a ih =>
      obtain hl | ha := List.mem_cons.mp h
      · rw [← hl]
        rfl
      · rw [heading, heading, List.cons_append, List.takeWhile_cons, List.takeWhile_cons]
        split
        · exact congrArg (l :: ·) (ih ha)
        · rfl

theorem heading_whole (h : [] ∉ a) : heading (a ++ b) = a ++ heading b := by
  refine List.takeWhile_append_of_pos fun l hl => ?_
  rw [Bool.not_eq_true', List.isEmpty_eq_false_iff]
  rintro rfl
  exact h hl

theorem heading_stop : heading ([] :: b) = [] := rfl

variable [DecidableEq α] (cr lf : α)

def lines : List α → List (List α)
  | [] => [[]]
  | [c] => [[c]]
  | c :: d :: rest =>
      if c = cr ∧ d = lf then [] :: lines rest
      else (lines (d :: rest)).modifyHead (c :: ·)

variable {cr lf}

theorem lines_cons {c d : α} {rest : List α} (h : ¬(c = cr ∧ d = lf)) :
    lines cr lf (c :: d :: rest) = (lines cr lf (d :: rest)).modifyHead (c :: ·) := by
  rw [lines, if_neg h]

theorem lines_ne_nil : ∀ text : List α, lines cr lf text ≠ []
  | [] => List.cons_ne_nil _ _
  | [_] => List.cons_ne_nil _ _
  | c :: d :: rest => by
      by_cases h : c = cr ∧ d = lf
      · rw [lines, if_pos h]
        exact List.cons_ne_nil _ _
      · rw [lines_cons h, ne_eq, List.modifyHead_eq_nil_iff]
        exact lines_ne_nil (d :: rest)

theorem lines_cut (text : List α) : lines cr lf (cr :: lf :: text) = [] :: lines cr lf text := by
  rw [lines, if_pos ⟨rfl, rfl⟩]

theorem modifyHead_append {β : Type} {f : β → β} {xs ys : List β} (h : xs ≠ []) :
    (xs ++ ys).modifyHead f = xs.modifyHead f ++ ys := by
  obtain ⟨x, xs, rfl⟩ := List.exists_cons_of_ne_nil h
  rfl

/-- **Each line ends on its own.** -/
theorem lines_append (hne : cr ≠ lf) : ∀ s t : List α,
    lines cr lf (s ++ cr :: lf :: t) = lines cr lf s ++ lines cr lf t
  | [], t => lines_cut t
  | [c], t => by
      have hother : ¬(c = cr ∧ cr = lf) := fun h => hne h.2
      rw [List.singleton_append, lines_cons hother, lines_cut]
      rfl
  | c :: d :: rest, t => by
      by_cases h : c = cr ∧ d = lf
      · rw [List.cons_append, List.cons_append, lines, lines, if_pos h, if_pos h,
          lines_append hne rest t]
        rfl
      · have hrest := lines_append hne (d :: rest) t
        rw [List.cons_append] at hrest
        rw [List.cons_append, List.cons_append, lines_cons h, lines_cons h, hrest,
          modifyHead_append (lines_ne_nil _)]

/-- A text without `cr` is one line. -/
theorem lines_single : ∀ {text : List α}, cr ∉ text → lines cr lf text = [text]
  | [], _ => rfl
  | [_], _ => rfl
  | c :: d :: rest, h => by
      obtain ⟨hc, hrest⟩ := not_or.mp (List.mem_cons.not.mp h)
      rw [lines_cons fun hboth => hc hboth.1.symm, lines_single hrest]
      rfl

end Lines

end Sylar
