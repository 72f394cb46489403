import Sylar.Lib.Grammar
import Sylar.Lib.Scanner

/-!
# Outlines of tables

A table can be read through a coarser one. `Folds t t' f` says that every
edge of `t` is an edge of `t'` between the folded states, with the same
actions; `t'` may have more edges. What a run of `t` does that finds an
edge for every byte is then what the run of `t'` does. `foldsRows` is the
test, edge by edge, and `leads` the test for one edge, which does not go
through the bytes.
-/

namespace Sylar

namespace Scanner

open Grammar (ofRanges testBit_ofRanges)

variable {α : Type}

/-- Every edge is one of the other table, between the folded states. -/
def Folds (t t' : Table α) (f : Nat → Nat) : Prop :=
  ∀ cs b as cs', move t cs b = some (as, cs') → move t' (f cs) b = some (as, f cs')

variable [DecidableEq α]

/-- Every byte of `on` takes an edge of the row, with one of the actions
`acts` and to a state of `Q`. -/
def leads (acts : List (List α)) (Q : List Nat) : List (Edge α) → Nat → Bool
  | [], on => on = 0
  | e :: es, on =>
      if ofRanges e.on &&& on = 0 then leads acts Q es on
      else decide (e.acts ∈ acts ∧ e.target ∈ Q) &&
        leads acts Q es (on ^^^ (ofRanges e.on &&& on))

def foldsRows (t' : Table α) (f : Nat → Nat) (rows : List (Nat × List (Edge α))) : Bool :=
  rows.all fun r => r.2.all fun e => leads [e.acts] [f e.target] (t' (f r.1)) (ofRanges e.on)

variable {acts : List (List α)} {Q : List Nat} {b : UInt8}

theorem leads_spec : ∀ {row : List (Edge α)} {on : Nat}, leads acts Q row on = true →
    on.testBit b.toNat = true →
    ∃ e, row.find? (·.takes b) = some e ∧ e.acts ∈ acts ∧ e.target ∈ Q
  | [], on, h, hb => by
      rw [of_decide_eq_true h, Nat.zero_testBit] at hb
      cases hb
  | e :: es, on, h, hb => by
      have hbit : (ofRanges e.on &&& on).testBit b.toNat = e.takes b := by
        rw [Nat.testBit_and, hb, Bool.and_true]
        exact testBit_ofRanges e.on b.toNat
      cases htakes : e.takes b with
      | true =>
          refine ⟨e, List.find?_cons_of_pos htakes, ?_⟩
          rw [leads] at h
          split at h
          · rename_i hmeets
            rw [hmeets, Nat.zero_testBit, htakes] at hbit
            cases hbit
          · exact of_decide_eq_true (Bool.and_eq_true_iff.mp h).1
      | false =>
          rw [List.find?_cons_of_neg (by rw [htakes]; exact Bool.false_ne_true)]
          rw [leads] at h
          split at h
          · exact leads_spec h hb
          · -- the byte is not taken away with those of the edge
            refine leads_spec (Bool.and_eq_true_iff.mp h).2 ?_
            rw [Nat.testBit_xor, hb, hbit, htakes]
            rfl

/-- What the test says of the bytes in the ranges. -/
theorem move_of_leads {t : Table α} {cs : Nat} {on : List (Nat × Nat)}
    (h : leads acts Q (t cs) (ofRanges on) = true)
    (hb : (ofRanges on).testBit b.toNat = true) :
    ∃ as ∈ acts, ∃ cs' ∈ Q, move t cs b = some (as, cs') := by
  obtain ⟨e, hfind, hacts, htarget⟩ := leads_spec h hb
  exact ⟨e.acts, hacts, e.target, htarget, by rw [move, next, hfind, Option.map_some]⟩

theorem folds_of_rows {t' : Table α} {f : Nat → Nat} {rows : List (Nat × List (Edge α))}
    (h : foldsRows t' f rows = true) :
    Folds (tableOf rows) t' f := by
  intro cs b as cs' hmove
  obtain ⟨es, e, hrow, he, htakes, rfl, rfl⟩ := move_row hmove
  have hedge := List.all_eq_true.mp (List.all_eq_true.mp h (cs, es) hrow) e he
  obtain ⟨as, hacts, cs', htarget, hmove⟩ := move_of_leads hedge
    ((testBit_ofRanges e.on b.toNat).trans htakes)
  rw [hmove, List.mem_singleton.mp hacts, List.mem_singleton.mp htarget]

end Scanner

end Sylar
