import Sylar.Lib.Recogniser
import Sylar.UriGrammar
import Sylar.UriMachine

/-!
# The URI machine recognises its grammar

The table that Ragel has made accepts exactly what `URI_reference`
derives. The proof goes through all the pairs of a state and the rest of
the productions that belong to it.
-/

namespace Sylar

open Scanner Grammar

namespace UriGrammar

/-- The rows of the machine by their numbers. -/
def rows (q : Nat) : List (Nat × Nat) := (index UriMachine.states).getD q []

/-- The pair behind a text that a reference can begin with. -/
def pairBehind (w : List UInt8) : Nat × List (List (Sym UriNt)) :=
  ((after UriMachine.machine UriMachine.start w).getD UriMachine.start,
    (behind rules 12 [[.nt .uriReference]] w).getD [])

/-- The pairs that belong together are gone through in three parts: behind
`//[`, behind `a://[`, and all others. A part has the pairs it leaves out
and those it begins with. -/
def parts : List (List (Nat × List (List (Sym UriNt))) × List (Nat × List (List (Sym UriNt)))) :=
  [([], [pairBehind [47, 47, 91]]), ([], [pairBehind [97, 58, 47, 47, 91]]),
    ([pairBehind [47, 47, 91], pairBehind [97, 58, 47, 47, 91]],
      [(UriMachine.start, [[.nt .uriReference]])])]

theorem explore_parts : ∀ part ∈ parts, (explore rules rows (fun q => UriMachine.firstFinal ≤ q) 12
    10000 (seenOf part.1) part.2).isSome = true := by
  intro part hpart
  simp only [parts, List.mem_cons, List.not_mem_nil, or_false] at hpart
  rcases hpart with rfl | rfl | rfl <;> decide +kernel

/-- The machine ends in a final state on the references of the grammar, and
on no other text. -/
theorem accepts_iff (s : List UInt8) :
    Accepts UriMachine.machine (fun q => UriMachine.firstFinal ≤ q) UriMachine.start s ↔
      Derives rules [.nt .uriReference] s := by
  have hrows : ∀ q, rows q = rowOf UriMachine.machine q := index_getD UriMachine.states
  rw [← lang_singleton]
  obtain ⟨hrelative, hparts⟩ := List.forall_mem_cons.mp explore_parts
  obtain ⟨habsolute, hrest⟩ := List.forall_mem_cons.mp hparts
  refine accepts_iff_lang hrows ?_ (hrest _ (List.mem_singleton.mpr rfl)) s
  intro p hp
  rcases List.mem_cons.mp hp with rfl | hp
  · exact accepts_iff_lang hrows (by simp) hrelative
  · obtain rfl := List.mem_singleton.mp hp
    exact accepts_iff_lang hrows (by simp) habsolute

/-- `a://[::]` -/
example : (after UriMachine.machine UriMachine.start [97, 58, 47, 47, 91, 58, 58, 93]).any
    (UriMachine.firstFinal ≤ ·) = true := by
  decide +kernel

end UriGrammar

end Sylar
