import Mathlib.Algebra.BigOperators.Group.List.Basic
import Mathlib.Tactic.Abel

/-!
# Guarded transition systems

A system is a predicate on initial states and an executable step
function: `step s e` is `some s'` when event `e` can occur in `s` and
leads to `s'`, and `none` when it cannot occur. Nondeterminism lives in
the events: whatever the environment chooses (a result of a system
call, the next thread to run) is part of the event.

Runs come in two strengths. `Reachable` is every state some run ends
in. `ReachableBy ok` keeps to the runs each of whose steps satisfies
`ok` on the state before the step; it is the shape of a result that
holds as long as the environment avoids a certain move. Either way an
invariant is two obligations: it holds initially and one step
preserves it (`ReachableBy.invariant`).

That something happens is a result about endless runs (`Behavior`) in
which some of the events are not put off forever (`Fair`). It takes a
number that these events lower and no other event raises
(`Behavior.eventually`).
-/

namespace Sylar

/-- A sequence of fallible steps succeeds when each of them does. -/
theorem bind_eq_ok {ε α β : Type} {x : Except ε α} {f : α → Except ε β} {b : β} :
    x >>= f = .ok b ↔ ∃ a, x = .ok a ∧ f a = .ok b := by
  cases x with
  | error e => simp [bind, Except.bind]
  | ok a => simp [bind, Except.bind]

/-- It fails when one of them does. -/
theorem bind_eq_error {ε α β : Type} {x : Except ε α} {f : α → Except ε β} {e : ε} :
    x >>= f = .error e ↔ x = .error e ∨ ∃ a, x = .ok a ∧ f a = .error e := by
  cases x with
  | error e' => simp [bind, Except.bind]
  | ok a => simp [bind, Except.bind]

theorem toOption_eq_some {ε α : Type} {x : Except ε α} {a : α} :
    x.toOption = some a ↔ x = .ok a := by
  cases x with
  | error e => simp [Except.toOption]
  | ok b => simp [Except.toOption]

/-- Initial states and a guarded, executable step function. -/
structure System (S E : Type) where
  init : S → Prop
  step : S → E → Option S

namespace System

variable {S E : Type} {sys : System S E} {ok : S → E → Prop}

/-- The states reached by runs whose every step satisfies `ok`. -/
inductive ReachableBy (sys : System S E) (ok : S → E → Prop) : S → Prop
  | init {s : S} : sys.init s → ReachableBy sys ok s
  | step {s s' : S} {e : E} : ReachableBy sys ok s → ok s e →
      sys.step s e = some s' → ReachableBy sys ok s'

/-- The states reached by any run. -/
abbrev Reachable (sys : System S E) : S → Prop :=
  sys.ReachableBy fun _ _ => True

theorem Reachable.next {s s' : S} {e : E} (h : sys.Reachable s)
    (hs : sys.step s e = some s') : sys.Reachable s' :=
  ReachableBy.step h trivial hs

/-- **The invariant rule.** What holds initially and is preserved by
every permitted step holds in every state reached. -/
theorem ReachableBy.invariant {P : S → Prop} (hinit : ∀ s, sys.init s → P s)
    (hstep : ∀ s e s', P s → ok s e → sys.step s e = some s' → P s')
    {s : S} (h : sys.ReachableBy ok s) : P s := by
  induction h with
  | init hi => exact hinit _ hi
  | step _ hok hs ih => exact hstep _ _ _ ih hok hs

theorem ReachableBy.mono {ok' : S → E → Prop} (himp : ∀ s e, ok s e → ok' s e)
    {s : S} (h : sys.ReachableBy ok s) : sys.ReachableBy ok' s := by
  induction h with
  | init hi => exact .init hi
  | step _ hok hs ih => exact .step ih (himp _ _ hok) hs

/-! ## Runs from a state -/

/-- The runs that begin in `s`. -/
def startingAt (sys : System S E) (s : S) : System S E :=
  { sys with init := fun t => t = s }

theorem ReachableBy.later {s s' : S} (h : sys.ReachableBy ok s)
    (h' : (sys.startingAt s).ReachableBy ok s') : sys.ReachableBy ok s' := by
  induction h' with
  | init hi => exact hi ▸ h
  | step _ hok hs ih => exact ih.step hok hs

/-- What every permitted step does to a reachable state, any number of
them do. -/
theorem ReachableBy.run {R : S → S → Prop} (hrefl : ∀ s, R s s)
    (htrans : ∀ s t u, R s t → R t u → R s u)
    (hstep : ∀ s e s', sys.ReachableBy ok s → ok s e → sys.step s e = some s' → R s s')
    {s s' : S} (h : sys.ReachableBy ok s) (h' : (sys.startingAt s).ReachableBy ok s') : R s s' := by
  induction h' with
  | init hi => exact hi ▸ hrefl s
  | step hr hok hs ih => exact htrans _ _ _ ih (hstep _ _ _ (h.later hr) hok hs)

/-! ## What holds along a run -/

/-- `P` holds in `s` and wherever the events `es` lead from there. -/
def Along (sys : System S E) (P : S → Prop) : S → List E → Prop
  | s, [] => P s
  | s, e :: es => P s ∧ ∀ s', sys.step s e = some s' → sys.Along P s' es

/-- Each of the events `es` is permitted when it occurs. -/
def Permits (sys : System S E) (ok : S → E → Prop) : S → List E → Prop
  | _, [] => True
  | s, e :: es => ok s e ∧ ∀ s', sys.step s e = some s' → sys.Permits ok s' es

/-- When a step keeps `P` exactly if it is permitted, and what cannot occur
is, `P` holds along exactly the permitted runs. -/
theorem along_iff_of_blocked {I P : S → Prop}
    (hI : ∀ s e s', I s → sys.step s e = some s' → I s')
    (hblocked : ∀ s e, sys.step s e = none → ok s e)
    (hkeep : ∀ s e s', I s → P s → sys.step s e = some s' → (P s' ↔ ok s e)) :
    ∀ {es : List E} {s : S}, I s → P s → (sys.Along P s es ↔ sys.Permits ok s es)
  | [], s, _, hP => ⟨fun _ => trivial, fun _ => hP⟩
  | e :: es, s, hs, hP => by
      cases hstep : sys.step s e with
      | none =>
          have hnext : ∀ t, sys.step s e ≠ some t := fun t ht => nomatch hstep.symm.trans ht
          exact ⟨fun _ => ⟨hblocked s e hstep, fun t ht => absurd ht (hnext t)⟩,
            fun _ => ⟨hP, fun t ht => absurd ht (hnext t)⟩⟩
      | some s' =>
          have hiff := hkeep s e s' hs hP hstep
          have hnext : ∀ t, sys.step s e = some t → t = s' := fun t ht =>
            Option.some.inj (ht.symm.trans hstep)
          constructor
          · rintro ⟨-, hrest⟩
            have hrest' := hrest s' hstep
            have hP' : P s' := by
              cases es with
              | nil => exact hrest'
              | cons e' es => exact hrest'.1
            refine ⟨hiff.mp hP', fun t ht => ?_⟩
            obtain rfl := hnext t ht
            exact (along_iff_of_blocked hI hblocked hkeep (hI s e t hs ht) hP').mp hrest'
          · rintro ⟨hok, hrest⟩
            refine ⟨hP, fun t ht => ?_⟩
            obtain rfl := hnext t ht
            exact (along_iff_of_blocked hI hblocked hkeep (hI s e t hs ht) (hiff.mpr hok)).mpr
              (hrest t ht)

/-- The same where everything can occur. -/
theorem along_iff {I P : S → Prop} (hI : ∀ s e s', I s → sys.step s e = some s' → I s')
    (henabled : ∀ s e, ∃ s', sys.step s e = some s')
    (hkeep : ∀ s e s', I s → P s → sys.step s e = some s' → (P s' ↔ ok s e)) :
    ∀ {es : List E} {s : S}, I s → P s → (sys.Along P s es ↔ sys.Permits ok s es) :=
  along_iff_of_blocked hI (fun s e hnone => by
    obtain ⟨s', hs'⟩ := henabled s e
    cases hnone.symm.trans hs') hkeep

/-! ## Replaying a run -/

/-- Replay events from `s`; `none` when one of them cannot occur. -/
def replay (sys : System S E) : S → List E → Option S
  | s, [] => some s
  | s, e :: es => (sys.step s e).bind fun s' => sys.replay s' es

theorem replay_reachable : ∀ {es : List E} {s s' : S}, sys.Reachable s →
    sys.replay s es = some s' → sys.Reachable s'
  | [], s, s', hr, h => by
      obtain rfl := Option.some.inj h
      exact hr
  | e :: es, s, s', hr, h => by
      rw [replay, Option.bind_eq_some_iff] at h
      obtain ⟨t, ht, hrest⟩ := h
      exact replay_reachable (hr.next ht) hrest

/-- Replay events that have to be permitted as well. -/
def replayBy (sys : System S E) (ok : S → E → Prop) [∀ s e, Decidable (ok s e)] :
    S → List E → Option S
  | s, [] => some s
  | s, e :: es => if ok s e then (sys.step s e).bind fun s' => replayBy sys ok s' es else none

theorem replayBy_reachable [∀ s e, Decidable (ok s e)] : ∀ {es : List E} {s s' : S},
    sys.ReachableBy ok s → sys.replayBy ok s es = some s' → sys.ReachableBy ok s'
  | [], s, s', hr, h => by
      obtain rfl := Option.some.inj h
      exact hr
  | e :: es, s, s', hr, h => by
      rw [replayBy] at h
      split at h
      · rename_i hok
        obtain ⟨t, ht, hrest⟩ := Option.bind_eq_some_iff.mp h
        exact replayBy_reachable (hr.step hok ht) hrest
      · cases h

theorem replay_of_replayBy [∀ s e, Decidable (ok s e)] : ∀ {es : List E} {s s' : S},
    sys.replayBy ok s es = some s' → sys.replay s es = some s'
  | [], s, s', h => h
  | e :: es, s, s', h => by
      rw [replayBy] at h
      split at h
      · obtain ⟨t, ht, hrest⟩ := Option.bind_eq_some_iff.mp h
        rw [replay, ht]
        exact replay_of_replayBy hrest
      · cases h

/-- When a step keeps to `Good` exactly if it is permitted, a whole run
does exactly if every step of it is. -/
theorem replay_iff [∀ s e, Decidable (ok s e)] {I Good : S → Prop}
    (hI : ∀ s e s', I s → sys.step s e = some s' → I s')
    (hgood : ∀ s e s', I s → sys.step s e = some s' → (Good s' ↔ Good s ∧ ok s e)) :
    ∀ {es : List E} {s s' : S}, I s → sys.replay s es = some s' →
      (Good s' ↔ Good s ∧ sys.replayBy ok s es = some s')
  | [], s, s', _, h => by
      obtain rfl := Option.some.inj h
      exact ⟨fun hs => ⟨hs, rfl⟩, fun hs => hs.1⟩
  | e :: es, s, s', hs, h => by
      obtain ⟨t, ht, hrest⟩ := Option.bind_eq_some_iff.mp h
      rw [replay_iff hI hgood (hI s e t hs ht) hrest, hgood s e t hs ht, replayBy]
      by_cases hok : ok s e
      · rw [if_pos hok, ht]
        exact ⟨fun hgo => ⟨hgo.1.1, hgo.2⟩, fun hgo => ⟨⟨hgo.1, hok⟩, hgo.2⟩⟩
      · rw [if_neg hok]
        exact ⟨fun hgo => absurd hgo.1.2 hok, fun hgo => nomatch hgo.2⟩

/-! ## Endless runs -/

/-- The states and the events of a run that does not end. -/
structure Behavior (sys : System S E) (ok : S → E → Prop) (σ : Nat → S) (α : Nat → E) : Prop where
  init : sys.init (σ 0)
  permitted : ∀ n, ok (σ n) (α n)
  step : ∀ n, sys.step (σ n) (α n) = some (σ (n + 1))

/-- Whenever one of the events `own` can occur from some point on, one
does. -/
def Fair (sys : System S E) (own : E → Prop) (σ : Nat → S) (α : Nat → E) : Prop :=
  ∀ n, (∀ k ≥ n, ∃ e, own e ∧ (sys.step (σ k) e).isSome) → ∃ k ≥ n, own (α k)

variable {σ : Nat → S} {α : Nat → E} {own : E → Prop}

theorem Behavior.reachable (h : sys.Behavior ok σ α) : ∀ n, sys.ReachableBy ok (σ n)
  | 0 => .init h.init
  | n + 1 => (h.reachable n).step (h.permitted n) (h.step n)

/-- **The response rule.** While `rank` is not 0, an event of `own` can
occur, and lowers it; no event raises it. Then it comes to 0. -/
theorem Behavior.eventually {P : S → Prop} (h : sys.Behavior ok σ α) (rank : S → Nat)
    (hfair : sys.Fair own σ α)
    (henabled : ∀ s, P s → rank s ≠ 0 → ∃ e, own e ∧ (sys.step s e).isSome)
    (hkeep : ∀ s e s', P s → ok s e → sys.step s e = some s' → P s' ∧ rank s' ≤ rank s)
    (hown : ∀ s e s', P s → ok s e → sys.step s e = some s' → own e → rank s ≠ 0 →
      rank s' < rank s)
    {n : Nat} (hn : P (σ n)) : ∃ m ≥ n, P (σ m) ∧ rank (σ m) = 0 := by
  have hlater (n : Nat) (hn : P (σ n)) : ∀ k ≥ n, P (σ k) ∧ rank (σ k) ≤ rank (σ n) := by
    intro k hk
    induction k, hk using Nat.le_induction with
    | base => exact ⟨hn, Nat.le_refl _⟩
    | succ k hk ih =>
        obtain ⟨hP, hle⟩ := hkeep _ _ _ ih.1 (h.permitted k) (h.step k)
        exact ⟨hP, hle.trans ih.2⟩
  induction hr : rank (σ n) using Nat.strong_induction_on generalizing n with
  | _ r ih =>
    by_cases hzero : rank (σ n) = 0
    · exact ⟨n, Nat.le_refl n, hn, hzero⟩
    -- otherwise the rank falls at some point
    obtain ⟨k, hk, hlt⟩ : ∃ k ≥ n, rank (σ k) < rank (σ n) := by
      by_contra hnone
      have hstuck : ∀ k ≥ n, rank (σ k) ≠ 0 := fun k hk hr => by
        exact hnone ⟨k, hk, by omega⟩
      obtain ⟨k, hk, howns⟩ := hfair n fun k hk =>
        henabled _ (hlater n hn k hk).1 (hstuck k hk)
      obtain ⟨hP, hle⟩ := hlater n hn k hk
      have hlt := hown _ _ _ hP (h.permitted k) (h.step k) howns (hstuck k hk)
      exact hnone ⟨k + 1, Nat.le_succ_of_le hk, Nat.lt_of_lt_of_le hlt hle⟩
    obtain ⟨m, hm, hend⟩ := ih _ (hr ▸ hlt) (hlater n hn k hk).1 rfl
    exact ⟨m, Nat.le_trans hk hm, hend⟩

/-- A run that has come to `s`, step by step. -/
theorem ReachableBy.path {s : S} (h : sys.ReachableBy ok s) (e : E) :
    ∃ (n : Nat) (σ : Nat → S) (α : Nat → E), sys.init (σ 0) ∧ σ n = s ∧
      ∀ k < n, ok (σ k) (α k) ∧ sys.step (σ k) (α k) = some (σ (k + 1)) := by
  induction h with
  | @init s hi => exact ⟨0, fun _ => s, fun _ => e, hi, rfl, fun k hk => absurd hk (Nat.not_lt_zero k)⟩
  | @step s s' e' _ hok hs ih =>
      obtain ⟨n, σ, α, hinit, hend, hsteps⟩ := ih
      refine ⟨n + 1, fun k => if k ≤ n then σ k else s', fun k => if k < n then α k else e',
        hinit, if_neg (Nat.not_succ_le_self n), fun k hk => ?_⟩
      rcases Nat.lt_or_ge k n with hlt | hge
      · simp only [if_pos hlt, if_pos (Nat.le_of_lt hlt), if_pos (Nat.succ_le_of_lt hlt)]
        exact hsteps k hlt
      · obtain rfl : k = n := by omega
        simp only [Nat.lt_irrefl, Nat.le_refl, Nat.not_succ_le_self, if_true, if_false, hend]
        exact ⟨hok, hs⟩

/-- Where an event changes nothing, a run goes on for ever. -/
theorem ReachableBy.exists_behavior {s : S} (h : sys.ReachableBy ok s) {e : E} (hok : ok s e)
    (hidle : sys.step s e = some s) :
    ∃ (n : Nat) (σ : Nat → S) (α : Nat → E), sys.Behavior ok σ α ∧ ∀ k ≥ n, σ k = s := by
  obtain ⟨n, σ, α, hinit, hend, hsteps⟩ := h.path e
  have hlast : ∀ k ≥ n, (if k ≤ n then σ k else s) = s := by
    intro k hk
    split
    · obtain rfl : k = n := by omega
      exact hend
    · rfl
  have hall : ∀ k, ok (if k ≤ n then σ k else s) (if k < n then α k else e) ∧
      sys.step (if k ≤ n then σ k else s) (if k < n then α k else e) =
        some (if k + 1 ≤ n then σ (k + 1) else s) := by
    intro k
    rcases Nat.lt_or_ge k n with hlt | hge
    · rw [if_pos hlt, if_pos (Nat.le_of_lt hlt), if_pos (Nat.succ_le_of_lt hlt)]
      exact hsteps k hlt
    · rw [if_neg (Nat.not_lt.mpr hge), hlast k hge, hlast (k + 1) (Nat.le_succ_of_le hge)]
      exact ⟨hok, hidle⟩
  exact ⟨n, fun k => if k ≤ n then σ k else s, fun k => if k < n then α k else e,
    ⟨hinit, fun k => (hall k).1, fun k => (hall k).2⟩, hlast⟩

end System

/-! ## Sums over the parts of a state -/

/-- One part changes. -/
theorem sum_map_set {α M : Type} [AddCommMonoid M] (f : α → M) {c : α} (c' : α) :
    ∀ {l : List α} {i : Nat}, l[i]? = some c →
      ((l.set i c').map f).sum + f c = (l.map f).sum + f c'
  | x :: xs, 0, h => by
      obtain rfl : x = c := by simpa using h
      simp only [List.set_cons_zero, List.map_cons, List.sum_cons]
      abel
  | x :: xs, i + 1, h => by
      have ih := sum_map_set f c' (l := xs) (i := i) (by simpa using h)
      simp only [List.set_cons_succ, List.map_cons, List.sum_cons]
      rw [add_assoc, ih, add_assoc]

/-- One part goes. -/
theorem sum_map_eraseIdx {α M : Type} [AddCommMonoid M] (f : α → M) {c : α} :
    ∀ {l : List α} {i : Nat}, l[i]? = some c → ((l.eraseIdx i).map f).sum + f c = (l.map f).sum
  | x :: xs, 0, h => by
      obtain rfl : x = c := by simpa using h
      rw [List.eraseIdx_cons_zero, List.map_cons, List.sum_cons, add_comm]
  | x :: xs, i + 1, h => by
      have ih := sum_map_eraseIdx f (show xs[i]? = some c by simpa using h)
      rw [List.eraseIdx_cons_succ, List.map_cons, List.map_cons, List.sum_cons, List.sum_cons,
        add_assoc, ih]

end Sylar
