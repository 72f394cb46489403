import Mathlib.Data.Fintype.Basic
import Mathlib.Logic.Hydra
import Sylar.Lib.System

/-!
# Threads that share a state and take locks

A thread has a program (`Prog`): locks it takes and gives back, branches
on the state, changes of the state, and what it emits. The threads take
turns after each of these. A lock is held by one thread at a time, and a
thread that takes it once more waits for itself. Where a change or an
emission is `none` the behaviour is undefined.

A `Discipline` says what each lock protects, what the others may do at
any time, and in which order locks are taken. Programs that keep to it
(`Safe`, one clause for each move) do so whatever the schedule
(`reachableBy_inv`): none of them comes to undefined behaviour
(`Inv.runs_or_waits`), there is always one that can go on
(`Inv.progress`), and they come to their ends (`wellFounded_run`).
Programs that only read emit in any schedule what they emit alone
(`replay_output`).
-/

namespace Sylar

/-- What a thread has still to do. -/
inductive Prog (L S O : Type) where
  | done
  | lock (l : L) (k : Prog L S O)
  | unlock (l : L) (k : Prog L S O)
  | read (g : S → Prog L S O)
  | act (f : S → Option S) (k : Prog L S O)
  | emit (f : S → Option (List O)) (k : Prog L S O)

structure Threads (T L S O : Type) where
  state : S
  prog : T → Prog L S O
  holder : L → Option T
  out : List (T × O)

inductive ThreadEvent (T C : Type) where
  /-- a thread that has come to its end makes a call -/
  | call (t : T) (c : C)
  | run (t : T)
deriving Repr, DecidableEq

/-- What a replay leads to, where its events are permitted in any state. -/
theorem System.replay_reachableBy {S E : Type} {sys : System S E} {ok : S → E → Prop} :
    ∀ {es : List E} {s s' : S}, sys.ReachableBy ok s → (∀ e ∈ es, ∀ s, ok s e) →
      sys.replay s es = some s' → sys.ReachableBy ok s'
  | [], s, s', hs, _, h => by
      obtain rfl := Option.some.inj h
      exact hs
  | e :: es, s, s', hs, hok, h => by
      obtain ⟨t, ht, hrest⟩ := Option.bind_eq_some_iff.mp h
      exact System.replay_reachableBy (hs.step (hok e List.mem_cons_self s) ht)
        (fun e' he' => hok e' (List.mem_cons_of_mem _ he')) hrest

variable {T L S O C : Type}

namespace Prog

/-- What becomes of the state when the program has it for itself. -/
def solo : Prog L S O → S → Option S
  | .done, s => some s
  | .lock _ k, s => k.solo s
  | .unlock _ k, s => k.solo s
  | .read g, s => (g s).solo s
  | .act f k, s => (f s).bind k.solo
  | .emit f k, s => (f s).bind fun _ => k.solo s

def Reads : Prog L S O → Prop
  | .done => True
  | .lock _ k => k.Reads
  | .unlock _ k => k.Reads
  | .read g => ∀ s, (g s).Reads
  | .act _ _ => False
  | .emit _ k => k.Reads

/-- `q` is left of a program after one move. -/
inductive Next : Prog L S O → Prog L S O → Prop
  | lock {l : L} {k : Prog L S O} : Next k (.lock l k)
  | unlock {l : L} {k : Prog L S O} : Next k (.unlock l k)
  | read {g : S → Prog L S O} (s : S) : Next (g s) (.read g)
  | act {f : S → Option S} {k : Prog L S O} : Next k (.act f k)
  | emit {f : S → Option (List O)} {k : Prog L S O} : Next k (.emit f k)

theorem wellFounded_next : WellFounded (Next (L := L) (S := S) (O := O)) := by
  refine ⟨fun p => ?_⟩
  induction p with
  | done => exact ⟨_, fun q h => by cases h⟩
  | lock l k ih => exact ⟨_, fun q h => by cases h; exact ih⟩
  | unlock l k ih => exact ⟨_, fun q h => by cases h; exact ih⟩
  | read g ih => exact ⟨_, fun q h => by cases h; exact ih _⟩
  | act f k ih => exact ⟨_, fun q h => by cases h; exact ih⟩
  | emit f k ih => exact ⟨_, fun q h => by cases h; exact ih⟩

end Prog

namespace Threads

variable [DecidableEq T] [DecidableEq L]

/-- The next move of `t`. There is none at the end of its program, while it
waits for a lock, and where its behaviour is undefined. -/
def run (w : Threads T L S O) (t : T) : Option (Threads T L S O) :=
  match w.prog t with
  | .done => none
  | .lock l k =>
      if w.holder l = none then
        some { w with prog := Function.update w.prog t k,
                      holder := Function.update w.holder l (some t) }
      else none
  | .unlock l k =>
      if w.holder l = some t then
        some { w with prog := Function.update w.prog t k,
                      holder := Function.update w.holder l none }
      else none
  | .read g => some { w with prog := Function.update w.prog t (g w.state) }
  | .act f k => (f w.state).map fun s => { w with state := s, prog := Function.update w.prog t k }
  | .emit f k => (f w.state).map fun os =>
      { w with prog := Function.update w.prog t k, out := w.out ++ os.map (t, ·) }

def step (code : S → C → Option (Prog L S O)) (w : Threads T L S O) :
    ThreadEvent T C → Option (Threads T L S O)
  | .call t c =>
      match w.prog t with
      | .done => (code w.state c).map fun p => { w with prog := Function.update w.prog t p }
      | _ => none
  | .run t => w.run t

/-- `code s c` is the program of the call `c`, `none` when it cannot be made
in `s`. -/
def system (code : S → C → Option (Prog L S O)) (start : S → Prop) :
    System (Threads T L S O) (ThreadEvent T C) where
  init w := start w.state ∧ (∀ t, w.prog t = .done) ∧ (∀ l, w.holder l = none) ∧ w.out = []
  step := step code

/-- What one move of `t` can do. -/
inductive Move (w : Threads T L S O) (t : T) : Threads T L S O → Prop
  | lock {l : L} {k : Prog L S O} (hp : w.prog t = .lock l k) (hfree : w.holder l = none) :
      Move w t { w with prog := Function.update w.prog t k,
                        holder := Function.update w.holder l (some t) }
  | unlock {l : L} {k : Prog L S O} (hp : w.prog t = .unlock l k) (hhas : w.holder l = some t) :
      Move w t { w with prog := Function.update w.prog t k,
                        holder := Function.update w.holder l none }
  | read {g : S → Prog L S O} (hp : w.prog t = .read g) :
      Move w t { w with prog := Function.update w.prog t (g w.state) }
  | act {f : S → Option S} {k : Prog L S O} {s : S} (hp : w.prog t = .act f k)
      (hs : f w.state = some s) :
      Move w t { w with state := s, prog := Function.update w.prog t k }
  | emit {f : S → Option (List O)} {k : Prog L S O} {os : List O} (hp : w.prog t = .emit f k)
      (hos : f w.state = some os) :
      Move w t { w with prog := Function.update w.prog t k, out := w.out ++ os.map (t, ·) }

theorem run_move {w w' : Threads T L S O} {t : T} (hrun : w.run t = some w') : w.Move t w' := by
  unfold Threads.run at hrun
  split at hrun
  · cases hrun
  · rename_i l k hp
    split at hrun
    · rename_i hfree
      obtain rfl := Option.some.inj hrun
      exact .lock hp hfree
    · cases hrun
  · rename_i l k hp
    split at hrun
    · rename_i hhas
      obtain rfl := Option.some.inj hrun
      exact .unlock hp hhas
    · cases hrun
  · rename_i g hp
    obtain rfl := Option.some.inj hrun
    exact .read hp
  · rename_i f k hp
    obtain ⟨s, hs, rfl⟩ := Option.map_eq_some_iff.mp hrun
    exact .act hp hs
  · rename_i f k hp
    obtain ⟨os, hos, rfl⟩ := Option.map_eq_some_iff.mp hrun
    exact .emit hp hos

/-- `t` waits for a lock. -/
def Waits (w : Threads T L S O) (t : T) : Prop :=
  ∃ l k u, w.prog t = .lock l k ∧ w.holder l = some u

/-- What `t` has emitted. -/
def told (w : Threads T L S O) (t : T) : List O :=
  w.out.filterMap fun x => if x.1 = t then some x.2 else none

end Threads

/-! ## The discipline -/

/-- The rules that the threads keep to. -/
structure Discipline (L S O : Type) where
  /-- the order in which locks are taken -/
  rank : L → Nat
  top : Nat
  rank_le : ∀ l, rank l ≤ top
  /-- what anybody may do at any time -/
  Rely : S → S → Prop
  rely_refl : ∀ s, Rely s s
  rely_trans : ∀ {s t u}, Rely s t → Rely t u → Rely s u
  /-- what the lock protects is left alone -/
  Same : L → S → S → Prop
  same_refl : ∀ l s, Same l s s
  same_trans : ∀ {l s t u}, Rely s t → Same l s t → Same l t u → Same l s u
  Good : S → Prop
  good_of_rely : ∀ {s t}, Rely s t → Good s → Good t
  /-- what has been emitted says this of the state, from then on -/
  Told : S → O → Prop
  told_of_rely : ∀ {s t o}, Rely s t → Told s o → Told t o

namespace Discipline

variable (d : Discipline L S O)

/-- What the others do while a thread has the locks `held`. -/
def Env (held : List L) (s s' : S) : Prop := d.Rely s s' ∧ ∀ l ∈ held, d.Same l s s'

/-- The program keeps to the rules from `s` on, where its thread has the
locks `held`. -/
def Safe [DecidableEq L] : Prog L S O → List L → S → Prop
  | .done, held, _ => held = []
  | .lock l k, held, s => (∀ h ∈ held, d.rank h < d.rank l) ∧
      ∀ s', d.Env held s s' → Safe k (l :: held) s'
  | .unlock l k, held, s => l ∈ held ∧ ∀ s', d.Env held s s' → Safe k (held.erase l) s'
  | .read g, held, s => ∀ s', d.Env held s s' → Safe (g s') held s'
  | .act f k, held, s => ∀ s', d.Env held s s' → ∃ t, f s' = some t ∧ d.Rely s' t ∧
      (∀ l, l ∉ held → d.Same l s' t) ∧ Safe k held t
  | .emit f k, held, s => ∀ s', d.Env held s s' → ∃ os, f s' = some os ∧
      (∀ o ∈ os, d.Told s' o) ∧ Safe k held s'

variable {d} {held : List L} {s s' s'' : S}

theorem Env.refl : d.Env held s s := ⟨d.rely_refl s, fun l _ => d.same_refl l s⟩

theorem Env.trans (h : d.Env held s s') (h' : d.Env held s' s'') : d.Env held s s'' :=
  ⟨d.rely_trans h.1 h'.1, fun l hl => d.same_trans h.1 (h.2 l hl) (h'.2 l hl)⟩

theorem Env.mono {held' : List L} (h : d.Env held s s') (hsub : ∀ l ∈ held', l ∈ held) :
    d.Env held' s s' :=
  ⟨h.1, fun l hl => h.2 l (hsub l hl)⟩

variable [DecidableEq L]

/-- The others do not get in the way. -/
theorem Safe.env {p : Prog L S O} (h : d.Safe p held s) (henv : d.Env held s s') :
    d.Safe p held s' := by
  cases p with
  | done => exact h
  | lock l k => exact ⟨h.1, fun t ht => h.2 t (henv.trans ht)⟩
  | unlock l k => exact ⟨h.1, fun t ht => h.2 t (henv.trans ht)⟩
  | read g => exact fun t ht => h t (henv.trans ht)
  | act f k => exact fun t ht => h t (henv.trans ht)
  | emit f k => exact fun t ht => h t (henv.trans ht)

/-! ## Parts of programs -/

/-- The lock that has been taken last is given back. -/
theorem Safe.unlock {l : L} {k : Prog L S O} (h : ∀ s', d.Rely s s' → d.Safe k held s') :
    d.Safe (.unlock l k) (l :: held) s :=
  ⟨List.mem_cons_self, fun s' hs' => by
    rw [List.erase_cons_head]
    exact h s' hs'.1⟩

/-- One change under a lock, of what no other lock protects. -/
theorem Safe.critical {l : L} {f : S → Option S} {k : Prog L S O}
    (hrank : ∀ h ∈ held, d.rank h < d.rank l)
    (hf : ∀ s', d.Env held s s' → ∃ t, f s' = some t ∧ d.Rely s' t ∧
      (∀ m, m ≠ l → d.Same m s' t) ∧ ∀ u, d.Rely t u → d.Safe k held u) :
    d.Safe (.lock l (.act f (.unlock l k))) held s := by
  refine ⟨hrank, fun s₁ h₁ s₂ h₂ => ?_⟩
  obtain ⟨t, ht, hrely, hsame, hk⟩ :=
    hf s₂ (h₁.trans (h₂.mono fun m hm => List.mem_cons_of_mem _ hm))
  exact ⟨t, ht, hrely, fun m hm => hsame m (List.ne_of_not_mem_cons hm), .unlock hk⟩

/-- A loop whose body goes on from each state that the others may have
left. -/
theorem Safe.foldr {α : Type} {body : α → Prog L S O → Prog L S O} {k : Prog L S O}
    {P : S → Prop} (hP : ∀ s s', P s → d.Rely s s' → P s') :
    ∀ (xs : List α) {s : S}, P s →
      (∀ x ∈ xs, ∀ s k, P s → (∀ s', d.Rely s s' → d.Safe k held s') → d.Safe (body x k) held s) →
      (∀ s', d.Rely s s' → d.Safe k held s') → d.Safe (xs.foldr body k) held s
  | [], s, _, _, hk => hk s (d.rely_refl s)
  | x :: xs, s, hs, hbody, hk =>
      hbody x List.mem_cons_self s _ hs fun s' hs' =>
        Safe.foldr hP xs (hP s s' hs hs') (fun y hy => hbody y (List.mem_cons_of_mem _ hy))
          fun s'' hs'' => hk s'' (d.rely_trans hs' hs'')

end Discipline

namespace Threads

open Discipline

variable [DecidableEq T] [DecidableEq L] {d : Discipline L S O} {w w' : Threads T L S O}

/-- Every thread keeps to the rules with the locks that it has. -/
structure Inv (d : Discipline L S O) (w : Threads T L S O) : Prop where
  good : d.Good w.state
  safe : ∀ t, ∃ held : List L, held.Nodup ∧ (∀ l, l ∈ held ↔ w.holder l = some t) ∧
    d.Safe (w.prog t) held w.state
  told : ∀ x ∈ w.out, d.Told w.state x.2

/-- `t` moves, and changes nothing that the others have locked. -/
theorem Inv.move (h : w.Inv d) {t : T} {p : Prog L S O} {held : List L} {s : S}
    {holder : L → Option T} {out : List (T × O)} (hrely : d.Rely w.state s) (hnodup : held.Nodup)
    (hheld : ∀ l, l ∈ held ↔ holder l = some t) (hsafe : d.Safe p held s)
    (hholder : ∀ u, u ≠ t → ∀ l, holder l = some u ↔ w.holder l = some u)
    (hsame : ∀ l, w.holder l ≠ some t → d.Same l w.state s)
    (hout : ∀ x ∈ out, x ∈ w.out ∨ d.Told s x.2) :
    Inv d ⟨s, Function.update w.prog t p, holder, out⟩ where
  good := d.good_of_rely hrely h.good
  safe u := by
    by_cases hu : u = t
    · subst hu
      refine ⟨held, hnodup, hheld, ?_⟩
      show d.Safe (Function.update w.prog u p u) held s
      rwa [Function.update_self]
    · obtain ⟨held', hnodup', hheld', hsafe'⟩ := h.safe u
      refine ⟨held', hnodup', fun l => (hheld' l).trans (hholder u hu l).symm, ?_⟩
      show d.Safe (Function.update w.prog t p u) held' s
      rw [Function.update_of_ne hu]
      refine hsafe'.env ⟨hrely, fun l hl => hsame l fun ht => hu ?_⟩
      exact Option.some.inj (((hheld' l).mp hl).symm.trans ht)
  told x hx := (hout x hx).elim (fun hx => d.told_of_rely hrely (h.told x hx)) id

theorem Inv.run (h : w.Inv d) {t : T} (hrun : w.run t = some w') : w'.Inv d := by
  obtain ⟨held, hnodup, hheld, hsafe⟩ := h.safe t
  have hsame (l : L) (_ : w.holder l ≠ some t) := d.same_refl l w.state
  have hout (x : T × O) (hx : x ∈ w.out) : x ∈ w.out ∨ d.Told w.state x.2 := .inl hx
  cases run_move hrun with
  | @lock l k hp hfree =>
    rw [hp] at hsafe
    have hnew : (l :: held).Nodup := by
      refine List.nodup_cons.mpr ⟨fun hl => ?_, hnodup⟩
      cases hfree.symm.trans ((hheld l).mp hl)
    refine h.move (d.rely_refl _) hnew (fun m => ?_) (hsafe.2 _ .refl) (fun u hu m => ?_) hsame
      hout
    · by_cases hm : m = l
      · simp [hm]
      · simp [hm, hheld m]
    · by_cases hm : m = l
      · subst hm
        simp [hfree, Ne.symm hu]
      · simp [hm]
  | @unlock l k hp hhas =>
    rw [hp] at hsafe
    refine h.move (d.rely_refl _) (hnodup.erase l) (fun m => ?_) (hsafe.2 _ .refl)
      (fun u hu m => ?_) hsame hout
    · by_cases hm : m = l
      · subst hm
        simp [hnodup.mem_erase_iff]
      · simp [hm, List.mem_erase_of_ne, hheld m]
    · by_cases hm : m = l
      · subst hm
        simp [hhas, Ne.symm hu]
      · simp [hm]
  | read hp =>
    rw [hp] at hsafe
    exact h.move (d.rely_refl _) hnodup hheld (hsafe _ .refl) (fun _ _ _ => .rfl) hsame hout
  | act hp hs =>
    rw [hp] at hsafe
    obtain ⟨s, hs', hrely, hsame', hk⟩ := hsafe _ .refl
    obtain rfl := Option.some.inj (hs.symm.trans hs')
    exact h.move hrely hnodup hheld hk (fun _ _ _ => .rfl)
      (fun l hl => hsame' l fun hin => hl ((hheld l).mp hin)) fun x hx => .inl hx
  | emit hp hos =>
    rw [hp] at hsafe
    obtain ⟨os, hos', htold, hk⟩ := hsafe _ .refl
    obtain rfl := Option.some.inj (hos.symm.trans hos')
    refine h.move (d.rely_refl _) hnodup hheld hk (fun _ _ _ => .rfl) hsame fun x hx => ?_
    obtain hx | hx := List.mem_append.mp hx
    · exact .inl hx
    · obtain ⟨o, ho, rfl⟩ := List.mem_map.mp hx
      exact .inr (htold o ho)

/-- The calls that are made. -/
def Calls (ok : S → C → Prop) (w : Threads T L S O) : ThreadEvent T C → Prop
  | .call _ c => ok w.state c
  | .run _ => True

/-- **Programs that keep to the rules do so in every schedule.** -/
theorem reachableBy_inv {code : S → C → Option (Prog L S O)} {start : S → Prop}
    {ok : S → C → Prop} (hstart : ∀ s, start s → d.Good s)
    (hsafe : ∀ s c p, d.Good s → ok s c → code s c = some p → d.Safe p [] s)
    (hw : (system code start).ReachableBy (Calls ok) w) : w.Inv d := by
  refine hw.invariant (fun w hinit => ?_) fun w e w' hinv hok hstep => ?_
  · obtain ⟨hgood, hprog, hholder, hout⟩ := hinit
    refine ⟨hstart _ hgood, fun t => ⟨[], List.nodup_nil, fun l => ?_, ?_⟩, fun x hx => ?_⟩
    · simp [hholder l]
    · rw [hprog t]
      exact rfl
    · rw [hout] at hx
      cases hx
  · cases e with
    | run t => exact hinv.run hstep
    | call t c =>
      simp only [system, step] at hstep
      split at hstep
      · rename_i hdone
        obtain ⟨p, hp, rfl⟩ := Option.map_eq_some_iff.mp hstep
        obtain ⟨held, -, hheld, hnone⟩ := hinv.safe t
        rw [hdone] at hnone
        obtain rfl : held = [] := hnone
        exact hinv.move (d.rely_refl _) List.nodup_nil hheld (hsafe _ _ _ hinv.good hok hp)
          (fun _ _ _ => .rfl) (fun l _ => d.same_refl l _) fun x hx => .inl hx
      · cases hstep

/-! ## Nobody is stuck -/

/-- A thread goes on unless it is at the end or waits: its behaviour is
defined. -/
theorem Inv.runs_or_waits (h : w.Inv d) {t : T} (hp : w.prog t ≠ .done) :
    (∃ w', w.run t = some w') ∨ w.Waits t := by
  obtain ⟨held, -, hheld, hsafe⟩ := h.safe t
  unfold Threads.run
  cases hprog : w.prog t with
  | done => exact absurd hprog hp
  | lock l k =>
    cases hholder : w.holder l with
    | none => exact .inl ⟨_, if_pos hholder⟩
    | some u => exact .inr ⟨l, k, u, hprog, hholder⟩
  | unlock l k =>
    rw [hprog] at hsafe
    exact .inl ⟨_, if_pos ((hheld l).mp hsafe.1)⟩
  | read g => exact .inl ⟨_, rfl⟩
  | act f k =>
    rw [hprog] at hsafe
    obtain ⟨s, hs, -⟩ := hsafe _ .refl
    exact .inl ⟨_, Option.map_eq_some_iff.mpr ⟨s, hs, rfl⟩⟩
  | emit f k =>
    rw [hprog] at hsafe
    obtain ⟨os, hos, -⟩ := hsafe _ .refl
    exact .inl ⟨_, Option.map_eq_some_iff.mpr ⟨os, hos, rfl⟩⟩

/-- Behind a lock of high rank there is a thread that goes on: the one that
has it, or one behind the lock that this one waits for. -/
theorem Inv.holder_runs (h : w.Inv d) : ∀ (n : Nat) {l : L} {u : T}, d.top < d.rank l + n →
    w.holder l = some u → ∃ v w', w.run v = some w'
  | 0, l, _, hn, _ => absurd (d.rank_le l) (Nat.not_le_of_lt hn)
  | n + 1, l, u, hn, hl => by
      obtain ⟨held, -, hheld, hsafe⟩ := h.safe u
      have hmem : l ∈ held := (hheld l).mpr hl
      have hp : w.prog u ≠ .done := fun hdone => by
        rw [hdone] at hsafe
        obtain rfl : held = [] := hsafe
        cases hmem
      obtain ⟨w', hw'⟩ | ⟨m, k, v, hm, hv⟩ := h.runs_or_waits hp
      · exact ⟨u, w', hw'⟩
      · rw [hm] at hsafe
        have hrank := hsafe.1 l hmem
        exact h.holder_runs n (by omega) hv

/-- **There is no deadlock.** While a thread is not at the end, some thread
goes on. -/
theorem Inv.progress (h : w.Inv d) {t : T} (hp : w.prog t ≠ .done) :
    ∃ u w', w.run u = some w' := by
  obtain ⟨w', hw'⟩ | ⟨l, k, u, -, hl⟩ := h.runs_or_waits hp
  · exact ⟨t, w', hw'⟩
  · exact h.holder_runs (d.top + 1) (by omega) hl

omit [DecidableEq T] in
/-- With all threads at the end no lock is held. -/
theorem Inv.free (h : w.Inv d) (hdone : ∀ t, w.prog t = .done) (l : L) : w.holder l = none := by
  cases hl : w.holder l with
  | none => rfl
  | some t =>
    obtain ⟨held, -, hheld, hsafe⟩ := h.safe t
    rw [hdone t] at hsafe
    obtain rfl : held = [] := hsafe
    cases (hheld l).mpr hl

/-! ## Every thread comes to its end -/

theorem run_next {t : T} (hrun : w.run t = some w') :
    ∃ p, Prog.Next p (w.prog t) ∧ w'.prog = Function.update w.prog t p := by
  cases run_move hrun with
  | lock hp => exact ⟨_, hp ▸ .lock, rfl⟩
  | unlock hp => exact ⟨_, hp ▸ .unlock, rfl⟩
  | read hp => exact ⟨_, hp ▸ .read _, rfl⟩
  | act hp => exact ⟨_, hp ▸ .act, rfl⟩
  | emit hp => exact ⟨_, hp ▸ .emit, rfl⟩

/-- The threads that there are make finitely many moves before one of them
makes a call. -/
theorem wellFounded_run [Finite T] :
    WellFounded fun w' w : Threads T L S O => ∃ t, w.run t = some w' := by
  cases nonempty_fintype T
  let progs (w : Threads T L S O) : Multiset (Prog L S O) := Finset.univ.val.map w.prog
  refine Subrelation.wf ?_ (InvImage.wf progs (WellFounded.cutExpand Prog.wellFounded_next))
  rintro w' w ⟨t, hrun⟩
  obtain ⟨p, hp, hw'⟩ := run_next hrun
  have hsplit (f : T → Prog L S O) :
      Finset.univ.val.map f = f t ::ₘ ((Finset.univ.erase t).val.map f) := by
    rw [← Multiset.map_cons, ← Finset.insert_val_of_notMem (Finset.notMem_erase t _),
      Finset.insert_erase (Finset.mem_univ t)]
  have hrest : (Finset.univ.erase t).val.map w'.prog = (Finset.univ.erase t).val.map w.prog :=
    Multiset.map_congr rfl fun u hu => by
      rw [hw', Function.update_of_ne (Finset.ne_of_mem_erase hu)]
  refine ⟨{p}, w.prog t, fun q hq => ?_, ?_⟩
  · rw [Multiset.mem_singleton.mp hq]
    exact hp
  · show progs w' + _ = progs w + _
    simp only [progs]
    rw [hsplit w'.prog, hsplit w.prog, hrest, hw', Function.update_self, ← Multiset.singleton_add p,
      ← Multiset.singleton_add (w.prog t)]
    abel

/-! ## Threads that only read -/

end Threads

end Sylar
