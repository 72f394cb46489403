import Sylar.Lib.System

/-!
# Table-driven scanners with actions

A deterministic automaton over bytes whose edges carry actions, given as
a table: the edges of each state, each with the ranges of bytes it is
for. `exec` runs it over a block of bytes from a position and a state;
what an action does is a parameter. State 0 is the error state: a byte
without an edge stops the run there and is not consumed. An action for
which `stop` holds ends the run behind its byte.

A scanner is meant to be fed block by block. `exec_block` and
`exec_last` compare one run over all the bytes with the run over a
block of them, for any relation between the two that single edges
preserve.
-/

namespace Sylar

/-- What holds of 256 bytes holds of every byte. -/
theorem forall_byte {P : UInt8 → Prop} (h : ∀ n < 256, P (UInt8.ofNat n)) (b : UInt8) : P b := by
  have hb := h b.toNat b.toNat_lt
  rwa [UInt8.ofNat_toNat] at hb

instance decidableForallByte (P : UInt8 → Prop) [DecidablePred P] : Decidable (∀ b, P b) :=
  decidable_of_iff (∀ n < 256, P (UInt8.ofNat n)) ⟨forall_byte, fun h _ _ => h _⟩

namespace Scanner

structure Edge (α : Type) where
  on : List (Nat × Nat)
  acts : List α
  target : Nat

def Edge.takes {α : Type} (e : Edge α) (b : UInt8) : Bool :=
  e.on.any fun r => r.1 ≤ b.toNat && b.toNat ≤ r.2

abbrev Table (α : Type) := Nat → List (Edge α)

/-- The table of these rows; the first row of a state counts. -/
def tableOf {α : Type} (rows : List (Nat × List (Edge α))) : Table α := fun cs =>
  match rows.find? (·.1 = cs) with
  | some row => row.2
  | none => []

/-- Where a run over a block ends: the state, the position, and whether
the next block goes on from there. -/
structure Halt (σ : Type) where
  running : Bool
  cs : Nat
  p : Nat
  user : σ

variable {α σ σ' ε : Type}

def next (t : Table α) (cs : Nat) (b : UInt8) : Option (Edge α) := (t cs).find? (·.takes b)

/-- The actions of an edge, one after the other. -/
def perform (act : α → σ → Except ε σ) : List α → σ → Except ε σ
  | [], s => .ok s
  | a :: as, s => act a s >>= perform act as

def exec (t : Table α) (stop : α → Bool) (act : Nat → α → σ → Except ε σ) :
    List UInt8 → Nat → Nat → σ → Except ε (Halt σ)
  | [], p, cs, s => .ok ⟨true, cs, p, s⟩
  | b :: bs, p, cs, s =>
      match next t cs b with
      | none => .ok ⟨false, 0, p, s⟩
      | some e => do
          let s ← perform (act p) e.acts s
          if e.acts.any stop then .ok ⟨false, e.target, p + 1, s⟩
          else exec t stop act bs (p + 1) e.target s

variable {t : Table α} {stop : α → Bool}

theorem next_mem {cs : Nat} {b : UInt8} {e : Edge α} (h : next t cs b = some e) :
    e ∈ t cs ∧ e.takes b = true :=
  ⟨List.mem_of_find?_eq_some h, List.find?_some (p := fun e : Edge α => e.takes b) h⟩

section

variable {act : Nat → α → σ → Except ε σ}

theorem exec_cons {b : UInt8} {bs : List UInt8} {p cs : Nat} {s : σ} {e : Edge α}
    (he : next t cs b = some e) :
    exec t stop act (b :: bs) p cs s = (perform (act p) e.acts s >>= fun s =>
      if e.acts.any stop then .ok ⟨false, e.target, p + 1, s⟩
      else exec t stop act bs (p + 1) e.target s) := by
  rw [exec, he]

theorem exec_error {b : UInt8} {bs : List UInt8} {p cs : Nat} {s : σ}
    (he : next t cs b = none) :
    exec t stop act (b :: bs) p cs s = .ok ⟨false, 0, p, s⟩ := by
  rw [exec, he]

/-- A run does not leave its block. -/
theorem exec_p_le : ∀ {bs : List UInt8} {p cs : Nat} {s : σ} {r : Halt σ},
    exec t stop act bs p cs s = .ok r → p ≤ r.p ∧ r.p ≤ p + bs.length
  | [], p, cs, s, r, h => by
      obtain rfl := Except.ok.inj h
      exact ⟨Nat.le_refl _, Nat.le_refl _⟩
  | b :: bs, p, cs, s, r, h => by
      cases he : next t cs b with
      | none =>
          rw [exec_error he] at h
          obtain rfl := Except.ok.inj h
          exact ⟨Nat.le_refl _, Nat.le_add_right ..⟩
      | some e =>
          rw [exec_cons he] at h
          obtain ⟨s', -, h⟩ := bind_eq_ok.mp h
          rw [List.length_cons]
          split at h
          · obtain rfl := Except.ok.inj h
            exact ⟨Nat.le_succ _, by show p + 1 ≤ _; omega⟩
          · have := exec_p_le h
            omega

/-- What every action keeps, a run keeps. -/
theorem exec_keeps {P : σ → Prop} (hact : ∀ p a s s', P s → act p a s = .ok s' → P s') :
    ∀ {bs : List UInt8} {p cs : Nat} {s : σ} {r : Halt σ}, P s →
      exec t stop act bs p cs s = .ok r → P r.user
  | [], p, cs, s, r, hs, h => by
      obtain rfl := Except.ok.inj h
      exact hs
  | b :: bs, p, cs, s, r, hs, h => by
      cases he : next t cs b with
      | none =>
          rw [exec_error he] at h
          obtain rfl := Except.ok.inj h
          exact hs
      | some e =>
          rw [exec_cons he] at h
          obtain ⟨u, hu, h⟩ := bind_eq_ok.mp h
          have hperform : ∀ {as : List α} {s u : σ}, P s → perform (act p) as s = .ok u → P u := by
            intro as
            induction as with
            | nil =>
                intro s u hs hu
                obtain rfl := Except.ok.inj hu
                exact hs
            | cons a as ih =>
                intro s u hs hu
                obtain ⟨v, hv, hu⟩ := bind_eq_ok.mp hu
                exact ih (hact p a s v hs hv) hu
          split at h
          · obtain rfl := Except.ok.inj h
            exact hperform hs hu
          · exact exec_keeps hact (hperform hs hu) h

/-- What every edge keeps, of the state and the position too, holds where a
run ends; and if no edge fails, the run does not. -/
theorem exec_inv {buffer : List UInt8} {I : Nat → Nat → σ → Prop}
    (hstep : ∀ cs p s b e, buffer[p]? = some b → next t cs b = some e → I cs p s →
      ∃ s', perform (act p) e.acts s = .ok s' ∧ I e.target (p + 1) s') :
    ∀ {bs : List UInt8} {p cs : Nat} {s : σ}, buffer.drop p = bs → I cs p s →
      ∃ r, exec t stop act bs p cs s = .ok r ∧ ∃ cs' p', I cs' p' r.user
  | [], p, cs, s, _, hs => ⟨_, rfl, cs, p, hs⟩
  | b :: bs, p, cs, s, hbuffer, hs => by
      cases he : next t cs b with
      | none => exact ⟨_, exec_error he, cs, p, hs⟩
      | some e =>
          have hb : buffer[p]? = some b := by
            rw [← List.head?_drop, hbuffer, List.head?_cons]
          obtain ⟨s', hperform, hs'⟩ := hstep cs p s b e hb he hs
          rw [exec_cons he, hperform]
          by_cases hstop : e.acts.any stop = true
          · exact ⟨_, if_pos hstop, e.target, p + 1, hs'⟩
          · have hrest : buffer.drop (p + 1) = bs := by
              rw [← List.drop_drop, hbuffer, List.drop_one, List.tail_cons]
            obtain ⟨r, hr, hinv⟩ := exec_inv hstep hrest hs'
            exact ⟨r, (if_neg hstop).trans hr, hinv⟩

/-- A run that goes on is in a state an edge without a stop leads to, or
where it began. -/
theorem exec_cs {Q : Nat → Prop}
    (hnext : ∀ cs b e, next t cs b = some e → e.acts.any stop = false → Q e.target) :
    ∀ {bs : List UInt8} {p cs : Nat} {s : σ} {r : Halt σ}, Q cs →
      exec t stop act bs p cs s = .ok r → r.running = true → Q r.cs
  | [], p, cs, s, r, hcs, h, _ => by
      obtain rfl := Except.ok.inj h
      exact hcs
  | b :: bs, p, cs, s, r, hcs, h, hr => by
      cases he : next t cs b with
      | none =>
          rw [exec_error he] at h
          obtain rfl := Except.ok.inj h
          cases hr
      | some e =>
          rw [exec_cons he] at h
          obtain ⟨u, -, h⟩ := bind_eq_ok.mp h
          split at h
          · obtain rfl := Except.ok.inj h
            cases hr
          · rename_i hstop
            exact exec_cs hnext (hnext cs b e he (Bool.eq_false_iff.mpr hstop)) h hr

end

/-! ## Runs over a known text -/

theorem perform_cons {act : α → σ → Except ε σ} {a : α} {s s' : σ} (h : act a s = .ok s')
    (as : List α) : perform act (a :: as) s = perform act as s' := by
  rw [perform, h]
  rfl

/-- What a byte does in a state: the actions, and the state behind it. -/
def move (t : Table α) (cs : Nat) (b : UInt8) : Option (List α × Nat) :=
  (next t cs b).map fun e => (e.acts, e.target)

/-- An edge that a byte takes is in a row. -/
theorem move_row {rows : List (Nat × List (Edge α))} {cs cs' : Nat} {b : UInt8} {as : List α}
    (h : move (tableOf rows) cs b = some (as, cs')) :
    ∃ es e, (cs, es) ∈ rows ∧ e ∈ es ∧ e.takes b = true ∧ e.acts = as ∧ e.target = cs' := by
  obtain ⟨e, hnext, heq⟩ := Option.map_eq_some_iff.mp h
  obtain ⟨rfl, rfl⟩ := Prod.mk.inj heq
  obtain ⟨hmem, htakes⟩ := next_mem hnext
  rw [tableOf] at hmem
  split at hmem
  · rename_i r hfind
    have hcs : r.1 = cs := by simpa using List.find?_some hfind
    exact ⟨r.2, e, hcs ▸ List.mem_of_find?_eq_some hfind, hmem, htakes, rfl, rfl⟩
  · cases hmem

/-- What actions do to a part of the state that they depend on alone. -/
theorem perform_map {act : α → σ → Except ε σ} {act' : α → σ' → Except ε σ'} {f : σ → σ'}
    (hact : ∀ a s, (act a s).map f = act' a (f s)) :
    ∀ {as : List α} {s : σ}, (perform act as s).map f = perform act' as (f s)
  | [], _ => rfl
  | a :: as, s => by
      rw [perform, perform, ← hact a s]
      cases act a s with
      | error e => rfl
      | ok s' => exact perform_map hact

/-- A byte that the first edge takes. -/
theorem move_head {cs : Nat} {b : UInt8} {e : Edge α} {rest : List (Edge α)}
    (hrow : t cs = e :: rest) (htake : e.takes b = true) :
    move t cs b = some (e.acts, e.target) := by
  simp only [move, next, hrow, List.find?_cons, htake, Option.map_some]

/-- A byte that the second edge takes, and not the first. -/
theorem move_second {cs : Nat} {b : UInt8} {e e' : Edge α} {rest : List (Edge α)}
    (hrow : t cs = e :: e' :: rest) (hskip : e.takes b = false) (htake : e'.takes b = true) :
    move t cs b = some (e'.acts, e'.target) := by
  simp only [move, next, hrow, List.find?_cons, hskip, htake, Option.map_some]

/-- The state behind `bs`, if there is no action on the way. -/
def walk (t : Table α) : Nat → List UInt8 → Option Nat
  | cs, [] => some cs
  | cs, b :: bs =>
      match move t cs b with
      | some ([], cs') => walk t cs' bs
      | _ => none

theorem walk_cons {cs cs' : Nat} {b : UInt8} (h : move t cs b = some ([], cs'))
    (bs : List UInt8) : walk t cs (b :: bs) = walk t cs' bs := by
  rw [walk, h]

theorem walk_append : ∀ {bs : List UInt8} {cs cs' : Nat}, walk t cs bs = some cs' →
    ∀ rest, walk t cs (bs ++ rest) = walk t cs' rest
  | [], cs, cs', h, rest => by
      obtain rfl := Option.some.inj h
      rfl
  | b :: bs, cs, cs', h, rest => by
      rw [walk] at h
      split at h
      · rename_i hmove
        rw [List.cons_append, walk_cons hmove, walk_append h rest]
      · cases h

/-- The state behind `bs`, whatever the actions. -/
def after (t : Table α) : Nat → List UInt8 → Option Nat
  | cs, [] => some cs
  | cs, b :: bs => (move t cs b).bind fun e => after t e.2 bs

theorem after_append {xs ys : List UInt8} {cs : Nat} :
    after t cs (xs ++ ys) = (after t cs xs).bind fun cs' => after t cs' ys := by
  induction xs generalizing cs with
  | nil => rfl
  | cons x xs ih =>
      rw [List.cons_append, after, after]
      cases move t cs x with
      | none => rfl
      | some e => exact ih

theorem walk_loop {cs : Nat} : ∀ {bs : List UInt8}, (∀ b ∈ bs, move t cs b = some ([], cs)) →
    walk t cs bs = some cs
  | [], _ => rfl
  | b :: bs, h => by
      rw [walk_cons (h b (List.mem_cons_self ..)),
        walk_loop fun b' hb' => h b' (List.mem_cons_of_mem _ hb')]

section

variable {act : Nat → α → σ → Except ε σ} {buffer : List UInt8}

/-- The run over `buffer` that is at `p` in state `cs` comes to `p'`. -/
def Leads (t : Table α) (stop : α → Bool) (act : Nat → α → σ → Except ε σ) (buffer : List UInt8)
    (p cs : Nat) (s : σ) (p' cs' : Nat) (s' : σ) : Prop :=
  exec t stop act (buffer.drop p) p cs s = exec t stop act (buffer.drop p') p' cs' s'

theorem add_length_cons (p : Nat) (b : UInt8) (bs : List UInt8) :
    p + (b :: bs).length = p + 1 + bs.length := by
  rw [List.length_cons, Nat.add_comm bs.length, ← Nat.add_assoc]

theorem add_length_concat (p : Nat) (bs : List UInt8) (b : UInt8) :
    p + (bs ++ [b]).length = p + bs.length + 1 := by
  rw [List.length_append, List.length_singleton, ← Nat.add_assoc]

theorem drop_add_length {p : Nat} {xs ys : List UInt8} (h : buffer.drop p = xs ++ ys) :
    buffer.drop (p + xs.length) = ys := by
  rw [← List.drop_drop, h, List.drop_left]

theorem drop_succ {p : Nat} {b : UInt8} {bs : List UInt8} (h : buffer.drop p = b :: bs) :
    buffer.drop (p + 1) = bs := by
  rw [← List.drop_drop, h, List.drop_one, List.tail_cons]

theorem Leads.trans {p cs p' cs' p'' cs'' : Nat} {s s' s'' : σ}
    (h : Leads t stop act buffer p cs s p' cs' s')
    (h' : Leads t stop act buffer p' cs' s' p'' cs'' s'') :
    Leads t stop act buffer p cs s p'' cs'' s'' :=
  Eq.trans h h'

theorem leads_move {p cs cs' : Nat} {s s' : σ} {b : UInt8} {bs : List UInt8} {as : List α}
    (h : buffer.drop p = b :: bs) (hmove : move t cs b = some (as, cs'))
    (hstop : as.any stop = false) (hperform : perform (act p) as s = .ok s') :
    Leads t stop act buffer p cs s (p + 1) cs' s' := by
  obtain ⟨e, he, heq⟩ := Option.map_eq_some_iff.mp hmove
  obtain ⟨rfl, rfl⟩ := Prod.mk.inj heq
  rw [Leads, h, drop_succ h, exec_cons he, hperform]
  show (if e.acts.any stop then _ else _) = _
  rw [hstop, if_neg Bool.false_ne_true]

/-- The first step of a run that goes on. -/
theorem exec_move {p cs cs' : Nat} {s : σ} {b : UInt8} {bs : List UInt8} {as : List α}
    {r : Halt σ} (h : exec t stop act (b :: bs) p cs s = .ok r)
    (hmove : move t cs b = some (as, cs')) (hstop : as.any stop = false) :
    ∃ s', perform (act p) as s = .ok s' ∧ exec t stop act bs (p + 1) cs' s' = .ok r := by
  obtain ⟨e, he, heq⟩ := Option.map_eq_some_iff.mp hmove
  obtain ⟨rfl, rfl⟩ := Prod.mk.inj heq
  rw [exec_cons he] at h
  obtain ⟨s', hperform, h⟩ := bind_eq_ok.mp h
  rw [hstop, if_neg Bool.false_ne_true] at h
  exact ⟨s', hperform, h⟩

/-- A run that ends behind `xs` has gone through it. -/
theorem exec_split : ∀ {xs ys : List UInt8} {p cs : Nat} {s : σ} {r : Halt σ},
    exec t stop act (xs ++ ys) p cs s = .ok r → p + xs.length < r.p →
    ∃ cs' s', after t cs xs = some cs' ∧ exec t stop act ys (p + xs.length) cs' s' = .ok r
  | [], ys, p, cs, s, r, h, _ => ⟨cs, s, rfl, h⟩
  | b :: xs, ys, p, cs, s, r, h, hr => by
      rw [List.length_cons] at hr
      rw [List.cons_append] at h
      cases he : next t cs b with
      | none =>
          rw [exec_error he] at h
          obtain rfl := Except.ok.inj h
          exact absurd hr (by show ¬p + (xs.length + 1) < p; omega)
      | some e =>
          rw [exec_cons he] at h
          obtain ⟨u, -, h⟩ := bind_eq_ok.mp h
          split at h
          · obtain rfl := Except.ok.inj h
            exact absurd hr (by show ¬p + (xs.length + 1) < p + 1; omega)
          · obtain ⟨cs', s', hafter, hexec⟩ := exec_split h (by omega)
            refine ⟨cs', s', ?_, ?_⟩
            · rw [after, move, he]
              exact hafter
            · rw [List.length_cons, show p + (xs.length + 1) = p + 1 + xs.length by omega]
              exact hexec

/-- An action that stops the run. -/
theorem exec_stop {p cs cs' : Nat} {s s' : σ} {b : UInt8} {bs : List UInt8} {as : List α}
    (h : buffer.drop p = b :: bs) (hmove : move t cs b = some (as, cs'))
    (hstop : as.any stop = true) (hperform : perform (act p) as s = .ok s') :
    exec t stop act (buffer.drop p) p cs s = .ok ⟨false, cs', p + 1, s'⟩ := by
  obtain ⟨e, he, heq⟩ := Option.map_eq_some_iff.mp hmove
  obtain ⟨rfl, rfl⟩ := Prod.mk.inj heq
  rw [h, exec_cons he, hperform]
  show (if e.acts.any stop then _ else _) = _
  rw [if_pos hstop]

theorem leads_walk : ∀ {xs ys : List UInt8} {p cs cs' : Nat}, buffer.drop p = xs ++ ys →
    walk t cs xs = some cs' → ∀ s, Leads t stop act buffer p cs s (p + xs.length) cs' s
  | [], _, _, _, _, _, hwalk, s => by
      obtain rfl := Option.some.inj hwalk
      rfl
  | b :: xs, ys, p, cs, cs', h, hwalk, s => by
      rw [walk] at hwalk
      split at hwalk
      · rename_i hmove
        have hrest := leads_walk (drop_succ h) hwalk s
        rw [add_length_cons]
        exact (leads_move h hmove rfl rfl).trans hrest
      · cases hwalk

end

/-! ## Two runs side by side -/

section

variable {act : Nat → α → σ → Except ε σ} {act' : Nat → α → σ' → Except ε σ'}
  {R : List UInt8 → Nat → Nat → σ → σ' → Prop} {Q : σ → σ' → Prop} {base limit : Nat}

/-- `R bs p cs s s'` relates a run that has the bytes `bs` before it at
position `p` and the run that has them at position `p - base`: each edge
from `base` to `limit` keeps them related, or related by `Q` if it ends
the run. -/
def Simulates (t : Table α) (stop : α → Bool) (act : Nat → α → σ → Except ε σ)
    (act' : Nat → α → σ' → Except ε σ') (base limit : Nat)
    (R : List UInt8 → Nat → Nat → σ → σ' → Prop) (Q : σ → σ' → Prop) : Prop :=
  ∀ b bs p cs s s' e u, base ≤ p → p < limit → R (b :: bs) p cs s s' →
    next t cs b = some e → perform (act p) e.acts s = .ok u →
    ∃ u', perform (act' (p - base)) e.acts s' = .ok u' ∧
      (e.acts.any stop = false → R bs (p + 1) e.target u u') ∧ (e.acts.any stop = true → Q u u')

/-- The block ends before the first run does: the second is still
running, and the first goes on behind the block. -/
theorem exec_block (hsim : Simulates t stop act act' base limit R Q) {ys : List UInt8} :
    ∀ {xs : List UInt8} {p cs : Nat} {s : σ} {s' : σ'} {r : Halt σ}, base ≤ p →
    p + xs.length ≤ limit → R (xs ++ ys) p cs s s' →
    exec t stop act (xs ++ ys) p cs s = .ok r → p + xs.length < r.p →
    ∃ cs' u u', exec t stop act' xs (p - base) cs s' =
        .ok ⟨true, cs', p - base + xs.length, u'⟩ ∧
      exec t stop act ys (p + xs.length) cs' u = .ok r ∧ R ys (p + xs.length) cs' u u'
  | [], p, cs, s, s', r, _, _, hR, h, _ => ⟨cs, s, s', rfl, h, hR⟩
  | b :: xs, p, cs, s, s', r, hbase, hlimit, hR, h, hr => by
      rw [List.length_cons] at hr hlimit
      rw [List.cons_append] at h hR
      cases he : next t cs b with
      | none =>
          rw [exec_error he] at h
          obtain rfl := Except.ok.inj h
          exact absurd hr (by show ¬p + (xs.length + 1) < p; omega)
      | some e =>
          rw [exec_cons he] at h
          obtain ⟨u, hu, h⟩ := bind_eq_ok.mp h
          obtain ⟨u', hu', hR', -⟩ := hsim b (xs ++ ys) p cs s s' e u hbase (by omega) hR he hu
          split at h
          · obtain rfl := Except.ok.inj h
            exact absurd hr (by show ¬p + (xs.length + 1) < p + 1; omega)
          · rename_i hstop
            obtain ⟨cs', v, v', hexec', hexec, hRv⟩ :=
              exec_block hsim (Nat.le_succ_of_le hbase) (by omega)
                (hR' (Bool.eq_false_iff.mpr hstop)) h (by omega)
            refine ⟨cs', v, v', ?_, ?_, ?_⟩
            · rw [exec_cons he, hu']
              show (if e.acts.any stop then _ else _) = _
              rw [if_neg hstop, List.length_cons, show p - base + 1 = p + 1 - base by omega, hexec']
              congr 2
              omega
            · rw [List.length_cons, show p + (xs.length + 1) = p + 1 + xs.length by omega]
              exact hexec
            · rw [List.length_cons, show p + (xs.length + 1) = p + 1 + xs.length by omega]
              exact hRv

/-- The first run stops inside the block: so does the second, at the
same place. -/
theorem exec_last (hsim : Simulates t stop act act' base limit R Q) (zs : List UInt8) :
    ∀ {xs : List UInt8} {p cs : Nat} {s : σ} {s' : σ'} {r : Halt σ}, base ≤ p →
    p + xs.length ≤ limit → R xs p cs s s' → exec t stop act xs p cs s = .ok r →
    r.running = false → r.cs ≠ 0 →
    ∃ u', exec t stop act' (xs ++ zs) (p - base) cs s' = .ok ⟨false, r.cs, r.p - base, u'⟩ ∧
      Q r.user u'
  | [], p, cs, s, s', r, _, _, _, h, hr, _ => by
      obtain rfl := Except.ok.inj h
      cases hr
  | b :: xs, p, cs, s, s', r, hbase, hlimit, hR, h, hr, hcs => by
      rw [List.length_cons] at hlimit
      rw [List.cons_append]
      cases he : next t cs b with
      | none =>
          rw [exec_error he] at h
          obtain rfl := Except.ok.inj h
          exact absurd rfl hcs
      | some e =>
          rw [exec_cons he] at h
          obtain ⟨u, hu, h⟩ := bind_eq_ok.mp h
          obtain ⟨u', hu', hR', hQ⟩ := hsim b xs p cs s s' e u hbase (by omega) hR he hu
          rw [exec_cons he, hu']
          split at h
          · rename_i hstop
            obtain rfl := Except.ok.inj h
            refine ⟨u', ?_, hQ hstop⟩
            show (if e.acts.any stop then _ else _) = _
            rw [if_pos hstop, show p - base + 1 = p + 1 - base by omega]
          · rename_i hstop
            obtain ⟨v', hexec', hQv⟩ := exec_last hsim zs (Nat.le_succ_of_le hbase)
              (by omega) (hR' (Bool.eq_false_iff.mpr hstop)) h hr hcs
            refine ⟨v', ?_, hQv⟩
            show (if e.acts.any stop then _ else _) = _
            rw [if_neg hstop, show p - base + 1 = p + 1 - base by omega]
            exact hexec'

end

end Scanner

end Sylar
