import Mathlib.Algebra.Group.Nat.Defs
import Mathlib.Data.List.Basic
import Mathlib.Tactic.Common

/-!
# Grammars over bytes

A grammar has classes of bytes and nonterminals; `rules` gives the right
hand sides of a nonterminal, which are lists of symbols. `Derives rules k
w` says that the symbols `k` derive the text `w`. A class is a number,
whose bits say which bytes are in it, so that a kernel that computes with
numbers decides quickly whether two classes meet.

`heads` takes the first byte off: for a list of symbols it has the
classes of the first bytes and, for each, the symbols that derive the
rest (`heads_spec`). The fuel runs out on a grammar that comes back to a
nonterminal before any byte; on the others `heads` makes a derivation a
walk through finitely many lists of symbols.
-/

namespace Sylar

namespace Grammar

inductive Sym (ν : Type) where
  | cls (on : Nat)
  | nt (n : ν)
deriving DecidableEq

/-- The class of the bytes in these ranges. -/
def ofRanges (on : List (Nat × Nat)) : Nat :=
  on.foldr (fun r m => m ||| (2 ^ (r.2 + 1 - r.1) - 1) <<< r.1) 0

theorem testBit_ofRanges (on : List (Nat × Nat)) (n : Nat) :
    (ofRanges on).testBit n = on.any fun r => r.1 ≤ n && n ≤ r.2 := by
  induction on with
  | nil => simp [ofRanges]
  | cons r on ih =>
      have hbit : ((2 ^ (r.2 + 1 - r.1) - 1) <<< r.1).testBit n = (r.1 ≤ n && n ≤ r.2) := by
        rw [Nat.testBit_shiftLeft, Nat.testBit_two_pow_sub_one, Bool.eq_iff_iff]
        simp only [Bool.and_eq_true, decide_eq_true_eq]
        omega
      have hcons : ofRanges (r :: on) = ofRanges on ||| (2 ^ (r.2 + 1 - r.1) - 1) <<< r.1 := rfl
      rw [hcons, Nat.testBit_or, ih, hbit, List.any_cons, Bool.or_comm]

variable {ν : Type} (rules : ν → List (List (Sym ν)))

inductive Derives : List (Sym ν) → List UInt8 → Prop
  | nil : Derives [] []
  | cls {on : Nat} {k : List (Sym ν)} {b : UInt8} {w : List UInt8} :
      on.testBit b.toNat = true → Derives k w → Derives (.cls on :: k) (b :: w)
  | nt {n : ν} {r k : List (Sym ν)} {w : List UInt8} :
      r ∈ rules n → Derives (r ++ k) w → Derives (.nt n :: k) w

variable {rules}

@[simp] theorem derives_nil {w : List UInt8} : Derives rules [] w ↔ w = [] := by
  constructor
  · intro h
    cases h
    rfl
  · rintro rfl
    exact .nil

theorem derives_cls {on : Nat} {k : List (Sym ν)} {w : List UInt8} :
    Derives rules (.cls on :: k) w ↔
      ∃ b v, w = b :: v ∧ on.testBit b.toNat = true ∧ Derives rules k v := by
  constructor
  · intro h
    cases h with
    | cls hb hk => exact ⟨_, _, rfl, hb, hk⟩
  · rintro ⟨b, v, rfl, hb, hk⟩
    exact .cls hb hk

theorem derives_nt {n : ν} {k : List (Sym ν)} {w : List UInt8} :
    Derives rules (.nt n :: k) w ↔ ∃ r ∈ rules n, Derives rules (r ++ k) w := by
  constructor
  · intro h
    cases h with
    | nt hr hk => exact ⟨_, hr, hk⟩
  · rintro ⟨r, hr, hk⟩
    exact .nt hr hk

theorem Derives.append {a k : List (Sym ν)} {u v : List UInt8} (ha : Derives rules a u)
    (hk : Derives rules k v) : Derives rules (a ++ k) (u ++ v) := by
  induction ha with
  | nil => exact hk
  | cls hb _ ih => exact .cls hb ih
  | nt hr _ ih =>
      rw [List.append_assoc] at ih
      exact .nt hr ih

theorem derives_append {a k : List (Sym ν)} {w : List UInt8} :
    Derives rules (a ++ k) w ↔ ∃ u v, w = u ++ v ∧ Derives rules a u ∧ Derives rules k v := by
  constructor
  · intro h
    -- on the derivation; a rule puts its symbols in front of what is left of `a`
    generalize hak : a ++ k = ak at h
    induction h generalizing a with
    | nil =>
        obtain ⟨rfl, rfl⟩ := List.append_eq_nil_iff.mp hak
        exact ⟨[], [], rfl, .nil, .nil⟩
    | @cls on k' b w hb hk ih =>
        cases a with
        | nil =>
            obtain rfl : k = .cls on :: k' := hak
            exact ⟨[], _, rfl, .nil, .cls hb hk⟩
        | cons x a =>
            obtain ⟨rfl, htail⟩ := List.cons.inj hak
            obtain ⟨u, v, rfl, hu, hv⟩ := ih htail
            exact ⟨b :: u, v, rfl, .cls hb hu, hv⟩
    | @nt n r k' w hr hk ih =>
        cases a with
        | nil =>
            obtain rfl : k = .nt n :: k' := hak
            exact ⟨[], _, rfl, .nil, .nt hr hk⟩
        | cons x a =>
            obtain ⟨rfl, rfl⟩ := List.cons.inj hak
            obtain ⟨u, v, rfl, hu, hv⟩ := ih (List.append_assoc r a k)
            exact ⟨u, v, rfl, .nt hr hu, hv⟩
  · rintro ⟨u, v, rfl, hu, hv⟩
    exact hu.append hv

/-- A symbol in front of others. -/
theorem derives_cons {x : Sym ν} {k : List (Sym ν)} {w : List UInt8} :
    Derives rules (x :: k) w ↔ ∃ u v, w = u ++ v ∧ Derives rules [x] u ∧ Derives rules k v :=
  derives_append (a := [x])

/-- The texts of a repetition: those that `nil` and the texts of a round
make up. -/
theorem Derives.repeated {L : List UInt8 → Prop} {n : ν} {rounds : List (List (Sym ν))}
    (hn : rules n = [] :: rounds.map (· ++ [.nt n])) (hnil : L [])
    (hround : ∀ r ∈ rounds, ∀ u v, Derives rules r u → L v → L (u ++ v)) {w : List UInt8}
    (h : Derives rules [.nt n] w) : L w := by
  -- on the derivation, of any symbols in front of the repetition
  have hall : ∀ {ks : List (Sym ν)} {w : List UInt8}, Derives rules ks w →
      ∀ a, ks = a ++ [.nt n] → ∃ u v, w = u ++ v ∧ Derives rules a u ∧ L v := by
    intro ks w h
    induction h with
    | nil =>
        intro a ha
        cases a <;> cases ha
    | @cls on k b w hb hk ih =>
        intro a ha
        cases a with
        | nil => cases ha
        | cons x a =>
            obtain ⟨rfl, hk⟩ := List.cons.inj ha
            obtain ⟨u, v, rfl, hu, hv⟩ := ih a hk
            exact ⟨b :: u, v, rfl, .cls hb hu, hv⟩
    | @nt m r k w hr hk ih =>
        intro a ha
        cases a with
        | nil =>
            obtain ⟨hm, rfl⟩ := List.cons.inj ha
            obtain rfl := Sym.nt.inj hm
            rw [hn] at hr
            obtain rfl | hr := List.mem_cons.mp hr
            · obtain rfl := derives_nil.mp hk
              exact ⟨[], [], rfl, .nil, hnil⟩
            · obtain ⟨r, hmem, rfl⟩ := List.mem_map.mp hr
              obtain ⟨u, v, rfl, hu, hv⟩ := ih r (List.append_nil _)
              exact ⟨[], u ++ v, rfl, .nil, hround r hmem u v hu hv⟩
        | cons x a =>
            obtain ⟨rfl, rfl⟩ := List.cons.inj ha
            obtain ⟨u, v, rfl, hu, hv⟩ := ih (r ++ a) (List.append_assoc r a _).symm
            exact ⟨u, v, rfl, .nt hr hu, hv⟩
  obtain ⟨u, v, rfl, hu, hv⟩ := hall h [] rfl
  rwa [derives_nil.mp hu]

/-- A text without the byte `bad` is derived by other rules too, if those
have all right hand sides but the ones that begin with `bad`. -/
theorem Derives.mono {rules' : ν → List (List (Sym ν))} {bad : UInt8}
    (hr : ∀ n, ∀ r ∈ rules n, r ∈ rules' n ∨
      ∃ on k, r = .cls on :: k ∧ ∀ b : UInt8, on.testBit b.toNat = true → b = bad)
    {k : List (Sym ν)} {w : List UInt8} (h : Derives rules k w) (hw : bad ∉ w) :
    Derives rules' k w := by
  induction h with
  | nil => exact .nil
  | cls hb _ ih => exact .cls hb (ih (List.not_mem_of_not_mem_cons hw))
  | @nt n r k w hmem hk ih =>
      rcases hr n r hmem with hr | ⟨on, k', rfl, hon⟩
      · exact .nt hr (ih hw)
      · obtain ⟨b, v, rfl, hb, -⟩ := derives_cls.mp hk
        obtain rfl := hon b hb
        exact absurd (List.mem_cons_self ..) hw

/-- Classes alone derive the same texts whatever the rules are. -/
theorem derives_classes {r : ν → List (List (Sym ν))} {k : List (Sym ν)}
    (hk : ∀ x ∈ k, ∃ on, x = .cls on) {w : List UInt8} :
    Derives rules k w ↔ Derives r k w := by
  induction k generalizing w with
  | nil => simp only [derives_nil]
  | cons x k ih =>
      obtain ⟨⟨on, rfl⟩, htail⟩ := List.forall_mem_cons.mp hk
      simp only [derives_cls, ih htail]

/-- The bytes of a text are in `m`, when those of the classes are that the
nonterminals `p` lead to. -/
theorem Derives.bytes {m : Nat} {p : ν → Bool}
    (hp : ∀ n, p n = true → ∀ r ∈ rules n, ∀ x ∈ r, match x with
      | .cls on => on &&& m = on
      | .nt n => p n = true)
    {k : List (Sym ν)} {w : List UInt8} (h : Derives rules k w)
    (hk : ∀ x ∈ k, match x with
      | .cls on => on &&& m = on
      | .nt n => p n = true) :
    ∀ b ∈ w, m.testBit b.toNat = true := by
  induction h with
  | nil => exact fun b hb => absurd hb List.not_mem_nil
  | @cls on k b w hb _ ih =>
      obtain ⟨hon, hk⟩ := List.forall_mem_cons.mp hk
      rw [List.forall_mem_cons]
      refine ⟨?_, ih hk⟩
      rw [← hon, Nat.testBit_and, Bool.and_eq_true] at hb
      exact hb.2
  | @nt n r k w hr _ ih =>
      obtain ⟨hn, hk⟩ := List.forall_mem_cons.mp hk
      refine ih fun x hx => ?_
      rcases List.mem_append.mp hx with hx | hx
      · exact hp n hn r hr x hx
      · exact hk x hx

/-- The rules of these nonterminals lead to one another and to bytes of
`m`. -/
def within (rules : ν → List (List (Sym ν))) [DecidableEq ν] (m : Nat) (ns : List ν) : Bool :=
  ns.all fun n => (rules n).all fun r => r.all fun x => match x with
    | .cls on => decide (on &&& m = on)
    | .nt n => decide (n ∈ ns)

theorem bytes_of_all_within [DecidableEq ν] {m : Nat} {ns : List ν}
    (h : within rules m ns = true) {k : List (Sym ν)} (hk : ∀ x ∈ k, ∃ n ∈ ns, x = .nt n)
    {w : List UInt8} (hw : Derives rules k w) : ∀ b ∈ w, m.testBit b.toNat = true := by
  refine hw.bytes (p := fun n => decide (n ∈ ns)) (fun n' hn' r hr x hx => ?_) fun x hx => ?_
  · have hx' := List.all_eq_true.mp
      (List.all_eq_true.mp (List.all_eq_true.mp h n' (of_decide_eq_true hn')) r hr) x hx
    cases x with
    | cls on => exact of_decide_eq_true hx'
    | nt n => exact hx'
  · obtain ⟨n, hn, rfl⟩ := hk x hx
    exact decide_eq_true hn

theorem bytes_of_within [DecidableEq ν] {m : Nat} {ns : List ν} (h : within rules m ns = true)
    {n : ν} (hn : n ∈ ns) {w : List UInt8} (hw : Derives rules [.nt n] w) :
    ∀ b ∈ w, m.testBit b.toNat = true :=
  bytes_of_all_within h (fun _ hx => ⟨n, hn, List.mem_singleton.mp hx⟩) hw

theorem notMem_of_within [DecidableEq ν] {m : Nat} {ns : List ν} (h : within rules m ns = true)
    {n : ν} (hn : n ∈ ns) {w : List UInt8} (hw : Derives rules [.nt n] w) {b : UInt8}
    (hb : m.testBit b.toNat = false) : b ∉ w :=
  fun hmem => Bool.false_ne_true (hb.symm.trans (bytes_of_within h hn hw b hmem))

/-! ## The first byte -/

/-- Do it for each, and collect the lists and the truth values. -/
def collect {α β : Type} (f : α → Option (List β × Bool)) : List α → Option (List β × Bool)
  | [] => some ([], false)
  | a :: as =>
      match f a, collect f as with
      | some (hs, e), some (hs', e') => some (hs ++ hs', e || e')
      | _, _ => none

theorem collect_spec {α β : Type} {f : α → Option (List β × Bool)} :
    ∀ {as : List α} {hs : List β} {e : Bool}, collect f as = some (hs, e) →
      (∀ a ∈ as, (f a).isSome = true) ∧
      (∀ h, h ∈ hs ↔ ∃ a ∈ as, ∃ hs' e', f a = some (hs', e') ∧ h ∈ hs') ∧
      (e = true ↔ ∃ a ∈ as, ∃ hs', f a = some (hs', true))
  | [], hs, e, h => by
      obtain ⟨rfl, rfl⟩ := Prod.mk.inj (Option.some.inj h)
      simp
  | a :: as, hs, e, h => by
      rw [collect] at h
      split at h
      · rename_i hs₁ e₁ hs₂ e₂ ha has
        obtain ⟨rfl, rfl⟩ := Prod.mk.inj (Option.some.inj h)
        obtain ⟨hsome, hmem, he⟩ := collect_spec has
        refine ⟨?_, fun x => ?_, ?_⟩
        · rw [List.forall_mem_cons, ha]
          exact ⟨rfl, hsome⟩
        · simp only [List.mem_append, hmem, List.mem_cons, exists_eq_or_imp, ha,
            Option.some.injEq, Prod.mk.injEq, and_assoc, exists_eq_left', exists_and_left]
        · simp only [Bool.or_eq_true, he, List.mem_cons, exists_eq_or_imp, ha,
            Option.some.injEq, Prod.mk.injEq, exists_eq_left']
      · cases h

variable (rules)

/-- The classes of the first bytes, with what derives the rest, and
whether the empty text is derived. -/
def heads : Nat → List (Sym ν) → Option (List (Nat × List (Sym ν)) × Bool)
  | _, [] => some ([], true)
  | _, .cls on :: k => some ([(on, k)], false)
  | 0, .nt _ :: _ => none
  | fuel + 1, .nt n :: k => collect (fun r => heads fuel (r ++ k)) (rules n)

variable {rules}

theorem heads_spec {fuel : Nat} {k : List (Sym ν)} {hs : List (Nat × List (Sym ν))} {e : Bool}
    (h : heads rules fuel k = some (hs, e)) :
    (e = true ↔ Derives rules k []) ∧
      ∀ b w, Derives rules k (b :: w) ↔
        ∃ h ∈ hs, h.1.testBit b.toNat = true ∧ Derives rules h.2 w := by
  induction fuel, k using heads.induct generalizing hs e with
  | case1 fuel =>
      rw [heads] at h
      obtain ⟨rfl, rfl⟩ := Prod.mk.inj (Option.some.inj h)
      simp
  | case2 fuel on k =>
      rw [heads] at h
      obtain ⟨rfl, rfl⟩ := Prod.mk.inj (Option.some.inj h)
      simp [derives_cls]
  | case3 n k => cases h
  | case4 fuel n k ih =>
      rw [heads] at h
      obtain ⟨hsome, hmem, he⟩ := collect_spec h
      constructor
      · rw [he, derives_nt]
        refine exists_congr fun r => and_congr_right fun hr => ?_
        obtain ⟨⟨hs', e'⟩, hr'⟩ := Option.isSome_iff_exists.mp (hsome r hr)
        rw [hr', ← (ih r hr').1]
        simp
      · intro b w
        rw [derives_nt]
        constructor
        · rintro ⟨r, hr, hw⟩
          obtain ⟨⟨hs', e'⟩, hr'⟩ := Option.isSome_iff_exists.mp (hsome r hr)
          obtain ⟨x, hx, hb, hxw⟩ := ((ih r hr').2 b w).mp hw
          exact ⟨x, (hmem x).mpr ⟨r, hr, hs', e', hr', hx⟩, hb, hxw⟩
        · rintro ⟨x, hx, hb, hxw⟩
          obtain ⟨r, hr, hs', e', hr', hx⟩ := (hmem x).mp hx
          exact ⟨r, hr, ((ih r hr').2 b w).mpr ⟨x, hx, hb, hxw⟩⟩

/-- A text begins with a byte of `m`. -/
def startsIn (rules : ν → List (List (Sym ν))) (fuel m : Nat) (k : List (Sym ν)) : Bool :=
  match heads rules fuel k with
  | some (hs, false) => hs.all fun h => decide (h.1 &&& m = h.1)
  | _ => false

theorem first_of_startsIn {fuel m : Nat} {k : List (Sym ν)} (h : startsIn rules fuel m k = true)
    {w : List UInt8} (hw : Derives rules k w) :
    ∃ b v, w = b :: v ∧ m.testBit b.toNat = true := by
  rw [startsIn] at h
  split at h
  · rename_i hs hheads
    obtain ⟨hnil, hcons⟩ := heads_spec hheads
    cases w with
    | nil => exact absurd (hnil.mpr hw) Bool.false_ne_true
    | cons b v =>
        obtain ⟨x, hx, hb, -⟩ := (hcons b v).mp hw
        have hm : x.1 &&& m = x.1 := of_decide_eq_true (List.all_eq_true.mp h x hx)
        rw [← hm, Nat.testBit_and, Bool.and_eq_true] at hb
        exact ⟨b, v, rfl, hb.2⟩
  · cases h

end Grammar

end Sylar
