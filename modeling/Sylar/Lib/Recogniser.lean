import Sylar.Lib.Grammar
import Sylar.Lib.Scanner

/-!
# A table accepts what a grammar derives

A deterministic table and a grammar are compared by running both: to each
state that is reached belong the lists of symbols of which one has to
derive the rest of the text. `explore` goes through all such pairs of a
state and its lists, as long as a byte without an edge is one that no
list can begin with and the final states are those where a list derives
the empty text. When it ends, the pairs it has seen are closed under
every byte, and so the table accepts just the texts derived
(`accepts_iff_lang`). It is meant to be evaluated.
-/

namespace Sylar

open Scanner

namespace Grammar

variable {ν : Type}

/-! ## One byte for a set of lists -/

/-- One of the lists derives the text. -/
def Lang (rules : ν → List (List (Sym ν))) (ks : List (List (Sym ν))) (w : List UInt8) : Prop :=
  ∃ k ∈ ks, Derives rules k w

variable {rules : ν → List (List (Sym ν))}

theorem lang_congr {ks ks' : List (List (Sym ν))} (h : ∀ k, k ∈ ks ↔ k ∈ ks') :
    Lang rules ks = Lang rules ks' :=
  funext fun _ => propext (exists_congr fun k => and_congr_left fun _ => h k)

theorem lang_singleton {k : List (Sym ν)} {w : List UInt8} :
    Lang rules [k] w ↔ Derives rules k w := by
  simp [Lang]

/-- Behind a byte, a text of `ks` is one of the lists behind the heads
that the byte is in. -/
theorem lang_cons {fuel : Nat} {ks : List (List (Sym ν))} {hs : List (Nat × List (Sym ν))}
    {e : Bool} (h : collect (heads rules fuel) ks = some (hs, e)) {b : UInt8}
    {ks' : List (List (Sym ν))}
    (hks' : ∀ k, k ∈ ks' ↔ ∃ h ∈ hs, h.1.testBit b.toNat = true ∧ h.2 = k) (w : List UInt8) :
    Lang rules ks (b :: w) ↔ Lang rules ks' w := by
  obtain ⟨hsome, hmem, -⟩ := collect_spec h
  constructor
  · rintro ⟨k, hk, hw⟩
    obtain ⟨⟨hs', e'⟩, hheads⟩ := Option.isSome_iff_exists.mp (hsome k hk)
    obtain ⟨x, hx, hb, hxw⟩ := ((heads_spec hheads).2 b w).mp hw
    exact ⟨x.2, (hks' _).mpr ⟨x, (hmem x).mpr ⟨k, hk, hs', e', hheads, hx⟩, hb, rfl⟩, hxw⟩
  · rintro ⟨k', hk', hw⟩
    obtain ⟨x, hx, hb, rfl⟩ := (hks' k').mp hk'
    obtain ⟨k, hk, hs', e', hheads, hx⟩ := (hmem x).mp hx
    exact ⟨k, hk, ((heads_spec hheads).2 b w).mpr ⟨x, hx, hb, hw⟩⟩

theorem lang_nil {fuel : Nat} {ks : List (List (Sym ν))} {hs : List (Nat × List (Sym ν))}
    {e : Bool} (h : collect (heads rules fuel) ks = some (hs, e)) :
    e = true ↔ Lang rules ks [] := by
  obtain ⟨hsome, -, he⟩ := collect_spec h
  rw [he]
  refine exists_congr fun k => and_congr_right fun hk => ?_
  obtain ⟨⟨hs', e'⟩, hheads⟩ := Option.isSome_iff_exists.mp (hsome k hk)
  rw [← (heads_spec hheads).1, hheads]
  simp

variable (rules) in
/-- The lists behind a text; for short texts, as it does not look whether
it has lists twice. -/
def behind (fuel : Nat) : List (List (Sym ν)) → List UInt8 → Option (List (List (Sym ν)))
  | ks, [] => some ks
  | ks, b :: w =>
      match collect (heads rules fuel) ks with
      | some (hs, _) => behind fuel ((hs.filter fun h => h.1.testBit b.toNat).map (·.2)) w
      | none => none

theorem lang_behind {fuel : Nat} {w x : List UInt8} {ks ks' : List (List (Sym ν))}
    (h : behind rules fuel ks w = some ks') : Lang rules ks (w ++ x) ↔ Lang rules ks' x := by
  induction w generalizing ks with
  | nil =>
      obtain rfl := Option.some.inj h
      exact Iff.rfl
  | cons b w ih =>
      rw [behind] at h
      split at h
      · rename_i hs e hheads
        rw [← ih h]
        refine lang_cons hheads (fun k => ?_) (w ++ x)
        simp only [List.mem_map, List.mem_filter, and_assoc]
      · cases h

variable (rules) in
/-- The symbols derive the text. -/
def derivable (fuel : Nat) (k : List (Sym ν)) (w : List UInt8) : Bool :=
  match (behind rules fuel [k] w).bind (collect (heads rules fuel)) with
  | some (_, e) => e
  | none => false

theorem derives_of_derivable {fuel : Nat} {w : List UInt8} {k : List (Sym ν)}
    (h : derivable rules fuel k w = true) : Derives rules k w := by
  rw [derivable] at h
  split at h
  · rename_i hs e hbehind
    obtain ⟨ks, hks, hheads⟩ := Option.bind_eq_some_iff.mp hbehind
    have hlang : Lang rules [k] (w ++ []) := (lang_behind hks).mpr ((lang_nil hheads).mp h)
    rw [List.append_nil] at hlang
    obtain ⟨k', hk', hw⟩ := hlang
    rwa [List.mem_singleton.mp hk'] at hw
  · cases h

/-- The lists in `ks` are those in `acc` and those behind the heads that
byte `n` is in. -/
def Cell (n : Nat) (hs : List (Nat × List (Sym ν))) (acc ks : List (List (Sym ν))) : Prop :=
  ∀ k, k ∈ ks ↔ k ∈ acc ∨ ∃ h ∈ hs, h.1.testBit n = true ∧ h.2 = k

theorem Cell.skip {n c : Nat} {k : List (Sym ν)} {hs : List (Nat × List (Sym ν))}
    {acc ks : List (List (Sym ν))} (hc : c.testBit n = false) (h : Cell n hs acc ks) :
    Cell n ((c, k) :: hs) acc ks := by
  intro k'
  rw [h]
  simp [hc]

/-! ## Pairs of a state and a language -/

variable {α : Type} {t : Table α}

/-- The edges of a state, without their actions. -/
def rowOf (t : Table α) (q : Nat) : List (Nat × Nat) :=
  (t q).map fun e => (ofRanges e.on, e.target)

theorem takes_eq (e : Edge α) (b : UInt8) : (ofRanges e.on).testBit b.toNat = e.takes b :=
  testBit_ofRanges e.on b.toNat

/-- The rows of a table by their numbers; the first row of a number
counts. -/
def index (rows : List (Nat × List (Edge α))) : Std.TreeMap Nat (List (Nat × Nat)) :=
  rows.foldr (fun r m => m.insert r.1 (r.2.map fun e => (ofRanges e.on, e.target))) ∅

theorem index_getD (rows : List (Nat × List (Edge α))) (q : Nat) :
    (index rows).getD q [] = rowOf (tableOf rows) q := by
  induction rows with
  | nil => simp [index, rowOf, tableOf]
  | cons r rows ih =>
      have hcons : index (r :: rows) =
          (index rows).insert r.1 (r.2.map fun e => (ofRanges e.on, e.target)) := rfl
      rw [hcons, Std.TreeMap.getD_insert, ih]
      by_cases hr : r.1 = q
      · simp [hr, rowOf, tableOf]
      · simp [hr, rowOf, tableOf]

/-- What has been seen: for a state, the sets of lists that belong to it. -/
abbrev Seen (ν : Type) := Std.TreeMap Nat (List (List (List (Sym ν))))

def Covers (rules : ν → List (List (Sym ν))) (seen : Seen ν) (q : Nat)
    (L : List UInt8 → Prop) : Prop :=
  ∃ ks ∈ seen.getD q [], Lang rules ks = L

def Waits (rules : ν → List (List (Sym ν))) (todo : List (Nat × List (List (Sym ν)))) (q : Nat)
    (L : List UInt8 → Prop) : Prop :=
  ∃ ks, (q, ks) ∈ todo ∧ Lang rules ks = L

/-- The state is final just when the empty text is in the language, and
each byte leads to a state and a language that are known. -/
structure Steps (t : Table α) (final : Nat → Bool) (known : Nat → (List UInt8 → Prop) → Prop)
    (q : Nat) (L : List UInt8 → Prop) : Prop where
  final : final q = true ↔ L []
  stuck : ∀ b, move t q b = none → ∀ w, ¬L (b :: w)
  next : ∀ b as q', move t q b = some (as, q') → ∃ L', known q' L' ∧ ∀ w, L (b :: w) ↔ L' w

theorem Steps.mono {final : Nat → Bool} {known known' : Nat → (List UInt8 → Prop) → Prop}
    (himp : ∀ q L, known q L → known' q L) {q : Nat} {L : List UInt8 → Prop}
    (h : Steps t final known q L) : Steps t final known' q L where
  final := h.final
  stuck := h.stuck
  next b as q' hmove := by
    obtain ⟨L', hknown, hL'⟩ := h.next b as q' hmove
    exact ⟨L', himp _ _ hknown, hL'⟩

theorem waits_cons {todo : List (Nat × List (List (Sym ν)))} {q q' : Nat}
    {ks : List (List (Sym ν))} {L : List UInt8 → Prop} :
    Waits rules ((q, ks) :: todo) q' L ↔ q' = q ∧ Lang rules ks = L ∨ Waits rules todo q' L := by
  simp only [Waits, List.mem_cons, Prod.mk.injEq, or_and_right, exists_or, and_assoc,
    exists_and_left, exists_eq_left]

theorem waits_append {ps todo : List (Nat × List (List (Sym ν)))} {q : Nat}
    {L : List UInt8 → Prop} :
    Waits rules (ps ++ todo) q L ↔ Waits rules ps q L ∨ Waits rules todo q L := by
  simp only [Waits, List.mem_append, or_and_right, exists_or]

theorem covers_insert {seen : Seen ν} {q q' : Nat} {ks : List (List (Sym ν))}
    {L : List UInt8 → Prop} :
    Covers rules (seen.insert q (ks :: seen.getD q [])) q' L ↔
      q' = q ∧ Lang rules ks = L ∨ Covers rules seen q' L := by
  by_cases hq : q' = q
  · subst hq
    simp [Covers]
  · simp [Covers, Std.TreeMap.getD_insert, Ne.symm hq, hq]

/-- The pairs of a list as seen. -/
def seenOf (ps : List (Nat × List (List (Sym ν)))) : Seen ν :=
  ps.foldr (fun p seen => seen.insert p.1 (p.2 :: seen.getD p.1 [])) ∅

theorem covers_seenOf {ps : List (Nat × List (List (Sym ν)))} {q : Nat}
    {L : List UInt8 → Prop} : Covers rules (seenOf ps) q L ↔ Waits rules ps q L := by
  induction ps with
  | nil => simp [seenOf, Covers, Waits]
  | cons p ps ih => rw [seenOf, List.foldr_cons, covers_insert, waits_cons, ← ih, seenOf]

/-- A run over `w` ends in a final state. -/
def Accepts (t : Table α) (final : Nat → Bool) (q : Nat) (w : List UInt8) : Prop :=
  ∃ q', after t q w = some q' ∧ final q' = true

/-- A pair seen is known to be right, or closed under every byte, up to the
pairs that wait. -/
def Closed (rules : ν → List (List (Sym ν))) (t : Table α) (final : Nat → Bool) (seen : Seen ν)
    (todo : List (Nat × List (List (Sym ν)))) : Prop :=
  ∀ q L, Covers rules seen q L → (∀ w, Accepts t final q w ↔ L w) ∨
    Steps t final (fun q L => Covers rules seen q L ∨ Waits rules todo q L) q L

theorem accepts_iff_of_closed {final : Nat → Bool} {seen : Seen ν}
    (hclosed : Closed rules t final seen []) {w : List UInt8} :
    ∀ {q : Nat} {L : List UInt8 → Prop}, Covers rules seen q L →
      (Accepts t final q w ↔ L w) := by
  induction w with
  | nil =>
      intro q L h
      rcases hclosed q L h with hright | hstep
      · exact hright []
      rw [← hstep.final]
      simp [Accepts, after]
  | cons b w ih =>
      intro q L h
      rcases hclosed q L h with hright | hstep
      · exact hright (b :: w)
      rw [Accepts, after]
      cases hmove : move t q b with
      | none =>
          refine iff_of_false ?_ (hstep.stuck b hmove w)
          rintro ⟨q', hafter, -⟩
          cases hafter
      | some e =>
          obtain ⟨as, q'⟩ := e
          obtain ⟨L', hknown, hL'⟩ := hstep.next b as q' hmove
          rw [hL' w]
          refine ih (hknown.resolve_right ?_)
          rintro ⟨ks, hks, -⟩
          cases hks

/-! ## Taking a byte off -/

variable [DecidableEq ν]

theorem Cell.take {n c : Nat} {k : List (Sym ν)} {hs : List (Nat × List (Sym ν))}
    {acc ks : List (List (Sym ν))} (hc : c.testBit n = true) (h : Cell n hs (acc.insert k) ks) :
    Cell n ((c, k) :: hs) acc ks := by
  intro k'
  rw [h, List.mem_insert_iff]
  simp only [List.mem_cons, exists_eq_or_imp, hc, true_and]
  rw [eq_comm, or_comm (a := k = k'), or_assoc]

/-- Part the bytes of `m` by the heads they are in: each cell has what
derives the rest behind one of its bytes. -/
def cells (m : Nat) : List (Nat × List (Sym ν)) → List (List (Sym ν)) →
    List (List (List (Sym ν)))
  | [], acc => [acc]
  | (c, k) :: hs, acc =>
      if m &&& c = 0 then cells m hs acc
      else if m &&& c = m then cells m hs (acc.insert k)
      else cells (m &&& c) hs (acc.insert k) ++ cells (m ^^^ (m &&& c)) hs acc

theorem cells_spec {n : Nat} : ∀ (hs : List (Nat × List (Sym ν))) {m : Nat}
    (acc : List (List (Sym ν))), m.testBit n = true → ∃ ks ∈ cells m hs acc, Cell n hs acc ks := by
  intro hs
  induction hs with
  | nil =>
      intro m acc _
      exact ⟨acc, List.mem_singleton.mpr rfl, by simp [Cell]⟩
  | cons x hs ih =>
      obtain ⟨c, k⟩ := x
      intro m acc hm
      have hand : (m &&& c).testBit n = c.testBit n := by
        rw [Nat.testBit_and, hm, Bool.true_and]
      rw [cells]
      split
      · rename_i hnone
        obtain ⟨ks, hks, hcell⟩ := ih acc hm
        refine ⟨ks, hks, hcell.skip ?_⟩
        rw [← hand, hnone, Nat.zero_testBit]
      split
      · rename_i hall
        obtain ⟨ks, hks, hcell⟩ := ih (acc.insert k) hm
        refine ⟨ks, hks, hcell.take ?_⟩
        rw [← hand, hall, hm]
      · cases hc : c.testBit n with
        | true =>
            obtain ⟨ks, hks, hcell⟩ := ih (acc.insert k) (hand.trans hc)
            exact ⟨ks, List.mem_append_left _ hks, hcell.take hc⟩
        | false =>
            have hrest : (m ^^^ (m &&& c)).testBit n = true := by
              rw [Nat.testBit_xor, hand, hc, hm]
              rfl
            obtain ⟨ks, hks, hcell⟩ := ih acc hrest
            exact ⟨ks, List.mem_append_right _ hks, hcell.skip hc⟩

/-- Where the edges of a state lead, each with the lists for its bytes;
none if a byte without an edge is one that a list can begin with. -/
def succs (row : List (Nat × Nat)) (hs : List (Nat × List (Sym ν))) :
    Option (List (Nat × List (List (Sym ν)))) :=
  if (cells (row.foldr (fun e m => m ^^^ e.1) (2 ^ 256 - 1)) hs []).all List.isEmpty then
    some (row.flatMap fun e => (cells e.1 hs []).map fun ks => (e.2, ks))
  else none

theorem testBit_rest {row : List (Nat × Nat)} {n : Nat} (hn : n < 256)
    (h : ∀ e ∈ row, e.1.testBit n = false) :
    (row.foldr (fun (e : Nat × Nat) m => m ^^^ e.1) (2 ^ 256 - 1)).testBit n = true := by
  induction row with
  | nil =>
      rw [List.foldr_nil, Nat.testBit_two_pow_sub_one]
      exact decide_eq_true hn
  | cons e row ih =>
      obtain ⟨he, hrow⟩ := List.forall_mem_cons.mp h
      rw [List.foldr_cons, Nat.testBit_xor, ih hrow, he]
      rfl

theorem succs_edge {row : List (Nat × Nat)} {hs : List (Nat × List (Sym ν))}
    {ps : List (Nat × List (List (Sym ν)))} (h : succs row hs = some ps) {e : Nat × Nat}
    (he : e ∈ row) {n : Nat} (hn : e.1.testBit n = true) :
    ∃ ks, (e.2, ks) ∈ ps ∧ Cell n hs [] ks := by
  rw [succs] at h
  split at h
  · obtain rfl := Option.some.inj h
    obtain ⟨ks, hks, hcell⟩ := cells_spec hs [] hn
    exact ⟨ks, List.mem_flatMap.mpr ⟨e, he, List.mem_map.mpr ⟨ks, hks, rfl⟩⟩, hcell⟩
  · cases h

theorem succs_stuck {row : List (Nat × Nat)} {hs : List (Nat × List (Sym ν))}
    {ps : List (Nat × List (List (Sym ν)))} (h : succs row hs = some ps) {n : Nat} (hn : n < 256)
    (hrow : ∀ e ∈ row, e.1.testBit n = false) : Cell n hs [] [] := by
  rw [succs] at h
  split at h
  · rename_i hall
    obtain ⟨ks, hks, hcell⟩ := cells_spec hs [] (testBit_rest hn hrow)
    have hempty := List.all_eq_true.mp hall ks hks
    rwa [List.isEmpty_iff.mp hempty] at hcell
  · cases h

/-! ## Taking all bytes off -/

def sameLists (ks ks' : List (List (Sym ν))) : Bool :=
  if ks = ks' then true else ks.all (· ∈ ks') && ks'.all (· ∈ ks)

theorem lang_of_same {ks ks' : List (List (Sym ν))} (h : sameLists ks ks' = true) :
    Lang rules ks = Lang rules ks' := by
  rw [sameLists] at h
  split at h
  · rename_i heq
    rw [heq]
  · obtain ⟨hks, hks'⟩ := Bool.and_eq_true_iff.mp h
    refine lang_congr fun k => ⟨fun hk => ?_, fun hk => ?_⟩
    · simpa using List.all_eq_true.mp hks k hk
    · simpa using List.all_eq_true.mp hks' k hk

variable (rules) in
/-- Go through the pairs in `todo`, and those their bytes lead to. -/
def explore (row : Nat → List (Nat × Nat)) (final : Nat → Bool) (depth : Nat) :
    Nat → Seen ν → List (Nat × List (List (Sym ν))) → Option (Seen ν)
  | _, seen, [] => some seen
  | 0, _, _ :: _ => none
  | fuel + 1, seen, (q, ks) :: todo =>
      if (seen.getD q []).any (sameLists ks) then explore row final depth fuel seen todo
      else
        match collect (heads rules depth) ks with
        | none => none
        | some (hs, e) =>
            if e = final q then
              match succs (row q) hs with
              | none => none
              | some ps => explore row final depth fuel
                  (seen.insert q (ks :: seen.getD q [])) (ps ++ todo)
            else none

/-- One pair: the languages behind its bytes are those of its successors. -/
theorem steps_succs {final : Nat → Bool} {depth q : Nat} {ks : List (List (Sym ν))}
    {hs : List (Nat × List (Sym ν))} {e : Bool}
    (hheads : collect (heads rules depth) ks = some (hs, e)) (he : e = final q)
    {ps : List (Nat × List (List (Sym ν)))} (hps : succs (rowOf t q) hs = some ps) :
    Steps t final (Waits rules ps) q (Lang rules ks) where
  final := he ▸ lang_nil hheads
  stuck b hmove w hw := by
    have hnone : ∀ e ∈ rowOf t q, e.1.testBit b.toNat = false := by
      intro e' he'
      obtain ⟨edge, hedge, rfl⟩ := List.mem_map.mp he'
      have hnext : next t q b = none := Option.map_eq_none_iff.mp hmove
      rw [takes_eq]
      simpa using List.find?_eq_none.mp hnext edge hedge
    have hcell := succs_stuck hps b.toNat_lt hnone
    have hnil : Lang rules [] w := (lang_cons hheads (by simpa [Cell] using hcell) w).mp hw
    obtain ⟨k, hk, -⟩ := hnil
    cases hk
  next b as q' hmove := by
    obtain ⟨edge, hnext, hedge⟩ := Option.map_eq_some_iff.mp hmove
    obtain ⟨rfl, rfl⟩ := Prod.mk.inj hedge
    obtain ⟨hmem, htakes⟩ := next_mem hnext
    obtain ⟨ks', hks', hcell⟩ := succs_edge hps
      (List.mem_map_of_mem (f := fun e : Edge α => (ofRanges e.on, e.target)) hmem)
      (n := b.toNat) (by rw [takes_eq, htakes])
    exact ⟨_, ⟨ks', hks', rfl⟩, lang_cons hheads (by simpa [Cell] using hcell)⟩

theorem explore_sound {row : Nat → List (Nat × Nat)} (hrow : ∀ q, row q = rowOf t q)
    {final : Nat → Bool} {depth : Nat} : ∀ (fuel : Nat) {seen seen' : Seen ν}
    {todo : List (Nat × List (List (Sym ν)))}, Closed rules t final seen todo →
    explore rules row final depth fuel seen todo = some seen' →
    Closed rules t final seen' [] ∧
      ∀ q L, Covers rules seen q L ∨ Waits rules todo q L → Covers rules seen' q L := by
  have hend {seen seen' : Seen ν} (hclosed : Closed rules t final seen []) (h : seen = seen') :
      Closed rules t final seen' [] ∧
        ∀ q L, Covers rules seen q L ∨ Waits rules [] q L → Covers rules seen' q L := by
    subst h
    refine ⟨hclosed, fun q L h => h.resolve_right ?_⟩
    rintro ⟨ks, hks, -⟩
    cases hks
  intro fuel
  induction fuel with
  | zero =>
      intro seen seen' todo hclosed h
      cases todo with
      | nil => exact hend hclosed (Option.some.inj h)
      | cons p todo => cases h
  | succ fuel ih =>
      intro seen seen' todo hclosed h
      rcases todo with _ | ⟨⟨q, ks⟩, todo⟩
      · exact hend hclosed (Option.some.inj h)
      rw [explore] at h
      split at h
      · rename_i hseen
        obtain ⟨ks', hks', hsame⟩ := List.any_eq_true.mp hseen
        have hcovers : Covers rules seen q (Lang rules ks) :=
          ⟨ks', hks', (lang_of_same hsame).symm⟩
        have hknown (q' : Nat) (L : List UInt8 → Prop)
            (h : Covers rules seen q' L ∨ Waits rules ((q, ks) :: todo) q' L) :
            Covers rules seen q' L ∨ Waits rules todo q' L := by
          rcases h with h | h
          · exact .inl h
          · rcases waits_cons.mp h with ⟨rfl, rfl⟩ | h
            · exact .inl hcovers
            · exact .inr h
        obtain ⟨hclosed', hall⟩ := ih (fun q' L h =>
          (hclosed q' L h).imp_right fun h => h.mono hknown) h
        exact ⟨hclosed', fun q' L h => hall q' L (hknown q' L h)⟩
      split at h
      · cases h
      rename_i hs e hheads
      split at h
      · rename_i he
        split at h
        · cases h
        rename_i ps hps
        rw [hrow] at hps
        -- the pair moves over to those seen, and its successors wait
        have hknown (q' : Nat) (L : List UInt8 → Prop)
            (h : Covers rules seen q' L ∨ Waits rules ((q, ks) :: todo) q' L) :
            Covers rules (seen.insert q (ks :: seen.getD q [])) q' L ∨
              Waits rules (ps ++ todo) q' L := by
          rw [covers_insert, waits_append]
          rcases h with h | h
          · exact .inl (.inr h)
          · rcases waits_cons.mp h with h | h
            · exact .inl (.inl h)
            · exact .inr (.inr h)
        obtain ⟨hclosed', hall⟩ := ih (fun q' L h => by
          rcases covers_insert.mp h with ⟨rfl, rfl⟩ | h
          · exact .inr ((steps_succs hheads he hps).mono fun _ _ h =>
              .inr (waits_append.mpr (.inl h)))
          · exact (hclosed q' L h).imp_right fun h => h.mono hknown) h
        exact ⟨hclosed', fun q' L h => hall q' L (hknown q' L h)⟩
      · cases h

/-- **The recogniser.** If `explore` ends when it has seen the pairs `ps`,
which are right, the table accepts from `q` exactly what the lists `ks`
derive. -/
theorem accepts_iff_lang {row : Nat → List (Nat × Nat)} (hrow : ∀ q, row q = rowOf t q)
    {final : Nat → Bool} {depth fuel q : Nat} {ks : List (List (Sym ν))}
    {ps : List (Nat × List (List (Sym ν)))}
    (hps : ∀ p ∈ ps, ∀ w, Accepts t final p.1 w ↔ Lang rules p.2 w)
    (h : (explore rules row final depth fuel (seenOf ps) [(q, ks)]).isSome = true)
    (w : List UInt8) : Accepts t final q w ↔ Lang rules ks w := by
  obtain ⟨seen, hseen⟩ := Option.isSome_iff_exists.mp h
  have hright : Closed rules t final (seenOf ps) [(q, ks)] := by
    intro q' L hcovers
    obtain ⟨ks', hks', rfl⟩ := covers_seenOf.mp hcovers
    exact .inl (hps _ hks')
  obtain ⟨hclosed, hall⟩ := explore_sound hrow fuel hright hseen
  exact accepts_iff_of_closed hclosed (hall q _ (.inr ⟨ks, List.mem_singleton.mpr rfl, rfl⟩))

end Grammar

end Sylar
