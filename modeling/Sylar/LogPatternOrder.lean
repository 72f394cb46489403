import Sylar.LogPattern

/-!
# The order of the items

`stems` has the entries with the positions that they come from: an item
those of its text, the entry for an item with an open brace that of its
`%`. The text in front of an item is pushed before it, but not the text in
front of an open one; so the positions go up unless such a one stands
right behind text (`ordered_iff`).
-/

namespace Sylar

namespace LogFormatter

/-! ## The tokens are the pattern -/

/-- The bytes that a token stands for. -/
def Token.source : Token → Bytes
  | .text b => [b]
  | .item name none => 37 :: name
  | .item name (some fmt) => 37 :: (name ++ 123 :: (fmt ++ [125]))
  | .broken => [37]

theorem Behind.source_append {s name : Bytes} {fmt : Option Bytes}
    (h : Behind s (some (name, fmt))) :
    (Token.item name fmt).source ++ s.drop (width name fmt) = 37 :: s := by
  cases h with
  | plain hv hr => simp [Token.source, width]
  | @braced _ f r hv hf =>
      have hsplit : name ++ 123 :: (f ++ 125 :: r) = name ++ 123 :: (f ++ [125]) ++ r := by simp
      have hwidth : width name (some f) = (name ++ 123 :: (f ++ [125])).length := by
        simp only [width, List.length_cons, List.length_append, List.length_nil]
        omega
      rw [hsplit, hwidth, List.drop_left, Token.source, List.cons_append]

theorem lexFrom_source (s : Bytes) (k : Nat) :
    (lexFrom k s).flatMap Token.source = s.drop k := by
  induction s generalizing k with
  | nil => simp [lexFrom]
  | cons b s ih =>
      cases k with
      | succ k => rw [lexFrom, ih, List.drop_succ_cons]
      | zero =>
          rw [lexFrom, List.drop_zero]
          split
          · rw [List.flatMap_cons, ih]
            rfl
          rename_i hb
          obtain rfl : b = 37 := of_not_not hb
          split
          · rw [List.flatMap_cons, ih]
            rfl
          have hbehind := behind_itemAt s
          split
          · rename_i name fmt hitem
            rw [List.flatMap_cons, ih]
            exact Behind.source_append (hitem ▸ hbehind)
          · rw [List.flatMap_cons, ih]
            rfl

/-- Nothing of the pattern is lost or read twice. -/
theorem lex_source (p : Bytes) : (lex p).flatMap Token.source = p := lexFrom_source p 0

/-! ## Where the entries come from -/

def flushedStems (nstr : List (Nat × UInt8)) : List (List Nat × Entry) :=
  if nstr = [] then [] else [(nstr.map (·.1), ⟨nstr.map (·.2), [], 0⟩)]

/-- The entries for the tokens from position `i`, with the positions. -/
def stemsFrom : Nat → List (Nat × UInt8) → List Token → List (List Nat × Entry)
  | _, nstr, [] => flushedStems nstr
  | i, nstr, .text b :: ts => stemsFrom (i + 1) (nstr ++ [(i, b)]) ts
  | i, nstr, .item name fmt :: ts =>
      flushedStems nstr ++ (List.range' i (width name fmt + 1), ⟨name, fmt.getD [], 1⟩) ::
        stemsFrom (i + width name fmt + 1) [] ts
  | i, nstr, .broken :: ts =>
      ([i], ⟨bytes "<<pattern_error>>", [], 0⟩) :: stemsFrom (i + 1) nstr ts

def stems (p : Bytes) : List (List Nat × Entry) := stemsFrom 0 [] (lex p)

theorem flushedStems_entry (nstr : List (Nat × UInt8)) :
    (flushedStems nstr).map (·.2) = flushed (nstr.map (·.2)) := by
  cases nstr <;> rfl

theorem stemsFrom_entry (ts : List Token) (i : Nat) (nstr : List (Nat × UInt8)) :
    (stemsFrom i nstr ts).map (·.2) = entries (nstr.map (·.2)) ts := by
  induction ts generalizing i nstr with
  | nil => exact flushedStems_entry nstr
  | cons t ts ih =>
      cases t with
      | text b =>
          rw [stemsFrom, ih, List.map_append]
          rfl
      | item name fmt =>
          rw [stemsFrom, List.map_append, flushedStems_entry, List.map_cons, ih]
          rfl
      | broken =>
          rw [stemsFrom, List.map_cons, ih]
          rfl

/-- The stems are those of the entries that `init` goes through. -/
theorem stems_entry (p : Bytes) : (stems p).map (·.2) = (scan p).vec := by
  rw [stems, stemsFrom_entry, (scan_eq p).1]
  rfl

/-- The items come in the order of the positions they stem from. -/
def Ordered (p : Bytes) : Prop := ((stems p).flatMap (·.1)).Pairwise (· < ·)

/-! ## When they go up -/

def Token.isText : Token → Bool
  | .text _ => true
  | _ => false

variable {i : Nat} {nstr : List (Nat × UInt8)} {ts : List Token}

theorem flushedStems_positions (nstr : List (Nat × UInt8)) :
    (flushedStems nstr).flatMap (·.1) = nstr.map (·.1) := by
  cases nstr with
  | nil => rfl
  | cons x nstr => simp [flushedStems]

/-- Pending text is pushed in the end. -/
theorem mem_positions_of_pending {x : Nat} (hx : x ∈ nstr.map (·.1)) :
    x ∈ (stemsFrom i nstr ts).flatMap (·.1) := by
  induction ts generalizing i nstr with
  | nil => rwa [stemsFrom, flushedStems_positions]
  | cons t ts ih =>
      cases t with
      | text b =>
          refine ih ?_
          rw [List.map_append]
          exact List.mem_append_left _ hx
      | item name fmt =>
          rw [stemsFrom, List.flatMap_append, flushedStems_positions]
          exact List.mem_append_left _ hx
      | broken =>
          rw [stemsFrom, List.flatMap_cons]
          exact List.mem_append_right _ (ih hx)

theorem positions_ge {x : Nat} (hx : x ∈ (stemsFrom i nstr ts).flatMap (·.1)) :
    x ∈ nstr.map (·.1) ∨ i ≤ x := by
  induction ts generalizing i nstr with
  | nil =>
      rw [stemsFrom, flushedStems_positions] at hx
      exact .inl hx
  | cons t ts ih =>
      cases t with
      | text b =>
          rcases ih hx with hx | hx
          · rw [List.map_append, List.mem_append, List.map_singleton, List.mem_singleton] at hx
            exact hx.imp_right fun h => h.ge
          · exact .inr (by omega)
      | item name fmt =>
          rw [stemsFrom, List.flatMap_append, flushedStems_positions, List.flatMap_cons,
            List.mem_append, List.mem_append, List.mem_range'_1] at hx
          rcases hx with hx | hx | hx
          · exact .inl hx
          · exact .inr hx.1
          · rcases ih hx with hx | hx
            · cases hx
            · exact .inr (by omega)
      | broken =>
          rw [stemsFrom, List.flatMap_cons, List.singleton_append, List.mem_cons] at hx
          rcases hx with rfl | hx
          · exact .inr le_rfl
          · exact (ih hx).imp_right fun h => by omega

theorem sorted_snoc (b : UInt8) (hsorted : (nstr.map (·.1)).Pairwise (· < ·))
    (hlt : ∀ x ∈ nstr.map (·.1), x < i) :
    ((nstr ++ [(i, b)]).map (·.1)).Pairwise (· < ·) ∧
      ∀ x ∈ (nstr ++ [(i, b)]).map (·.1), x < i + 1 := by
  rw [List.map_append, List.pairwise_append]
  refine ⟨⟨hsorted, List.pairwise_singleton .., fun x hx y hy => ?_⟩, fun x hx => ?_⟩
  · obtain rfl := List.mem_singleton.mp hy
    exact hlt x hx
  · rcases List.mem_append.mp hx with hx | hx
    · exact Nat.lt_succ_of_lt (hlt x hx)
    · obtain rfl := List.mem_singleton.mp hx
      exact Nat.lt_succ_self _

/-- With the text before `i` pending, the positions go up if no text is
overtaken by an open item. -/
theorem pairwise_stemsFrom (hsorted : (nstr.map (·.1)).Pairwise (· < ·))
    (hlt : ∀ x ∈ nstr.map (·.1), x < i) :
    ((stemsFrom i nstr ts).flatMap (·.1)).Pairwise (· < ·) ↔
      (nstr ≠ [] → ts.head? ≠ some .broken) ∧
        ts.IsChain fun t u => ¬(t.isText = true ∧ u = .broken) := by
  have hnone : (([] : List (Nat × UInt8)).map (·.1)).Pairwise (· < ·) := .nil
  have hbelow {j : Nat} : ∀ x ∈ ([] : List (Nat × UInt8)).map (·.1), x < j := by simp
  have hfree {p : Prop} : ([] : List (Nat × UInt8)) ≠ [] → p := fun h => absurd rfl h
  have hge {j x : Nat} {us : List Token} (hx : x ∈ (stemsFrom j [] us).flatMap (·.1)) : j ≤ x :=
    (positions_ge hx).resolve_left (by simp)
  induction ts generalizing i nstr with
  | nil =>
      rw [stemsFrom, flushedStems_positions]
      simp [hsorted]
  | cons t ts ih =>
      rw [List.isChain_cons]
      cases t with
      | text b =>
          obtain ⟨hsorted', hlt'⟩ := sorted_snoc b hsorted hlt
          rw [stemsFrom]
          refine (ih hsorted' hlt').trans ?_
          cases ts <;> simp [Token.isText]
      | item name fmt =>
          have hrest := (ih (i := i + width name fmt + 1) hnone hbelow).trans (and_iff_right hfree)
          rw [stemsFrom, List.flatMap_append, flushedStems_positions, List.flatMap_cons,
            List.pairwise_append, List.pairwise_append, hrest]
          constructor
          · rintro ⟨-, ⟨-, hchain, -⟩, -⟩
            exact ⟨fun _ => by simp, fun _ _ h => Bool.false_ne_true h.1, hchain⟩
          · rintro ⟨-, -, hchain⟩
            refine ⟨hsorted, ⟨List.pairwise_lt_range', hchain, ?_⟩, ?_⟩
            · intro x hx y hy
              have hx := (List.mem_range'_1.mp hx).2
              have hy := hge hy
              omega
            · intro x hx y hy
              have hx := hlt x hx
              rcases List.mem_append.mp hy with hy | hy
              · exact hx.trans_le (List.mem_range'_1.mp hy).1
              · have hy := hge hy
                omega
      | broken =>
          rw [stemsFrom, List.flatMap_cons, List.singleton_append, List.pairwise_cons]
          by_cases hnil : nstr = []
          · subst hnil
            have hrest := (ih (i := i + 1) hnone hbelow).trans (and_iff_right hfree)
            rw [hrest]
            exact ⟨fun h => ⟨hfree, fun _ _ h => Bool.false_ne_true h.1, h.2⟩,
              fun h => ⟨fun x hx => hge hx, h.2.2⟩⟩
          · obtain ⟨x, hx⟩ := List.exists_mem_of_ne_nil _ hnil
            have hpending := List.mem_map_of_mem (f := (·.1)) hx
            refine iff_of_false ?_ ?_
            · rintro ⟨hall, -⟩
              exact (hall _ (mem_positions_of_pending hpending)).not_gt (hlt _ hpending)
            · rintro ⟨hhead, -⟩
              exact hhead hnil rfl

/-- **The order of the items.** The tokens are the pattern and the stems
those of the entries, whose order is that of the pattern just when no item
with an open brace stands right behind text. -/
theorem ordered_iff (p : Bytes) : (lex p).flatMap Token.source = p ∧
    (stems p).map (·.2) = (scan p).vec ∧
    (Ordered p ↔ (lex p).IsChain fun t u => ¬(t.isText = true ∧ u = .broken)) := by
  refine ⟨lex_source p, stems_entry p, ?_⟩
  rw [Ordered, stems, pairwise_stemsFrom (by simp) (by simp)]
  simp

/-- The entry for an open brace comes before the text in front of it. -/
theorem text_not_ordered : ¬∀ p : Bytes, Ordered p := by
  intro hall
  have hpositions := hall (bytes "a%d\x7b")
  rw [Ordered] at hpositions
  exact absurd hpositions (by decide)

end LogFormatter

end Sylar
