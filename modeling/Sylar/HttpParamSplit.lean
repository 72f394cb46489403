import Sylar.HttpQueryCodec

/-!
# Parameters and their separators

`PARSE_PARAM` looks for the next `=` and then for the next separator. So
a segment without `=` is not passed over, it becomes part of the name
that comes behind it: the pairs are those of the segments if such a
segment comes last (`separated_iff`). A map compares names up to the
first NUL, which is the other condition.
-/

namespace Sylar

open StringUtil

/-- `str.find(c, pos)`, none for `std::string::npos`. -/
def stringFind (str : Bytes) (c : UInt8) (pos : Nat) : Option Nat :=
  ((str.drop pos).findIdx? (· == c)).map (pos + ·)

/-- `str.substr(pos, count)`, none for a `count` that counts on to the end. -/
def substr (str : Bytes) (pos : Nat) : Option Nat → Bytes
  | some count => (str.drop pos).take count
  | none => str.drop pos

namespace MapType

/-- The first of the pairs that have its name. -/
def FirstOf (same : Bytes → Bytes → Prop) : List (Bytes × Bytes) → Bytes × Bytes → Prop
  | [], _ => False
  | p :: pairs, e => e = p ∨ ¬same e.1 p.1 ∧ FirstOf same pairs e

end MapType

/-- The names are equal ignoring case. -/
def SameText (a b : Bytes) : Prop := a.map tolower = b.map tolower

instance decSameText (a b : Bytes) : Decidable (SameText a b) :=
  inferInstanceAs (Decidable (a.map tolower = b.map tolower))

namespace HttpRequest

/-- The loop of `PARSE_PARAM(str, m, flag, trim)` with `pos` as it is: the
pairs that are inserted, none if the turns do not suffice. -/
def parseParamFrom (flag : UInt8) (str : Bytes) : Nat → Nat → Option (List (Bytes × Bytes))
  | 0, _ => none
  | turns + 1, last =>
      match stringFind str 61 last with
      | none => some []
      | some key =>
          let pos := stringFind str flag key
          let pair := (trim (substr str last (some (key - last))) blanks,
            urlDecode true (substr str (key + 1) (pos.map (· - key - 1))))
          match pos with
          | none => some [pair]
          | some pos => (parseParamFrom flag str turns (pos + 1)).map (pair :: ·)

/-- What a segment says. -/
def segmentPair (seg : Bytes) : Option (Bytes × Bytes) :=
  if 61 ∈ seg then
    some (trim (seg.takeWhile (· ≠ 61)) blanks, urlDecode true ((seg.dropWhile (· ≠ 61)).drop 1))
  else none

/-- The pairs of the segments. -/
def splitPairs (flag : UInt8) (str : Bytes) : List (Bytes × Bytes) :=
  (str.splitOn flag).filterMap segmentPair

/-- The separators separate: the loop ends, the pairs are those of the
segments, and the map has the first one of each name. -/
def Separated (flag : UInt8) (str : Bytes) : Prop :=
  ∃ pairs, parseParamFrom flag str (str.length + 1) 0 = some pairs ∧
    pairs = splitPairs flag str ∧
    ∀ e, e ∈ MapType.insertAll [] pairs ↔ MapType.FirstOf SameText (splitPairs flag str) e

/-- Segments without `=` come last, and no two names differ behind a NUL
only. -/
structure Tidy (flag : UInt8) (str : Bytes) : Prop where
  last : (str.splitOn flag).Pairwise fun a b => 61 ∈ b → 61 ∈ a
  names : ∀ e ∈ splitPairs flag str, ∀ e' ∈ splitPairs flag str,
    SameName e.1 e'.1 → SameText e.1 e'.1

/-! ## The loop -/

section

variable {flag : UInt8} {str name value rest : Bytes}

/-- A byte is not there, or what is in front of it is known. -/
theorem cut_at (c : UInt8) (s : Bytes) :
    c ∉ s ∨ ∃ front rest, s = front ++ c :: rest ∧ c ∉ front := by
  by_cases hmem : c ∈ s
  · exact .inr (List.eq_append_cons_of_mem hmem)
  · exact .inl hmem

theorem takeWhile_cut {c : UInt8} (h : c ∉ name) :
    (name ++ c :: rest).takeWhile (· ≠ c) = name := by
  have hall : ∀ b ∈ name, decide (b ≠ c) = true := fun b hb =>
    decide_eq_true fun heq => h (heq ▸ hb)
  rw [List.takeWhile_append_of_pos hall, List.takeWhile_cons_of_neg (by simp), List.append_nil]

theorem dropWhile_cut {c : UInt8} (h : c ∉ name) :
    (name ++ c :: rest).dropWhile (· ≠ c) = c :: rest := by
  have hall : ∀ b ∈ name, decide (b ≠ c) = true := fun b hb =>
    decide_eq_true fun heq => h (heq ▸ hb)
  rw [List.dropWhile_append_of_pos hall, List.dropWhile_cons_of_neg (by simp)]

theorem dropWhile_none {c : UInt8} (h : c ∉ name) : name.dropWhile (· ≠ c) = [] :=
  List.dropWhile_eq_nil_iff.mpr fun _ hb => decide_eq_true fun heq => h (heq ▸ hb)

theorem takeWhile_none {c : UInt8} (h : c ∉ name) : name.takeWhile (· ≠ c) = name :=
  List.takeWhile_eq_self_iff.mpr fun _ hb => decide_eq_true fun heq => h (heq ▸ hb)

/-- What is stored for a name and a value. -/
def pairOf (name value : Bytes) : Bytes × Bytes := (trim name blanks, urlDecode true value)

theorem segmentPair_none (h : 61 ∉ name) : segmentPair name = none := if_neg h

theorem segmentPair_some (h : 61 ∉ name) :
    segmentPair (name ++ 61 :: value) = some (pairOf name value) := by
  rw [segmentPair, if_pos (by simp), takeWhile_cut h, dropWhile_cut h]
  rfl

theorem parseParam_none (fuel : Nat) (h : 61 ∉ str) : parseParam flag fuel str = [] := by
  cases fuel with
  | zero => rfl
  | succ fuel => rw [parseParam, dropWhile_none h]

theorem parseParam_last (fuel : Nat) (hname : 61 ∉ name) (hvalue : flag ∉ value) :
    parseParam flag (fuel + 1) (name ++ 61 :: value) = [pairOf name value] := by
  rw [parseParam_turn fuel (dropWhile_cut hname), takeWhile_cut hname, takeWhile_none hvalue,
    dropWhile_none hvalue, if_pos rfl]
  rfl

theorem parseParam_next (fuel : Nat) (hname : 61 ∉ name) (hvalue : flag ∉ value) :
    parseParam flag (fuel + 1) (name ++ 61 :: (value ++ flag :: rest)) =
      pairOf name value :: parseParam flag fuel rest := by
  rw [parseParam_turn fuel (dropWhile_cut hname), takeWhile_cut hname, takeWhile_cut hvalue,
    dropWhile_cut hvalue, if_neg (List.cons_ne_nil _ _), List.tail_cons]
  rfl

theorem stringFind_none {c : UInt8} {pos : Nat} (h : c ∉ str.drop pos) :
    stringFind str c pos = none := by
  rw [stringFind, List.findIdx?_eq_none_iff.mpr, Option.map_none]
  intro b hb
  rw [beq_eq_false_iff_ne]
  rintro rfl
  exact h hb

theorem stringFind_some {c : UInt8} {pos : Nat} (hdrop : str.drop pos = name ++ c :: rest)
    (h : c ∉ name) : stringFind str c pos = some (pos + name.length) := by
  have hfront : name.findIdx? (· == c) = none := by
    rw [List.findIdx?_eq_none_iff]
    intro b hb
    rw [beq_eq_false_iff_ne]
    rintro rfl
    exact h hb
  rw [stringFind, hdrop, List.findIdx?_append, hfront, Option.none_or, List.findIdx?_cons,
    beq_self_eq_true, if_pos rfl, Option.map_some, Nat.zero_add, Option.map_some]

/-- **The loop ends** with the pairs that `parseParam` has for what is left. -/
theorem parseParamFrom_eq (hflag : flag ≠ 61) : ∀ {turns fuel pos : Nat},
    (str.drop pos).length < turns → (str.drop pos).length ≤ fuel →
    parseParamFrom flag str turns pos = some (parseParam flag fuel (str.drop pos))
  | 0, _, _, h, _ => absurd h (Nat.not_lt_zero _)
  | turns + 1, fuel, pos, hturns, hfuel => by
      obtain hnone | ⟨name, text, hdrop, hname⟩ := cut_at 61 (str.drop pos)
      · rw [parseParamFrom, stringFind_none hnone, parseParam_none fuel hnone]
      have hkey : str.drop (pos + name.length) = 61 :: text := by
        rw [← List.drop_drop, hdrop, List.drop_left]
      have htext : str.drop (pos + name.length + 1) = text := by
        rw [← List.drop_drop, hkey, List.drop_one, List.tail_cons]
      have hfront : substr str pos (some (pos + name.length - pos)) = name := by
        rw [substr, Nat.add_sub_cancel_left, hdrop, List.take_left]
      have hlength : (str.drop pos).length = name.length + (text.length + 1) := by
        rw [hdrop, List.length_append, List.length_cons]
      obtain ⟨fuel, rfl⟩ : ∃ n, fuel = n + 1 := ⟨fuel - 1, by omega⟩
      rw [parseParamFrom, stringFind_some hdrop hname]
      dsimp only
      rw [hfront]
      obtain hnone | ⟨value, rest, hvalue, hflagless⟩ := cut_at flag text
      · have hend : flag ∉ str.drop (pos + name.length) := by
          rw [hkey, List.mem_cons, not_or]
          exact ⟨hflag, hnone⟩
        rw [stringFind_none hend, hdrop, parseParam_last fuel hname hnone, Option.map_none, substr,
          htext]
        rfl
      · have hnext : str.drop (pos + name.length) = (61 :: value) ++ flag :: rest := by
          rw [hkey, hvalue, List.cons_append]
        have hend : flag ∉ 61 :: value := by
          rw [List.mem_cons, not_or]
          exact ⟨hflag, hflagless⟩
        have hrest : str.drop (pos + name.length + (61 :: value).length + 1) = rest := by
          rw [← List.drop_drop, ← List.drop_drop, hnext, List.drop_left, List.drop_one,
            List.tail_cons]
        have hmiddle : pos + name.length + (61 :: value).length - (pos + name.length) - 1 =
            value.length := by
          rw [List.length_cons]
          omega
        have hshort : text.length = value.length + (rest.length + 1) := by
          rw [hvalue, List.length_append, List.length_cons]
        rw [stringFind_some hnext hend, hdrop, hvalue, parseParam_next fuel hname hflagless,
          Option.map_some, hmiddle, substr, htext, hvalue, List.take_left]
        have hloop : parseParamFrom flag str turns (pos + name.length + (61 :: value).length + 1) =
            some (parseParam flag fuel rest) := by
          have hless : (str.drop (pos + name.length + (61 :: value).length + 1)).length ≤ fuel := by
            rw [hrest]
            omega
          rw [parseParamFrom_eq hflag (by rw [hrest]; omega) hless, hrest]
        dsimp only
        rw [hloop]
        rfl

/-- The loop of `queryPairs`, `bodyPairs` and `cookiePairs`. -/
theorem parseParamFrom_all (hflag : flag ≠ 61) (str : Bytes) :
    parseParamFrom flag str (str.length + 1) 0 = some (parseParam flag str.length str) :=
  parseParamFrom_eq hflag (Nat.lt_succ_self _) (Nat.le_refl _)

/-! ## The pairs by segments -/

/-- The pairs, when the segments in front had no `=` and left `front`. -/
def joinedPairs (flag : UInt8) : Bytes → List Bytes → List (Bytes × Bytes)
  | _, [] => []
  | front, seg :: segs =>
      match segmentPair (front ++ seg) with
      | some p => p :: joinedPairs flag [] segs
      | none => joinedPairs flag (front ++ seg ++ [flag]) segs

theorem joinedPairs_some {front seg : Bytes} {segs : List Bytes} {p : Bytes × Bytes}
    (h : segmentPair (front ++ seg) = some p) :
    joinedPairs flag front (seg :: segs) = p :: joinedPairs flag [] segs := by
  rw [joinedPairs, h]

theorem joinedPairs_none {front seg : Bytes} {segs : List Bytes}
    (h : segmentPair (front ++ seg) = none) :
    joinedPairs flag front (seg :: segs) = joinedPairs flag (front ++ seg ++ [flag]) segs := by
  rw [joinedPairs, h]

/-- One segment after the other. -/
theorem parseParam_joined (hflag : flag ≠ 61) : ∀ (n : Nat) {s front : Bytes} {fuel : Nat},
    s.length ≤ n → 61 ∉ front → (front ++ s).length ≤ fuel →
    parseParam flag fuel (front ++ s) = joinedPairs flag front (s.splitOn flag)
  | n, s, front, fuel, hn, hfront, hfuel => by
      have happend : ∀ {a : Bytes}, 61 ∉ a → 61 ∉ front ++ a := fun ha hmem =>
        (List.mem_append.mp hmem).elim hfront ha
      obtain hlast | ⟨seg, rest, rfl, hseg⟩ := cut_at flag s
      · rw [List.splitOn_eq_singleton hlast]
        obtain hnone | ⟨name, value, rfl, hname⟩ := cut_at 61 s
        · rw [parseParam_none fuel (happend hnone),
            joinedPairs_none (segmentPair_none (happend hnone))]
          rfl
        · have hvalue : flag ∉ value := fun hmem => hlast (by simp [hmem])
          obtain ⟨fuel, rfl⟩ : ∃ m, fuel = m + 1 := ⟨fuel - 1, by simp at hfuel; omega⟩
          rw [← List.append_assoc, parseParam_last fuel (happend hname) hvalue, joinedPairs_some]
          · rfl
          · rw [← List.append_assoc, segmentPair_some (happend hname)]
      · rw [List.splitOn_append_cons_self_of_not_mem hseg]
        obtain ⟨n, rfl⟩ : ∃ m, n = m + 1 := ⟨n - 1, by simp at hn; omega⟩
        obtain hnone | ⟨name, value, rfl, hname⟩ := cut_at 61 seg
        · -- the segment and its separator stay in front
          have hstay : 61 ∉ front ++ seg ++ [flag] := by
            simp only [List.mem_append, List.mem_singleton, not_or]
            exact ⟨⟨hfront, hnone⟩, hflag.symm⟩
          have hassoc : front ++ (seg ++ flag :: rest) = front ++ seg ++ [flag] ++ rest := by simp
          rw [joinedPairs_none (segmentPair_none (happend hnone)), hassoc]
          exact parseParam_joined hflag n (by simp at hn; omega) hstay (hassoc ▸ hfuel)
        · have hvalue : flag ∉ value := fun hmem => hseg (by simp [hmem])
          have hassoc : front ++ (name ++ 61 :: value ++ flag :: rest) =
              front ++ name ++ 61 :: (value ++ flag :: rest) := by simp
          obtain ⟨fuel, rfl⟩ : ∃ m, fuel = m + 1 := ⟨fuel - 1, by simp at hfuel; omega⟩
          have hrest : parseParam flag fuel rest = joinedPairs flag [] (rest.splitOn flag) :=
            @parseParam_joined hflag n rest [] fuel (by simp at hn; omega) List.not_mem_nil
              (by simp at hfuel ⊢; omega)
          rw [hassoc, parseParam_next fuel (happend hname) hvalue, hrest, joinedPairs_some]
          rw [← List.append_assoc, segmentPair_some (happend hname)]

theorem mem_trim {b : UInt8} {s delimit : Bytes} (hb : b ∉ delimit) :
    b ∈ trim s delimit ↔ b ∈ s := by
  have hdrop : ∀ s : Bytes, b ∈ s.dropWhile (· ∈ delimit) ↔ b ∈ s := by
    intro s
    refine ⟨fun h => (List.dropWhile_suffix _).subset h, fun h => ?_⟩
    rw [← List.takeWhile_append_dropWhile (p := (· ∈ delimit)) (l := s), List.mem_append] at h
    refine h.resolve_left fun hfront => ?_
    have hin := List.mem_takeWhile_imp hfront
    exact hb (of_decide_eq_true hin)
  rw [trim, List.mem_reverse, hdrop, List.mem_reverse, hdrop]

/-- The name that a pending segment is part of has a separator in it. -/
theorem joinedPairs_pending (hflag : flag ∉ blanks ∧ flag ≠ 61) :
    ∀ {segs : List Bytes} {front : Bytes}, flag ∈ front → 61 ∉ front →
    (∀ seg ∈ segs, flag ∉ seg) →
    (joinedPairs flag front segs = segs.filterMap segmentPair ↔ ∀ seg ∈ segs, 61 ∉ seg)
  | [], _, _, _, _ => by simp [joinedPairs]
  | seg :: segs, front, hmem, hfront, hsegs => by
      have hrest : ∀ seg ∈ segs, flag ∉ seg := fun s hs => hsegs s (List.mem_cons_of_mem _ hs)
      rw [List.forall_mem_cons]
      obtain hnone | ⟨name, value, rfl, hname⟩ := cut_at 61 seg
      · have hstay : 61 ∉ front ++ seg ++ [flag] := by
          simp only [List.mem_append, List.mem_singleton, not_or]
          exact ⟨⟨hfront, hnone⟩, hflag.2.symm⟩
        have hnone' : 61 ∉ front ++ seg := fun h => hstay (List.mem_append_left _ h)
        rw [joinedPairs_none (segmentPair_none hnone'),
          List.filterMap_cons_none (segmentPair_none hnone),
          joinedPairs_pending hflag (by simp) hstay hrest]
        exact (and_iff_right hnone).symm
      · have hnames : 61 ∉ front ++ name := fun h => (List.mem_append.mp h).elim hfront hname
        have hpair : segmentPair (front ++ (name ++ 61 :: value)) =
            some (pairOf (front ++ name) value) := by
          rw [← List.append_assoc, segmentPair_some hnames]
        rw [joinedPairs_some hpair, List.filterMap_cons_some (segmentPair_some hname)]
        refine iff_of_false (fun heq => ?_) fun h => h.1 (by simp)
        have hkey : trim (front ++ name) blanks = trim name blanks :=
          congrArg Prod.fst (List.cons.inj heq).1
        have hin : flag ∈ trim (front ++ name) blanks :=
          (mem_trim hflag.1).mpr (List.mem_append_left _ hmem)
        rw [hkey, mem_trim hflag.1] at hin
        exact hsegs _ (List.mem_cons_self ..) (List.mem_append_left _ hin)

/-- The pairs are those of the segments if the ones without `=` come last. -/
theorem joinedPairs_iff (hflag : flag ∉ blanks ∧ flag ≠ 61) : ∀ {segs : List Bytes},
    (∀ seg ∈ segs, flag ∉ seg) →
    (joinedPairs flag [] segs = segs.filterMap segmentPair ↔
      segs.Pairwise fun a b => 61 ∈ b → 61 ∈ a)
  | [], _ => by simp [joinedPairs]
  | seg :: segs, hsegs => by
      have hrest : ∀ seg ∈ segs, flag ∉ seg := fun s hs => hsegs s (List.mem_cons_of_mem _ hs)
      rw [List.pairwise_cons]
      obtain hnone | ⟨name, value, rfl, hname⟩ := cut_at 61 seg
      · rw [joinedPairs_none (segmentPair_none hnone),
          List.filterMap_cons_none (segmentPair_none hnone),
          joinedPairs_pending hflag (by simp) (by simpa using ⟨hnone, hflag.2.symm⟩) hrest]
        refine ⟨fun h => ⟨fun b hb hin => absurd hin (h b hb), ?_⟩, fun h b hb hin =>
          hnone (h.1 b hb hin)⟩
        exact List.pairwise_of_forall_mem_list fun a _ b hb hin => absurd hin (h b hb)
      · have hin : (61 : UInt8) ∈ name ++ 61 :: value := by simp
        have hpair : segmentPair ([] ++ (name ++ 61 :: value)) = some (pairOf name value) :=
          segmentPair_some hname
        rw [joinedPairs_some hpair, List.filterMap_cons_some (segmentPair_some hname),
          List.cons_inj_right, joinedPairs_iff hflag hrest]
        exact (and_iff_right fun _ _ _ => hin).symm

theorem not_mem_splitOn : ∀ {s seg : Bytes}, seg ∈ s.splitOn flag → flag ∉ seg
  | [], seg, hseg => by
      rw [List.splitOn_nil, List.mem_singleton] at hseg
      rw [hseg]
      exact List.not_mem_nil
  | c :: s, seg, hseg => by
      rw [List.splitOn_cons_eq_if_modifyHead] at hseg
      split at hseg
      · obtain rfl | hseg := List.mem_cons.mp hseg
        · exact List.not_mem_nil
        · exact not_mem_splitOn hseg
      · rename_i hne
        obtain ⟨first, segs, hsplit⟩ := List.exists_cons_of_ne_nil (List.splitOn_ne_nil flag s)
        have hall : ∀ seg ∈ first :: segs, flag ∉ seg := by
          rw [← hsplit]
          exact fun _ => not_mem_splitOn
        rw [hsplit, List.modifyHead_cons] at hseg
        obtain rfl | hseg := List.mem_cons.mp hseg
        · rw [List.mem_cons, not_or]
          exact ⟨fun heq => hne (by simp [heq]), hall first (List.mem_cons_self ..)⟩
        · exact hall seg (List.mem_cons_of_mem _ hseg)

end

end HttpRequest

/-! ## The map -/

namespace MapType

variable {key val : Bytes} {m : MapType} {e : Bytes × Bytes} {pairs : List (Bytes × Bytes)}

theorem mem_insert_iff : ∀ {m : MapType}, m.Ordered →
    (e ∈ m.insert key val ↔ e ∈ m ∨ e = (key, val) ∧ ∀ e' ∈ m, ¬SameName key e'.1)
  | [], _ => by simp [insert]
  | (k, v) :: rest, hm => by
      rw [insert]
      split
      · rename_i hlt
        have hnone : ∀ e' ∈ (k, v) :: rest, ¬SameName key e'.1 :=
          find_eq_none.mp (find_none_of_lt hlt hm SameName.rfl)
        rw [List.mem_cons, or_comm, and_iff_left hnone]
      · rename_i heq
        exact (or_iff_left fun h => h.2 (k, v) (List.mem_cons_self ..) heq).symm
      · rename_i hgt
        rw [List.mem_cons, mem_insert_iff (List.pairwise_cons.mp hm).2, List.mem_cons,
          List.forall_mem_cons, and_iff_right (not_same_of_gt hgt), or_assoc]

theorem mem_insertAll : ∀ {pairs : List (Bytes × Bytes)} {m : MapType}, m.Ordered →
    (e ∈ m.insertAll pairs ↔ e ∈ m ∨ FirstOf SameName pairs e ∧ ∀ e' ∈ m, ¬SameName e.1 e'.1)
  | [], m, _ => by simp [insertAll, FirstOf]
  | p :: pairs, m, hm => by
      have hord : (m.insert p.1 p.2).Ordered := ordered_insert hm
      have hnone : (∀ e' ∈ m.insert p.1 p.2, ¬SameName e.1 e'.1) ↔
          (∀ e' ∈ m, ¬SameName e.1 e'.1) ∧ ¬SameName e.1 p.1 := by
        constructor
        · refine fun h => ⟨fun e' he' => h e' ((mem_insert_iff hm).mpr (.inl he')), fun hsame => ?_⟩
          by_cases hother : ∀ e' ∈ m, ¬SameName p.1 e'.1
          · exact h p ((mem_insert_iff hm).mpr (.inr ⟨rfl, hother⟩)) hsame
          · simp only [not_forall, not_not] at hother
            obtain ⟨e', he', hp⟩ := hother
            exact h e' ((mem_insert_iff hm).mpr (.inl he')) (hsame.trans hp)
        · rintro ⟨hm', hp⟩ e' he'
          obtain he' | ⟨rfl, -⟩ := (mem_insert_iff hm).mp he'
          · exact hm' e' he'
          · exact hp
      rw [insertAll, List.foldl_cons, ← insertAll, mem_insertAll hord, hnone, mem_insert_iff hm,
        FirstOf]
      constructor
      · rintro ((he | ⟨rfl, hfree⟩) | ⟨hfirst, hfree, hother⟩)
        · exact .inl he
        · exact .inr ⟨.inl rfl, hfree⟩
        · exact .inr ⟨.inr ⟨hother, hfirst⟩, hfree⟩
      · rintro (he | ⟨rfl | ⟨hother, hfirst⟩, hfree⟩)
        · exact .inl (.inl he)
        · exact .inl (.inr ⟨rfl, hfree⟩)
        · exact .inr ⟨hfirst, hfree, hother⟩

section

variable {same : Bytes → Bytes → Prop}

theorem FirstOf.mem : ∀ {pairs : List (Bytes × Bytes)}, FirstOf same pairs e → e ∈ pairs
  | _ :: _, .inl h => h ▸ List.mem_cons_self ..
  | _ :: _, .inr h => List.mem_cons_of_mem _ h.2.mem

theorem FirstOf.congr {same' : Bytes → Bytes → Prop} : ∀ {pairs : List (Bytes × Bytes)},
    (∀ e' ∈ pairs, same e.1 e'.1 ↔ same' e.1 e'.1) → (FirstOf same pairs e ↔ FirstOf same' pairs e)
  | [], _ => Iff.rfl
  | p :: pairs, h => by
      rw [FirstOf, FirstOf, h p (List.mem_cons_self ..),
        FirstOf.congr fun e' he' => h e' (List.mem_cons_of_mem _ he')]

theorem exists_firstOf (hsame : Equivalence same) : ∀ {pairs : List (Bytes × Bytes)},
    e ∈ pairs → ∃ e', FirstOf same pairs e' ∧ same e.1 e'.1
  | p :: pairs, he => by
      by_cases hp : same e.1 p.1
      · exact ⟨p, .inl rfl, hp⟩
      obtain rfl | he := List.mem_cons.mp he
      · exact absurd (hsame.refl _) hp
      obtain ⟨e', hfirst, hee⟩ := exists_firstOf hsame he
      exact ⟨e', .inr ⟨fun h => hp (hsame.trans hee h), hfirst⟩, hee⟩

theorem FirstOf.unique (hsame : Equivalence same) {e' : Bytes × Bytes} (hee : same e.1 e'.1) :
    ∀ {pairs : List (Bytes × Bytes)}, FirstOf same pairs e → FirstOf same pairs e' → e = e'
  | _ :: _, .inl h, .inl h' => h.trans h'.symm
  | _ :: _, .inl h, .inr h' => absurd (h ▸ hsame.symm hee) h'.1
  | _ :: _, .inr h, .inl h' => absurd (h' ▸ hee) h.1
  | _ :: _, .inr h, .inr h' => FirstOf.unique hsame hee h.2 h'.2

end

end MapType

theorem equivalence_sameName : Equivalence SameName :=
  ⟨fun _ => SameName.rfl, SameName.symm, SameName.trans⟩

theorem equivalence_sameText : Equivalence SameText :=
  ⟨fun _ => rfl, Eq.symm, Eq.trans⟩

theorem SameText.sameName {a b : Bytes} (h : SameText a b) : SameName a b := by
  have hzero : ∀ c : UInt8, (tolower c = 0) = (c = 0) := by decide +kernel
  have hfold : ∀ s : Bytes, (cStr s).map tolower = (s.map tolower).takeWhile (· ≠ 0) := by
    intro s
    rw [cStr, List.takeWhile_map]
    congr 2
    funext c
    simp [hzero]
  rw [sameName_iff, hfold, hfold, h]

namespace HttpRequest

variable {flag : UInt8} {str : Bytes}

/-- The map has the first pair of each name if the names that it does not
tell apart are equal. -/
theorem firstOf_iff {pairs : List (Bytes × Bytes)} :
    (∀ e, e ∈ MapType.insertAll [] pairs ↔ MapType.FirstOf SameText pairs e) ↔
      ∀ e ∈ pairs, ∀ e' ∈ pairs, SameName e.1 e'.1 → SameText e.1 e'.1 := by
  have hmem : ∀ e, e ∈ MapType.insertAll [] pairs ↔ MapType.FirstOf SameName pairs e := by
    intro e
    rw [MapType.mem_insertAll List.Pairwise.nil]
    simp
  simp only [hmem]
  constructor
  · intro h e he e' he' hsame
    obtain ⟨first, hfirst, htext⟩ := MapType.exists_firstOf equivalence_sameText he
    obtain ⟨first', hfirst', htext'⟩ := MapType.exists_firstOf equivalence_sameText he'
    have hboth : SameName first.1 first'.1 :=
      (htext.sameName.symm.trans hsame).trans htext'.sameName
    obtain rfl := MapType.FirstOf.unique equivalence_sameName hboth ((h first).mpr hfirst)
      ((h first').mpr hfirst')
    exact htext.trans htext'.symm
  · intro h e
    constructor
    · intro hfirst
      exact (MapType.FirstOf.congr fun e' he' =>
        ⟨h e hfirst.mem e' he', SameText.sameName⟩).mp hfirst
    · intro hfirst
      exact (MapType.FirstOf.congr fun e' he' =>
        ⟨h e hfirst.mem e' he', SameText.sameName⟩).mpr hfirst

/-- **When the separators separate.** -/
theorem separated_iff (hflag : flag = 38 ∨ flag = 59) (str : Bytes) :
    Separated flag str ↔ Tidy flag str := by
  have hplain : flag ∉ blanks ∧ flag ≠ 61 := by
    obtain rfl | rfl := hflag <;> decide
  have hjoined : parseParam flag str.length ([] ++ str) = joinedPairs flag [] (str.splitOn flag) :=
    parseParam_joined hplain.2 str.length (Nat.le_refl _) List.not_mem_nil (Nat.le_refl _)
  have hloop : parseParamFrom flag str (str.length + 1) 0 =
      some (joinedPairs flag [] (str.splitOn flag)) :=
    (parseParamFrom_all hplain.2 str).trans (congrArg some hjoined)
  have hsegs : ∀ seg ∈ str.splitOn flag, flag ∉ seg := fun _ => not_mem_splitOn
  have hpairs := joinedPairs_iff hplain hsegs
  constructor
  · rintro ⟨pairs, hrun, heq, hmap⟩
    obtain rfl := Option.some.inj (hloop.symm.trans hrun)
    rw [heq] at hmap
    exact ⟨hpairs.mp heq, firstOf_iff.mp hmap⟩
  · intro h
    exact ⟨splitPairs flag str, hloop.trans (congrArg some (hpairs.mpr h.last)), rfl,
      firstOf_iff.mpr h.names⟩

/-- The first `a` counts, and `d` says nothing. -/
theorem separated_iff_plain :
    Separated 38 (bytes "a=1&A=2&c=%41&d") :=
  (separated_iff (.inl rfl) _).mpr ⟨by decide, by decide⟩

/-- The name that is read is `a&b`. -/
theorem not_separated : ¬∀ (flag : UInt8) (str : Bytes), flag = 38 ∨ flag = 59 →
    Separated flag str := by
  intro h
  obtain ⟨pairs, hrun, heq, -⟩ := h 38 (bytes "a&b=c") (.inl rfl)
  have hread : parseParamFrom 38 (bytes "a&b=c") ((bytes "a&b=c").length + 1) 0 =
      some [(bytes "a&b", bytes "c")] := by decide
  have hsplit : splitPairs 38 (bytes "a&b=c") = [(bytes "b", bytes "c")] := by decide
  rw [hread, Option.some_inj, heq, hsplit] at hrun
  exact absurd hrun (by decide)

end HttpRequest

end Sylar
