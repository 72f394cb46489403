import Mathlib.Data.List.TakeWhile
import Mathlib.Data.Nat.Digits.Lemmas
import Sylar.HttpSegments

/-!
# The parts of a header block

What the request machine does with a text that is in the grammar, part
by part: the method, the target with its path, query and fragment, the
version, a header, the empty line. `Reads` says that the parser comes
from one position of the buffer to another; what it has then is written
out, up to the positions it has marked.

In front of that, the two things the parsed headers are used for: the
header map, whose keys ignore case, and `stold`, which reads the length
that `os <<` has written.
-/

namespace Sylar

open Scanner

/-! ## Header names -/

theorem strcasecmp_eq_iff : ∀ {a b : Bytes},
    strcasecmp a b = .eq ↔ a.map tolower = b.map tolower
  | [], [] => by simp [strcasecmp]
  | [], _ :: _ => by simp [strcasecmp]
  | _ :: _, [] => by simp [strcasecmp]
  | a :: as, b :: bs => by
      rw [strcasecmp, List.map_cons, List.map_cons, List.cons.injEq]
      split
      · rename_i hlt
        exact ⟨nofun, fun h => absurd hlt (h.1 ▸ UInt8.lt_irrefl _)⟩
      · split
        · rename_i hlt
          exact ⟨nofun, fun h => absurd hlt (h.1 ▸ UInt8.lt_irrefl _)⟩
        · rename_i hle hge
          have heq : tolower a = tolower b :=
            UInt8.le_antisymm (UInt8.not_lt.mp hge) (UInt8.not_lt.mp hle)
          rw [strcasecmp_eq_iff]
          exact ⟨fun h => ⟨heq, h⟩, fun h => h.2⟩

theorem cStr_self {s : Bytes} (h : (0 : UInt8) ∉ s) : cStr s = s := by
  rw [cStr, List.takeWhile_eq_self_iff]
  intro c hc
  rw [decide_eq_true_eq]
  rintro rfl
  exact h hc

/-- The names are the same, ignoring case. -/
def SameName (a b : Bytes) : Prop := strcasecmp (cStr a) (cStr b) = .eq

instance (a b : Bytes) : Decidable (SameName a b) := inferInstanceAs (Decidable (_ = _))

theorem sameName_iff {a b : Bytes} :
    SameName a b ↔ (cStr a).map tolower = (cStr b).map tolower := strcasecmp_eq_iff

theorem SameName.rfl {a : Bytes} : SameName a a := sameName_iff.mpr (Eq.refl _)

theorem SameName.symm {a b : Bytes} (h : SameName a b) : SameName b a :=
  sameName_iff.mpr (sameName_iff.mp h).symm

theorem SameName.trans {a b c : Bytes} (h : SameName a b) (h' : SameName b c) : SameName a c :=
  sameName_iff.mpr ((sameName_iff.mp h).trans (sameName_iff.mp h'))

namespace MapType

theorem find_cons (e : Bytes × Bytes) (m : MapType) (key : Bytes) :
    find (e :: m) key = if SameName key e.1 then some e.2 else m.find key := by
  by_cases h : SameName key e.1
  · rw [if_pos h, find, List.find?_cons_of_pos (by exact decide_eq_true h)]
    rfl
  · rw [if_neg h, find, List.find?_cons_of_neg (by simpa [SameName] using h)]
    rfl

theorem find_set {key val key' : Bytes} : ∀ {m : MapType},
    (m.set key val).find key' = if SameName key' key then some val else m.find key'
  | [] => find_cons (key, val) [] key'
  | (k, v) :: rest => by
      rw [set]
      split
      · exact find_cons (key, val) ((k, v) :: rest) key'
      · rename_i heq
        have hsame : SameName key k := heq
        rw [find_cons, find_cons]
        by_cases h : SameName key' key
        · rw [if_pos h, if_pos (h.trans hsame)]
        · have hk : ¬SameName key' k := fun hk => h (hk.trans hsame.symm)
          rw [if_neg h, if_neg hk, if_neg hk]
      · rename_i hgt
        have hne : ¬SameName key k := fun h => by rw [SameName, hgt] at h; cases h
        rw [find_cons, find_set, find_cons]
        by_cases hk : SameName key' k
        · have h : ¬SameName key' key := fun h => hne (h.symm.trans hk)
          rw [if_pos hk, if_pos hk, if_neg h]
        · rw [if_neg hk, if_neg hk]

/-- The headers of a message, one after the other. -/
def setAll (m : MapType) (fields : List (Bytes × Bytes)) : MapType :=
  fields.foldl (fun m e => m.set e.1 e.2) m

theorem find_setAll_other {key : Bytes} : ∀ {fields : List (Bytes × Bytes)} {m : MapType},
    (∀ e ∈ fields, ¬SameName key e.1) → (m.setAll fields).find key = m.find key
  | [], _, _ => rfl
  | e :: fields, m, h => by
      have hrest := find_setAll_other (m := m.set e.1 e.2) fun e' he' =>
        h e' (List.mem_cons_of_mem _ he')
      rw [find_set, if_neg (h e (List.mem_cons_self ..))] at hrest
      exact hrest

theorem find_setAll {e : Bytes × Bytes} : ∀ {fields : List (Bytes × Bytes)} {m : MapType},
    fields.Pairwise (fun a b => ¬SameName a.1 b.1) → e ∈ fields →
    (m.setAll fields).find e.1 = some e.2
  | e' :: fields, m, hdistinct, he => by
      obtain ⟨hhead, htail⟩ := List.pairwise_cons.mp hdistinct
      rcases List.mem_cons.mp he with rfl | he
      · have hother := find_setAll_other (m := m.set e.1 e.2) hhead
        rw [find_set, if_pos SameName.rfl] at hother
        exact hother
      · have hrest := find_setAll (m := m.set e'.1 e'.2) htail he
        exact hrest

end MapType

/-! ## Decimal numbers -/

def decimalDigits (n : Nat) : List Nat := if n = 0 then [0] else (Nat.digits 10 n).reverse

theorem decimal_eq (n : Nat) :
    decimal n = (decimalDigits n).map fun d => UInt8.ofNat (48 + d) := by
  unfold decimal decimalDigits
  split <;> rfl

theorem decimalDigits_lt {n d : Nat} (h : d ∈ decimalDigits n) : d < 10 := by
  unfold decimalDigits at h
  split at h
  · rw [List.mem_singleton.mp h]
    decide
  · exact Nat.digits_lt_base (by decide) (List.mem_reverse.mp h)

theorem ofDigits_decimalDigits (n : Nat) : ofDigits 10 (decimalDigits n) = n := by
  unfold decimalDigits ofDigits
  split
  · rename_i h
    rw [h]
    rfl
  · have hfold := Nat.ofDigits_digits 10 n
    rw [Nat.ofDigits_eq_foldr] at hfold
    rw [List.foldl_reverse]
    calc (Nat.digits 10 n).foldr (fun d v => v * 10 + d) 0
        = (Nat.digits 10 n).foldr (fun d v => (d : Nat) + 10 * v) 0 := by
          congr 1
          funext d v
          omega
      _ = n := hfold

theorem digits_map {ds : List Nat} (h : ∀ d ∈ ds, d < 10) :
    digits 10 (ds.map fun d => UInt8.ofNat (48 + d)) = (ds, []) := by
  have hdigit : ∀ d < 10, digit (UInt8.ofNat (48 + d)) = some d := by decide
  induction ds with
  | nil => rfl
  | cons d ds ih =>
      have hd := h d (List.mem_cons_self ..)
      rw [List.map_cons, digits, hdigit d hd, ih fun d' hd' => h d' (List.mem_cons_of_mem _ hd')]
      exact if_pos hd

theorem decimal_range {n : Nat} {b : UInt8} (h : b ∈ decimal n) : 48 ≤ b ∧ b ≤ 57 := by
  have hrange : ∀ d < 10, 48 ≤ UInt8.ofNat (48 + d) ∧ UInt8.ofNat (48 + d) ≤ 57 := by decide
  rw [decimal_eq] at h
  obtain ⟨d, hd, rfl⟩ := List.mem_map.mp h
  exact hrange d (decimalDigits_lt hd)

theorem decimal_ne_nil (n : Nat) : decimal n ≠ [] := by
  rw [decimal_eq, Ne, List.map_eq_nil_iff, decimalDigits]
  split
  · exact List.cons_ne_nil 0 []
  · rename_i h
    rw [List.reverse_eq_nil_iff, Nat.digits_eq_nil_iff_eq_zero]
    exact h

/-- A text of decimal digits. -/
def IsDecimal (v : Bytes) : Prop := v ≠ [] ∧ ∀ b ∈ v, 48 ≤ b ∧ b ≤ 57

/-- The number that it stands for. -/
def decimalValue (v : Bytes) : Nat := v.foldl (fun n b => n * 10 + (b.toNat - 48)) 0

/-- The digits, and what they are not for `strtol` and `stold`. -/
theorem decimal_digit : ∀ b : UInt8,
    (48 ≤ b ∧ b ≤ 57 → (digit b = some (b.toNat - 48) ∧ b.toNat - 48 < 10) ∧
      b ≠ 0 ∧ isspace b = false ∧ b ≠ 45 ∧ b ≠ 43 ∧
      tolower b ≠ 105 ∧ tolower b ≠ 110 ∧ tolower b ≠ 120 ∧ b ≠ 46) ∧
    (¬(48 ≤ b ∧ b ≤ 57) → (digit b).all (10 ≤ ·) = true) := by
  decide +kernel

/-- The digits end where something else begins. -/
theorem digits_decimal_append {rest : Bytes}
    (hrest : ∀ b w, rest = b :: w → ¬(48 ≤ b ∧ b ≤ 57)) {v : Bytes}
    (h : ∀ b ∈ v, 48 ≤ b ∧ b ≤ 57) :
    digits 10 (v ++ rest) = (v.map fun b => b.toNat - 48, rest) := by
  induction v with
  | nil =>
      cases rest with
      | nil => rfl
      | cons b w =>
          have hall := (decimal_digit b).2 (hrest b w rfl)
          rw [List.nil_append, digits]
          cases hd : digit b with
          | none => rfl
          | some d =>
              rw [hd] at hall
              have hle : 10 ≤ d := of_decide_eq_true hall
              exact if_neg (Nat.not_lt.mpr hle)
  | cons b v ih =>
      obtain ⟨hvalue, hlt⟩ := ((decimal_digit b).1 (h b (List.mem_cons_self ..))).1
      rw [List.cons_append, digits, hvalue, ih fun b' hb' => h b' (List.mem_cons_of_mem _ hb')]
      exact if_pos hlt

theorem digits_decimal {v : Bytes} (h : ∀ b ∈ v, 48 ≤ b ∧ b ≤ 57) :
    digits 10 v = (v.map fun b => b.toNat - 48, []) := by
  have happend := digits_decimal_append (fun b w hnil => absurd hnil (List.cons_ne_nil b w).symm) h
  rwa [List.append_nil] at happend

theorem ofDigits_decimal (v : Bytes) : ofDigits 10 (v.map fun b => b.toNat - 48) = decimalValue v :=
  List.foldl_map

theorem decimalValue_decimal (n : Nat) : decimalValue (decimal n) = n := by
  have hvalue := digits_decimal fun b (hb : b ∈ decimal n) => decimal_range hb
  have hdigits : digits 10 (decimal n) = (decimalDigits n, []) := by
    rw [decimal_eq]
    exact digits_map fun d hd => decimalDigits_lt hd
  have hsame : decimalDigits n = (decimal n).map fun b => b.toNat - 48 :=
    congrArg Prod.fst (hdigits.symm.trans hvalue)
  rw [← ofDigits_decimal, ← hsame, ofDigits_decimalDigits]

/-- An integer below 2 ^ 64 is in the normal range of a `long double`. -/
theorem normal_natCast {n : Nat} (h : n < 2 ^ 64) :
    ¬((2 : ℚ) ^ 16384 ≤ n ∨ 0 < (n : ℚ) ∧ (n : ℚ) < 1 / (2 : ℚ) ^ 16382) := by
  have hlarge : ¬(2 : ℚ) ^ 16384 ≤ n := by
    refine not_le.mpr (lt_of_lt_of_le (b := (2 : ℚ) ^ 64) ?_
      (pow_le_pow_right₀ one_le_two (by decide)))
    exact_mod_cast h
  have hsmall : ¬(0 < (n : ℚ) ∧ (n : ℚ) < 1 / (2 : ℚ) ^ 16382) := by
    rintro ⟨hpos, hlt⟩
    have hone : (1 : ℚ) ≤ n := by
      have hposNat : 0 < n := by exact_mod_cast hpos
      exact_mod_cast hposNat
    have hinv : 1 / (2 : ℚ) ^ 16382 ≤ 1 :=
      div_le_one_of_le₀ (one_le_pow₀ one_le_two) (pow_nonneg zero_le_two _)
    exact absurd (lt_of_lt_of_le hlt hinv) (not_lt.mpr hone)
  exact not_or.mpr ⟨hlarge, hsmall⟩

/-- `stold` reads a text of digits. -/
theorem stold_digits {v : Bytes} (hv : IsDecimal v) (h : decimalValue v < 2 ^ 64) :
    stold v = some (.finite (decimalValue v)) := by
  obtain ⟨hne, hrange⟩ := hv
  obtain ⟨c, cs, hcons⟩ := List.exists_cons_of_ne_nil hne
  have hchar (b : UInt8) (hb : 48 ≤ b ∧ b ≤ 57) := ((decimal_digit b).1 hb).2
  obtain ⟨hzero, hspace, hminus, hplus, hinf, hnan, -, -⟩ := hchar c (hrange c (by simp [hcons]))
  have hstr : cStr v = v := cStr_self fun hmem => (hchar 0 (hrange 0 hmem)).1 rfl
  have hsign : sign ((cStr v).dropWhile isspace) = (false, v) := by
    rw [hstr, hcons, List.dropWhile_cons_of_neg (by rw [hspace]; decide), sign, if_neg hminus,
      if_neg hplus]
  have hword {x : UInt8} (hx : tolower c ≠ x) (xs : Bytes) :
      strncmpEq (v.map tolower) (x :: xs) 3 = false := by
    rw [hcons, List.map_cons, strncmpEq]
    simp [hx]
  have hhex : hexFloatPrefix v = none := by
    unfold hexFloatPrefix
    split
    · exact absurd rfl (hchar 46 (hrange 46 (by simp))).2.2.2.2.2.2.2
    · unfold hexPrefix
      split
      · rename_i x d bs hnot
        have hx := (hchar x (hrange x (by simp))).2.2.2.2.2.2.1
        rw [if_neg fun h => hx h.1]
      · rfl
  have hmap : v.map (fun b => b.toNat - 48) ≠ [] := fun h => hne (List.map_eq_nil_iff.mp h)
  have hscaled : scaled 10 10 101 v = some (decimalValue v : ℚ) := by
    rw [scaled, digits_decimal hrange]
    simp only [List.append_nil]
    rw [if_neg fun h => hmap h.1, ofDigits_decimal]
    simp
  have hround : BinaryFloat.toBinary 64 (decimalValue v : ℚ) = decimalValue v :=
    BinaryFloat.toBinary_natCast h
  rw [stold, hsign]
  simp only
  rw [show bytes "inf" = [105, 110, 102] from rfl, hword hinf,
    show bytes "nan" = [110, 97, 110] from rfl, hword hnan]
  simp only [hhex, hscaled, hround]
  rw [if_neg Bool.false_ne_true, if_neg Bool.false_ne_true,
    if_neg (normal_natCast h), if_neg Bool.false_ne_true]

/-- `stold` reads what `os <<` writes. -/
theorem stold_decimal {n : Nat} (h : n < 2 ^ 64) : stold (decimal n) = some (.finite n) := by
  have hread := stold_digits ⟨decimal_ne_nil n, fun _ => decimal_range⟩
    (by rwa [decimalValue_decimal])
  rwa [decimalValue_decimal] at hread

/-! ## What the grammar takes -/

/-- A byte of a token: ASCII, neither a control character nor a
separator. -/
def isTokenChar (b : UInt8) : Bool :=
  33 ≤ b && b < 127 && !(bytes "()<>@,;:\\\"/[]?=\x7b\x7d").contains b

/-- A byte that is no control character. -/
def isValueChar (b : UInt8) : Bool := 32 ≤ b && b != 127

/-- `pchar | "/" | "?"`, unless it is `pct_encoded`. -/
def isUriChar (relaxed : Bool) (b : UInt8) : Bool :=
  128 ≤ b || 48 ≤ b && b ≤ 57 || 65 ≤ b && b ≤ 90 || 97 ≤ b && b ≤ 122 ||
    (bytes "-._~!$&'()*+,;=:@/?").contains b || relaxed && (bytes "^\x7b\x7d").contains b

/-- `( pchar | "/" | "?" )*`: a query, or a fragment. -/
inductive UriText (relaxed : Bool) : Bytes → Prop
  | nil : UriText relaxed []
  | char {b : UInt8} {rest : Bytes} : isUriChar relaxed b = true → UriText relaxed rest →
      UriText relaxed (b :: rest)
  | pctEncoded {a b : UInt8} {rest : Bytes} : isXdigit a = true → isXdigit b = true →
      UriText relaxed rest → UriText relaxed (37 :: a :: b :: rest)

namespace Http11

/-- A path that begins with `/`: from the state behind the `/` the
machine comes without an action to one where the path may end. -/
def Path (relaxed : Bool) (path : Bytes) : Prop :=
  ∃ rest cs, path = 47 :: rest ∧ walk (machine relaxed) 33 rest = some cs ∧
    move (machine relaxed) cs 32 = some ([.requestPath, .requestUri], 4)

variable {relaxed : Bool} {cs : Nat} {b : UInt8}

variable (relaxed cs) in
theorem move_row : (∀ b, move (machine relaxed) cs b = none) ∨
    ∃ row ∈ states relaxed, ∀ b, move (machine relaxed) cs b = move (fun _ => row.2) cs b := by
  unfold move next machine
  split
  · rename_i row hrow
    exact .inr ⟨row, List.mem_of_find?_eq_some hrow, fun _ => rfl⟩
  · exact .inl fun _ => rfl

/-- Where a path may end, it may be followed by a query or a fragment. -/
theorem path_end (h : move (machine relaxed) cs 32 = some ([.requestPath, .requestUri], 4)) :
    move (machine relaxed) cs 63 = some ([.requestPath], 29) ∧
      move (machine relaxed) cs 35 = some ([.requestPath, .requestUri], 20) := by
  have hall : ∀ relaxed, ∀ row ∈ states relaxed,
      move (fun _ => row.2) 0 32 = some ([.requestPath, .requestUri], 4) →
      move (fun _ => row.2) 0 63 = some ([.requestPath], 29) ∧
        move (fun _ => row.2) 0 35 = some ([.requestPath, .requestUri], 20) := by
    decide +kernel
  rcases move_row relaxed cs with hnone | ⟨row, hrow, heq⟩
  · rw [hnone] at h
    cases h
  · rw [heq] at h ⊢
    rw [heq]
    exact hall relaxed row hrow h

/-- The bytes of names, values and escapes are on the edges. -/
theorem char_takes : ∀ b,
    (isTokenChar b = true → (go nameFirst 14).takes b = true ∧ (go nameChar 14).takes b = true) ∧
    (isValueChar b = true →
      (b = 32 ∨ (go [(1, 8), (11, 12), (14, 31), (33, 126), (128, 255)] 16).takes b = true) ∧
        (go [(1, 9), (11, 12), (14, 126), (128, 255)] 16).takes b = true) ∧
    (isXdigit b = true → (go xdigit 4).takes b = true) := by
  decide +kernel

variable (relaxed) in
theorem move_token (h : isTokenChar b = true) :
    move (machine relaxed) 13 b = some ([.startField], 14) ∧
      move (machine relaxed) 14 b = some ([], 14) := by
  obtain ⟨hfirst, hnext⟩ := (char_takes b).1 h
  have hrow : machine relaxed 13 = ⟨nameFirst, [.startField], 14⟩ :: _ := rfl
  have hrow' : machine relaxed 14 = go nameChar 14 :: _ := rfl
  exact ⟨move_head hrow hfirst, move_head hrow' hnext⟩

variable (relaxed) in
theorem move_value (h : isValueChar b = true) :
    (b = 32 ∨ move (machine relaxed) 15 b = some ([.startValue], 16)) ∧
      move (machine relaxed) 16 b = some ([], 16) := by
  obtain ⟨hfirst, hnext⟩ := (char_takes b).2.1 h
  have hrow : machine relaxed 15 =
      ⟨[(1, 8), (11, 12), (14, 31), (33, 126), (128, 255)], [.startValue], 16⟩ :: _ := rfl
  have hrow' : machine relaxed 16 = go [(1, 9), (11, 12), (14, 126), (128, 255)] 16 :: _ := rfl
  exact ⟨hfirst.imp_right (move_head hrow), move_head hrow' hnext⟩

/-- The states that read a query or a fragment: before its first byte,
behind a byte, and in an escape. -/
structure TextStates (relaxed : Bool) (a : HttpAction) (first loop esc esc' : Nat) : Prop where
  char : ∀ b, isUriChar relaxed b = true →
    move (machine relaxed) first b = some ([a], loop) ∧
      move (machine relaxed) loop b = some ([], loop)
  pct : move (machine relaxed) first 37 = some ([a], esc) ∧
    move (machine relaxed) loop 37 = some ([], esc)
  digits : ∀ b, isXdigit b = true →
    move (machine relaxed) esc b = some ([], esc') ∧
      move (machine relaxed) esc' b = some ([], loop)

/-- What the edges of both are on. -/
def uriChars (relaxed : Bool) : List (Nat × Nat) :=
  queryChar ++ if relaxed then moreDelims else []

theorem uriChar_takes : ∀ relaxed b, isUriChar relaxed b = true →
    (go (one 32) 4).takes b = false ∧ (go (uriChars relaxed) 4).takes b = true := by
  decide +kernel

theorem textStates {a : HttpAction} {first loop esc esc' : Nat} {acts acts' : List HttpAction}
    {more more' : List (Edge HttpAction)}
    (hfirst : machine relaxed first =
      ⟨one 32, acts, 4⟩ :: ⟨uriChars relaxed, [a], loop⟩ :: more)
    (hloop : machine relaxed loop = ⟨one 32, acts', 4⟩ :: go (uriChars relaxed) loop :: more')
    (hesc : machine relaxed esc = [go xdigit esc'])
    (hesc' : machine relaxed esc' = [go xdigit loop])
    (hpct : move (machine relaxed) first 37 = some ([a], esc) ∧
      move (machine relaxed) loop 37 = some ([], esc)) :
    TextStates relaxed a first loop esc esc' where
  char b hb := by
    obtain ⟨hskip, htake⟩ := uriChar_takes relaxed b hb
    exact ⟨move_second hfirst hskip htake, move_second hloop hskip htake⟩
  pct := hpct
  digits b hb :=
    ⟨move_head hesc ((char_takes b).2.2 hb), move_head hesc' ((char_takes b).2.2 hb)⟩

theorem queryStates (relaxed : Bool) : TextStates relaxed .startQuery 29 30 31 32 :=
  textStates rfl rfl rfl rfl (by cases relaxed <;> exact ⟨rfl, rfl⟩)

theorem fragmentStates (relaxed : Bool) : TextStates relaxed .mark 20 21 22 23 :=
  textStates rfl rfl rfl rfl (by cases relaxed <;> exact ⟨rfl, rfl⟩)

/-- Where a query may end. -/
theorem query_end (relaxed : Bool) :
    move (machine relaxed) 30 32 = some ([.queryString, .requestUri], 4) ∧
      move (machine relaxed) 30 35 = some ([.queryString, .requestUri], 20) := by
  cases relaxed <;> exact ⟨rfl, rfl⟩

theorem fragment_end (relaxed : Bool) :
    move (machine relaxed) 21 32 = some ([.fragment], 4) := by
  cases relaxed <;> rfl

theorem path_begin (relaxed : Bool) : move (machine relaxed) 3 47 = some ([.mark], 33) := by
  cases relaxed <;> rfl

variable {a : HttpAction} {first loop esc esc' : Nat} {xs : Bytes}

theorem TextStates.walk (h : TextStates relaxed a first loop esc esc') (hxs : UriText relaxed xs) :
    Scanner.walk (machine relaxed) loop xs = some loop := by
  induction hxs with
  | nil => rfl
  | char hb _ ih => rw [walk_cons (h.char _ hb).2, ih]
  | pctEncoded hx hy _ ih =>
      rw [walk_cons h.pct.2, walk_cons (h.digits _ hx).1, walk_cons (h.digits _ hy).2, ih]

end Http11

/-! ## The parts of a header block -/

theorem sub64_add {m n : Nat} (h : n < 2 ^ 64) : sub64 (m + n) m = n := by
  unfold sub64
  omega

theorem str_drop {buffer xs ys : Bytes} {m : Nat} (hlt : buffer.length < 2 ^ 63)
    (h : buffer.drop m = xs ++ ys) : str buffer m (sub64 (m + xs.length) m) = .ok xs := by
  have hle : xs.length ≤ buffer.length := by
    have hlen := congrArg List.length h
    rw [List.length_drop, List.length_append] at hlen
    omega
  rw [sub64_add (by omega), str, if_neg (by omega), h, List.take_left]

namespace HttpRequestParser

variable {relaxed : Bool} {buffer xs ys rest : Bytes} {p cs : Nat} {u v : HttpRequestParser}

/-- The parser that is at position `p` comes to `p'`. -/
abbrev Reads (relaxed : Bool) (buffer : Bytes) (p cs : Nat) (u : HttpRequestParser) (p' cs' : Nat)
    (v : HttpRequestParser) : Prop :=
  Leads (Http11.machine relaxed) Http11.stops (act buffer) buffer p cs u p' cs' v

theorem reads_move {b : UInt8} {bs : Bytes} {cs' : Nat} {as : List HttpAction}
    (h : buffer.drop p = b :: bs) (hmove : move (Http11.machine relaxed) cs b = some (as, cs'))
    (hstop : as.any Http11.stops = false) (hperform : perform (act buffer p) as u = .ok v) :
    Reads relaxed buffer p cs u (p + 1) cs' v :=
  leads_move h hmove hstop hperform

theorem reads_walk {cs' : Nat} (h : buffer.drop p = xs ++ ys)
    (hwalk : walk (Http11.machine relaxed) cs xs = some cs') (u : HttpRequestParser) :
    Reads relaxed buffer p cs u (p + xs.length) cs' u :=
  leads_walk h hwalk u

theorem act_requestPath (hlt : buffer.length < 2 ^ 63) (h : buffer.drop u.parser.mark = xs ++ ys) :
    act buffer (u.parser.mark + xs.length) .requestPath u =
      .ok { u with data := { u.data with path := xs } } := by
  rw [act, notify, str_drop hlt h]
  rfl

theorem act_fragment (hlt : buffer.length < 2 ^ 63) (h : buffer.drop u.parser.mark = xs ++ ys) :
    act buffer (u.parser.mark + xs.length) .fragment u =
      .ok { u with data := { u.data with fragment := xs } } := by
  rw [act, notify, str_drop hlt h]
  rfl

theorem act_queryString {start : Nat} (hlt : buffer.length < 2 ^ 63)
    (hstart : u.parser.queryStart = some start) (h : buffer.drop start = xs ++ ys) :
    act buffer (start + xs.length) .queryString u =
      .ok { u with data := { u.data with query := xs } } := by
  rw [act, notify, hstart]
  simp only
  rw [str_drop hlt h]
  rfl

/-! ### The method -/

theorem method_mem {m : HttpMethod} (h : m ≠ .INVALID_METHOD) :
    ∃ e ∈ httpMethodMap, e.1 = m ∧ httpMethodToString m = bytes e.2 := by
  obtain ⟨e, he⟩ : ∃ e, httpMethodMap.find? (fun e => e.1 = m) = some e := by
    cases m <;> first | exact absurd rfl h | exact ⟨_, rfl⟩
  refine ⟨e, List.mem_of_find?_eq_some he, by simpa using List.find?_some he, ?_⟩
  rw [httpMethodToString, he]

/-- No name of a method begins another. -/
theorem charsToHttpMethod_name {e : HttpMethod × String} (he : e ∈ httpMethodMap) (rest : Bytes) :
    charsToHttpMethod (bytes e.2 ++ 32 :: rest) = e.1 := by
  have hall : ∀ e ∈ httpMethodMap, charsToHttpMethod (bytes e.2 ++ [32]) = e.1 := by
    decide
  rw [charsToHttpMethod_space (b := bytes e.2 ++ [32]) (i := (bytes e.2).length) (by simp)
    (by simp [List.take_append]), hall e he]

variable (relaxed) in
theorem reads_method {m : HttpMethod} (hm : m ≠ .INVALID_METHOD) (hsearch : m ≠ .MSEARCH)
    (h : buffer = httpMethodToString m ++ 32 :: rest) (u : HttpRequestParser) :
    ∃ p parser, Reads relaxed buffer 0 1 u p 3
        ⟨parser, u.error, { u.data with method := m }⟩ ∧ buffer.drop p = rest := by
  have hall : ∀ relaxed, ∀ e ∈ httpMethodMap, e.1 ≠ .MSEARCH →
      move (Http11.machine relaxed) 1 ((bytes e.2).headD 0) = some ([.mark], 2) ∧
        ((walk (Http11.machine relaxed) 2 (bytes e.2).tail).bind fun cs =>
          move (Http11.machine relaxed) cs 32) = some ([.requestMethod], 3) ∧ bytes e.2 ≠ [] := by
    decide
  obtain ⟨e, he, rfl, hname⟩ := method_mem hm
  obtain ⟨hfirst, hrest, hne⟩ := hall relaxed e he hsearch
  obtain ⟨cs, hwalk, hend⟩ := Option.bind_eq_some_iff.mp hrest
  obtain ⟨b, bs, hcons⟩ := List.exists_cons_of_ne_nil hne
  rw [hcons] at hfirst hwalk
  rw [hname, hcons] at h
  have hmethod : charsToHttpMethod (buffer.drop 0) = e.1 := by
    rw [List.drop_zero, h, ← hcons, charsToHttpMethod_name he]
  have hmark := reads_move (p := 0) (u := u) h hfirst rfl rfl
  have hdrop : buffer.drop 1 = bs ++ 32 :: rest := drop_succ (p := 0) h
  have hword := reads_walk hdrop hwalk
    { u with parser := { u.parser with mark := 0 } }
  have hspace := reads_move
    (u := { u with parser := { u.parser with mark := 0 } })
    (v := ⟨{ u.parser with mark := 0 }, u.error, { u.data with method := e.1 }⟩)
    (drop_add_length hdrop) hend rfl (by
      refine perform_cons ?_ []
      rw [act, notify, onRequestMethod]
      simp only
      rw [hmethod, if_neg hm]
      rfl)
  exact ⟨_, _, (hmark.trans hword).trans hspace, drop_succ (drop_add_length hdrop)⟩

/-! ### The target -/

/-- A query or a fragment with something in it. -/
theorem reads_text {a : HttpAction} {first loop esc esc' : Nat}
    (hstates : Http11.TextStates relaxed a first loop esc esc') (hxs : UriText relaxed xs)
    (hne : xs ≠ []) (h : buffer.drop p = xs ++ ys) (hstop : Http11.stops a = false)
    (hact : act buffer p a u = .ok v) :
    Reads relaxed buffer p first u (p + xs.length) loop v := by
  have hperform : perform (act buffer p) [a] u = .ok v := perform_cons hact []
  have hany : [a].any Http11.stops = false := by simp [hstop]
  obtain ⟨b, bs, rfl⟩ := List.exists_cons_of_ne_nil hne
  obtain ⟨cs, hmove, hwalk⟩ : ∃ cs, move (Http11.machine relaxed) first b = some ([a], cs) ∧
      walk (Http11.machine relaxed) cs bs = some loop := by
    cases hxs with
    | char hb hrest => exact ⟨_, (hstates.char _ hb).1, hstates.walk hrest⟩
    | pctEncoded hx hy hrest =>
        refine ⟨_, hstates.pct.1, ?_⟩
        rw [walk_cons (hstates.digits _ hx).1, walk_cons (hstates.digits _ hy).2,
          hstates.walk hrest]
  have hfirst := reads_move h hmove hany hperform
  have hloop := reads_walk (drop_succ h) hwalk v
  rw [add_length_cons]
  exact hfirst.trans hloop

/-- The end of the target, from a state where it may end: the actions
`as` lead to `v`. -/
theorem reads_fragment {fragment : Bytes} {as : List HttpAction} (hlt : buffer.length < 2 ^ 63)
    (hfragment : UriText relaxed fragment)
    (h : buffer.drop p = (if fragment = [] then [] else [35]) ++ fragment ++ 32 :: rest)
    (hspace : move (Http11.machine relaxed) cs 32 = some (as, 4))
    (hhash : move (Http11.machine relaxed) cs 35 = some (as, 20))
    (hstop : as.any Http11.stops = false) (hperform : perform (act buffer p) as u = .ok v)
    (hempty : v.data.fragment = []) :
    ∃ p' parser, Reads relaxed buffer p cs u p' 4
        ⟨parser, v.error, { v.data with fragment := fragment }⟩ ∧ buffer.drop p' = rest := by
  by_cases hnil : fragment = []
  · subst hnil
    have hread := reads_move (u := u) h hspace hstop hperform
    refine ⟨p + 1, v.parser, ?_, drop_succ h⟩
    rw [← hempty]
    exact hread
  · rw [if_neg hnil, List.append_assoc] at h
    have hread := reads_move (u := u) h hhash hstop hperform
    have htext : buffer.drop (p + 1) = fragment ++ 32 :: rest := drop_succ h
    have hmark := reads_text (Http11.fragmentStates relaxed) hfragment hnil htext rfl
      (u := v) (v := { v with parser := { v.parser with mark := p + 1 } }) rfl
    have hend := reads_move (drop_add_length htext)
      (Http11.fragment_end relaxed) rfl
      (perform_cons (act_fragment (u := { v with parser := { v.parser with mark := p + 1 } })
        hlt htext) [])
    exact ⟨_, _, (hread.trans hmark).trans hend, drop_succ (drop_add_length htext)⟩

theorem reads_target {path query fragment : Bytes} (hlt : buffer.length < 2 ^ 63)
    (hpath : Http11.Path relaxed path) (hquery : UriText relaxed query)
    (hfragment : UriText relaxed fragment)
    (h : buffer.drop p = path ++ ((if query = [] then [] else [63]) ++ query ++
      ((if fragment = [] then [] else [35]) ++ fragment ++ 32 :: rest)))
    (hemptyQuery : u.data.query = []) (hempty : u.data.fragment = []) :
    ∃ p' parser, Reads relaxed buffer p 3 u p' 4
        ⟨parser, u.error, { u.data with path := path, query := query, fragment := fragment }⟩ ∧
      buffer.drop p' = rest := by
  obtain ⟨bs, cs, rfl, hwalk, hspace⟩ := hpath
  obtain ⟨hmark, hhash⟩ := Http11.path_end hspace
  have hfirst := reads_move (u := u) h
    (Http11.path_begin relaxed) rfl rfl
  have hrest := reads_walk (drop_succ h) hwalk
    { u with parser := { u.parser with mark := p } }
  have hend := drop_add_length h
  rw [add_length_cons] at hend
  have hact : act buffer (p + 1 + bs.length) .requestPath
      { u with parser := { u.parser with mark := p } } =
        .ok ⟨{ u.parser with mark := p }, u.error, { u.data with path := 47 :: bs }⟩ := by
    have hpath := act_requestPath (u := { u with parser := { u.parser with mark := p } }) hlt h
    rwa [add_length_cons] at hpath
  by_cases hnil : query = []
  · subst hnil
    obtain ⟨p', parser, hread, hdrop⟩ := reads_fragment hlt hfragment hend hspace hhash rfl
      (perform_cons hact [.requestUri]) hempty
    refine ⟨p', parser, ?_, hdrop⟩
    rw [← hemptyQuery]
    exact (hfirst.trans hrest).trans hread
  · rw [if_neg hnil, List.append_assoc] at hend
    have hquestion := reads_move hend hmark rfl (perform_cons hact [])
    have htext : buffer.drop (p + 1 + bs.length + 1) = query ++
        ((if fragment = [] then [] else [35]) ++ fragment ++ 32 :: rest) := drop_succ hend
    have hstart := reads_text (Http11.queryStates relaxed) hquery hnil htext rfl
      (u := ⟨{ u.parser with mark := p }, u.error, { u.data with path := 47 :: bs }⟩)
      (v := ⟨{ u.parser with mark := p, queryStart := some (p + 1 + bs.length + 1) }, u.error,
        { u.data with path := 47 :: bs }⟩) rfl
    have hquery := act_queryString
      (u := ⟨{ u.parser with mark := p, queryStart := some (p + 1 + bs.length + 1) }, u.error,
        { u.data with path := 47 :: bs }⟩) hlt rfl htext
    obtain ⟨hspace', hhash'⟩ := Http11.query_end relaxed
    obtain ⟨p', parser, hread, hdrop⟩ := reads_fragment hlt hfragment (drop_add_length htext)
      hspace' hhash' rfl (perform_cons hquery [.requestUri]) hempty
    exact ⟨p', parser, (((hfirst.trans hrest).trans hquestion).trans hstart).trans hread, hdrop⟩

/-! ### The version -/

variable (relaxed) in
theorem reads_version {version : Nat} (hversion : version = 0x10 ∨ version = 0x11)
    (h : buffer.drop p = bytes "HTTP/" ++ decimal (version / 16) ++ bytes "." ++
      decimal (version % 16) ++ (HttpRequest.crlf ++ rest)) (u : HttpRequestParser) :
    ∃ p' parser, Reads relaxed buffer p 4 u p' 13
        ⟨parser, u.error, { u.data with version := version }⟩ ∧ buffer.drop p' = rest := by
  have hmoves : ∀ relaxed, move (Http11.machine relaxed) 4 72 = some ([.mark], 5) ∧
      (∀ minor ∈ [48, 49], walk (Http11.machine relaxed) 5 [84, 84, 80, 47, 49, 46, minor] =
        some 12) ∧
      move (Http11.machine relaxed) 12 13 = some ([.httpVersion], 17) ∧
      move (Http11.machine relaxed) 17 10 = some ([], 13) := by
    intro relaxed
    refine ⟨?_, fun minor hminor => ?_, ?_, ?_⟩
    · cases relaxed <;> rfl
    · obtain rfl | hminor := List.mem_cons.mp hminor
      · cases relaxed <;> rfl
      · obtain rfl := List.mem_singleton.mp hminor
        cases relaxed <;> rfl
    · cases relaxed <;> rfl
    · cases relaxed <;> rfl
  obtain ⟨hmark, hwalk, hcr, hlf⟩ := hmoves relaxed
  obtain ⟨minor, hminor, htext, heq⟩ : ∃ minor ∈ [48, 49],
      buffer.drop p = 72 :: ([84, 84, 80, 47, 49, 46, minor] ++ 13 :: 10 :: rest) ∧
      ∀ u : HttpRequestParser, u.onRequestVersion (buffer.drop p) 8 =
        { u with data := { u.data with version := version } } := by
    rcases hversion with rfl | rfl
    · refine ⟨48, by simp, h, fun u => ?_⟩
      rw [h]
      rfl
    · refine ⟨49, by simp, h, fun u => ?_⟩
      rw [h]
      rfl
  have hfirst := reads_move (u := u) htext hmark rfl rfl
  have hrest := reads_walk (drop_succ htext)
    (hwalk minor hminor) { u with parser := { u.parser with mark := p } }
  have hact : act buffer (p + 1 + 7) .httpVersion { u with parser := { u.parser with mark := p } } =
      .ok ⟨{ u.parser with mark := p }, u.error, { u.data with version := version }⟩ := by
    rw [act, notify]
    simp only
    rw [show p + 1 + 7 = p + 8 by omega, sub64_add (by decide), heq]
    rfl
  have hversion := reads_move (drop_add_length (drop_succ htext)) hcr rfl
    (perform_cons hact [])
  have hline := reads_move
    (drop_succ (drop_add_length (drop_succ htext))) hlf rfl
    (u := ⟨{ u.parser with mark := p }, u.error, { u.data with version := version }⟩) rfl
  exact ⟨_, _, ((hfirst.trans hrest).trans hversion).trans hline,
    drop_succ (drop_succ (drop_add_length (drop_succ htext)))⟩

/-! ### A header -/

theorem act_writeField (u : HttpRequestParser) : act buffer p .writeField u =
    .ok { u with parser := { u.parser with fieldLen := sub64 p u.parser.fieldStart } } := by
  rw [act, notify]
  · simp only [HttpParser.act_writeField]
    rfl
  all_goals
    intro h
    cases h

theorem act_writeValue {name value : Bytes} (hlt : buffer.length < 2 ^ 63) (hname : name ≠ [])
    (hfield : buffer.drop u.parser.fieldStart = name ++ xs)
    (hlen : u.parser.fieldLen = name.length)
    (hvalue : buffer.drop u.parser.mark = value ++ ys) :
    act buffer (u.parser.mark + value.length) .writeValue u =
      .ok { u with data := { u.data with headers := u.data.headers.set name value } } := by
  have hpos : name.length ≠ 0 := fun h => hname (List.length_eq_zero_iff.mp h)
  have hstr := str_drop hlt hfield
  have hle := congrArg List.length hfield
  rw [List.length_drop, List.length_append] at hle
  rw [sub64_add (by omega)] at hstr
  rw [act, notify, onRequestHttpField, hlen, if_neg hpos, hstr, str_drop hlt hvalue]
  rfl

/-- Behind the name of a header, with the mark at `mark`. -/
def named (u : HttpRequestParser) (start length mark : Nat) : HttpRequestParser :=
  { u with parser := { u.parser with fieldStart := start, fieldLen := length, mark := mark } }

variable (relaxed) in
theorem reads_header {name value : Bytes} (hlt : buffer.length < 2 ^ 63)
    (hname : name ≠ [] ∧ ∀ b ∈ name, isTokenChar b = true)
    (hvalue : value.head? ≠ some 32 ∧ ∀ b ∈ value, isValueChar b = true)
    (h : buffer.drop p = HttpRequest.dumpHeader (name, value) ++ rest) (u : HttpRequestParser) :
    ∃ p' parser, Reads relaxed buffer p 13 u p' 13
        ⟨parser, u.error, { u.data with headers := u.data.headers.set name value }⟩ ∧
      buffer.drop p' = rest := by
  have hmoves : ∀ relaxed, move (Http11.machine relaxed) 14 58 = some ([.writeField], 15) ∧
      move (Http11.machine relaxed) 15 32 = some ([.startValue], 15) ∧
      move (Http11.machine relaxed) 15 13 = some ([.startValue, .writeValue], 17) ∧
      move (Http11.machine relaxed) 16 13 = some ([.writeValue], 17) ∧
      move (Http11.machine relaxed) 17 10 = some ([], 13) := by
    intro relaxed
    cases relaxed <;> exact ⟨rfl, rfl, rfl, rfl, rfl⟩
  obtain ⟨hcolon, hblank, hnone, hcr, hlf⟩ := hmoves relaxed
  obtain ⟨b, bs, rfl⟩ := List.exists_cons_of_ne_nil hname.1
  have hfield : buffer.drop p = (b :: bs) ++ 58 :: 32 :: (value ++ 13 :: 10 :: rest) := by
    rw [h, HttpRequest.dumpHeader]
    simp [HttpRequest.crlf, show bytes ": " = [58, 32] from rfl]
  obtain ⟨q, hq⟩ : ∃ q, q = p + (b :: bs).length := ⟨_, rfl⟩
  have hqtail : p + 1 + bs.length = q := by
    rw [hq, List.length_cons]
    omega
  have hcolonAt : buffer.drop q = 58 :: 32 :: (value ++ 13 :: 10 :: rest) :=
    hq ▸ drop_add_length hfield
  have hvalueAt := drop_succ (drop_succ hcolonAt)
  -- the name
  have hfirst := reads_move (u := u) hfield
    (Http11.move_token relaxed (hname.2 b (List.mem_cons_self ..))).1 rfl rfl
  have hrest := reads_walk (drop_succ hfield)
    (walk_loop fun b' hb' => (Http11.move_token relaxed
      (hname.2 b' (List.mem_cons_of_mem _ hb'))).2)
    { u with parser := { u.parser with fieldStart := p } }
  rw [hqtail] at hrest
  have hfieldLen : act buffer q .writeField { u with parser := { u.parser with fieldStart := p } } =
      .ok { u with parser :=
        { u.parser with fieldStart := p, fieldLen := (b :: bs).length } } := by
    have hle := congrArg List.length hfield
    rw [List.length_drop, List.length_append] at hle
    rw [act_writeField]
    simp only [hq]
    rw [sub64_add (by omega)]
  have hwritten := reads_move hcolonAt hcolon rfl
    (perform_cons hfieldLen [])
  -- the blank, and the value
  have hspace := reads_move (drop_succ hcolonAt) hblank
    rfl (u := u.named p (b :: bs).length u.parser.mark) (v := u.named p (b :: bs).length (q + 1))
    rfl
  have hhead := ((hfirst.trans hrest).trans hwritten).trans hspace
  have hstart : perform (act buffer (q + 1 + 1)) [.startValue]
      (u.named p (b :: bs).length (q + 1)) = .ok (u.named p (b :: bs).length (q + 1 + 1)) := rfl
  have hvalueAct := act_writeValue (u := u.named p (b :: bs).length (q + 1 + 1)) hlt hname.1 hfield
    rfl hvalueAt
  cases value with
  | nil =>
      have hempty : perform (act buffer (q + 1 + 1)) [.startValue, .writeValue]
          (u.named p (b :: bs).length (q + 1)) = _ := perform_cons hvalueAct []
      have hread := reads_move hvalueAt hnone rfl hempty
      have hline := reads_move (drop_succ hvalueAt) hlf
        rfl (u := { u.named p (b :: bs).length (q + 1 + 1) with
          data := { u.data with headers := u.data.headers.set (b :: bs) [] } }) rfl
      exact ⟨_, _, (hhead.trans hread).trans hline, drop_succ (drop_succ hvalueAt)⟩
  | cons v vs =>
      have hchar (x : UInt8) (hx : x ∈ v :: vs) :=
        Http11.move_value relaxed (hvalue.2 x hx)
      have hv : v ≠ 32 := fun h => hvalue.1 (by rw [h]; rfl)
      have hbegin := reads_move hvalueAt
        ((hchar v (List.mem_cons_self ..)).1.resolve_left hv) rfl hstart
      have hloop := reads_walk (drop_succ hvalueAt)
        (walk_loop fun x hx => (hchar x (List.mem_cons_of_mem _ hx)).2)
        (u.named p (b :: bs).length (q + 1 + 1))
      have hvalueLen : q + 1 + 1 + 1 + vs.length = q + 1 + 1 + (v :: vs).length := by
        rw [List.length_cons]
        omega
      rw [hvalueLen] at hloop
      have hread := reads_move (drop_add_length hvalueAt) hcr rfl
        (perform_cons hvalueAct [])
      have hline := reads_move
        (drop_succ (drop_add_length hvalueAt)) hlf rfl
        (u := { u.named p (b :: bs).length (q + 1 + 1) with
          data := { u.data with headers := u.data.headers.set (b :: bs) (v :: vs) } }) rfl
      exact ⟨_, _, (((hhead.trans hbegin).trans hloop).trans hread).trans hline,
        drop_succ (drop_succ (drop_add_length hvalueAt))⟩

variable (relaxed) in
/-- The headers, one after the other. -/
theorem reads_headers (hlt : buffer.length < 2 ^ 63) : ∀ {fields : List (Bytes × Bytes)} {p : Nat}
    (u : HttpRequestParser),
    (∀ e ∈ fields, (e.1 ≠ [] ∧ ∀ b ∈ e.1, isTokenChar b = true) ∧
      e.2.head? ≠ some 32 ∧ ∀ b ∈ e.2, isValueChar b = true) →
    buffer.drop p = fields.flatMap HttpRequest.dumpHeader ++ rest →
    ∃ p' parser, Reads relaxed buffer p 13 u p' 13
        ⟨parser, u.error, { u.data with headers := u.data.headers.setAll fields }⟩ ∧
      buffer.drop p' = rest
  | [], p, u, _, h => ⟨p, u.parser, rfl, h⟩
  | e :: fields, p, u, hfields, h => by
      obtain ⟨hname, hvalue⟩ := hfields e (List.mem_cons_self ..)
      rw [List.flatMap_cons, List.append_assoc] at h
      obtain ⟨p', parser, hread, hdrop⟩ := reads_header relaxed hlt hname hvalue h u
      obtain ⟨p'', parser', hrest, hdrop'⟩ := reads_headers hlt
        ⟨parser, u.error, { u.data with headers := u.data.headers.set e.1 e.2 }⟩
        (fun e' he' => hfields e' (List.mem_cons_of_mem _ he')) hdrop
      exact ⟨p'', parser', hread.trans hrest, hdrop'⟩

variable (relaxed) in
/-- The empty line. -/
theorem exec_end (h : buffer.drop p = HttpRequest.crlf) (u : HttpRequestParser) :
    ∃ parser, exec (Http11.machine relaxed) Http11.stops (act buffer) (buffer.drop p) p 13 u =
      .ok ⟨false, 348, buffer.length, ⟨parser, u.error, u.data⟩⟩ := by
  have hmoves : ∀ relaxed, move (Http11.machine relaxed) 13 13 = some ([.startField], 18) ∧
      move (Http11.machine relaxed) 18 10 = some ([.done], 348) := by
    intro relaxed
    cases relaxed <;> exact ⟨rfl, rfl⟩
  obtain ⟨hcr, hlf⟩ := hmoves relaxed
  have hlen : buffer.length = p + 1 + 1 := by
    have hlen := congrArg List.length h
    rw [List.length_drop] at hlen
    have htwo : buffer.length - p = 2 := hlen
    omega
  have hfirst := reads_move (u := u) h hcr rfl rfl
  have hlast : exec (Http11.machine relaxed) Http11.stops (act buffer) (buffer.drop (p + 1)) (p + 1)
      18 { u with parser := { u.parser with fieldStart := p } } = _ :=
    exec_stop (drop_succ h) hlf rfl rfl
  rw [hlen]
  exact ⟨_, Eq.trans hfirst hlast⟩

end HttpRequestParser

end Sylar
