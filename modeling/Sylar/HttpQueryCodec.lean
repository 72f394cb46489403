import Mathlib.Algebra.Order.BigOperators.Group.List
import Mathlib.Algebra.Order.Ring.Nat
import Sylar.HttpParams

/-!
# Parameters written as a query

The pairs of a form are written with `UrlEncode` and read back by
`PARSE_PARAM`, which cuts at the first `=` and decodes the value, but
not the name. So a name comes back if the encoder leaves it alone, and
leaves no `=` in it (`reads_iff`).
-/

namespace Sylar

open StringUtil

namespace HttpRequest

/-- `UrlEncode(key) + '=' + UrlEncode(value)`. -/
def pairText (e : Bytes × Bytes) : Bytes := urlEncode e.1 true ++ 61 :: urlEncode e.2 true

/-- The pairs, with `&` between them. -/
def formText : List (Bytes × Bytes) → Bytes
  | [] => []
  | [e] => pairText e
  | e :: e' :: pairs => pairText e ++ 38 :: formText (e' :: pairs)

/-- The text is the query, or the body of a form, and the other part has
no parameters. -/
def Carries (q : HttpRequest) (text : Bytes) : Prop :=
  q.query = text ∧ q.bodyPairs = [] ∨ q.queryPairs = [] ∧ q.isForm = true ∧ q.body = text

/-- A pair cut at the first `=`. -/
def cut (e : Bytes × Bytes) : Bytes × Bytes :=
  ((e.1 ++ 61 :: e.2).takeWhile (· ≠ 61), ((e.1 ++ 61 :: e.2).dropWhile (· ≠ 61)).drop 1)

/-! ## Reading the text back -/

variable {e : Bytes × Bytes} {pairs : List (Bytes × Bytes)}

theorem cut_append (e : Bytes × Bytes) :
    e.1 ++ 61 :: e.2 = (cut e).1 ++ 61 :: (cut e).2 := by
  have hne : (e.1 ++ 61 :: e.2).dropWhile (· ≠ 61) ≠ [] := by
    intro hnil
    have hall := List.dropWhile_eq_nil_iff.mp hnil 61 (by simp)
    simp at hall
  obtain ⟨c, rest, hdrop⟩ := List.exists_cons_of_ne_nil hne
  have hc : c = 61 := by
    have hhead := List.head?_dropWhile_not (· ≠ 61) (e.1 ++ 61 :: e.2)
    rw [hdrop] at hhead
    simpa using hhead
  rw [cut, hdrop, List.drop_one, List.tail_cons]
  calc e.1 ++ 61 :: e.2
    _ = (e.1 ++ 61 :: e.2).takeWhile (· ≠ 61) ++ (e.1 ++ 61 :: e.2).dropWhile (· ≠ 61) :=
        List.takeWhile_append_dropWhile.symm
    _ = (e.1 ++ 61 :: e.2).takeWhile (· ≠ 61) ++ 61 :: rest := by rw [hdrop, hc]

theorem not_mem_cut (e : Bytes × Bytes) : (61 : UInt8) ∉ (cut e).1 := by
  intro hmem
  have h := List.mem_takeWhile_imp hmem
  simp at h

theorem cut_self (h : (61 : UInt8) ∉ e.1) : cut e = e := by
  have hall : ∀ c ∈ e.1, decide (c ≠ 61) = true := by
    intro c hc
    rw [decide_eq_true_eq]
    rintro rfl
    exact h hc
  rw [cut, List.takeWhile_append_of_pos hall, List.dropWhile_append_of_pos hall,
    List.takeWhile_cons_of_neg (by simp), List.dropWhile_cons_of_neg (by simp), List.append_nil]
  rfl

theorem cut_subset (e : Bytes × Bytes) : (cut e).1 ⊆ e.1 := by
  rw [cut, List.takeWhile_append]
  split
  · rw [List.takeWhile_cons_of_neg (by simp), List.append_nil]
    exact List.Subset.refl _
  · exact (List.takeWhile_prefix _).subset

/-- As the encoder leaves `=` alone, the text is cut where the pair is. -/
theorem pairText_eq (e : Bytes × Bytes) :
    pairText e = urlEncode (cut e).1 true ++ 61 :: urlEncode (cut e).2 true := by
  have hsep : ∀ s t : Bytes, urlEncode (s ++ 61 :: t) true =
      urlEncode s true ++ 61 :: urlEncode t true := by
    intro s t
    rw [urlEncode_append]
    rfl
  rw [pairText, ← hsep, cut_append, hsep]

/-- What is stored for a pair. -/
def entry (e : Bytes × Bytes) : Bytes × Bytes := (urlEncode (cut e).1 true, (cut e).2)

/-- One turn of the loop. -/
theorem parseParam_turn {flag : UInt8} {str rest : Bytes} (fuel : Nat)
    (h : str.dropWhile (· ≠ 61) = 61 :: rest) : parseParam flag (fuel + 1) str =
      (trim (str.takeWhile (· ≠ 61)) blanks, urlDecode true (rest.takeWhile (· ≠ flag))) ::
        if rest.dropWhile (· ≠ flag) = [] then []
        else parseParam flag fuel (rest.dropWhile (· ≠ flag)).tail := by
  rw [parseParam, h]
  dsimp only
  cases rest.dropWhile (· ≠ flag) with
  | nil => rw [if_pos rfl]
  | cons c rest => rw [if_neg (List.cons_ne_nil c rest), List.tail_cons]

theorem parse_name (fuel : Nat) (e : Bytes × Bytes) (rest : Bytes) :
    parseParam 38 (fuel + 1) (pairText e ++ rest) =
      (urlEncode (cut e).1 true, urlDecode true (urlEncode (cut e).2 true ++ rest.takeWhile (· ≠ 38)))
        :: if rest.dropWhile (· ≠ 38) = [] then []
          else parseParam 38 fuel (rest.dropWhile (· ≠ 38)).tail := by
  have hname : ∀ b ∈ urlEncode (cut e).1 true, decide (b ≠ 61) = true := by
    intro b hb
    rw [decide_eq_true_eq]
    exact fun h => not_mem_cut e ((mem_urlEncode hb).2.2.2 h)
  have hvalue : ∀ b ∈ urlEncode (cut e).2 true, decide (b ≠ 38) = true := by
    intro b hb
    rw [decide_eq_true_eq]
    exact (mem_urlEncode hb).2.1
  have htrim : trim (urlEncode (cut e).1 true) blanks = urlEncode (cut e).1 true :=
    trim_self fun b hb => (mem_urlEncode hb).2.2.1
  have htext : (pairText e ++ rest).dropWhile (· ≠ 61) =
      61 :: (urlEncode (cut e).2 true ++ rest) := by
    rw [pairText_eq, List.append_assoc, List.cons_append, List.dropWhile_append_of_pos hname,
      List.dropWhile_cons_of_neg (by simp)]
  have hfront : (pairText e ++ rest).takeWhile (· ≠ 61) = urlEncode (cut e).1 true := by
    rw [pairText_eq, List.append_assoc, List.cons_append, List.takeWhile_append_of_pos hname,
      List.takeWhile_cons_of_neg (by simp), List.append_nil]
  rw [parseParam_turn fuel htext, hfront, htrim, List.takeWhile_append_of_pos hvalue,
    List.dropWhile_append_of_pos hvalue]

/-- **The pairs of a text**: each is cut, and its name stays encoded. -/
theorem parseParam_formText : ∀ {pairs : List (Bytes × Bytes)} {fuel : Nat},
    (formText pairs).length ≤ fuel → parseParam 38 fuel (formText pairs) = pairs.map entry
  | [], 0, _ => rfl
  | [], _ + 1, _ => rfl
  | [e], 0, h => by
      rw [formText, pairText] at h
      simp at h
  | [e], fuel + 1, _ => by
      have hparse := parse_name fuel e []
      rw [List.append_nil] at hparse
      rw [formText, hparse, List.takeWhile_nil, List.append_nil, urlDecode_urlEncode id,
        List.dropWhile_nil, if_pos rfl]
      rfl
  | e :: e' :: pairs, 0, h => by
      rw [formText] at h
      simp at h
  | e :: e' :: pairs, fuel + 1, h => by
      have hrest : (formText (e' :: pairs)).length ≤ fuel := by
        rw [formText, List.length_append, List.length_cons] at h
        omega
      rw [formText, parse_name, List.takeWhile_cons_of_neg (by simp),
        List.dropWhile_cons_of_neg (by simp), List.append_nil, urlDecode_urlEncode id,
        if_neg (List.cons_ne_nil _ _), List.tail_cons]
      exact congrArg (entry e :: ·) (parseParam_formText hrest)

theorem Carries.pairs_eq {q : HttpRequest} (h : q.Carries (formText pairs)) :
    q.queryPairs ++ q.bodyPairs = pairs.map entry := by
  obtain ⟨hquery, hbody⟩ | ⟨hquery, hform, hbody⟩ := h
  · rw [hbody, List.append_nil, queryPairs, hquery, parseParam_formText (Nat.le_refl _)]
  · rw [hquery, List.nil_append, bodyPairs, if_pos hform, hbody,
      parseParam_formText (Nat.le_refl _)]

end HttpRequest

/-! ## Names without NUL -/

section

variable {a b : Bytes}

theorem sameName_map (ha : (0 : UInt8) ∉ a) (hb : (0 : UInt8) ∉ b) (h : SameName a b) :
    a.map tolower = b.map tolower := by
  have hfold := sameName_iff.mp h
  rwa [cStr_self ha, cStr_self hb] at hfold

theorem SameName.length_eq (h : SameName a b) (ha : (0 : UInt8) ∉ a) (hb : (0 : UInt8) ∉ b) :
    a.length = b.length := by
  have hlength := congrArg List.length (sameName_map ha hb h)
  rwa [List.length_map, List.length_map] at hlength

theorem tolower_sign : ∀ c ∈ [37, 43, 61], ∀ d, tolower d = c ↔ d = c := by decide +kernel

/-- `%`, `+` and `=` are no letters: they are in both names. -/
theorem SameName.mem {c : UInt8} (h : SameName a b) (ha : (0 : UInt8) ∉ a)
    (hb : (0 : UInt8) ∉ b) (hc : c ∈ [37, 43, 61]) (hmem : c ∈ a) : c ∈ b := by
  have hlow : c ∈ a.map tolower :=
    List.mem_map.mpr ⟨c, hmem, (tolower_sign c hc c).mpr (Eq.refl c)⟩
  rw [sameName_map ha hb h] at hlow
  obtain ⟨d, hd, hdc⟩ := List.mem_map.mp hlow
  exact (tolower_sign c hc d).mp hdc ▸ hd

theorem SameName.escaped (h : SameName a b) (ha : (0 : UInt8) ∉ a) (hb : (0 : UInt8) ∉ b)
    (hesc : Escaped a) : Escaped b :=
  hesc.imp (h.mem ha hb (by decide)) (h.mem ha hb (by decide))

end

namespace MapType

variable {m : MapType} {key v : Bytes}

theorem find_eq_none : m.find key = none ↔ ∀ e ∈ m, ¬SameName key e.1 := by
  rw [find, Option.map_eq_none_iff, List.find?_eq_none]
  simp [SameName]

theorem find_eq_some : m.find key = some v ↔ ∃ before k after, m = before ++ (k, v) :: after ∧
    SameName key k ∧ ∀ e ∈ before, ¬SameName key e.1 := by
  rw [find, Option.map_eq_some_iff]
  constructor
  · rintro ⟨⟨k, v'⟩, hfind, rfl⟩
    obtain ⟨hsame, before, after, rfl, hbefore⟩ := List.find?_eq_some_iff_append.mp hfind
    exact ⟨before, k, after, rfl, by simpa [SameName] using hsame,
      fun e he => by simpa [SameName] using hbefore e he⟩
  · rintro ⟨before, k, after, rfl, hsame, hbefore⟩
    refine ⟨(k, v), List.find?_eq_some_iff_append.mpr ⟨by simpa [SameName] using hsame, before,
      after, rfl, fun e he => by simpa [SameName] using hbefore e he⟩, rfl⟩

end MapType

namespace ParamRequest

variable {q : HttpRequest} {pairs : List (Bytes × Bytes)} {key : Bytes}

/-- What the first read finds. -/
theorem find_initParams (q : HttpRequest) (key : Bytes) :
    (ofRequest q).initQueryParam.initBodyParam.params.find key =
      MapType.find (q.queryPairs ++ q.bodyPairs) key := by
  have hquery : (ofRequest q).initQueryParam = { ofRequest q with
      params := MapType.insertAll [] q.queryPairs
      parserParamFlag := 0 ||| 0x1 } :=
    if_neg (show ¬(0 : UInt8) &&& 0x1 ≠ 0 by decide)
  have hordered : (MapType.insertAll [] q.queryPairs).Ordered :=
    MapType.ordered_insertAll List.Pairwise.nil
  rw [hquery, initBodyParam, if_neg (show ¬((0 : UInt8) ||| 0x1) &&& 0x2 ≠ 0 by decide)]
  refine (MapType.find_insertAll hordered).trans ?_
  rw [MapType.find_insertAll List.Pairwise.nil, MapType.find_append]
  rfl

/-- The parameters of the request are the pairs, as far as `getParam` and
`hasParam` tell. -/
structure Reads (q : HttpRequest) (pairs : List (Bytes × Bytes)) : Prop where
  value : ∀ e ∈ pairs, ((ofRequest q).getParam e.1 []).1 = e.2
  others : ∀ (key : Bytes) (val : Bool), (0 : UInt8) ∉ key → (∀ e ∈ pairs, ¬SameName key e.1) →
    ((ofRequest q).hasParam key val).1.1 = false

open HttpRequest

/-- The pairs that are kept. A name with `=` in it is cut there: it is
not noticed if it has no value, and what is in front is a name too, which
has the value that it gets from there. -/
structure Kept (pairs : List (Bytes × Bytes)) : Prop where
  unreserved : ∀ e ∈ pairs, ∀ c ∈ (cut e).1, isUnreserved c = true
  separator : ∀ e ∈ pairs, (61 : UInt8) ∈ e.1 →
    e.2 = [] ∧ ∃ e' ∈ pairs, SameName (cut e).1 e'.1
  first : ∀ before e after, pairs = before ++ e :: after → ∀ e' ∈ pairs, (61 : UInt8) ∉ e'.1 →
    SameName e'.1 (cut e).1 → (∀ e'' ∈ before, ¬SameName e'.1 (cut e'').1) → (cut e).2 = e'.2

section

variable (hnul : ∀ e ∈ pairs, (0 : UInt8) ∉ e.1)

theorem noNul_cut {e : Bytes × Bytes} (h : (0 : UInt8) ∉ e.1) : (0 : UInt8) ∉ (cut e).1 :=
  fun hmem => h (cut_subset e hmem)

theorem noNul_encoded (str : Bytes) : (0 : UInt8) ∉ urlEncode str true :=
  fun hmem => (mem_urlEncode hmem).1 rfl

/-- A name with `=` in it is nobody's. -/
theorem separator_none {e : Bytes × Bytes} (hmem : (61 : UInt8) ∈ key)
    (hkey : (0 : UInt8) ∉ key) (he : (0 : UInt8) ∉ e.1) : ¬SameName key (cut e).1 := fun hsame =>
  not_mem_cut e (hsame.mem hkey (noNul_cut he) (by decide) hmem)

include hnul in
theorem reads_of_kept (hcarries : q.Carries (formText pairs)) (h : Kept pairs) : Reads q pairs := by
  have hentry : q.queryPairs ++ q.bodyPairs = pairs.map cut := by
    rw [hcarries.pairs_eq]
    refine List.map_congr_left fun e he => ?_
    rw [entry, urlEncode_unreserved (h.unreserved e he)]
  constructor
  · intro e he
    rw [getParam, find_initParams, hentry]
    by_cases hsep : (61 : UInt8) ∈ e.1
    · have hnone : MapType.find (pairs.map cut) e.1 = none := by
        rw [MapType.find_eq_none]
        intro e' he'
        obtain ⟨e'', he'', rfl⟩ := List.mem_map.mp he'
        exact separator_none hsep (hnul e he) (hnul e'' he'')
      rw [hnone, (h.separator e he hsep).1]
      rfl
    · cases hfind : MapType.find (pairs.map cut) e.1 with
      | none =>
          have hother := MapType.find_eq_none.mp hfind (cut e) (List.mem_map_of_mem he)
          rw [cut_self hsep] at hother
          exact absurd SameName.rfl hother
      | some v =>
          obtain ⟨before, k, after, hsplit, hsame, hbefore⟩ := MapType.find_eq_some.mp hfind
          obtain ⟨pre, post, rfl, rfl, hpost⟩ := List.map_eq_append_iff.mp hsplit
          obtain ⟨e', rest, rfl, hcut, rfl⟩ := List.map_eq_cons_iff.mp hpost
          have hvalue : (cut e').2 = e.2 := by
            refine h.first pre e' rest rfl e he hsep (by rwa [hcut]) fun e'' he'' => ?_
            exact hbefore (cut e'') (List.mem_map_of_mem he'')
          rw [Option.getD_some, ← hvalue, hcut]
  · intro key val hkey hother
    rw [hasParam, find_initParams, hentry]
    have hnone : MapType.find (pairs.map cut) key = none := by
      rw [MapType.find_eq_none]
      rintro e' he' hsame
      obtain ⟨e, he, rfl⟩ := List.mem_map.mp he'
      by_cases hsep : (61 : UInt8) ∈ e.1
      · obtain ⟨-, e', he', hname⟩ := h.separator e he hsep
        exact hother e' he' (hsame.trans hname)
      · rw [cut_self hsep] at hsame
        exact hother e he hsame
    rw [hnone]
    rfl

/-! ## Only those -/

variable (hcarries : q.Carries (formText pairs))

include hcarries in
/-- What is stored for a pair is found under a name of the list. -/
theorem Reads.stored (h : Reads q pairs) : ∀ e ∈ pairs,
    ∃ e' ∈ pairs, SameName (urlEncode (cut e).1 true) e'.1 := by
  intro e he
  by_contra hnone
  have hfalse := h.others (urlEncode (cut e).1 true) false (noNul_encoded _)
    fun e' he' hsame => hnone ⟨e', he', hsame⟩
  rw [hasParam, find_initParams, hcarries.pairs_eq, Option.isSome_eq_false_iff,
    Option.isNone_iff_eq_none, MapType.find_eq_none] at hfalse
  exact hfalse (entry e) (List.mem_map_of_mem he) SameName.rfl

include hnul hcarries in
/-- Of the names without `=` none is escaped: what is stored for it would
be a longer one of the kind. -/
theorem Reads.not_escaped (h : Reads q pairs) {e : Bytes × Bytes} (he : e ∈ pairs)
    (hsep : (61 : UInt8) ∉ e.1) : ¬Escaped e.1 := by
  intro hesc
  have hlong : ∀ n, ∃ e ∈ pairs, (61 : UInt8) ∉ e.1 ∧ Escaped e.1 ∧ n ≤ e.1.length := by
    intro n
    induction n with
    | zero => exact ⟨e, he, hsep, hesc, Nat.zero_le _⟩
    | succ n ih =>
        obtain ⟨e, he, hsep, hesc, hn⟩ := ih
        obtain ⟨e', he', hsame⟩ := h.stored hcarries e he
        rw [cut_self hsep] at hsame
        have hlength := hsame.length_eq (noNul_encoded _) (hnul e' he')
        have hlt := hesc.length_lt
        refine ⟨e', he', fun hmem => ?_,
          hsame.escaped (noNul_encoded _) (hnul e' he') hesc.urlEncode, by omega⟩
        have hback := hsame.symm.mem (hnul e' he') (noNul_encoded _) (by decide) hmem
        exact hsep ((mem_urlEncode hback).2.2.2 rfl)
  obtain ⟨e', he', -, -, hlong⟩ := hlong ((pairs.map (·.1.length)).sum + 1)
  have hle := List.single_le_sum (fun _ _ => Nat.zero_le _) e'.1.length
    (List.mem_map_of_mem (f := (·.1.length)) he')
  omega

include hnul hcarries in
theorem Reads.unreserved (h : Reads q pairs) {e : Bytes × Bytes} (he : e ∈ pairs) :
    ∀ c ∈ (cut e).1, isUnreserved c = true := by
  intro c hc
  by_contra hres
  obtain ⟨e', he', hsame⟩ := h.stored hcarries e he
  have hesc := escaped_urlEncode hc (Bool.eq_false_iff.mpr hres)
  refine h.not_escaped hnul hcarries he' (fun hmem => ?_)
    (hsame.escaped (noNul_encoded _) (hnul e' he') hesc)
  have hback := hsame.symm.mem (hnul e' he') (noNul_encoded _) (by decide) hmem
  exact not_mem_cut e ((mem_urlEncode hback).2.2.2 rfl)

include hnul hcarries in
theorem kept_of_reads (h : Reads q pairs) : Kept pairs := by
  have hentry : q.queryPairs ++ q.bodyPairs = pairs.map cut := by
    rw [hcarries.pairs_eq]
    refine List.map_congr_left fun e he => ?_
    rw [entry, urlEncode_unreserved (h.unreserved hnul hcarries he)]
  refine ⟨fun e he => h.unreserved hnul hcarries he, ?_, ?_⟩
  · intro e he hsep
    obtain ⟨e', he', hsame⟩ := h.stored hcarries e he
    rw [urlEncode_unreserved (h.unreserved hnul hcarries he)] at hsame
    refine ⟨?_, e', he', hsame⟩
    have hvalue := h.value e he
    have hnone : MapType.find (pairs.map cut) e.1 = none := by
      rw [MapType.find_eq_none]
      intro e' he'
      obtain ⟨e'', he'', rfl⟩ := List.mem_map.mp he'
      exact separator_none hsep (hnul e he) (hnul e'' he'')
    rw [getParam, find_initParams, hentry, hnone] at hvalue
    exact hvalue.symm
  · rintro before e after rfl e' he' hsep hsame hbefore
    have hvalue := h.value e' he'
    have hfind : MapType.find ((before ++ e :: after).map cut) e'.1 = some (cut e).2 := by
      rw [MapType.find_eq_some]
      refine ⟨before.map cut, (cut e).1, after.map cut, by simp, hsame, fun e'' he'' => ?_⟩
      obtain ⟨e₀, he₀, rfl⟩ := List.mem_map.mp he''
      exact hbefore e₀ he₀
    rw [getParam, find_initParams, hentry, hfind] at hvalue
    exact hvalue

end

/-- **Which pairs survive a query**: those whose names the encoder leaves
alone, and that have no `=` that is noticed. -/
theorem reads_iff (q : HttpRequest) (pairs : List (Bytes × Bytes))
    (hnul : ∀ e ∈ pairs, (0 : UInt8) ∉ e.1) (hcarries : q.Carries (formText pairs)) :
    Reads q pairs ↔ Kept pairs :=
  ⟨kept_of_reads hnul hcarries, reads_of_kept hnul hcarries⟩

/-- The usual case. -/
theorem kept_plain (hplain : ∀ e ∈ pairs, ∀ c ∈ e.1, isUnreserved c = true ∧ c ≠ 61)
    (hdistinct : pairs.Pairwise fun a b => ¬SameName a.1 b.1) : Kept pairs := by
  have hsep : ∀ e ∈ pairs, (61 : UInt8) ∉ e.1 := fun e he hmem => (hplain e he 61 hmem).2 rfl
  refine ⟨fun e he c hc => ?_, fun e he hmem => absurd hmem (hsep e he), ?_⟩
  · rw [cut_self (hsep e he)] at hc
    exact (hplain e he c hc).1
  · rintro before e after rfl e' he' - hsame hbefore
    rw [cut_self (hsep e (by simp))] at hsame ⊢
    obtain he' | he' := List.mem_append.mp he'
    · have hother := hbefore e' he'
      rw [cut_self (hsep e' (List.mem_append_left _ he'))] at hother
      exact absurd SameName.rfl hother
    obtain rfl | he' := List.mem_cons.mp he'
    · rfl
    · have hafter := (List.pairwise_append.mp hdistinct).2.1
      exact absurd hsame.symm ((List.pairwise_cons.mp hafter).1 e' he')

/-- A request with the query of the pairs. -/
def withQuery (pairs : List (Bytes × Bytes)) : HttpRequest :=
  { HttpRequest.new with query := formText pairs }

theorem carries_withQuery (pairs : List (Bytes × Bytes)) :
    (withQuery pairs).Carries (formText pairs) := by
  refine .inl ⟨rfl, ?_⟩
  rw [bodyPairs]
  split <;> rfl

/-- The name `k` comes back, whatever the value. -/
theorem reads_iff_plain :
    Reads (withQuery [([107], bytes "a=b &c"), ([108], [])])
      [([107], bytes "a=b &c"), ([108], [])] :=
  (reads_iff _ _ (by simp) (carries_withQuery _)).mpr
    (kept_plain (by simp [isUnreserved]) (by simp; decide))

/-- The name `a b` is stored as `a+b`. -/
theorem blank_not_read :
    (withQuery [([97, 32, 98], [118])]).Carries (formText [([97, 32, 98], [118])]) ∧
      trim [97, 32, 98] blanks = [97, 32, 98] ∧
      ¬Reads (withQuery [([97, 32, 98], [118])]) [([97, 32, 98], [118])] :=
  ⟨carries_withQuery _, by decide, fun h =>
    absurd (h.value ([97, 32, 98], [118]) (by simp)) (by decide)⟩

end ParamRequest

end Sylar
