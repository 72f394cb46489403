import Sylar.UriComponents

/-!
# Hosts in brackets

`uri.rl` follows RFC 3986, whose productions are `rfcRules`. The two differ
in three places (see `UriGrammar`); one of them, that `v` is in lower
case only, does not concern addresses. For the other two `conforms_iff`
says which texts in brackets they are about: an address with groups in
front of `::` is read only if it has seven units all in all, and an octet
from 200 to 249 only if the byte 2 is in the place of its first digit.
-/

namespace Sylar

open Grammar

namespace UriGrammar

/-- The productions of RFC 3986. -/
def rfcRules : UriNt → List (List (Sym UriNt))
  | .decOctet => [[cls digit], [cls [(49, 57)], cls digit], [chr 49, cls digit, cls digit],
      [chr 50, cls [(48, 52)], cls digit], [chr 50, chr 53, cls [(48, 53)]]]
  | .leading n => [] :: (List.range (n + 1)).map fun k => [.nt (.h16Colons k), .nt .h16]
  | .ipvFuture => [118, 86].map fun v => [chr v, cls xdigit, .nt .xdigits, chr 46,
      cls (unreserved ++ subDelims ++ ones [58]), .nt .ipvFutureRest]
  | n => rules n

/-- RFC 3986 derives the text from the production. -/
def IsRfc (n : UriNt) (w : Bytes) : Prop := Derives rfcRules [.nt n] w

/-! ## The text between the brackets -/

/-- `"http://[" + text + "]/"` -/
def literalText (t : Bytes) : Bytes := bytes "http://[" ++ t ++ bytes "]/"

/-- What may follow the brackets. -/
def afterBracket : List (Sym UriNt) :=
  [.nt .colonPort, .nt .pathAbempty, .nt .questionQuery, .nt .hashFragment]

/-- Behind `http://[`. -/
theorem behind_bracket : behind rules 12 [[.nt .uriReference]] (bytes "http://[") =
    some ([.ipv6Address, .ipvFuture].map fun n => .nt n :: chr 93 :: afterBracket) := by
  decide

def afterNts : List UriNt := [.colonPort, .port, .pathAbempty, .segments, .segment, .questionQuery,
  .query, .hashFragment, .fragment, .pchar, .pctEncoded]

def afterChar : List (Nat × Nat) :=
  UriMachine.pathChar ++ UriMachine.one 35 ++ UriMachine.one 37 ++ UriMachine.one 63

theorem afterBracket_bytes {v : Bytes} (h : Derives rules afterBracket v) : (93 : UInt8) ∉ v := by
  have hns : ∀ x ∈ afterBracket, ∃ n ∈ afterNts, x = .nt n := by decide
  have hwithin : within rules (ofRanges afterChar) afterNts = true := by decide
  have hbyte : (ofRanges afterChar).testBit (93 : UInt8).toNat = false := by decide
  exact fun hmem =>
    Bool.false_ne_true (hbyte.symm.trans (bytes_of_all_within hwithin hns h 93 hmem))

theorem literal_iff {t : Bytes} :
    Is .uriReference (literalText t) ↔ Is .ipv6Address t ∨ Is .ipvFuture t := by
  -- neither what stands in the brackets nor what may follow them has a bracket in it
  have hpart {n : UriNt} (hn : n = .ipv6Address ∨ n = .ipvFuture) :
      Derives rules (.nt n :: chr 93 :: afterBracket) (t ++ 93 :: [47]) ↔ Is n t := by
    constructor
    · intro h
      obtain ⟨u, v, heq, hu, hv⟩ := derives_part.mp h
      obtain ⟨v, rfl, hafter⟩ := (derives_chr (by decide)).mp hv
      have hinside : among (UriMachine.userinfoChar ++ UriMachine.one 2) 93 = false := by decide
      have hu' : (93 : UInt8) ∉ u :=
        fun hmem => Bool.false_ne_true (hinside.symm.trans (literal_bytes hn hu 93 hmem))
      obtain ⟨rfl, -, -⟩ :=
        (List.append_cons_inj_of_notMem hu' (afterBracket_bytes hafter)).mp heq.symm
      exact hu
    · intro h
      have hafter : derivable rules 12 (chr 93 :: afterBracket) [93, 47] = true := by decide
      exact derives_part.mpr ⟨t, _, rfl, h, derives_of_derivable hafter⟩
  have hlang : Is .uriReference (literalText t) ↔ Lang rules [[.nt .uriReference]]
      (bytes "http://[" ++ (t ++ 93 :: [47])) := by
    simp only [Lang, List.mem_singleton, exists_eq_left]
    rw [literalText, List.append_assoc]
    rfl
  rw [hlang, lang_behind behind_bracket, Lang, List.map_cons, List.map_cons, List.map_nil]
  simp only [List.mem_cons, List.not_mem_nil, or_false, exists_eq_or_imp, exists_eq_left]
  rw [hpart (.inl rfl), hpart (.inr rfl)]

/-- What `Create` makes of a text in brackets. -/
theorem create_literal {t : Bytes} (h : Is .ipv6Address t ∨ Is .ipvFuture t) :
    ∃ u, Uri.create (literalText t) = .ok (some u) ∧ u.host = 91 :: (t ++ [93]) := by
  have hhost : Is .host (91 :: (t ++ [93])) := by
    have hliteral : Is .ipLiteral (91 :: (t ++ [93])) := by
      have hclose : Derives rules [chr 93] [93] :=
        (derives_chr (by decide)).mpr ⟨[], rfl, .nil⟩
      rcases h with h | h
      · exact is_iff.mpr ⟨_, List.mem_cons_self .., (derives_chr (by decide)).mpr
          ⟨_, rfl, derives_part.mpr ⟨t, _, rfl, h, hclose⟩⟩⟩
      · exact is_iff.mpr ⟨_, List.mem_cons_of_mem _ (List.mem_cons_self ..),
          (derives_chr (by decide)).mpr ⟨_, rfl, derives_part.mpr ⟨t, _, rfl, h, hclose⟩⟩⟩
    exact is_iff.mpr ⟨_, List.mem_cons_self .., hliteral⟩
  have hpath : Is .pathAbempty (bytes "/") := is_of_derivedBy (by decide)
  have hP : UriParts.Valid ⟨some (bytes "http"), some ⟨none, 91 :: (t ++ [93]), none⟩, bytes "/",
      none, none⟩ := by
    refine ⟨?_, ?_, hpath, by rintro q ⟨⟩, by rintro f ⟨⟩⟩
    · rintro w ⟨⟩
      exact is_of_derivedBy (by decide)
    · rintro a ⟨⟩
      exact ⟨by rintro u ⟨⟩, hhost, by rintro d ⟨⟩⟩
  have htext : UriParts.text ⟨some (bytes "http"), some ⟨none, 91 :: (t ++ [93]), none⟩, bytes "/",
      none, none⟩ = literalText t := by
    simp [UriParts.text, terminated, slashed, UriAuthority.text, delimited, literalText,
      show bytes "http://[" = bytes "http" ++ [58, 47, 47, 91] by decide,
      show bytes "]/" = 93 :: bytes "/" by decide]
  rw [← htext]
  exact ⟨_, UriParts.create_saved hP fun _ => by rintro ⟨⟩, rfl⟩

/-! ## Groups -/

/-- A group is one unit of 16 bits, and a dotted part is two. -/
def width (g : Bytes) : Nat := if g = [] then 0 else if 46 ∈ g then 2 else 1

def units (t : Bytes) : Nat := ((t.splitOn 58).map width).sum

/-- An octet from 200 to 249. -/
def IsTwoHundreds (o : Bytes) : Prop := ∃ c d : UInt8, o = [50, c, d] ∧ 48 ≤ c ∧ c ≤ 52

/-- One of the octets in the dotted part is from 200 to 249. -/
def HasTwoHundreds (t : Bytes) : Prop :=
  ∃ g ∈ t.splitOn 58, 46 ∈ g ∧ ∃ o ∈ g.splitOn 46, IsTwoHundreds o

theorem units_append (x y : Bytes) : units (x ++ 58 :: y) = units x + units y := by
  rw [units, List.splitOn_append_cons_self, List.map_append, List.sum_append]
  rfl

theorem units_group {g : Bytes} (h : 58 ∉ g) : units g = width g := by
  rw [units, List.splitOn_eq_singleton h]
  exact Nat.add_zero _

theorem hasTwoHundreds_append (x y : Bytes) :
    HasTwoHundreds (x ++ 58 :: y) ↔ HasTwoHundreds x ∨ HasTwoHundreds y := by
  simp only [HasTwoHundreds, List.splitOn_append_cons_self, List.mem_append, or_and_right,
    exists_or]

theorem hasTwoHundreds_group {g : Bytes} (h : 58 ∉ g) :
    HasTwoHundreds g ↔ 46 ∈ g ∧ ∃ o ∈ g.splitOn 46, IsTwoHundreds o := by
  simp only [HasTwoHundreds, List.splitOn_eq_singleton h, List.mem_singleton, exists_eq_left]

/-! ## The shape of an address -/

/-- Rules that are those of `uri.rl` but for the octets and the groups in
front of `::`. -/
structure AddressRules (r : UriNt → List (List (Sym UriNt))) : Prop where
  same : ∀ n, n ≠ .decOctet → (∀ k, n ≠ .leading k) → n ≠ .ipvFuture → r n = rules n
  octet : within r (ofRanges [(2, 2), (48, 57)]) [.decOctet] = true

theorem addressRules_rules : AddressRules rules := ⟨fun _ _ _ _ => rfl, by decide⟩

theorem addressRules_rfcRules : AddressRules rfcRules where
  same n hoctet hleading hfuture := by
    cases n with
    | decOctet => exact absurd rfl hoctet
    | leading k => exact absurd rfl (hleading k)
    | ipvFuture => exact absurd rfl hfuture
    | _ => rfl
  octet := by decide

section

variable {r : UriNt → List (List (Sym UriNt))} (hr : AddressRules r)
include hr

theorem octet_bytes {o : Bytes} (h : Derives r [.nt .decOctet] o) : 46 ∉ o ∧ 58 ∉ o := by
  have hmem := List.mem_singleton.mpr (Eq.refl UriNt.decOctet)
  exact ⟨notMem_of_within hr.octet hmem h (by decide), notMem_of_within hr.octet hmem h (by decide)⟩

theorem h16_iff {g : Bytes} : Derives r [.nt .h16] g ↔ Is .h16 g := by
  have hcls : ∀ k ∈ rules .h16, ∀ x ∈ k ++ [], ∃ on, x = .cls on := by simp [rules, cls]
  rw [Is, derives_nt, derives_nt, hr.same .h16 (by decide) (by simp) (by decide)]
  exact exists_congr fun k => and_congr_right fun hk => derives_classes (hcls k hk)

theorem groups_zero {x : Bytes} : Derives r [.nt (.h16Colons 0)] x ↔ x = [] := by
  rw [derives_nt, hr.same (.h16Colons 0) (by decide) (by simp) (by decide)]
  simp [rules]

theorem groups_succ {n : Nat} {x : Bytes} : Derives r [.nt (.h16Colons (n + 1))] x ↔
    ∃ g x', x = g ++ 58 :: x' ∧ Is .h16 g ∧ Derives r [.nt (.h16Colons n)] x' := by
  rw [derives_nt, hr.same (.h16Colons (n + 1)) (by simp) (by simp) (by simp)]
  simp only [rules, List.mem_singleton, exists_eq_left, List.append_nil]
  constructor
  · intro h
    obtain ⟨g, v, rfl, hg, hv⟩ := derives_cons.mp h
    obtain ⟨x', rfl, hx'⟩ := (derives_chr (by decide)).mp hv
    exact ⟨g, x', rfl, (h16_iff hr).mp hg, hx'⟩
  · rintro ⟨g, x', rfl, hg, hx'⟩
    exact derives_cons.mpr ⟨g, _, rfl, (h16_iff hr).mpr hg,
      (derives_chr (by decide)).mpr ⟨x', rfl, hx'⟩⟩

theorem groups_iff {n : Nat} {x : Bytes} :
    Derives r [.nt (.h16Colons n)] x ↔ Is (.h16Colons n) x := by
  induction n generalizing x with
  | zero => rw [groups_zero hr, Is, groups_zero addressRules_rules]
  | succ n ih => simp only [groups_succ hr, Is, groups_succ addressRules_rules, ih]

theorem ls32_iff {y : Bytes} : Derives r [.nt .ls32] y ↔
    (∃ g h, y = g ++ 58 :: h ∧ Is .h16 g ∧ Is .h16 h) ∨ Derives r [.nt .ipv4Address] y := by
  rw [derives_nt, hr.same .ls32 (by decide) (by simp) (by decide)]
  simp only [rules, List.mem_cons, List.not_mem_nil, or_false, exists_eq_or_imp, exists_eq_left,
    List.append_nil]
  refine or_congr_left ?_
  constructor
  · intro h
    obtain ⟨g, v, rfl, hg, hv⟩ := derives_cons.mp h
    obtain ⟨h', rfl, hh'⟩ := (derives_chr (by decide)).mp hv
    exact ⟨g, h', rfl, (h16_iff hr).mp hg, (h16_iff hr).mp hh'⟩
  · rintro ⟨g, h, rfl, hg, hh⟩
    exact derives_cons.mpr ⟨g, _, rfl, (h16_iff hr).mpr hg,
      (derives_chr (by decide)).mpr ⟨h, rfl, (h16_iff hr).mpr hh⟩⟩

theorem ipv4_iff {y : Bytes} : Derives r [.nt .ipv4Address] y ↔
    ∃ a b c d, y = a ++ 46 :: (b ++ 46 :: (c ++ 46 :: d)) ∧
      ∀ o ∈ [a, b, c, d], Derives r [.nt .decOctet] o := by
  have hdot {k : List (Sym UriNt)} {w : Bytes} : Derives r (.nt .decOctet :: chr 46 :: k) w ↔
      ∃ o v, w = o ++ 46 :: v ∧ Derives r [.nt .decOctet] o ∧ Derives r k v := by
    constructor
    · intro h
      obtain ⟨o, v, rfl, ho, hv⟩ := derives_cons.mp h
      obtain ⟨v, rfl, hk⟩ := (derives_chr (by decide)).mp hv
      exact ⟨o, v, rfl, ho, hk⟩
    · rintro ⟨o, v, rfl, ho, hv⟩
      exact derives_cons.mpr ⟨o, _, rfl, ho, (derives_chr (by decide)).mpr ⟨v, rfl, hv⟩⟩
  rw [derives_nt, hr.same .ipv4Address (by decide) (by simp) (by decide)]
  simp only [rules, List.mem_singleton, exists_eq_left, List.append_nil, hdot]
  constructor
  · rintro ⟨a, -, rfl, ha, b, -, rfl, hb, c, d, rfl, hc, hd⟩
    exact ⟨a, b, c, d, rfl, by simp [ha, hb, hc, hd]⟩
  · rintro ⟨a, b, c, d, rfl, hall⟩
    simp only [List.forall_mem_cons] at hall
    obtain ⟨ha, hb, hc, hd, -⟩ := hall
    exact ⟨a, _, rfl, ha, b, _, rfl, hb, c, d, rfl, hc, hd⟩

/-- What may follow `::` behind up to `n` groups. -/
def trail : Nat → List (Sym UriNt)
  | 7 => []
  | 6 => [.nt .h16]
  | 5 => [.nt .ls32]
  | n => [.nt (.h16Colons (5 - n)), .nt .ls32]

variable (r) in
/-- What may stand in front of it. -/
def Lead : Nat → Bytes → Prop
  | 0, x => x = []
  | n + 1, x => Derives r [.nt (.leading n)] x

omit hr in
theorem ipv6_alternatives : rules .ipv6Address =
    [.nt (.h16Colons 6), .nt .ls32] :: (chr 58 :: chr 58 :: trail 0) ::
      (List.range 7).map fun n => .nt (.leading n) :: chr 58 :: chr 58 :: trail (n + 1) := by
  decide

theorem address_iff {t : Bytes} : Derives r [.nt .ipv6Address] t ↔
    (∃ x y, t = x ++ y ∧ Is (.h16Colons 6) x ∧ Derives r [.nt .ls32] y) ∨
    ∃ n < 8, ∃ x y, t = x ++ 58 :: 58 :: y ∧ Lead r n x ∧ Derives r (trail n) y := by
  have hgap {k : List (Sym UriNt)} {w : Bytes} : Derives r (chr 58 :: chr 58 :: k) w ↔
      ∃ y, w = 58 :: 58 :: y ∧ Derives r k y := by
    constructor
    · intro h
      obtain ⟨v, rfl, hv⟩ := (derives_chr (by decide)).mp h
      obtain ⟨y, rfl, hy⟩ := (derives_chr (by decide)).mp hv
      exact ⟨y, rfl, hy⟩
    · rintro ⟨y, rfl, hy⟩
      exact (derives_chr (by decide)).mpr ⟨_, rfl, (derives_chr (by decide)).mpr ⟨y, rfl, hy⟩⟩
  rw [derives_nt, hr.same .ipv6Address (by decide) (by simp) (by decide), ipv6_alternatives]
  simp only [List.mem_cons, exists_eq_or_imp, List.append_nil, hgap]
  refine or_congr ?_ ?_
  · rw [derives_cons]
    simp only [groups_iff hr]
  · constructor
    · rintro (⟨y, rfl, hy⟩ | ⟨k, hk, h⟩)
      · exact ⟨0, by decide, [], y, rfl, rfl, hy⟩
      · obtain ⟨n, hn, rfl⟩ := List.mem_map.mp hk
        obtain ⟨x, v, rfl, hx, hv⟩ := derives_cons.mp h
        obtain ⟨y, rfl, hy⟩ := hgap.mp hv
        exact ⟨n + 1, by have := List.mem_range.mp hn; omega, x, y, rfl, hx, hy⟩
    · rintro ⟨n, hn, x, y, rfl, hx, hy⟩
      cases n with
      | zero =>
          obtain rfl : x = [] := hx
          exact .inl ⟨y, rfl, hy⟩
      | succ n =>
          exact .inr ⟨_, List.mem_map_of_mem (List.mem_range.mpr (by omega)),
            derives_cons.mpr ⟨x, _, rfl, hx, hgap.mpr ⟨y, rfl, hy⟩⟩⟩

/-! ## Its units -/

omit hr in
theorem h16_cons {g : Bytes} (h : Is .h16 g) : ∃ b v, g = b :: v := by
  have hfirst : startsIn rules 9 (ofRanges UriMachine.xdigit) [.nt .h16] = true := by decide
  obtain ⟨b, v, rfl, -⟩ := among_of_startsIn hfirst h
  exact ⟨b, v, rfl⟩

omit hr in
theorem h16_facts {g : Bytes} (h : Is .h16 g) : units g = 1 ∧ ¬HasTwoHundreds g ∧
    g.head? ≠ some 58 := by
  have hwithin : within rules (ofRanges UriMachine.xdigit) [.h16] = true := by decide
  have hdot : 46 ∉ g := notMem_of_within hwithin (by decide) h (by decide)
  have hcolon : 58 ∉ g := notMem_of_within hwithin (by decide) h (by decide)
  obtain ⟨b, v, rfl⟩ := h16_cons h
  refine ⟨?_, fun htwo => hdot ((hasTwoHundreds_group hcolon).mp htwo).1, fun hhead => ?_⟩
  · rw [units_group hcolon, width, if_neg (List.cons_ne_nil b v), if_neg hdot]
  · exact hcolon (List.mem_of_mem_head? hhead)

omit hr in
theorem groups_facts {n : Nat} {x : Bytes} (h : Is (.h16Colons n) x) (z : Bytes) :
    units (x ++ z) = n + units z ∧ (HasTwoHundreds (x ++ z) ↔ HasTwoHundreds z) := by
  induction n generalizing x with
  | zero =>
      obtain rfl := (groups_zero addressRules_rules).mp h
      exact ⟨(Nat.zero_add _).symm, Iff.rfl⟩
  | succ n ih =>
      obtain ⟨g, x', rfl, hg, hx'⟩ := (groups_succ addressRules_rules).mp h
      obtain ⟨hunits, htwo, -⟩ := h16_facts hg
      obtain ⟨hunits', htwo'⟩ := ih hx'
      rw [List.append_assoc, List.cons_append, units_append, hasTwoHundreds_append, hunits,
        hunits', htwo']
      exact ⟨by omega, or_iff_right htwo⟩

theorem ipv4_facts {y : Bytes} (h : Derives r [.nt .ipv4Address] y) : units y = 2 ∧
    ∃ a b c d, y = a ++ 46 :: (b ++ 46 :: (c ++ 46 :: d)) ∧
      (∀ o ∈ [a, b, c, d], Derives r [.nt .decOctet] o) ∧
      (HasTwoHundreds y ↔ ∃ o ∈ [a, b, c, d], IsTwoHundreds o) := by
  obtain ⟨a, b, c, d, rfl, hall⟩ := (ipv4_iff hr).mp h
  have hbytes : ∀ o ∈ [a, b, c, d], 46 ∉ o ∧ 58 ∉ o := fun o ho => octet_bytes hr (hall o ho)
  simp only [List.forall_mem_cons] at hbytes
  obtain ⟨ha, hb, hc, hd, -⟩ := hbytes
  have hcolon : 58 ∉ a ++ 46 :: (b ++ 46 :: (c ++ 46 :: d)) := by
    simp [ha.2, hb.2, hc.2, hd.2]
  have hdot : 46 ∈ a ++ 46 :: (b ++ 46 :: (c ++ 46 :: d)) := by simp
  refine ⟨?_, a, b, c, d, rfl, hall, ?_⟩
  · rw [units_group hcolon, width, if_neg (List.ne_nil_of_mem hdot), if_pos hdot]
  · rw [hasTwoHundreds_group hcolon, and_iff_right hdot]
    simp only [List.splitOn_append_cons_self, List.splitOn_eq_singleton ha.1,
      List.splitOn_eq_singleton hb.1, List.splitOn_eq_singleton hc.1,
      List.splitOn_eq_singleton hd.1, List.cons_append, List.nil_append]

theorem ls32_units {y : Bytes} (h : Derives r [.nt .ls32] y) : units y = 2 := by
  rcases (ls32_iff hr).mp h with ⟨g, g', rfl, hg, hg'⟩ | h
  · rw [units_append, (h16_facts hg).1, (h16_facts hg').1]
  · exact (ipv4_facts hr h).1

theorem trail_iff {n : Nat} (hn : n < 8) {y : Bytes} : Derives r (trail n) y ↔
    (n ≤ 5 ∧ ∃ x y', y = x ++ y' ∧ Is (.h16Colons (5 - n)) x ∧ Derives r [.nt .ls32] y') ∨
      (n = 6 ∧ Is .h16 y) ∨ (n = 7 ∧ y = []) := by
  have hgroups {m : Nat} : Derives r [.nt (.h16Colons m), .nt .ls32] y ↔
      ∃ x y', y = x ++ y' ∧ Is (.h16Colons m) x ∧ Derives r [.nt .ls32] y' := by
    rw [derives_cons]
    simp only [groups_iff hr]
  have hzero : Derives r [.nt .ls32] y ↔
      ∃ x y', y = x ++ y' ∧ Is (.h16Colons 0) x ∧ Derives r [.nt .ls32] y' := by
    simp [Is, groups_zero addressRules_rules]
  interval_cases n
  · simpa [trail] using hgroups
  · simpa [trail] using hgroups
  · simpa [trail] using hgroups
  · simpa [trail] using hgroups
  · simpa [trail] using hgroups
  · simpa [trail] using hzero
  · simpa [trail] using h16_iff hr
  · simp [trail]

theorem trail_units {n : Nat} (hn : n < 8) {y : Bytes} (h : Derives r (trail n) y) :
    units y = 7 - n := by
  rcases (trail_iff hr hn).mp h with ⟨hle, x, y', rfl, hx, hy'⟩ | ⟨rfl, hy⟩ | ⟨rfl, rfl⟩
  · rw [(groups_facts hx y').1, ls32_units hr hy']
    omega
  · exact (h16_facts hy).1
  · rfl

end

/-! ## Both grammars -/

theorem octet_of_rfc {o : Bytes} (h : IsRfc .decOctet o) (hno : ¬IsTwoHundreds o) :
    Is .decOctet o := by
  have hcls : ∀ k ∈ rfcRules .decOctet, ∀ x ∈ k ++ [], ∃ on, x = .cls on := by
    simp [rfcRules, cls, chr]
  obtain ⟨k, hk, hw⟩ := derives_nt.mp h
  have hw' : Derives rules (k ++ []) o := (derives_classes (hcls k hk)).mp hw
  simp only [rfcRules, List.mem_cons, List.not_mem_nil, or_false] at hk
  rcases hk with rfl | rfl | rfl | rfl | rfl
  · exact derives_nt.mpr ⟨_, by simp [rules], hw'⟩
  · exact derives_nt.mpr ⟨_, by simp [rules], hw'⟩
  · exact derives_nt.mpr ⟨_, by simp [rules], hw'⟩
  · -- the alternative that `uri.rl` has with the byte 2
    obtain ⟨v, rfl, hv⟩ := (derives_chr (by decide)).mp hw'
    obtain ⟨c, v', rfl, hc, hv'⟩ := derives_cls.mp hv
    obtain ⟨d, v'', rfl, -, hnil⟩ := derives_cls.mp hv'
    obtain rfl := derives_nil.mp hnil
    rw [testBit_ofRanges] at hc
    have hrange : 48 ≤ c ∧ c ≤ 52 := by simpa [UInt8.le_iff_toNat_le] using hc
    exact absurd ⟨c, d, rfl, hrange⟩ hno
  · exact derives_nt.mpr ⟨_, by simp [rules], hw'⟩

theorem not_isTwoHundreds {o : Bytes} (h : Is .decOctet o) : ¬IsTwoHundreds o := by
  rintro ⟨c, d, rfl, hlow, hhigh⟩
  have hchar : (49 : UInt8) ≠ 50 ∧ (2 : UInt8) ≠ 50 := by decide
  obtain ⟨k, hk, hw⟩ := derives_nt.mp h
  rw [List.append_nil] at hw
  simp only [rules, List.mem_cons, List.not_mem_nil, or_false] at hk
  rcases hk with rfl | rfl | rfl | rfl | rfl
  · obtain ⟨b, v, heq, -, hnil⟩ := derives_cls.mp hw
    obtain rfl := derives_nil.mp hnil
    cases heq
  · obtain ⟨b, v, heq, -, hv⟩ := derives_cls.mp hw
    obtain ⟨b', v', rfl, -, hnil⟩ := derives_cls.mp hv
    obtain rfl := derives_nil.mp hnil
    cases heq
  · obtain ⟨v, heq, -⟩ := (derives_chr (by decide)).mp hw
    exact hchar.1 (List.cons.inj heq).1.symm
  · obtain ⟨v, heq, -⟩ := (derives_chr (by decide)).mp hw
    exact hchar.2 (List.cons.inj heq).1.symm
  · obtain ⟨v, heq, hv⟩ := (derives_chr (by decide)).mp hw
    obtain ⟨v', rfl, -⟩ := (derives_chr (by decide)).mp hv
    obtain ⟨-, htail⟩ := List.cons.inj heq
    rw [(List.cons.inj htail).1] at hhigh
    exact absurd hhigh (by decide)

/-- Without the byte 2 `uri.rl` derives nothing but what RFC 3986 does. -/
theorem rfc_of_is {n : UriNt} {w : Bytes} (h : Is n w) (hw : 2 ∉ w) : IsRfc n w := by
  refine Derives.mono (fun n r hr => ?_) h hw
  cases n with
  | decOctet =>
      simp only [rules, List.mem_cons, List.not_mem_nil, or_false] at hr
      rcases hr with rfl | rfl | rfl | rfl | rfl
      · exact .inl (by simp [rfcRules])
      · exact .inl (by simp [rfcRules])
      · exact .inl (by simp [rfcRules])
      · refine .inr ⟨_, _, rfl, fun b hb => ?_⟩
        rw [testBit_ofRanges] at hb
        exact among_one.mp hb
      · exact .inl (by simp [rfcRules])
  | leading k =>
      simp only [rules, List.mem_cons, List.not_mem_nil, or_false] at hr
      rcases hr with rfl | rfl
      · exact .inl (List.mem_cons_self ..)
      · exact .inl (List.mem_cons_of_mem _
          (List.mem_map_of_mem (List.mem_range.mpr (Nat.lt_succ_self k))))
  | ipvFuture =>
      obtain rfl := List.mem_singleton.mp hr
      exact .inl (List.mem_cons_self ..)
  | _ => exact .inl hr

theorem ls32_of_rfc {y : Bytes} (h : IsRfc .ls32 y) (hno : ¬HasTwoHundreds y) : Is .ls32 y := by
  rcases (ls32_iff addressRules_rfcRules).mp h with h | h
  · exact (ls32_iff addressRules_rules).mpr (.inl h)
  · obtain ⟨-, a, b, c, d, rfl, hall, htwo⟩ := ipv4_facts addressRules_rfcRules h
    refine (ls32_iff addressRules_rules).mpr (.inr ?_)
    exact (ipv4_iff addressRules_rules).mpr ⟨a, b, c, d, rfl, fun o ho =>
      octet_of_rfc (hall o ho) fun h => hno (htwo.mpr ⟨o, ho, h⟩)⟩

theorem not_hasTwoHundreds_ls32 {y : Bytes} (h : Is .ls32 y) : ¬HasTwoHundreds y := by
  rcases (ls32_iff addressRules_rules).mp h with ⟨g, g', rfl, hg, hg'⟩ | h
  · rw [hasTwoHundreds_append]
    exact not_or.mpr ⟨(h16_facts hg).2.1, (h16_facts hg').2.1⟩
  · obtain ⟨-, a, b, c, d, rfl, hall, htwo⟩ := ipv4_facts addressRules_rules h
    rw [htwo]
    rintro ⟨o, ho, h⟩
    exact not_isTwoHundreds (hall o ho) h

/-- Groups with a `:` between any two. -/
theorem lead_facts {k : Nat} {x g : Bytes} (hx : Is (.h16Colons k) x) (hg : Is .h16 g) :
    units (x ++ g) = k + 1 ∧ ¬HasTwoHundreds (x ++ g) ∧ (x ++ g).head? ≠ some 58 := by
  obtain ⟨hunits, htwo, hhead⟩ := h16_facts hg
  obtain ⟨hunits', htwo'⟩ := groups_facts hx g
  refine ⟨by rw [hunits', hunits], fun h => htwo (htwo'.mp h), ?_⟩
  cases k with
  | zero =>
      obtain rfl := (groups_zero addressRules_rules).mp hx
      exact hhead
  | succ k =>
      obtain ⟨g', x', rfl, hg', -⟩ := (groups_succ addressRules_rules).mp hx
      have hfirst := (h16_facts hg').2.2
      obtain ⟨b, v, rfl⟩ := h16_cons hg'
      exact hfirst

/-- What RFC 3986 derives in front of `::`: `uri.rl` does when it is empty
or as long as it can be. -/
theorem lead_of_rfc {n : Nat} {x : Bytes} (h : Lead rfcRules n x) : Lead rules n x ∨
    x.head? ≠ some 58 ∧ x ≠ [] ∧ units x < n := by
  cases n with
  | zero => exact .inl h
  | succ n =>
      obtain ⟨r, hr, hw⟩ := derives_nt.mp h
      rw [List.append_nil] at hw
      rcases List.mem_cons.mp hr with rfl | hr
      · obtain rfl := derives_nil.mp hw
        exact .inl (derives_nt.mpr ⟨[], List.mem_cons_self .., .nil⟩)
      · obtain ⟨k, hk, rfl⟩ := List.mem_map.mp hr
        obtain ⟨x', g, rfl, hx', hg⟩ := derives_cons.mp hw
        rw [groups_iff addressRules_rfcRules] at hx'
        rw [h16_iff addressRules_rfcRules] at hg
        obtain ⟨hunits, -, hhead⟩ := lead_facts hx' hg
        rcases Nat.lt_or_ge k n with hlt | hge
        · refine .inr ⟨hhead, fun hnil => ?_, by omega⟩
          rw [hnil] at hunits
          cases hunits
        · obtain rfl : k = n := by
            have := List.mem_range.mp hk
            omega
          refine .inl (derives_nt.mpr ⟨_, List.mem_cons_of_mem _ (List.mem_cons_self ..), ?_⟩)
          exact derives_cons.mpr ⟨x', g, rfl, hx', hg⟩

theorem lead_of_is {n : Nat} {x : Bytes} (h : Lead rules n x) :
    x = [] ∨ units x = n ∧ ¬HasTwoHundreds x := by
  cases n with
  | zero => exact .inl h
  | succ n =>
      obtain ⟨r, hr, hw⟩ := derives_nt.mp h
      rw [List.append_nil] at hw
      simp only [rules, List.mem_cons, List.not_mem_nil, or_false] at hr
      rcases hr with rfl | rfl
      · exact .inl (derives_nil.mp hw)
      · obtain ⟨x', g, rfl, hx', hg⟩ := derives_cons.mp hw
        obtain ⟨hunits, htwo, -⟩ := lead_facts hx' hg
        exact .inr ⟨hunits, htwo⟩

theorem units_gap (x y : Bytes) : units (x ++ 58 :: 58 :: y) = units x + units y := by
  have hnil : units ([] ++ 58 :: y) = units y := by
    rw [units_append, show units [] = 0 by decide, Nat.zero_add]
  rw [units_append]
  exact congrArg (units x + ·) hnil

theorem hasTwoHundreds_gap (x y : Bytes) :
    HasTwoHundreds (x ++ 58 :: 58 :: y) ↔ HasTwoHundreds x ∨ HasTwoHundreds y := by
  have hnil : HasTwoHundreds ([] ++ 58 :: y) ↔ HasTwoHundreds y := by
    rw [hasTwoHundreds_append, or_iff_right]
    simp [HasTwoHundreds]
  rw [hasTwoHundreds_append]
  exact or_congr_right hnil

/-- An address of RFC 3986 that is one of `uri.rl`. -/
theorem is_of_rfc {t : Bytes} (h : IsRfc .ipv6Address t)
    (hunits : t.head? = some 58 ∨ 7 ≤ units t) (hno : ¬HasTwoHundreds t) : Is .ipv6Address t := by
  rcases (address_iff addressRules_rfcRules).mp h with ⟨x, y, rfl, hx, hy⟩ |
    ⟨n, hn, x, y, rfl, hx, hy⟩
  · rw [(groups_facts hx y).2] at hno
    exact (address_iff addressRules_rules).mpr (.inl ⟨x, y, rfl, hx, ls32_of_rfc hy hno⟩)
  · have hlead : Lead rules n x := by
      refine (lead_of_rfc hx).resolve_right ?_
      rintro ⟨hhead, hne, hlt⟩
      obtain ⟨b, v, rfl⟩ := List.exists_cons_of_ne_nil hne
      rw [units_gap, trail_units addressRules_rfcRules hn hy] at hunits
      rcases hunits with hunits | hunits
      · exact hhead hunits
      · omega
    rw [hasTwoHundreds_gap] at hno
    have hno' : ¬HasTwoHundreds y := fun h => hno (.inr h)
    refine (address_iff addressRules_rules).mpr (.inr ⟨n, hn, x, y, rfl, hlead, ?_⟩)
    refine (trail_iff addressRules_rules hn).mpr ?_
    rcases (trail_iff addressRules_rfcRules hn).mp hy with ⟨hle, x', y', rfl, hx', hy'⟩ | hy | hy
    · rw [(groups_facts hx' y').2] at hno'
      exact .inl ⟨hle, x', y', rfl, hx', ls32_of_rfc hy' hno'⟩
    · exact .inr (.inl hy)
    · exact .inr (.inr hy)

/-- All addresses of `uri.rl` are like that. -/
theorem facts_of_is {t : Bytes} (h : Is .ipv6Address t) :
    (t.head? = some 58 ∨ 7 ≤ units t) ∧ ¬HasTwoHundreds t := by
  rcases (address_iff addressRules_rules).mp h with ⟨x, y, rfl, hx, hy⟩ |
    ⟨n, hn, x, y, rfl, hx, hy⟩
  · obtain ⟨hunits, htwo⟩ := groups_facts hx y
    rw [hunits, ls32_units addressRules_rules hy, htwo]
    exact ⟨.inr (by decide), not_hasTwoHundreds_ls32 hy⟩
  · have hno : ¬HasTwoHundreds y := by
      rcases (trail_iff addressRules_rules hn).mp hy with ⟨-, x', y', rfl, hx', hy'⟩ | ⟨-, hy⟩ |
        ⟨-, rfl⟩
      · rw [(groups_facts hx' y').2]
        exact not_hasTwoHundreds_ls32 hy'
      · exact (h16_facts hy).2.1
      · simp [HasTwoHundreds]
    rw [units_gap, hasTwoHundreds_gap, trail_units addressRules_rules hn hy]
    rcases lead_of_is hx with rfl | ⟨hunits, htwo⟩
    · exact ⟨.inl rfl, not_or.mpr ⟨by simp [HasTwoHundreds], hno⟩⟩
    · exact ⟨.inr (by omega), not_or.mpr ⟨htwo, hno⟩⟩

/-! ## Which texts are read -/

/-- An address of RFC 3986 is accepted, with the brackets as the host, and
nothing but what RFC 3986 has in brackets is. -/
structure Conforms (t : Bytes) : Prop where
  accepted : IsRfc .ipv6Address t →
    ∃ u, Uri.create (literalText t) = .ok (some u) ∧ u.host = 91 :: (t ++ [93])
  only : ∀ u, Uri.create (literalText t) = .ok (some u) → IsRfc .ipv6Address t ∨ IsRfc .ipvFuture t

theorem rfc_bytes {n : UriNt} (hn : n = .ipv6Address ∨ n = .ipvFuture) {t : Bytes}
    (h : IsRfc n t) : 2 ∉ t := by
  have haddress : within rfcRules (ofRanges UriMachine.userinfoChar) addressNts = true := by decide
  have hfuture : within rfcRules (ofRanges UriMachine.userinfoChar) futureNts = true := by decide
  rcases hn with rfl | rfl
  · exact notMem_of_within haddress (by decide) h (by decide)
  · exact notMem_of_within hfuture (by decide) h (by decide)

theorem future_first {t : Bytes} (h : Is .ipvFuture t) : t.head? = some 118 := by
  have hfirst : startsIn rules 9 (ofRanges (UriMachine.one 118)) [.nt .ipvFuture] = true := by decide
  obtain ⟨b, v, rfl, hb⟩ := among_of_startsIn hfirst h
  have hb : b = 118 := among_one.mp hb
  rw [hb]
  rfl

theorem future_bytes {t : Bytes} (h : Is .ipvFuture t) : 2 ∉ t := by
  have hwithin : within rules (ofRanges UriMachine.userinfoChar) futureNts = true := by decide
  exact notMem_of_within hwithin (by decide) h (by decide)

/-- An address is read if it begins with `:` or has at least seven units,
and no octet is from 200 to 249; and what is read is one of RFC 3986, unless
it is an address of `uri.rl` with the byte 2. -/
theorem conforms_iff (t : Bytes) : Conforms t ↔
    (IsRfc .ipv6Address t → (t.head? = some 58 ∨ 7 ≤ units t) ∧ ¬HasTwoHundreds t) ∧
      (Is .ipv6Address t → 2 ∉ t) := by
  -- an address does not begin with `v`
  have hfuture (h : IsRfc .ipv6Address t) (h' : Is .ipvFuture t) : False := by
    have hfirst : startsIn rfcRules 12 (ofRanges ((58, 58) :: UriMachine.xdigit))
        [.nt .ipv6Address] = true := by decide
    obtain ⟨b, v, rfl, hb⟩ := first_of_startsIn hfirst h
    obtain rfl := Option.some.inj (future_first h')
    exact absurd hb (by decide)
  constructor
  · rintro ⟨haccepted, honly⟩
    refine ⟨fun hrfc => ?_, fun his => ?_⟩
    · obtain ⟨u, hu, -⟩ := haccepted hrfc
      rcases literal_iff.mp (Uri.is_of_create hu) with his | his
      · exact facts_of_is his
      · exact (hfuture hrfc his).elim
    · obtain ⟨u, hu, -⟩ := create_literal (.inl his)
      rcases honly u hu with hrfc | hrfc
      · exact rfc_bytes (.inl rfl) hrfc
      · exact rfc_bytes (.inr rfl) hrfc
  · rintro ⟨haddress, hbyte⟩
    refine ⟨fun hrfc => ?_, fun u hu => ?_⟩
    · obtain ⟨hunits, hno⟩ := haddress hrfc
      exact create_literal (.inl (is_of_rfc hrfc hunits hno))
    · rcases literal_iff.mp (Uri.is_of_create hu) with his | his
      · exact .inl (rfc_of_is his (hbyte his))
      · exact .inr (rfc_of_is his (future_bytes his))

/-- `fe80::1` is an address, and rejected. -/
theorem not_conforms : IsRfc .ipv6Address (bytes "fe80::1") ∧ ¬Conforms (bytes "fe80::1") := by
  have hderivable : derivable rfcRules 12 [.nt .ipv6Address] (bytes "fe80::1") = true := by
    decide +kernel
  have hrfc : IsRfc .ipv6Address (bytes "fe80::1") := derives_of_derivable hderivable
  refine ⟨hrfc, fun h => ?_⟩
  obtain ⟨u, hu, -⟩ := h.accepted hrfc
  rcases literal_iff.mp (Uri.is_of_create hu) with his | his
  · exact absurd (facts_of_is his).1 (by decide)
  · exact absurd (future_first his) (by decide)

end UriGrammar

end Sylar
