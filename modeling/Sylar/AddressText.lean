import Mathlib.Tactic.FinCases
import Sylar.Address
import Sylar.HttpRequestText
import Sylar.Lib.Ipv6Text

/-!
# The text of an IPv6 address

`IPv6Address::insert` decides at each group, from the one before it and
`used_zeros`, whether a run of zeros ends there. After any number of
turns the text is that of the groups so far (`Printed`): up to a first
run that another group follows, it stands for the groups without the
zeros at their end; behind one, for all of them.
-/

namespace Sylar

namespace IPv6Address

open Ipv6Text

/-- The groups, in the order of the network. -/
def groups (a : IPv6Address) : List Nat :=
  (List.finRange 8).map fun i : Fin 8 => 256 * (a.addr.addr.get ⟨2 * i, low_lt i⟩).toNat +
    (a.addr.addr.get ⟨2 * i + 1, high_lt i⟩).toNat

/-! ## A group in memory -/

section

variable (host : Endian) (a : IPv6Address)

/-- What is written for a group. -/
def word (i : Fin 8) : Nat := (byteswapOnLittleEndian host (n := 2) (a.group host i)).toNat

theorem groups_eq : a.groups = (List.finRange 8).map (a.word host) := by
  have hbytes : ∀ b c : UInt8, (byteswapOnLittleEndian host (n := 2)
      (ByteArray.ofMemory host 2 [b, c])).toNat = 256 * b.toNat + c.toNat := by
    intro b c
    have hb := b.toNat_lt
    have hc := c.toNat_lt
    have hswap : (toLE 2 (ofLE [b, c])).reverse = [c, b] := congrArg List.reverse (toLE_ofLE [b, c])
    cases host with
    | little =>
        have hlt : ofLE [b, c] < 2 ^ (8 * 2) := ofLE_lt [b, c]
        show (byteswap (BitVec.ofNat (8 * 2) (ofLE [b, c]))).toNat = _
        have hvalue : (BitVec.ofNat (8 * 2) (ofLE [b, c])).toNat = ofLE [b, c] := by
          rw [BitVec.toNat_ofNat, Nat.mod_eq_of_lt hlt]
        rw [byteswap, hvalue, hswap, BitVec.toNat_ofNat]
        simp only [ofLE]
        omega
    | big =>
        show (BitVec.ofNat (8 * 2) (ofLE [c, b])).toNat = _
        rw [BitVec.toNat_ofNat]
        simp only [ofLE]
        omega
  exact List.map_congr_left fun i _ => (hbytes _ _).symm

theorem group_eq_zero (i : Fin 8) : a.group host i = 0 ↔ a.word host i = 0 := by
  have hzero : byteswapOnLittleEndian host (0 : BitVec (8 * 2)) = 0 := by
    cases host <;> decide
  constructor
  · intro h
    rw [word, h]
    exact congrArg BitVec.toNat hzero
  · intro h
    have hswap : byteswapOnLittleEndian host (n := 2) (a.group host i) = 0 :=
      BitVec.eq_of_toNat_eq h
    have hback := byteswapOnLittleEndian_self host (n := 2) (a.group host i)
    rw [hswap, hzero] at hback
    exact hback.symm

theorem length_groups : a.groups.length = 8 := by
  rw [groups, List.length_map, List.length_finRange]

theorem word_lt (i : Fin 8) : a.word host i < 2 ^ 16 := BitVec.isLt _

/-- The group in front of group `i`. -/
theorem getLast?_take (i : Fin 8) : (a.groups.take i).getLast? =
    if i = 0 then none else some (a.word host (i - 1)) := by
  rw [groups_eq host]
  fin_cases i <;> rfl

end

/-! ## Hexadecimal numbers -/

theorem group_hexadecimal {n : Nat} (h : n < 2 ^ 16) :
    Ipv6Text.group (hexadecimal n) = some n := by
  have hdigit : ∀ d < 16,
      Ipv6Text.digit (UInt8.ofNat (if d < 10 then 48 + d else 87 + d)) = some d := by
    decide
  by_cases hzero : n = 0
  · rw [hzero]
    rfl
  have hlen : (Nat.digits 16 n).length ≤ 4 :=
    (Nat.digits_length_le_iff (by decide) n).mpr (Nat.lt_of_lt_of_le h (by decide))
  have hne : Nat.digits 16 n ≠ [] := Nat.digits_ne_nil_iff_ne_zero.mpr hzero
  -- the digits are read as the number they are of
  have hfold : ∀ {ds : List Nat} (v : Nat), (∀ d ∈ ds, d < 16) →
      (ds.map fun d => UInt8.ofNat (if d < 10 then 48 + d else 87 + d)).foldlM
        (fun v c => (Ipv6Text.digit c).map (16 * v + ·)) v =
          some (ds.foldl (fun v d => 16 * v + d) v) := by
    intro ds
    induction ds with
    | nil => exact fun v _ => rfl
    | cons d ds ih =>
        intro v hds
        rw [List.map_cons, List.foldlM_cons, hdigit d (hds d (List.mem_cons_self ..))]
        exact ih (16 * v + d) fun d' hd' => hds d' (List.mem_cons_of_mem _ hd')
  have hvalue : (Nat.digits 16 n).reverse.foldl (fun v d => 16 * v + d) 0 = n := by
    have hofDigits := Nat.ofDigits_digits 16 n
    rw [Nat.ofDigits_eq_foldr] at hofDigits
    rw [List.foldl_reverse]
    calc (Nat.digits 16 n).foldr (fun d v => 16 * v + d) 0
        = (Nat.digits 16 n).foldr (fun d v => (d : Nat) + 16 * v) 0 := by
          congr 1
          funext d v
          exact Nat.add_comm _ _
      _ = n := hofDigits
  rw [hexadecimal, if_neg hzero, Ipv6Text.group, if_neg, hfold 0 fun d hd =>
    Nat.digits_lt_base (by decide) (List.mem_reverse.mp hd), hvalue]
  rw [List.map_eq_nil_iff, List.reverse_eq_nil_iff, List.length_map, List.length_reverse]
  exact fun hor => hor.elim hne (Nat.not_lt.mpr hlen)

/-! ## The loop -/

/-- A turn, with the groups that come before. -/
def turn (gs : List Nat) (s : Bool × Bytes) (g : Nat) : Bool × Bytes :=
  if g = 0 ∧ s.1 = false then s
  else if gs.getLast? = some 0 ∧ s.1 = false then (true, s.2 ++ 58 :: 58 :: hexadecimal g)
  else (s.1, s.2 ++ (if gs = [] then [] else [58]) ++ hexadecimal g)

theorem insertGroup_eq (host : Endian) (a : IPv6Address) (s : Bool × Bytes) (i : Fin 8) :
    insertGroup host (a.group host) s i = turn (a.groups.take i) s (a.word host i) := by
  obtain ⟨used, os⟩ := s
  have hnil : a.groups.take i = [] ↔ i = 0 := by
    rw [List.take_eq_nil_iff, ← List.length_eq_zero_iff, a.length_groups, Fin.ext_iff]
    simp
  have hlast : (a.groups.take i).getLast? = some 0 ↔ i ≠ 0 ∧ a.group host (i - 1) = 0 := by
    rw [a.getLast?_take host i, a.group_eq_zero host]
    split <;> simp_all
  simp only [insertGroup, turn, hnil, hlast, a.group_eq_zero host, Bool.not_eq_true']
  by_cases hskip : a.word host i = 0 ∧ used = false
  · rw [if_pos hskip, if_pos hskip]
  rw [if_neg hskip, if_neg hskip]
  by_cases hgap : (i ≠ 0 ∧ a.word host (i - 1) = 0) ∧ used = false
  · rw [if_pos hgap, if_pos (by tauto), if_pos hgap.1.1]
    simp [word, bytes]
  · rw [if_neg hgap, if_neg (by tauto)]
    by_cases hi : i = 0
    · rw [if_neg (not_not.mpr hi), if_pos hi, List.append_nil]
      rfl
    · rw [if_pos hi, if_neg hi]
      rfl

/-- What has been written for the groups `gs`. -/
inductive Printed : List Nat → Bool × Bytes → Prop
  | open {left : List Nat} {n : Nat} :
      (∀ g ∈ left, g ≠ 0) →
      Printed (left ++ List.replicate n 0) (false, 91 :: joined (left.map hexadecimal))
  | closed {left right : List Nat} {n : Nat} :
      0 < n → right ≠ [] →
      Printed (left ++ List.replicate n 0 ++ right)
        (true, 91 :: (joined (left.map hexadecimal) ++ 58 :: 58 :: joined (right.map hexadecimal)))

theorem joined_snoc {left : List Nat} (hne : left ≠ []) (g : Nat) :
    joined ((left ++ [g]).map hexadecimal) =
      joined (left.map hexadecimal) ++ 58 :: hexadecimal g := by
  rw [List.map_append, List.map_singleton, joined_concat fun h => hne (List.map_eq_nil_iff.mp h)]

theorem Printed.turn {gs : List Nat} {s : Bool × Bytes} (h : Printed gs s) (g : Nat) :
    Printed (gs ++ [g]) (turn gs s g) := by
  cases h with
  | @«open» left n hleft =>
      by_cases hzero : g = 0
      · have hrun : left ++ List.replicate n 0 ++ [0] = left ++ List.replicate (n + 1) 0 := by
          rw [List.append_assoc, List.replicate_succ']
        rw [IPv6Address.turn, if_pos ⟨hzero, rfl⟩, hzero, hrun]
        exact .open hleft
      rw [IPv6Address.turn, if_neg fun h => hzero h.1]
      by_cases hn : n = 0
      · -- no zeros to leave out: the last group, if any, is not zero
        subst hn
        have hlast : left.getLast? ≠ some 0 := fun hlast =>
          hleft 0 (List.mem_of_getLast? hlast) rfl
        rw [List.replicate_zero, List.append_nil, if_neg fun h => hlast h.1]
        have hnext : ∀ g' ∈ left ++ [g], g' ≠ 0 := by
          intro g' hg'
          obtain hg' | hg' := List.mem_append.mp hg'
          · exact hleft g' hg'
          · rwa [List.mem_singleton.mp hg']
        have hopen := Printed.open (n := 0) hnext
        rw [List.replicate_zero, List.append_nil] at hopen
        by_cases hnil : left = []
        · subst hnil
          exact hopen
        · rw [joined_snoc hnil] at hopen
          rw [if_neg hnil]
          simpa using hopen
      · have hlast : (left ++ List.replicate n 0).getLast? = some 0 := by
          rw [List.getLast?_append, List.getLast?_replicate, if_neg hn]
          rfl
        rw [if_pos ⟨hlast, rfl⟩]
        exact @Printed.closed left [g] n (Nat.pos_of_ne_zero hn) (List.cons_ne_nil _ _)
  | @closed left right n hn hright =>
      rw [IPv6Address.turn, if_neg (by simp), if_neg (by simp), if_neg (by simp [hright])]
      have hclosed := @Printed.closed left (right ++ [g]) n hn (by simp)
      rw [joined_snoc hright] at hclosed
      simpa using hclosed

theorem printed_take (host : Endian) (a : IPv6Address) : ∀ n ≤ 8, Printed (a.groups.take n)
    (((List.finRange 8).take n).foldl (insertGroup host (a.group host)) (false, bytes "["))
  | 0, _ => @Printed.open [] 0 fun _ h => absurd h List.not_mem_nil
  | n + 1, hn => by
      have hlen : n < (List.finRange 8).length := by
        rw [List.length_finRange]
        exact hn
      have hindex : (List.finRange 8)[n] = ⟨n, hn⟩ := List.getElem_finRange hlen
      have hgroups : n < a.groups.length := by
        rw [a.length_groups]
        exact hn
      have hword : a.groups[n] = a.word host ⟨n, hn⟩ := by
        simp [a.groups_eq host]
      have hturn := (printed_take host a n (Nat.le_of_succ_le hn)).turn (a.word host ⟨n, hn⟩)
      rw [← insertGroup_eq host a _ ⟨n, hn⟩] at hturn
      rw [List.take_succ_eq_append_getElem hlen, List.take_succ_eq_append_getElem hgroups,
        List.foldl_append, hword, hindex]
      exact hturn

/-! ## The text -/

/-- What stands between the brackets. -/
theorem insert_text (host : Endian) (a : IPv6Address) : ∃ text,
    a.insert host = 91 :: (text ++ 93 :: 58 :: decimal (a.getPort host).toNat) ∧
      expand text = some a.groups ∧ gaps text ≤ 1 := by
  have hprinted := printed_take host a 8 (Nat.le_refl _)
  have hall : a.groups.take 8 = a.groups := List.take_of_length_le (Nat.le_of_eq a.length_groups)
  have hfin : (List.finRange 8).take 8 = List.finRange 8 :=
    List.take_of_length_le (Nat.le_of_eq List.length_finRange)
  rw [hall, hfin] at hprinted
  have hgroup : ∀ g ∈ a.groups, Ipv6Text.group (hexadecimal g) = some g := by
    intro g hg
    rw [a.groups_eq host] at hg
    obtain ⟨i, -, rfl⟩ := List.mem_map.mp hg
    exact group_hexadecimal (a.word_lt host i)
  have hlast : a.group host 7 = 0 ↔ a.groups.getLast? = some 0 := by
    rw [a.group_eq_zero host, a.groups_eq host]
    exact Option.some_inj.symm
  have hlen := a.length_groups
  rw [insert]
  simp only [hlast]
  generalize hgs : a.groups = gs at *
  generalize (List.finRange 8).foldl (insertGroup host (a.group host)) (false, bytes "[") = s at *
  cases hprinted with
  | @«open» left n hleft =>
      rcases Nat.eq_zero_or_pos n with rfl | hn
      · rw [List.replicate_zero, List.append_nil] at *
        have hzero : ¬((!false) = true ∧ left.getLast? = some 0) := fun h =>
          hleft 0 (List.mem_of_getLast? h.2) rfl
        obtain ⟨hexpand, hgaps⟩ := expand_joined hgroup hlen
        refine ⟨_, ?_, hexpand, hgaps.trans_le (Nat.zero_le _)⟩
        rw [if_neg hzero]
        simp [bytes]
      · have hzero : (!false) = true ∧ (left ++ List.replicate n 0).getLast? = some 0 := by
          rw [List.getLast?_append, List.getLast?_replicate, if_neg (Nat.ne_of_gt hn)]
          exact ⟨rfl, rfl⟩
        rw [List.length_append, List.length_replicate] at hlen
        obtain ⟨hexpand, hgaps⟩ := expand_gap
          (fun g (hg : g ∈ left) => hgroup g (List.mem_append_left _ hg))
          (fun g (hg : g ∈ []) => absurd hg List.not_mem_nil) hn hlen
        rw [List.append_nil] at hexpand
        refine ⟨_, ?_, hexpand, Nat.le_of_eq hgaps⟩
        rw [if_pos hzero]
        simp [bytes, joined]
  | @closed left right n hn hright =>
      rw [List.length_append, List.length_append, List.length_replicate] at hlen
      obtain ⟨hexpand, hgaps⟩ := expand_gap
        (fun g (hg : g ∈ left) => hgroup g (by simp [hg]))
        (fun g (hg : g ∈ right) => hgroup g (by simp [hg])) hn hlen
      refine ⟨_, ?_, hexpand, Nat.le_of_eq hgaps⟩
      rw [if_neg (by simp)]
      simp [bytes]

theorem decimal_inj {m n : Nat} (h : decimal m = decimal n) : m = n := by
  have hread (k : Nat) : ofDigits 10 (digits 10 (decimal k)).1 = k := by
    rw [decimal_eq, digits_map fun d hd => decimalDigits_lt hd]
    exact ofDigits_decimalDigits k
  rw [← hread m, ← hread n, h]

/-- The last separator. -/
theorem append_cons_inj {c : UInt8} {s t u v : Bytes} (ht : c ∉ t) (hv : c ∉ v)
    (h : s ++ c :: t = u ++ c :: v) : s = u ∧ t = v := by
  obtain ⟨w, hu, hw⟩ | ⟨w, hs, hw⟩ := List.append_eq_append_iff.mp h
  · cases w with
    | nil =>
        rw [List.append_nil] at hu
        exact ⟨hu.symm, (List.cons.inj hw).2⟩
    | cons d w =>
        rw [(List.cons.inj hw).2] at ht
        simp at ht
  · cases w with
    | nil =>
        rw [List.append_nil] at hs
        exact ⟨hs, (List.cons.inj hw).2.symm⟩
    | cons d w =>
        rw [(List.cons.inj hw).2] at hv
        simp at hv

/-- **The text of an address stands for it**: in brackets its groups, with
at most one `::`, and the port behind them. Two addresses that are
written the same have the same groups and the same port. -/
theorem insert_faithful (host : Endian) (a b : IPv6Address) :
    (∃ text, a.insert host =
        bytes "[" ++ text ++ bytes "]:" ++ decimal (a.getPort host).toNat ∧
      expand text = some a.groups ∧ gaps text ≤ 1) ∧
    (a.insert host = b.insert host →
      a.groups = b.groups ∧ a.getPort host = b.getPort host) := by
  obtain ⟨text, htext, hexpand, hgaps⟩ := a.insert_text host
  refine ⟨⟨text, by rw [htext]; simp [bytes], hexpand, hgaps⟩, fun h => ?_⟩
  obtain ⟨text', htext', hexpand', -⟩ := b.insert_text host
  have hport (p : BitVec 16) : (93 : UInt8) ∉ 58 :: decimal p.toNat := by
    intro hmem
    obtain hmem | hmem := List.mem_cons.mp hmem
    · exact absurd hmem (by decide)
    · exact absurd (decimal_range hmem) (by decide)
  rw [htext, htext'] at h
  obtain ⟨rfl, hdecimal⟩ := append_cons_inj (hport _) (hport _) (List.cons.inj h).2
  exact ⟨Option.some.inj (hexpand.symm.trans hexpand'),
    BitVec.eq_of_toNat_eq (decimal_inj (List.cons.inj hdecimal).2)⟩

/-- `::1` on an interface. -/
def loopback (scopeId : BitVec 32) : IPv6Address :=
  ⟨{ (new .little #v[0, 0, 0, 0, 0, 0, 0, 0, 0, 0, 0, 0, 0, 0, 0, 1] 8080).addr with scopeId }⟩

/-- The interface is not written. -/
theorem insert_faithful_loopback :
    (∃ text, (loopback 0).insert .little =
        bytes "[" ++ text ++ bytes "]:" ++ decimal ((loopback 0).getPort .little).toNat ∧
      expand text = some (loopback 0).groups ∧ gaps text ≤ 1) ∧
    (loopback 0).groups = (loopback 3).groups ∧
    (loopback 0).getPort .little = (loopback 3).getPort .little :=
  have hfaithful := insert_faithful .little (loopback 0) (loopback 3)
  ⟨hfaithful.1, hfaithful.2 rfl⟩

example : (loopback 0).insert .little = bytes "[::1]:8080" := by decide +kernel

end IPv6Address

end Sylar
