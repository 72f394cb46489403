import Sylar.UriComponents

/-!
# Printing a URI

`toString` writes the parts of a URI with a scheme and an authority, and
where all is well `Create` reads them again. What is not read again is a
port that `atoi` has made negative, since a `-` does not begin a port, and
a userinfo of which the first reading has left another that begins with a
digit behind a `:`.
-/

namespace Sylar

open Scanner Grammar

/-! ## Parts of parts -/

namespace UriGrammar

theorem userinfo_nil : Is .userinfo [] := is_iff.mpr ⟨[], by simp [rules], .nil⟩

/-- The first byte of a userinfo, or the escape that it begins with. -/
theorem userinfo_cons {b : UInt8} {v : Bytes} (h : Is .userinfo (b :: v)) :
    Is .userinfo v ∨ b = 37 ∧ ∃ x y v', v = x :: y :: v' ∧ x ≠ 58 ∧ y ≠ 58 ∧ Is .userinfo v' := by
  have hxdigit (c : UInt8) (hc : (ofRanges xdigit).testBit c.toNat = true) : c ≠ 58 := by
    rintro rfl
    exact absurd hc (by decide)
  obtain ⟨r, hr, hw⟩ := is_iff.mp h
  simp only [rules, List.mem_cons, List.not_mem_nil, or_false] at hr
  rcases hr with rfl | rfl | rfl
  · cases derives_nil.mp hw
  · obtain ⟨b', v', heq, -, hv⟩ := derives_cls.mp hw
    obtain ⟨rfl, rfl⟩ := List.cons.inj heq
    exact .inl hv
  · obtain ⟨u, w, heq, hu, hw'⟩ := derives_part.mp hw
    obtain ⟨k, hk, hu'⟩ := is_iff.mp hu
    obtain rfl := List.mem_singleton.mp hk
    obtain ⟨u₁, rfl, h₁⟩ := (derives_chr (by decide)).mp hu'
    obtain ⟨x, u₂, rfl, hx, h₂⟩ := derives_cls.mp h₁
    obtain ⟨y, u₃, rfl, hy, h₃⟩ := derives_cls.mp h₂
    obtain rfl := derives_nil.mp h₃
    obtain ⟨rfl, rfl⟩ := List.cons.inj heq
    exact .inr ⟨rfl, x, y, w, rfl, hxdigit x hx, hxdigit y hy, hw'⟩

/-- What is behind a `:` of a userinfo is one. -/
theorem userinfo_behind {v a : Bytes} (h : Is .userinfo (a ++ 58 :: v)) : Is .userinfo v := by
  -- an escape takes three bytes off at once
  induction hn : a.length using Nat.strong_induction_on generalizing a with
  | _ n ih =>
      cases a with
      | nil =>
          rcases userinfo_cons h with h | ⟨hb, -⟩
          · exact h
          · exact absurd hb (by decide)
      | cons b a =>
          rcases userinfo_cons h with hrest | ⟨-, x, y, v', heq, hx, hy, hrest⟩
          · exact ih a.length (by rw [← hn]; exact Nat.lt_succ_self _) hrest rfl
          · rcases a with _ | ⟨x', _ | ⟨y', a⟩⟩
            · exact absurd (List.cons.inj heq).1.symm hx
            · exact absurd (List.cons.inj (List.cons.inj heq).2).1.symm hy
            · rw [← (List.cons.inj (List.cons.inj heq).2).2] at hrest
              refine ih a.length ?_ hrest rfl
              rw [← hn]
              simp only [List.length_cons]
              omega

theorem is_userinfo_saved {u : Bytes} (h : Is .userinfo u) : Is .userinfo (savedUserinfo u) := by
  obtain ⟨a, -, ⟨-, hsaved⟩ | ⟨-, hsaved⟩ | ⟨d, w, rfl, hsaved⟩⟩ := Uri.userinfo_cases u
  · rwa [hsaved]
  · rwa [hsaved]
  · rw [hsaved]
    split
    · exact userinfo_behind h
    · exact h

theorem is_getD {n : UriNt} {o : Option Bytes} (hnil : Is n []) (h : ∀ w, o = some w → Is n w) :
    Is n (o.getD []) := by
  cases o with
  | none => exact hnil
  | some w => exact h w rfl

theorem is_port {d : Bytes} (h : ∀ b ∈ d, 48 ≤ b ∧ b ≤ 57) : Is .port d := by
  induction d with
  | nil => exact is_iff.mpr ⟨[], by simp [rules], .nil⟩
  | cons b d ih =>
      obtain ⟨hb, hd⟩ := List.forall_mem_cons.mp h
      have hdigit : (ofRanges digit).testBit b.toNat = true :=
        (testBit_ofRanges _ _).trans (among_digit.mpr hb)
      exact is_iff.mpr ⟨_, List.mem_cons_of_mem _ (List.mem_singleton.mpr rfl),
        derives_cls.mpr ⟨b, d, rfl, hdigit, ih hd⟩⟩

end UriGrammar

/-- Both of the first two `:` have a digit behind them. -/
def DigitsBehindColons (u : Bytes) : Prop :=
  ∃ a b d d' w, u = a ++ 58 :: d :: (b ++ 58 :: d' :: w) ∧ 58 ∉ a ∧ 58 ∉ b ∧
    (48 ≤ d ∧ d ≤ 57) ∧ 48 ≤ d' ∧ d' ≤ 57

theorem savedUserinfo_twice {u : Bytes} :
    savedUserinfo (savedUserinfo u) = savedUserinfo u ↔ ¬DigitsBehindColons u := by
  have hcolon : ¬(48 ≤ (58 : UInt8) ∧ (58 : UInt8) ≤ 57) := by decide
  rw [UriParts.savedUserinfo_eq_iff]
  refine not_congr ?_
  constructor
  · rintro ⟨c, d', w, hsaved, hc, hd'⟩
    by_cases hfirst : UriParts.DigitBehindColon u
    · obtain ⟨a, d, w', rfl, ha, hd⟩ := hfirst
      rw [UriParts.savedUserinfo_digit ha hd] at hsaved
      cases c with
      | nil =>
          rw [(List.cons.inj hsaved).1] at hd
          exact absurd hd hcolon
      | cons d₁ b =>
          obtain ⟨rfl, rfl⟩ := List.cons.inj hsaved
          exact ⟨a, b, d, d', w, rfl, ha, List.not_mem_of_not_mem_cons hc, hd, hd'⟩
    · rw [UriParts.savedUserinfo_eq_iff.mpr hfirst] at hsaved
      exact absurd ⟨c, d', w, hsaved, hc, hd'⟩ hfirst
  · rintro ⟨a, b, d, d', w, rfl, ha, hb, hd, hd'⟩
    rw [UriParts.savedUserinfo_digit ha hd]
    refine ⟨d :: b, d', w, rfl, List.not_mem_cons_of_ne_of_not_mem ?_ hb, hd'⟩
    rintro rfl
    exact hcolon hd

/-! ## The printed parts -/

/-- A part that is left out when it is empty. -/
def unlessEmpty (w : Bytes) : Option Bytes := if w = [] then none else some w

theorem getD_unlessEmpty (w : Bytes) : (unlessEmpty w).getD [] = w := by
  rw [unlessEmpty]
  split
  · rename_i h
    exact h.symm
  · rfl

/-- The parts of what `toString` writes, where the port is not negative. -/
def Uri.printed (u : Uri) : UriParts where
  scheme := some u.scheme
  authority := some ⟨unlessEmpty u.userinfo, u.host,
    if u.isDefaultPort then none else some (decimal u.port.natAbs)⟩
  path := u.getPath
  query := unlessEmpty u.query
  fragment := unlessEmpty u.fragment

namespace Uri

open UriMachine UriGrammar

theorem userinfo_text (w rest : Bytes) :
    w ++ ((if w = [] then [] else [64]) ++ rest) = terminated 64 (unlessEmpty w) ++ rest := by
  rw [unlessEmpty]
  split
  · rename_i h
    rw [h]
    rfl
  · exact (List.append_assoc ..).symm

theorem toString_eq_text {u : Uri} (h : 0 ≤ u.port) : u.toString = u.printed.text := by
  have hdecimal : toDecimal u.port = decimal u.port.natAbs := if_neg (Int.not_lt.mpr h)
  have hlast (c : UInt8) (w : Bytes) :
      (if w = [] then [] else [c]) ++ w = delimited c (unlessEmpty w) := by
    rw [unlessEmpty]
    split
    · rename_i h
      rw [h]
      rfl
    · rfl
  have hport : (if u.isDefaultPort then [] else [58] ++ decimal u.port.natAbs) =
      delimited 58 (if u.isDefaultPort then none else some (decimal u.port.natAbs)) := by
    split <;> rfl
  show u.scheme ++ [58, 47, 47] ++ u.userinfo ++ (if u.userinfo = [] then [] else [64]) ++ u.host ++
    (if u.isDefaultPort then [] else [58] ++ toDecimal u.port) ++ u.getPath ++
    (if u.query = [] then [] else [63]) ++ u.query ++ (if u.fragment = [] then [] else [35]) ++
    u.fragment = (u.scheme ++ [58]) ++ (47 :: 47 :: (terminated 64 (unlessEmpty u.userinfo) ++
      (u.host ++ delimited 58 _)) ++ (u.getPath ++
        (delimited 63 (unlessEmpty u.query) ++ delimited 35 (unlessEmpty u.fragment))))
  rw [hdecimal, hport, ← hlast, ← hlast]
  simp only [List.append_assoc, List.cons_append, List.nil_append, userinfo_text]

theorem unlessEmpty_valid {n : UriNt} {w : Bytes} (h : Is n w) :
    ∀ v, unlessEmpty w = some v → Is n v := by
  intro v hv
  rw [unlessEmpty] at hv
  split at hv
  · cases hv
  · obtain rfl := Option.some.inj hv
    exact h

theorem getPath_valid {u : Uri} (h : Is .pathAbempty u.path) : Is .pathAbempty u.getPath := by
  have hslash : Is .pathAbempty (bytes "/") := is_of_derivedBy (by decide)
  rw [getPath]
  split
  · exact hslash
  · exact h

/-- Parts that are valid, read and printed, are valid. -/
theorem printed_valid {w path : Bytes} {a : UriAuthority} {query fragment : Option Bytes}
    (hP : UriParts.Valid ⟨some w, some a, path, query, fragment⟩) :
    (UriParts.saved ⟨some w, some a, path, query, fragment⟩).printed.Valid := by
  have hquery : Is .query [] := is_of_derivedBy (by decide)
  have hfragment : Is .fragment [] := is_of_derivedBy (by decide)
  have ha := hP.authority a rfl
  refine ⟨?_, ?_, getPath_valid hP.path, unlessEmpty_valid (is_getD hquery hP.query),
    unlessEmpty_valid (is_getD hfragment hP.fragment)⟩
  · rintro w' ⟨⟩
    exact hP.scheme w rfl
  · rintro a' ⟨⟩
    refine ⟨unlessEmpty_valid (is_userinfo_saved (is_getD userinfo_nil ha.userinfo)), ha.host,
      fun d hd => ?_⟩
    split at hd
    · cases hd
    · obtain rfl := Option.some.inj hd
      exact is_port fun b hb => decimal_range hb

/-! ## A negative port -/

/-- A `-` where a port should be: either there is no edge, or it is taken
for a userinfo, which a slash does not end. -/
theorem finish_minus {buffer ds z : Bytes} {q cs : Nat} {s : Scan} (hcs : cs ∈ [468, 461])
    (hds : ∀ b ∈ ds, 48 ≤ b ∧ b ≤ 57) :
    finish buffer (45 :: (ds ++ 47 :: z)) q (inCopy true cs) s = .ok none := by
  have hnone : move outline (inCopy true 461) 45 = none := by rfl
  have hminus : move outline (inCopy true 468) 45 = some ([], inCopy true 33) := by rfl
  have hslash : move outline (inCopy true 33) 47 = none := by rfl
  have hdigit {b : UInt8} (hb : 48 ≤ b ∧ b ≤ 57) :
      move outline (inCopy true 33) b = some ([], inCopy true 33) :=
    move_to (by decide) (among_digit.mpr hb)
  simp only [List.mem_cons, List.not_mem_nil, or_false] at hcs
  rcases hcs with rfl | rfl
  · rw [finish_move hminus]
    show finish buffer (ds ++ 47 :: z) (q + 1) (inCopy true 33) s = _
    rw [finish_loop fun b hb => hdigit (hds b hb), finish, hslash]
  · rw [finish, hnone]

theorem finish_negative (buffer : Bytes) {w h ds z : Bytes} {ui : Option Bytes} (hw : Is .scheme w)
    (hui : ∀ u, ui = some u → Is .userinfo u) (hh : Is .host h)
    (hds : ∀ b ∈ ds, 48 ≤ b ∧ b ≤ 57) (hbuffer : buffer.drop 0 = w ++ 58 :: 47 :: 47 ::
      (terminated 64 ui ++ (h ++ 58 :: 45 :: (ds ++ 47 :: z)))) (s : Scan) :
    finish buffer (w ++ 58 :: 47 :: 47 :: (terminated 64 ui ++
      (h ++ 58 :: 45 :: (ds ++ 47 :: z)))) 0 start s = .ok none := by
  obtain ⟨-, -, hslash⟩ := slash_edges
  -- from the host on
  have hhost {p cs : Nat} {s : Scan} (hcs : cs ∈ [459, 469])
      (hdrop : buffer.drop p = h ++ 58 :: 45 :: (ds ++ 47 :: z)) :
      finish buffer (h ++ 58 :: 45 :: (ds ++ 47 :: z)) p (inCopy true cs) s = .ok none := by
    obtain ⟨cs', acts, s', -, ⟨c, hc, hcolon⟩, hfinish, hperform, -⟩ :=
      host_ends s true hh hcs hdrop
    rw [hfinish, finish_move hcolon, hperform]
    exact finish_minus hc hds
  have hrest := drop_succ (drop_succ (drop_succ (drop_add_length hbuffer)))
  rw [show start = 451 from rfl, finish_scheme hw hbuffer]
  generalize 0 + w.length + 1 = q at *
  rw [finish_move hslash.1]
  show finish buffer (47 :: (terminated 64 ui ++ (h ++ 58 :: 45 :: (ds ++ 47 :: z)))) (q + 1)
    510 _ = _
  rw [finish_move hslash.2]
  show finish buffer (terminated 64 ui ++ (h ++ 58 :: 45 :: (ds ++ 47 :: z))) (q + 1 + 1)
    (inCopy true 459) _ = _
  cases ui with
  | none => exact hhost (by decide) hrest
  | some u =>
      rw [terminated, List.append_assoc, List.singleton_append] at hrest ⊢
      obtain ⟨host, hfinish⟩ := finish_userinfo ⟨none, { s.uri with scheme := w }⟩ true
        (hui u rfl) hrest
      refine Eq.trans hfinish (hhost (by decide) ?_)
      exact drop_succ (drop_add_length hrest)

/-! ## Reading again -/

/-- `Create` reads what `toString` writes, and all is the same. -/
def Stable (u : Uri) : Prop :=
  ∃ v, create u.toString = .ok (some v) ∧ v.scheme = u.scheme ∧ v.userinfo = u.userinfo ∧
    v.host = u.host ∧ v.getPort = u.getPort ∧ v.getPath = u.getPath ∧ v.query = u.query ∧
    v.fragment = u.fragment ∧ v.toString = u.toString

theorem getPath_ne_nil (u : Uri) : u.getPath ≠ [] := by
  rw [getPath]
  split
  · decide
  · assumption

theorem printed_saved {u : Uri} (hlow : 0 ≤ u.port) (hhigh : u.port < 2 ^ 31) :
    u.printed.saved = { u with userinfo := savedUserinfo u.userinfo, path := u.getPath,
                               port := if u.isDefaultPort then 0 else u.port } := by
  have hdecimal : savedPort (decimal u.port.natAbs) = u.port := by
    rw [UriParts.savedPort_of_lt (by rw [decimalValue_decimal]; omega), decimalValue_decimal]
    omega
  have hport : savedPort (Option.getD (if u.isDefaultPort then none
      else some (decimal u.port.natAbs)) []) = if u.isDefaultPort then 0 else u.port := by
    split
    · decide
    · exact hdecimal
  rw [UriParts.saved]
  show Uri.mk u.scheme (savedUserinfo ((unlessEmpty u.userinfo).getD [])) u.host u.getPath
    ((unlessEmpty u.query).getD []) ((unlessEmpty u.fragment).getD [])
    (savedPort (Option.getD (if u.isDefaultPort then none
      else some (decimal u.port.natAbs)) [])) = _
  rw [getD_unlessEmpty, getD_unlessEmpty, getD_unlessEmpty, hport]

/-- A default port may be left out. -/
theorem ports_same {u v : Uri} (hscheme : v.scheme = u.scheme)
    (hport : v.port = if u.isDefaultPort then 0 else u.port) :
    v.getPort = u.getPort ∧ v.isDefaultPort = u.isDefaultPort ∧
      (u.isDefaultPort = false → v.port = u.port) := by
  cases hdefault : u.isDefaultPort with
  | false =>
      rw [hdefault, if_neg Bool.false_ne_true] at hport
      refine ⟨?_, ?_, fun _ => hport⟩
      · rw [getPort, getPort, hport, hscheme]
      · rw [← hdefault, isDefaultPort, isDefaultPort, hport, hscheme]
  | true =>
      rw [hdefault, if_pos rfl] at hport
      refine ⟨?_, by rw [isDefaultPort, if_pos hport], fun h => Bool.noConfusion h⟩
      rw [getPort, hport, if_neg (not_not_intro rfl), hscheme, getPort]
      by_cases hzero : u.port = 0
      · rw [if_neg (not_not_intro hzero), hzero]
      · rw [if_pos hzero]
        rw [isDefaultPort, if_neg hzero] at hdefault
        split at hdefault
        · rename_i hhttp
          rw [if_pos hhttp, of_decide_eq_true hdefault]
        · rename_i hhttp
          rw [if_neg hhttp]
          split at hdefault
          · rename_i hhttps
            rw [if_pos hhttps, of_decide_eq_true hdefault]
          · cases hdefault

theorem stable_of_eq {u v : Uri} (hcreate : create u.toString = .ok (some v))
    (hv : v = { u with path := u.getPath, port := if u.isDefaultPort then 0 else u.port }) :
    u.Stable := by
  subst hv
  obtain ⟨hget, hdefault, hsame⟩ := ports_same (u := u)
    (v := { u with path := u.getPath, port := if u.isDefaultPort then 0 else u.port }) rfl rfl
  have hpath : getPath { u with path := u.getPath, port := if u.isDefaultPort then 0 else u.port } =
      u.getPath := if_neg u.getPath_ne_nil
  refine ⟨_, hcreate, rfl, rfl, rfl, hget, hpath, rfl, rfl, ?_⟩
  rw [toString, toString, dump, dump, hdefault, hpath]
  cases hd : u.isDefaultPort with
  | true => rfl
  | false => rfl

/-- The port that `atoi` reads is negative when the lower 32 bits are, and
where it gives up. -/
theorem savedPort_nonneg {d : Bytes} : 0 ≤ savedPort d ↔
    decimalValue d < 2 ^ 63 ∧ decimalValue d % 2 ^ 32 < 2 ^ 31 := by
  rw [savedPort, toInt32]
  omega

theorem savedPort_lt (d : Bytes) : savedPort d < 2 ^ 31 := by
  rw [savedPort, toInt32]
  omega

/-- A URI with a negative port is not read again. -/
theorem not_create_negative {w path : Bytes} {a : UriAuthority} {query fragment : Option Bytes}
    (hP : UriParts.Valid ⟨some w, some a, path, query, fragment⟩) {u v : Uri}
    (hu : u = UriParts.saved ⟨some w, some a, path, query, fragment⟩) (hport : u.port < 0) :
    create u.toString ≠ .ok (some v) := by
  intro h
  have hread := (create_eq_finish (is_of_create h)).symm.trans h
  have hpath : ∃ z, u.getPath = 47 :: z := by
    have habempty : Is .pathAbempty u.getPath := getPath_valid (by rw [hu]; exact hP.path)
    rcases pathAbempty_bytes habempty with hnil | ⟨z, hz, -⟩
    · exact absurd hnil u.getPath_ne_nil
    · exact ⟨z, hz⟩
  obtain ⟨z, hz⟩ := hpath
  have hdefault : u.isDefaultPort = false := by
    rw [isDefaultPort, if_neg (by omega)]
    split
    · exact decide_eq_false (by omega)
    · split
      · exact decide_eq_false (by omega)
      · rfl
  have hdecimal : toDecimal u.port = 45 :: decimal u.port.natAbs := if_pos hport
  have huserinfo (rest : Bytes) : u.userinfo ++ ((if u.userinfo = [] then [] else bytes "@") ++
      rest) = terminated 64 (unlessEmpty u.userinfo) ++ rest := userinfo_text u.userinfo rest
  have htext : ∃ z', u.toString = w ++ 58 :: 47 :: 47 :: (terminated 64 (unlessEmpty u.userinfo) ++
      (a.host ++ 58 :: 45 :: (decimal u.port.natAbs ++ 47 :: z'))) := by
    refine ⟨z ++ ((if u.query = [] then [] else bytes "?") ++ (u.query ++
      ((if u.fragment = [] then [] else bytes "#") ++ u.fragment))), ?_⟩
    have hscheme : u.scheme = w := by rw [hu]; rfl
    have hhost : u.host = a.host := by rw [hu]; rfl
    rw [toString, dump, hdefault, if_neg Bool.false_ne_true, hdecimal, hz, hscheme, hhost,
      show bytes "://" = [58, 47, 47] by decide, show bytes ":" = [58] by decide]
    simp only [List.append_assoc, List.cons_append, List.nil_append, huserinfo]
  obtain ⟨z', htext⟩ := htext
  have hui : Is .userinfo u.userinfo := by
    rw [hu]
    exact is_userinfo_saved (is_getD userinfo_nil (hP.authority a rfl).userinfo)
  have hnone := finish_negative u.toString (hP.scheme w rfl) (unlessEmpty_valid hui)
    (hP.authority a rfl).host (fun b hb => decimal_range hb) htext ⟨none, new⟩
  rw [← htext, hread] at hnone
  cases hnone

/-- Where the port is not negative, the printed parts are read. -/
theorem create_toString {w path : Bytes} {a : UriAuthority} {query fragment : Option Bytes}
    (hP : UriParts.Valid ⟨some w, some a, path, query, fragment⟩) {u : Uri}
    (hu : u = UriParts.saved ⟨some w, some a, path, query, fragment⟩) (hport : 0 ≤ u.port) :
    create u.toString = .ok (some u.printed.saved) := by
  have hdigits : u.printed.port ≠ some [] := by
    show (if u.isDefaultPort then none else some (decimal u.port.natAbs)) ≠ some []
    split
    · exact Option.some_ne_none [] ∘ Eq.symm
    · exact fun h => decimal_ne_nil _ (Option.some.inj h)
  have hvalid : u.printed.Valid := by
    rw [hu]
    exact printed_valid hP
  rw [toString_eq_text hport]
  exact UriParts.create_saved hvalid fun _ => hdigits

theorem saved_port_nonneg {P : UriParts} : 0 ≤ P.saved.port ↔
    ∀ d, P.port = some d → decimalValue d < 2 ^ 63 ∧ decimalValue d % 2 ^ 32 < 2 ^ 31 := by
  have hport : P.saved.port = savedPort (P.port.getD []) := rfl
  rw [hport]
  cases P.port with
  | none => exact iff_of_true (by decide) (by rintro d ⟨⟩)
  | some d => simpa using savedPort_nonneg

theorem saved_userinfo_twice {P : UriParts} :
    savedUserinfo P.saved.userinfo = P.saved.userinfo ↔
      ∀ ui, P.authority.bind (·.userinfo) = some ui → ¬DigitsBehindColons ui := by
  have huserinfo : P.saved.userinfo =
      savedUserinfo ((P.authority.bind (·.userinfo)).getD []) := rfl
  rw [huserinfo, savedUserinfo_twice]
  cases P.authority.bind (·.userinfo) with
  | none => exact iff_of_true (by rintro ⟨a, b, d, d', w, h, -⟩; simp at h) (by rintro ui ⟨⟩)
  | some ui => simp

/-- What `Create` has read is read again if its port is not negative and
not both of the first two `:` of its userinfo have a digit behind them. -/
theorem stable_iff {P : UriParts} (hP : P.Valid) {u : Uri} (hu : create P.text = .ok (some u))
    (hscheme : u.scheme ≠ []) (hhost : u.host ≠ []) : u.Stable ↔
      (∀ d, P.port = some d → decimalValue d < 2 ^ 63 ∧ decimalValue d % 2 ^ 32 < 2 ^ 31) ∧
      ∀ ui, P.authority.bind (·.userinfo) = some ui → ¬DigitsBehindColons ui := by
  obtain ⟨-, hsaved⟩ := (create_text_iff hP).mp hu
  rw [← saved_port_nonneg, ← saved_userinfo_twice, hsaved]
  obtain ⟨scheme, authority, path, query, fragment⟩ := P
  cases scheme with
  | none => exact absurd (by rw [← hsaved]; rfl) hscheme
  | some w =>
  cases authority with
  | none => exact absurd (by rw [← hsaved]; rfl) hhost
  | some a =>
  by_cases hport : 0 ≤ u.port
  · have hhigh : u.port < 2 ^ 31 := by
      rw [← hsaved]
      exact savedPort_lt _
    have hcreate := create_toString hP hsaved.symm hport
    have hprinted := printed_saved hport hhigh
    constructor
    · rintro ⟨v, hv, -, hui, -⟩
      obtain rfl := Option.some.inj (Except.ok.inj (hcreate.symm.trans hv))
      rw [hprinted] at hui
      exact ⟨hport, hui⟩
    · rintro ⟨-, hui⟩
      refine stable_of_eq hcreate ?_
      rw [hprinted, hui]
  · refine iff_of_false ?_ fun h => hport h.1
    rintro ⟨v, hv, -⟩
    exact not_create_negative hP hsaved.symm (Int.not_le.mp hport) hv

/-- `http://u:pw@h:8080?q#f`, which is written with a `/`. -/
theorem stable_iff_slash : Stable ⟨bytes "http", bytes "u:pw", bytes "h", [], bytes "q", bytes "f",
    8080⟩ := by
  have hP : UriParts.Valid ⟨some (bytes "http"), some ⟨some (bytes "u:pw"), bytes "h",
      some (bytes "8080")⟩, [], some (bytes "q"), some (bytes "f")⟩ :=
    UriParts.valid_of_checked (by decide)
  have hu := UriParts.create_saved hP fun _ h => absurd (Option.some.inj h) (by decide)
  have hsaved : UriParts.saved ⟨some (bytes "http"), some ⟨some (bytes "u:pw"), bytes "h",
      some (bytes "8080")⟩, [], some (bytes "q"), some (bytes "f")⟩ =
      ⟨bytes "http", bytes "u:pw", bytes "h", [], bytes "q", bytes "f", 8080⟩ := by decide
  rw [hsaved] at hu
  refine (stable_iff hP hu (by decide) (by decide)).mpr ⟨?_, ?_⟩
  · rintro d ⟨⟩
    decide
  · rintro ui ⟨⟩
    exact savedUserinfo_twice.mp (by decide)

/-- `http://h:2147483648/` is written as `http://h:-2147483648/`. -/
theorem not_stable : ∃ u, create (bytes "http://h:2147483648/") = .ok (some u) ∧ u.scheme ≠ [] ∧
    u.host ≠ [] ∧ ¬u.Stable := by
  have hP : UriParts.Valid ⟨some (bytes "http"), some ⟨none, bytes "h",
      some (bytes "2147483648")⟩, bytes "/", none, none⟩ :=
    UriParts.valid_of_checked (by decide)
  have hu := UriParts.create_saved hP fun _ h => absurd (Option.some.inj h) (by decide)
  refine ⟨_, hu, by decide, by decide, ?_⟩
  rintro ⟨v, hv, -⟩
  exact not_create_negative hP rfl (by decide) hv

end Uri

end Sylar
