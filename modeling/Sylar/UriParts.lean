import Sylar.HttpMessage
import Sylar.Lib.Recogniser
import Sylar.UriGrammar

/-!
# The parts of a URI

A reference that `uri.rl` derives has a scheme, an authority, a path, a
query and a fragment, of which all but the path may be missing, and an
authority a userinfo, a host and a port. `UriParts.text` puts the parts
together. The references are the texts of valid parts (`derives_iff`),
where each part is what its production derives and the path is one that
may stand behind what is in front of it.
-/

namespace Sylar

open Grammar

structure UriAuthority where
  userinfo : Option Bytes
  host : Bytes
  port : Option Bytes
deriving Repr, DecidableEq

structure UriParts where
  scheme : Option Bytes
  authority : Option UriAuthority
  path : Bytes
  query : Option Bytes
  fragment : Option Bytes
deriving Repr, DecidableEq

/-- A part that may be missing, with the delimiter in front of it. -/
def delimited (c : UInt8) : Option Bytes → Bytes
  | none => []
  | some w => c :: w

/-- A part that may be missing, with the delimiter behind it. -/
def terminated (c : UInt8) : Option Bytes → Bytes
  | none => []
  | some w => w ++ [c]

def UriAuthority.text (a : UriAuthority) : Bytes :=
  terminated 64 a.userinfo ++ (a.host ++ delimited 58 a.port)

/-- What `//` begins. -/
def slashed : Option UriAuthority → Bytes
  | none => []
  | some a => 47 :: 47 :: a.text

def UriParts.text (P : UriParts) : Bytes :=
  terminated 58 P.scheme ++ (slashed P.authority ++ (P.path ++
    (delimited 63 P.query ++ delimited 35 P.fragment)))

/-- The production derives the text. -/
def Is (n : UriNt) (w : Bytes) : Prop := Derives UriGrammar.rules [.nt n] w

structure UriAuthority.Valid (a : UriAuthority) : Prop where
  userinfo : ∀ u, a.userinfo = some u → Is .userinfo u
  host : Is .host a.host
  port : ∀ d, a.port = some d → Is .port d

/-- The paths that may stand behind the scheme and the authority. -/
def PathFits : Option Bytes → Option UriAuthority → Bytes → Prop
  | _, some _, path => Is .pathAbempty path
  | some _, none, path => Is .pathAbsolute path ∨ Is .pathRootless path ∨ path = []
  | none, none, path => Is .pathAbsolute path ∨ Is .pathNoscheme path ∨ path = []

structure UriParts.Valid (P : UriParts) : Prop where
  scheme : ∀ w, P.scheme = some w → Is .scheme w
  authority : ∀ a, P.authority = some a → a.Valid
  path : PathFits P.scheme P.authority P.path
  query : ∀ q, P.query = some q → Is .query q
  fragment : ∀ f, P.fragment = some f → Is .fragment f

namespace UriGrammar

theorem derives_chr {r : UriNt → List (List (Sym UriNt))} {c : Nat} (hc : c < 256)
    {k : List (Sym UriNt)} {w : Bytes} :
    Derives r (chr c :: k) w ↔ ∃ v, w = UInt8.ofNat c :: v ∧ Derives r k v := by
  have hbit (b : UInt8) : (ofRanges [(c, c)]).testBit b.toNat = true ↔ b = UInt8.ofNat c := by
    rw [testBit_ofRanges]
    simp only [List.any_cons, List.any_nil, Bool.or_false, Bool.and_eq_true, decide_eq_true_eq]
    constructor
    · intro h
      rw [← UInt8.ofNat_toNat (x := b)]
      exact congrArg UInt8.ofNat (by omega)
    · rintro rfl
      rw [UInt8.toNat_ofNat_of_lt' hc]
      exact ⟨Nat.le_refl c, Nat.le_refl c⟩
  rw [chr, cls, derives_cls]
  constructor
  · rintro ⟨b, v, rfl, hb, hv⟩
    exact ⟨v, by rw [(hbit b).mp hb], hv⟩
  · rintro ⟨v, rfl, hv⟩
    exact ⟨_, v, rfl, (hbit _).mpr rfl, hv⟩

theorem derives_part {n : UriNt} {k : List (Sym UriNt)} {w : Bytes} :
    Derives rules (.nt n :: k) w ↔ ∃ u v, w = u ++ v ∧ Is n u ∧ Derives rules k v :=
  derives_cons

theorem is_iff {n : UriNt} {w : Bytes} : Is n w ↔ ∃ r ∈ rules n, Derives rules r w := by
  rw [Is, derives_nt]
  simp only [List.append_nil]

/-- A production that is missing or stands behind a delimiter. -/
theorem is_delimited {n part : UriNt} {c : Nat} (hc : c < 256)
    (hn : rules n = [[], [chr c, .nt part]]) {w : Bytes} :
    Is n w ↔ ∃ o, (∀ u, o = some u → Is part u) ∧ w = delimited (UInt8.ofNat c) o := by
  rw [is_iff, hn]
  simp only [List.mem_cons, List.not_mem_nil, or_false, exists_eq_or_imp, exists_eq_left,
    derives_nil, derives_chr hc]
  constructor
  · rintro (rfl | ⟨v, rfl, hv⟩)
    · exact ⟨none, by simp, rfl⟩
    · exact ⟨some v, by rintro u ⟨⟩; exact hv, rfl⟩
  · rintro ⟨_ | u, hu, rfl⟩
    · exact .inl rfl
    · exact .inr ⟨u, rfl, hu u rfl⟩

/-- A production that is missing or stands in front of a delimiter. -/
theorem is_terminated {n part : UriNt} {c : Nat} (hc : c < 256)
    (hn : rules n = [[], [.nt part, chr c]]) {w : Bytes} :
    Is n w ↔ ∃ o, (∀ u, o = some u → Is part u) ∧ w = terminated (UInt8.ofNat c) o := by
  rw [is_iff, hn]
  simp only [List.mem_cons, List.not_mem_nil, or_false, exists_eq_or_imp, exists_eq_left,
    derives_nil, derives_part, derives_chr hc]
  constructor
  · rintro (rfl | ⟨u, v, rfl, hu, -, rfl, rfl⟩)
    · exact ⟨none, by simp, rfl⟩
    · exact ⟨some u, by rintro u' ⟨⟩; exact hu, rfl⟩
  · rintro ⟨_ | u, hu, rfl⟩
    · exact .inl rfl
    · exact .inr ⟨u, _, rfl, hu u rfl, [], rfl, rfl⟩

theorem is_authority {w : Bytes} :
    Is .authority w ↔ ∃ a : UriAuthority, a.Valid ∧ w = a.text := by
  rw [is_iff]
  simp only [rules, List.mem_singleton, exists_eq_left, derives_part, derives_nil]
  constructor
  · rintro ⟨u, -, rfl, hu, h, -, rfl, hh, d, -, rfl, hd, rfl⟩
    obtain ⟨ui, hui, rfl⟩ := (is_terminated (by decide) rfl).mp hu
    obtain ⟨port, hport, rfl⟩ := (is_delimited (by decide) rfl).mp hd
    exact ⟨⟨ui, h, port⟩, ⟨hui, hh, hport⟩, by rw [List.append_nil]; rfl⟩
  · rintro ⟨⟨ui, h, port⟩, ⟨hui, hh, hport⟩, rfl⟩
    exact ⟨_, _, rfl, (is_terminated (by decide) rfl).mpr ⟨ui, hui, rfl⟩, h, _, rfl, hh, _, [],
      (List.append_nil _).symm, (is_delimited (by decide) rfl).mpr ⟨port, hport, rfl⟩, rfl⟩

/-- What follows a scheme, or begins a reference without one: `rootless`
is the kind of path that does not begin with a slash. -/
theorem is_part {n rootless : UriNt} (hn : rules n = [[chr 47, chr 47, .nt .authority,
    .nt .pathAbempty], [.nt .pathAbsolute], [.nt rootless], []]) {w : Bytes} :
    Is n w ↔ ∃ authority path, (∀ a, authority = some a → a.Valid) ∧
      w = slashed authority ++ path ∧ match authority with
        | some _ => Is .pathAbempty path
        | none => Is .pathAbsolute path ∨ Is rootless path ∨ path = [] := by
  have hslash {k : List (Sym UriNt)} {w : Bytes} :
      Derives rules (chr 47 :: k) w ↔ ∃ v, w = 47 :: v ∧ Derives rules k v :=
    derives_chr (by decide)
  have hauthority : Derives rules [chr 47, chr 47, .nt .authority, .nt .pathAbempty] w ↔
      ∃ u path, w = 47 :: 47 :: (u ++ path) ∧ Is .authority u ∧ Is .pathAbempty path := by
    constructor
    · intro h
      obtain ⟨v, rfl, hv⟩ := hslash.mp h
      obtain ⟨v', rfl, hv'⟩ := hslash.mp hv
      obtain ⟨u, path, rfl, hu, hpath⟩ := derives_part.mp hv'
      exact ⟨u, path, rfl, hu, hpath⟩
    · rintro ⟨u, path, rfl, hu, hpath⟩
      exact hslash.mpr ⟨_, rfl, hslash.mpr ⟨_, rfl, derives_part.mpr ⟨u, path, rfl, hu, hpath⟩⟩⟩
  rw [is_iff, hn]
  simp only [List.mem_cons, List.not_mem_nil, or_false, exists_eq_or_imp, exists_eq_left,
    derives_nil, hauthority]
  constructor
  · rintro (⟨u, path, rfl, hu, hpath⟩ | hpath | hpath | rfl)
    · obtain ⟨a, ha, rfl⟩ := is_authority.mp hu
      refine ⟨some a, path, ?_, rfl, hpath⟩
      rintro a' ⟨⟩
      exact ha
    · exact ⟨none, w, by simp, rfl, .inl hpath⟩
    · exact ⟨none, w, by simp, rfl, .inr (.inl hpath)⟩
    · exact ⟨none, [], by simp, rfl, .inr (.inr rfl)⟩
  · rintro ⟨_ | a, path, ha, rfl, hpath⟩
    · exact .inr hpath
    · exact .inl ⟨a.text, path, rfl, is_authority.mpr ⟨a, ha a rfl, rfl⟩, hpath⟩

theorem derives_tail {w : Bytes} :
    Derives rules [.nt .questionQuery, .nt .hashFragment] w ↔
      ∃ query fragment, (∀ q, query = some q → Is .query q) ∧
        (∀ f, fragment = some f → Is .fragment f) ∧
        w = delimited 63 query ++ delimited 35 fragment := by
  simp only [derives_part, derives_nil]
  constructor
  · rintro ⟨u, -, rfl, hu, v, -, rfl, hv, rfl⟩
    obtain ⟨query, hquery, rfl⟩ := (is_delimited (by decide) rfl).mp hu
    obtain ⟨fragment, hfragment, rfl⟩ := (is_delimited (by decide) rfl).mp hv
    exact ⟨query, fragment, hquery, hfragment, by rw [List.append_nil]; rfl⟩
  · rintro ⟨query, fragment, hquery, hfragment, rfl⟩
    exact ⟨_, _, rfl, (is_delimited (by decide) rfl).mpr ⟨query, hquery, rfl⟩, _, [],
      (List.append_nil _).symm,
      (is_delimited (by decide) rfl).mpr ⟨fragment, hfragment, rfl⟩, rfl⟩

/-- The references are the texts of valid parts. -/
theorem derives_iff {s : Bytes} :
    Derives rules [.nt .uriReference] s ↔ ∃ P : UriParts, P.Valid ∧ P.text = s := by
  have hcolon {k : List (Sym UriNt)} {w : Bytes} :
      Derives rules (chr 58 :: k) w ↔ ∃ v, w = 58 :: v ∧ Derives rules k v :=
    derives_chr (by decide)
  have huri {w : Bytes} : Is .uri w ↔ ∃ scheme u v, w = scheme ++ 58 :: (u ++ v) ∧
      Is .scheme scheme ∧ Is .hierPart u ∧
        Derives rules [.nt .questionQuery, .nt .hashFragment] v := by
    rw [is_iff]
    simp only [rules, List.mem_singleton, exists_eq_left]
    rw [derives_part]
    refine exists_congr fun scheme => ?_
    constructor
    · rintro ⟨rest, rfl, hs, hrest⟩
      obtain ⟨v, rfl, hv⟩ := hcolon.mp hrest
      obtain ⟨u, v, rfl, hu, hv⟩ := derives_part.mp hv
      exact ⟨u, v, rfl, hs, hu, hv⟩
    · rintro ⟨u, v, rfl, hs, hu, hv⟩
      exact ⟨_, rfl, hs, hcolon.mpr ⟨_, rfl, derives_part.mpr ⟨u, v, rfl, hu, hv⟩⟩⟩
  have hrelative {w : Bytes} : Is .relativeRef w ↔ ∃ u v, w = u ++ v ∧ Is .relativePart u ∧
      Derives rules [.nt .questionQuery, .nt .hashFragment] v := by
    rw [is_iff]
    simp only [rules, List.mem_singleton, exists_eq_left]
    exact derives_part
  have hreference : Is .uriReference s ↔ Is .uri s ∨ Is .relativeRef s := by
    rw [is_iff]
    simp only [rules, List.mem_cons, List.not_mem_nil, or_false, exists_eq_or_imp, exists_eq_left]
    rfl
  rw [show Derives rules [.nt .uriReference] s ↔ Is .uri s ∨ Is .relativeRef s from hreference,
    huri, hrelative]
  constructor
  · rintro (⟨scheme, u, v, rfl, hs, hu, hv⟩ | ⟨u, v, rfl, hu, hv⟩)
    · obtain ⟨authority, path, ha, rfl, hpath⟩ := (is_part rfl).mp hu
      obtain ⟨query, fragment, hq, hf, rfl⟩ := derives_tail.mp hv
      refine ⟨⟨some scheme, authority, path, query, fragment⟩, ⟨?_, ha, ?_, hq, hf⟩, ?_⟩
      · rintro w ⟨⟩
        exact hs
      · cases authority <;> exact hpath
      · simp [UriParts.text, terminated]
    · obtain ⟨authority, path, ha, rfl, hpath⟩ := (is_part rfl).mp hu
      obtain ⟨query, fragment, hq, hf, rfl⟩ := derives_tail.mp hv
      refine ⟨⟨none, authority, path, query, fragment⟩, ⟨by simp, ha, ?_, hq, hf⟩, ?_⟩
      · cases authority <;> exact hpath
      · simp [UriParts.text, terminated]
  · rintro ⟨⟨scheme, authority, path, query, fragment⟩, ⟨hs, ha, hpath, hq, hf⟩, rfl⟩
    have htail := derives_tail.mpr ⟨query, fragment, hq, hf, rfl⟩
    cases scheme with
    | none =>
        refine .inr ⟨slashed authority ++ path, _, ?_, (is_part rfl).mpr
          ⟨authority, path, ha, rfl, ?_⟩, htail⟩
        · simp [UriParts.text, terminated]
        · cases authority <;> exact hpath
    | some scheme =>
        refine .inl ⟨scheme, slashed authority ++ path, _, ?_, hs scheme rfl, (is_part rfl).mpr
          ⟨authority, path, ha, rfl, ?_⟩, htail⟩
        · simp [UriParts.text, terminated]
        · cases authority <;> exact hpath

end UriGrammar

/-! ## Parts that can be checked -/

/-- The production derives the text, as far as `derivable` finds out. -/
def derivedBy (n : UriNt) (w : Bytes) : Bool := derivable UriGrammar.rules 12 [.nt n] w

theorem is_of_derivedBy {n : UriNt} {w : Bytes} (h : derivedBy n w = true) : Is n w :=
  derives_of_derivable h

def UriAuthority.checked (a : UriAuthority) : Bool :=
  a.userinfo.all (derivedBy .userinfo) && derivedBy .host a.host && a.port.all (derivedBy .port)

/-- Parts with an authority. -/
def UriParts.checked (P : UriParts) : Bool :=
  P.scheme.all (derivedBy .scheme) && P.authority.any (·.checked) &&
    derivedBy .pathAbempty P.path && P.query.all (derivedBy .query) &&
    P.fragment.all (derivedBy .fragment)

theorem is_of_all {n : UriNt} {o : Option Bytes} (h : o.all (derivedBy n) = true) :
    ∀ w, o = some w → Is n w := by
  rintro w rfl
  exact is_of_derivedBy h

theorem UriParts.valid_of_checked {P : UriParts} (h : P.checked = true) : P.Valid := by
  obtain ⟨scheme, authority, path, query, fragment⟩ := P
  simp only [checked, Bool.and_eq_true] at h
  obtain ⟨⟨⟨⟨hscheme, hauthority⟩, hpath⟩, hquery⟩, hfragment⟩ := h
  cases authority with
  | none => cases hauthority
  | some a =>
      have ha : a.checked = true := hauthority
      simp only [UriAuthority.checked, Bool.and_eq_true] at ha
      obtain ⟨⟨huserinfo, hhost⟩, hport⟩ := ha
      refine ⟨is_of_all hscheme, ?_, is_of_derivedBy hpath, is_of_all hquery,
        is_of_all hfragment⟩
      rintro a' ⟨⟩
      exact ⟨is_of_all huserinfo, is_of_derivedBy hhost, is_of_all hport⟩

end Sylar
