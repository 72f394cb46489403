import Sylar.HttpRequestText
import Sylar.UriOutline

/-!
# What `Create` makes of a reference

The run of the outline over the text of the parts, from the fragment back
to the scheme: each lemma takes one part off and is about any text behind
it. `create_text` puts them together.

The parts are not all that is saved. The path is saved only behind a
scheme and an authority. As long as a name may be the userinfo, `:` and a
digit set the mark as if they began a port, and so the userinfo is what
is behind that `:` (`savedUserinfo`). A port without digits takes the mark
away, which the path then needs.
-/

namespace Sylar

open Scanner Grammar

/-- What `save_userinfo` finds at the mark. -/
def savedUserinfo (u : Bytes) : Bytes :=
  match u.dropWhile (· ≠ 58) with
  | _ :: d :: w => if 48 ≤ d ∧ d ≤ 57 then d :: w else u
  | _ => u

/-- What `atoi` makes of the digits. -/
def savedPort (d : Bytes) : Int := toInt32 (min (decimalValue d : Int) (2 ^ 63 - 1))

/-- Behind a scheme and an authority the path is saved. -/
def UriParts.Absolute (P : UriParts) : Prop := P.scheme.isSome = true ∧ P.authority.isSome = true

instance (P : UriParts) : Decidable P.Absolute := inferInstanceAs (Decidable (_ ∧ _))

/-- What the text ends with. -/
def UriParts.tail (P : UriParts) : Bytes := delimited 63 P.query ++ delimited 35 P.fragment

def UriParts.port (P : UriParts) : Option Bytes := P.authority.bind (·.port)

/-- What is stored for the parts. -/
def UriParts.saved (P : UriParts) : Uri where
  scheme := P.scheme.getD []
  userinfo := savedUserinfo ((P.authority.bind (·.userinfo)).getD [])
  host := (P.authority.map (·.host)).getD []
  path := if P.Absolute then P.path else []
  query := P.query.getD []
  fragment := P.fragment.getD []
  port := savedPort (P.port.getD [])

def UriParts.outcome (P : UriParts) : Except UriFault (Option Uri) :=
  if P.Absolute ∧ P.port = some [] then .error .nullMark else .ok (some P.saved)

/-! ## The bytes of the parts -/

namespace UriGrammar

/-- The byte is in one of the ranges. -/
def among (on : List (Nat × Nat)) (b : UInt8) : Bool :=
  on.any fun r => r.1 ≤ b.toNat && b.toNat ≤ r.2

theorem among_of_within {on : List (Nat × Nat)} {ns : List UriNt}
    (h : within rules (ofRanges on) ns = true) {n : UriNt} (hn : n ∈ ns) {w : Bytes}
    (hw : Is n w) : ∀ b ∈ w, among on b = true := fun b hb => by
  rw [among, ← testBit_ofRanges]
  exact bytes_of_within h hn hw b hb

theorem among_of_startsIn {on : List (Nat × Nat)} {k : List (Sym UriNt)}
    (h : startsIn rules 9 (ofRanges on) k = true) {w : Bytes} (hw : Derives rules k w) :
    ∃ b v, w = b :: v ∧ among on b = true := by
  obtain ⟨b, v, rfl, hb⟩ := first_of_startsIn h hw
  rw [testBit_ofRanges] at hb
  exact ⟨b, v, rfl, hb⟩

open UriMachine (escaped schemeChar queryChar pathChar pchar segmentNc regName userinfoChar)

/-- The productions that an address is made of. -/
def addressNts : List UriNt :=
  [.ipv6Address, .ls32, .h16, .ipv4Address, .decOctet] ++ (List.range 7).map .h16Colons ++
    (List.range 7).map .leading

def futureNts : List UriNt := [.ipvFuture, .xdigits, .ipvFutureRest]

/-- Ranges that are made of two others. -/
theorem among_or {on on₁ on₂ : List (Nat × Nat)} (h : ofRanges on = ofRanges on₁ ||| ofRanges on₂)
    {b : UInt8} (hb : among on b = true) : among on₁ b = true ∨ among on₂ b = true := by
  rw [among, ← testBit_ofRanges, h, Nat.testBit_or, testBit_ofRanges, testBit_ofRanges] at hb
  exact Bool.or_eq_true_iff.mp hb

theorem among_one {b c : UInt8} : among (UriMachine.one c.toNat) b = true ↔ b = c := by
  simp only [among, UriMachine.one, List.any_cons, List.any_nil, Bool.or_false, Bool.and_eq_true,
    decide_eq_true_eq, ← UInt8.toNat_inj]
  exact ⟨fun h => Nat.le_antisymm h.2 h.1, fun h => ⟨Nat.le_of_eq h.symm, Nat.le_of_eq h⟩⟩

theorem among_digit {b : UInt8} : among UriMachine.digit b = true ↔ 48 ≤ b ∧ b ≤ 57 := by
  simp [among, UriMachine.digit, UInt8.le_iff_toNat_le]

theorem within_path : within rules (ofRanges (escaped pathChar)) [.pathAbempty, .pathRootless,
    .segmentNz, .segments, .segment, .pchar, .pctEncoded] = true := by
  decide

theorem scheme_bytes {w : Bytes} (h : Is .scheme w) : ∃ b v, w = b :: v ∧
    among UriMachine.alpha b = true ∧ ∀ c ∈ v, among schemeChar c = true := by
  have hfirst : startsIn rules 9 (ofRanges UriMachine.alpha) [.nt .scheme] = true := by decide
  have hwithin : within rules (ofRanges schemeChar) [.scheme, .schemeRest] = true := by decide
  obtain ⟨b, v, rfl, hb⟩ := among_of_startsIn hfirst h
  have hall := among_of_within hwithin (by decide) h
  exact ⟨b, v, rfl, hb, (List.forall_mem_cons.mp hall).2⟩

theorem userinfo_bytes {w : Bytes} (h : Is .userinfo w) :
    ∀ b ∈ w, among (escaped userinfoChar) b = true := by
  have hwithin : within rules (ofRanges (escaped userinfoChar)) [.userinfo, .pctEncoded] = true := by
    decide
  exact among_of_within hwithin (by decide) h

theorem port_bytes {w : Bytes} (h : Is .port w) : ∀ b ∈ w, 48 ≤ b ∧ b ≤ 57 := by
  have hwithin : within rules (ofRanges UriMachine.digit) [.port] = true := by decide
  exact fun b hb => among_digit.mp (among_of_within hwithin (by decide) h b hb)

theorem query_bytes {w : Bytes} (h : Is .query w) :
    ∀ b ∈ w, among (escaped queryChar) b = true := by
  have hwithin : within rules (ofRanges (escaped queryChar)) [.query, .pchar, .pctEncoded] = true := by
    decide
  exact among_of_within hwithin (by decide) h

theorem fragment_bytes {w : Bytes} (h : Is .fragment w) :
    ∀ b ∈ w, among (escaped queryChar) b = true := by
  have hwithin :
      within rules (ofRanges (escaped queryChar)) [.fragment, .pchar, .pctEncoded] = true := by
    decide
  exact among_of_within hwithin (by decide) h

/-- What stands in brackets. -/
theorem literal_bytes {n : UriNt} (hn : n = .ipv6Address ∨ n = .ipvFuture) {w : Bytes}
    (h : Is n w) : ∀ b ∈ w, among (userinfoChar ++ UriMachine.one 2) b = true := by
  have haddress : within rules (ofRanges (userinfoChar ++ UriMachine.one 2)) addressNts = true := by
    decide
  have hfuture : within rules (ofRanges (userinfoChar ++ UriMachine.one 2)) futureNts = true := by
    decide
  rcases hn with rfl | rfl
  · exact among_of_within haddress (by decide) h
  · exact among_of_within hfuture (by decide) h

/-- A name or four octets; or brackets. -/
theorem host_bytes {w : Bytes} (h : Is .host w) :
    (∀ b ∈ w, among (escaped regName ++ UriMachine.one 2) b = true) ∨
      ∃ v, w = 91 :: (v ++ [93]) ∧
        ∀ b ∈ v, among (userinfoChar ++ UriMachine.one 2) b = true := by
  have hbracket {n : UriNt} (hn : n = .ipv6Address ∨ n = .ipvFuture) {w : Bytes}
      (hw : Derives rules [chr 91, .nt n, chr 93] w) :
      ∃ v, w = 91 :: (v ++ [93]) ∧
        ∀ b ∈ v, among (userinfoChar ++ UriMachine.one 2) b = true := by
    obtain ⟨v, rfl, hv⟩ := (derives_chr (by decide)).mp hw
    obtain ⟨u, v, rfl, hu, hv⟩ := derives_part.mp hv
    obtain ⟨v, rfl, hnil⟩ := (derives_chr (by decide)).mp hv
    obtain rfl := derives_nil.mp hnil
    exact ⟨u, rfl, literal_bytes hn hu⟩
  have hoctets : within rules (ofRanges (escaped regName ++ UriMachine.one 2))
      [.ipv4Address, .decOctet] = true := by decide
  have hname : within rules (ofRanges (escaped regName ++ UriMachine.one 2))
      [.regName, .pctEncoded] = true := by decide
  obtain ⟨r, hr, hw⟩ := is_iff.mp h
  simp only [rules, List.mem_cons, List.not_mem_nil, or_false] at hr
  rcases hr with rfl | rfl | rfl
  · obtain ⟨r, hr, hw⟩ := is_iff.mp hw
    simp only [rules, List.mem_cons, List.not_mem_nil, or_false] at hr
    rcases hr with rfl | rfl
    · exact .inr (hbracket (.inl rfl) hw)
    · exact .inr (hbracket (.inr rfl) hw)
  · exact .inl (among_of_within hoctets (by decide) hw)
  · exact .inl (among_of_within hname (by decide) hw)

/-- More segments: nothing, or a slash and what a path can go on with. -/
theorem segments_bytes {w : Bytes} (h : Is .segments w) :
    w = [] ∨ ∃ v, w = 47 :: v ∧ ∀ b ∈ v, among (escaped pathChar) b = true := by
  have hall := among_of_within within_path (by decide) h
  obtain ⟨r, hr, hw⟩ := is_iff.mp h
  simp only [rules, List.mem_cons, List.not_mem_nil, or_false] at hr
  rcases hr with rfl | rfl
  · exact .inl (derives_nil.mp hw)
  · obtain ⟨v, rfl, -⟩ := (derives_chr (by decide)).mp hw
    exact .inr ⟨v, rfl, (List.forall_mem_cons.mp hall).2⟩

theorem pathAbempty_bytes {w : Bytes} (h : Is .pathAbempty w) :
    w = [] ∨ ∃ v, w = 47 :: v ∧ ∀ b ∈ v, among (escaped pathChar) b = true := by
  have hall := among_of_within within_path (by decide) h
  obtain ⟨r, hr, hw⟩ := is_iff.mp h
  simp only [rules, List.mem_cons, List.not_mem_nil, or_false] at hr
  rcases hr with rfl | rfl
  · obtain ⟨v, rfl, -⟩ := (derives_chr (by decide)).mp hw
    exact .inr ⟨v, rfl, (List.forall_mem_cons.mp hall).2⟩
  · exact segments_bytes hw

theorem pathRootless_bytes {w : Bytes} (h : Is .pathRootless w) : ∃ b v, w = b :: v ∧
    among (escaped pchar) b = true ∧ ∀ c ∈ v, among (escaped pathChar) c = true := by
  have hfirst : startsIn rules 9 (ofRanges (escaped pchar)) [.nt .pathRootless] = true := by decide
  obtain ⟨b, v, rfl, hb⟩ := among_of_startsIn hfirst h
  have hall := among_of_within within_path (by decide) h
  exact ⟨b, v, rfl, hb, (List.forall_mem_cons.mp hall).2⟩

theorem pathAbsolute_bytes {w : Bytes} (h : Is .pathAbsolute w) : w = [47] ∨
    ∃ b v, w = 47 :: b :: v ∧ among (escaped pchar) b = true ∧
      ∀ c ∈ v, among (escaped pathChar) c = true := by
  obtain ⟨r, hr, hw⟩ := is_iff.mp h
  simp only [rules, List.mem_cons, List.not_mem_nil, or_false] at hr
  rcases hr with rfl | rfl
  · obtain ⟨v, rfl, hv⟩ := (derives_chr (by decide)).mp hw
    rw [derives_nil.mp hv]
    exact .inl rfl
  · obtain ⟨v, rfl, hv⟩ := (derives_chr (by decide)).mp hw
    -- behind the slash stands what a path without a root is
    have hrootless : Is .pathRootless v := is_iff.mpr ⟨_, List.mem_singleton.mpr rfl, hv⟩
    obtain ⟨b, v, rfl, hb, hv⟩ := pathRootless_bytes hrootless
    exact .inr ⟨b, v, rfl, hb, hv⟩

theorem pathNoscheme_bytes {w : Bytes} (h : Is .pathNoscheme w) : ∃ b u v, w = b :: u ++ v ∧
    (∀ c ∈ b :: u, among (escaped segmentNc) c = true) ∧
      (v = [] ∨ ∃ v', v = 47 :: v' ∧ ∀ c ∈ v', among (escaped pathChar) c = true) := by
  have hfirst : startsIn rules 9 (ofRanges (escaped segmentNc)) [.nt .segmentNzNc] = true := by
    decide
  have hwithin : within rules (ofRanges (escaped segmentNc)) [.segmentNzNc, .segmentNzNcRest,
      .pcharNc, .pctEncoded] = true := by decide
  obtain ⟨r, hr, hw⟩ := is_iff.mp h
  obtain rfl := List.mem_singleton.mp hr
  obtain ⟨u, v, rfl, hu, hv⟩ := derives_part.mp hw
  obtain ⟨b, u, rfl, -⟩ := among_of_startsIn hfirst hu
  exact ⟨b, u, v, rfl, among_of_within hwithin (by decide) hu, segments_bytes hv⟩

end UriGrammar

namespace Uri

open UriMachine UriGrammar

variable {buffer : Bytes} {p : Nat} {s : Scan}

/-! ## The actions -/

theorem marked_eq {m : Nat} {w rest : Bytes} (h : buffer.drop m = w ++ rest) :
    marked buffer (m + w.length) (some m) = .ok w := by
  show (if m ≤ m + w.length then _ else _) = _
  rw [if_pos (Nat.le_add_right ..), Nat.add_sub_cancel_left, h, List.take_left]

theorem marked_self : marked buffer p (some p) = .ok [] := by
  show (if p ≤ p then _ else _) = _
  rw [if_pos (Nat.le_refl p), Nat.sub_self, List.take_zero]

variable {v : Bytes} {as : List UriAction}

theorem perform_marku : perform (act buffer p) (.marku :: as) s =
    perform (act buffer p) as { s with mark := some p } := rfl

theorem perform_markh : perform (act buffer p) (.markh :: as) s =
    perform (act buffer p) as { s with mark := some p } := rfl

theorem perform_saveScheme (h : marked buffer p s.mark = .ok v) :
    perform (act buffer p) (.saveScheme :: as) s =
      perform (act buffer p) as ⟨none, { s.uri with scheme := v }⟩ :=
  perform_cons (by rw [act, h]; rfl) as

theorem perform_saveUserinfo {m : Nat} (hmark : s.mark = some m)
    (h : marked buffer p s.mark = .ok v) :
    perform (act buffer p) (.saveUserinfo :: as) s =
      perform (act buffer p) as ⟨none, { s.uri with userinfo := v }⟩ :=
  perform_cons (by rw [act, h, hmark]; rfl) as

theorem perform_saveHost {m : Nat} (hmark : s.mark = some m)
    (h : marked buffer p s.mark = .ok v) :
    perform (act buffer p) (.saveHost :: as) s =
      perform (act buffer p) as { s with uri := { s.uri with host := v } } :=
  perform_cons (by rw [act, h, hmark]; rfl) as

theorem perform_saveQuery (h : marked buffer p s.mark = .ok v) :
    perform (act buffer p) (.saveQuery :: as) s =
      perform (act buffer p) as ⟨none, { s.uri with query := v }⟩ :=
  perform_cons (by rw [act, h]; rfl) as

theorem perform_saveFragment (h : marked buffer p s.mark = .ok v) :
    perform (act buffer p) (.saveFragment :: as) s =
      perform (act buffer p) as ⟨none, { s.uri with fragment := v }⟩ :=
  perform_cons (by rw [act, h]; rfl) as

/-- A port without digits. -/
theorem perform_savePort_self (h : s.mark = some p) :
    perform (act buffer p) (.savePort :: as) s = perform (act buffer p) as ⟨none, s.uri⟩ :=
  perform_cons (by rw [act, if_neg (not_not_intro h)]; rfl) as

theorem perform_savePort {m : Nat} (hmark : s.mark = some m) (hm : m ≠ p) :
    perform (act buffer p) (.savePort :: as) s = perform (act buffer p) as
      ⟨none, { s.uri with port := atoi (cStr (buffer.drop m)) }⟩ := by
  refine perform_cons ?_ as
  rw [act, hmark, if_pos fun h => hm (Option.some.inj h)]
  rfl

/-! ## The edges -/

/-- `?` and `#` and the end of the input in a state: the same actions. -/
def Ends (cs : Nat) (acts : List UriAction) : Prop :=
  move outline cs 63 = some (acts, 456) ∧ move outline cs 35 = some (acts, 453) ∧ eofActs cs = acts

instance (cs : Nat) (acts : List UriAction) : Decidable (Ends cs acts) :=
  inferInstanceAs (Decidable (_ ∧ _ ∧ _))

/-- The state in the copy behind a scheme, or in the one without. -/
def inCopy (abs : Bool) (cs : Nat) : Nat := if abs then absolute cs else cs

/-- What an edge that leaves for `target` does. -/
def leaving (abs : Bool) (acts : List UriAction) (target : Nat) : List UriAction :=
  if abs then pathActs acts target else acts

/-- The authority may end in the state. -/
def Leaves (abs : Bool) (cs : Nat) (acts : List UriAction) : Prop :=
  move outline (inCopy abs cs) 47 = some (leaving abs acts 455, inCopy abs 455) ∧
    Ends (inCopy abs cs) (leaving abs acts 453)

instance (abs : Bool) (cs : Nat) (acts : List UriAction) : Decidable (Leaves abs cs acts) :=
  inferInstanceAs (Decidable (_ ∧ _))

section

variable {on : List (Nat × Nat)} {acts : List UriAction} {cs cs' : Nat} {b : UInt8}

/-- The bytes of `on` lead to `Q`. -/
theorem move_into {Q : List Nat} (h : leads [acts] Q (outline cs) (ofRanges on) = true)
    (hb : among on b = true) : ∃ cs' ∈ Q, move outline cs b = some (acts, cs') := by
  rw [among, ← testBit_ofRanges] at hb
  obtain ⟨as, has, cs', hcs', hmove⟩ := move_of_leads h hb
  rw [List.mem_singleton.mp has] at hmove
  exact ⟨cs', hcs', hmove⟩

theorem move_to (h : leads [acts] [cs'] (outline cs) (ofRanges on) = true)
    (hb : among on b = true) : move outline cs b = some (acts, cs') := by
  obtain ⟨q, hq, hmove⟩ := move_into h hb
  rw [hmove, List.mem_singleton.mp hq]

/-- The first byte of a fragment, and one behind it. -/
theorem move_fragment (hb : among (escaped queryChar) b = true) :
    move outline 453 b = some ([.marku], 454) ∧ move outline 454 b = some ([], 454) :=
  ⟨move_to (by decide) hb, move_to (by decide) hb⟩

theorem move_query (hb : among (escaped queryChar) b = true) :
    move outline 456 b = some ([.marku], 457) ∧ move outline 457 b = some ([], 457) :=
  ⟨move_to (by decide) hb, move_to (by decide) hb⟩

/-- A path that is not saved, and one that is. -/
theorem move_path (hb : among (escaped pathChar) b = true) :
    move outline 455 b = some ([], 455) ∧ move outline 513 b = some ([], 513) :=
  ⟨move_to (by decide) hb, move_to (by decide) hb⟩

theorem move_pchar (hcs : cs ∈ [458, 509, 510]) (hb : among (escaped pchar) b = true) :
    move outline cs b = some ([], 455) := by
  have hleads : ∀ cs ∈ [458, 509, 510],
      leads [[]] [455] (outline cs) (ofRanges (escaped pchar)) = true := by decide
  exact move_to (hleads cs hcs) hb

/-- The first byte of a path without a scheme, which may be one of a
scheme. -/
theorem move_noscheme_first (hb : among (escaped segmentNc) b = true) :
    ∃ acts ∈ [[], [UriAction.marku]], ∃ cs ∈ [452, 508],
      move outline 451 b = some (acts, cs) := by
  have hleads : leads [[], [UriAction.marku]] [452, 508] (outline 451)
      (ofRanges (escaped segmentNc)) = true := by decide
  exact move_of_leads hleads ((testBit_ofRanges _ _).trans hb)

theorem move_noscheme (hcs : cs ∈ [452, 508]) (hb : among (escaped segmentNc) b = true) :
    ∃ cs' ∈ [452, 508], move outline cs b = some ([], cs') := by
  have hleads : ∀ cs ∈ [452, 508],
      leads [[]] [452, 508] (outline cs) (ofRanges (escaped segmentNc)) = true := by decide
  exact move_into (hleads cs hcs) hb

theorem move_scheme_first (hb : among UriMachine.alpha b = true) :
    move outline 451 b = some ([.marku], 508) := move_to (by decide) hb

theorem move_scheme (hb : among schemeChar b = true) : move outline 508 b = some ([], 508) :=
  move_to (by decide) hb

/-- A port without digits, its first digit, the others, and its end. -/
theorem port_edges (abs : Bool) (hcs : cs ∈ [468, 461]) : ∃ digits ∈ [489, 462],
    Leaves abs cs [.markh, .savePort] ∧
    (∀ b : UInt8, 48 ≤ b ∧ b ≤ 57 →
      move outline (inCopy abs cs) b = some ([.markh], inCopy abs digits)) ∧
    (∀ b : UInt8, 48 ≤ b ∧ b ≤ 57 →
      move outline (inCopy abs digits) b = some ([], inCopy abs digits)) ∧
    Leaves abs digits [.savePort] := by
  have hleads : ∀ abs, ∀ cs ∈ [468, 461], ∃ digits ∈ [489, 462],
      Leaves abs cs [.markh, .savePort] ∧
      leads [[.markh]] [inCopy abs digits] (outline (inCopy abs cs))
        (ofRanges UriMachine.digit) = true ∧
      leads [[]] [inCopy abs digits] (outline (inCopy abs digits))
        (ofRanges UriMachine.digit) = true ∧
      Leaves abs digits [.savePort] := by decide
  obtain ⟨digits, hdigits, hempty, hfirst, hloop, hleaves⟩ := hleads abs cs hcs
  exact ⟨digits, hdigits, hempty, fun b hb => move_to hfirst (among_digit.mpr hb),
    fun b hb => move_to hloop (among_digit.mpr hb), hleaves⟩

theorem move_host_first (abs : Bool) (hcs : cs ∈ [459, 469])
    (hb : among (escaped regName ++ one 2) b = true) : ∃ cs' ∈ [467, 470].map (inCopy abs),
      move outline (inCopy abs cs) b = some ([.markh], cs') := by
  have hleads : ∀ abs, ∀ cs ∈ [459, 469], leads [[.markh]] ([467, 470].map (inCopy abs))
      (outline (inCopy abs cs)) (ofRanges (escaped regName ++ one 2)) = true := by decide
  exact move_into (hleads abs cs hcs) hb

theorem move_host (abs : Bool) (hcs : cs ∈ [467, 470].map (inCopy abs))
    (hb : among (escaped regName ++ one 2) b = true) :
    ∃ cs' ∈ [467, 470].map (inCopy abs), move outline cs b = some ([], cs') := by
  have hleads : ∀ abs, ∀ cs ∈ [467, 470].map (inCopy abs), leads [[]]
      ([467, 470].map (inCopy abs)) (outline cs) (ofRanges (escaped regName ++ one 2)) = true := by
    decide
  exact move_into (hleads abs cs hcs) hb

/-- A host in brackets. -/
theorem move_bracket (abs : Bool) : (∀ cs ∈ [459, 469],
      move outline (inCopy abs cs) 91 = some ([.markh], inCopy abs 38)) ∧
    move outline (inCopy abs 38) 93 = some ([], inCopy abs 470) := by
  revert abs
  decide

theorem move_literal (abs : Bool) (hb : among (userinfoChar ++ one 2) b = true) :
    move outline (inCopy abs 38) b = some ([], inCopy abs 38) :=
  move_to (by revert abs; decide) hb

/-- No host, or one that is over: the authority may end, or a port begin. -/
theorem noHost_edges : ∀ abs, ∀ cs ∈ [459, 469], Leaves abs cs [.markh, .saveHost] ∧
    ∃ c ∈ [468, 461], move outline (inCopy abs cs) 58 =
      some ([.markh, .saveHost], inCopy abs c) := by
  decide

theorem host_edges : ∀ abs, ∀ cs ∈ [467, 470], Leaves abs cs [.saveHost] ∧
    ∃ c ∈ [468, 461], move outline (inCopy abs cs) 58 = some ([.saveHost], inCopy abs c) := by
  decide

/-- In a userinfo, behind its first `:`. -/
theorem move_userinfo (abs : Bool) (hcs : cs ∈ [33, 489].map (inCopy abs))
    (hb : among (escaped userinfoChar) b = true) :
    ∃ cs' ∈ [33, 489].map (inCopy abs), move outline cs b = some ([], cs') := by
  have hleads : ∀ abs, ∀ cs ∈ [33, 489].map (inCopy abs), leads [[]]
      ([33, 489].map (inCopy abs)) (outline cs) (ofRanges (escaped userinfoChar)) = true := by
    decide
  exact move_into (hleads abs cs hcs) hb

theorem userinfo_at : ∀ abs, ∀ cs ∈ [33, 489].map (inCopy abs),
    move outline cs 64 = some ([.saveUserinfo], inCopy abs 469) := by
  decide

/-- In front of the first `:` a userinfo has the bytes of a name. -/
theorem move_name (abs : Bool) (hb : among (escaped userinfoChar) b = true) (hne : b ≠ 58) :
    move outline (inCopy abs 459) b = some ([.markh], inCopy abs 467) ∧
      move outline (inCopy abs 467) b = some ([], inCopy abs 467) := by
  have hsplit : ofRanges (escaped userinfoChar) =
      ofRanges (escaped regName) ||| ofRanges (one 58) := by decide
  have hname : among (escaped regName) b = true :=
    (among_or hsplit hb).resolve_right fun h => hne (among_one.mp h)
  exact ⟨move_to (by revert abs; decide) hname, move_to (by revert abs; decide) hname⟩

theorem noName_edges (abs : Bool) :
    move outline (inCopy abs 459) 58 = some ([.markh, .saveHost], inCopy abs 468) ∧
      move outline (inCopy abs 459) 64 = some ([.markh, .saveUserinfo], inCopy abs 469) := by
  revert abs
  decide

theorem name_edges (abs : Bool) :
    move outline (inCopy abs 467) 58 = some ([.saveHost], inCopy abs 468) ∧
      move outline (inCopy abs 467) 64 = some ([.saveUserinfo], inCopy abs 469) := by
  revert abs
  decide

/-- Behind the first `:` a digit sets the mark again, and nothing else
does. -/
theorem move_colon_digit (abs : Bool) (hb : 48 ≤ b ∧ b ≤ 57) :
    move outline (inCopy abs 468) b = some ([.markh], inCopy abs 489) :=
  move_to (by revert abs; decide) (among_digit.mpr hb)

theorem move_colon_other (abs : Bool) (hb : among (escaped userinfoChar) b = true)
    (hdigit : ¬(48 ≤ b ∧ b ≤ 57)) :
    move outline (inCopy abs 468) b = some ([], inCopy abs 33) := by
  have hother : among (escaped userinfoNoDigit) b = true :=
    (among_or (by decide) hb).resolve_right fun h => hdigit (among_digit.mp h)
  exact move_to (by revert abs; decide) hother

theorem colon_at (abs : Bool) :
    move outline (inCopy abs 468) 64 = some ([.saveUserinfo], inCopy abs 469) := by
  revert abs
  decide

/-- The slashes in front of a path or an authority. -/
theorem slash_edges : move outline 451 47 = some ([], 458) ∧ move outline 458 47 = some ([], 459) ∧
    move outline 509 47 = some ([], 510) ∧ move outline 510 47 = some ([], inCopy true 459) := by
  decide

/-- Where nothing is to be saved a reference may end. -/
theorem ends_edges : ∀ cs ∈ [451, 452, 455, 458, 508, 509, 510], Ends cs [] := by
  decide

end

/-! ## The query and the fragment -/

theorem finish_fragment {f : Bytes} (hf : Is .fragment f) (hbuffer : buffer.drop p = f) :
    finish buffer f p 453 s = .ok (some { s.uri with fragment := f }) := by
  cases f with
  | nil =>
      show perform (act buffer p) [.marku, .saveFragment] s >>= _ = _
      rw [perform_marku, perform_saveFragment marked_self]
      rfl
  | cons b f =>
      obtain ⟨hb, hall⟩ := List.forall_mem_cons.mp (fragment_bytes hf)
      have hmarked : marked buffer (p + 1 + f.length) (some p) = .ok (b :: f) := by
        rw [← add_length_cons]
        exact marked_eq (hbuffer.trans (List.append_nil _).symm)
      rw [finish_move (move_fragment hb).1, perform_marku]
      show finish buffer f (p + 1) 454 { s with mark := some p } = _
      rw [finish_loop_nil fun c hc => (move_fragment (hall c hc)).2]
      show perform (act buffer (p + 1 + f.length)) [.saveFragment] { s with mark := some p } >>=
        _ = _
      rw [perform_saveFragment hmarked]
      rfl

theorem finish_hashFragment {cs : Nat} {acts : List UriAction} {fragment : Option Bytes}
    (hhash : move outline cs 35 = some (acts, 453)) (heof : eofActs cs = acts)
    (hf : ∀ f, fragment = some f → Is .fragment f)
    (hbuffer : buffer.drop p = delimited 35 fragment) :
    finish buffer (delimited 35 fragment) p cs s = perform (act buffer p) acts s >>= fun s =>
      .ok (some { s.uri with fragment := fragment.getD s.uri.fragment }) := by
  cases fragment with
  | none =>
      show perform (act buffer p) (eofActs cs) s >>= _ = _
      rw [heof]
      rfl
  | some f =>
      rw [delimited, finish_move hhash]
      cases perform (act buffer p) acts s with
      | error e => rfl
      | ok s' => exact finish_fragment (hf f rfl) (drop_succ hbuffer)

theorem finish_query {q : Bytes} {fragment : Option Bytes} (hq : Is .query q)
    (hf : ∀ f, fragment = some f → Is .fragment f)
    (hbuffer : buffer.drop p = q ++ delimited 35 fragment) :
    finish buffer (q ++ delimited 35 fragment) p 456 s =
      .ok (some { s.uri with query := q, fragment := fragment.getD s.uri.fragment }) := by
  have hself : move outline 456 35 = some ([.marku, .saveQuery], 453) := by decide
  have hhash : move outline 457 35 = some ([.saveQuery], 453) := by decide
  cases q with
  | nil =>
      rw [List.nil_append, finish_hashFragment hself (by decide) hf hbuffer, perform_marku,
        perform_saveQuery marked_self]
      rfl
  | cons b q =>
      obtain ⟨hb, hall⟩ := List.forall_mem_cons.mp (query_bytes hq)
      have hmarked : marked buffer (p + 1 + q.length) (some p) = .ok (b :: q) := by
        rw [← add_length_cons]
        exact marked_eq hbuffer
      rw [List.cons_append, finish_move (move_query hb).1, perform_marku]
      show finish buffer (q ++ delimited 35 fragment) (p + 1) 457 { s with mark := some p } = _
      rw [finish_loop fun c hc => (move_query (hall c hc)).2, finish_hashFragment hhash
        (by decide) hf (drop_add_length (drop_succ hbuffer)), perform_saveQuery hmarked]
      rfl

/-- With the authority. -/
def withAuthority (u : Uri) (a : UriAuthority) : Uri :=
  { u with userinfo := savedUserinfo (a.userinfo.getD []), host := a.host,
           port := savedPort (a.port.getD []) }

/-- With the query and the fragment. -/
def withTail (u : Uri) (P : UriParts) : Uri :=
  { u with query := P.query.getD u.query, fragment := P.fragment.getD u.fragment }

variable {P : UriParts}

theorem finish_tail (hP : P.Valid) {cs : Nat} {acts : List UriAction} (hends : Ends cs acts)
    (hbuffer : buffer.drop p = P.tail) :
    finish buffer P.tail p cs s = perform (act buffer p) acts s >>= fun s =>
      .ok (some (s.uri.withTail P)) := by
  obtain ⟨hquery, hhash, heof⟩ := hends
  obtain ⟨scheme, authority, path, query, fragment⟩ := P
  cases query with
  | none => exact finish_hashFragment hhash heof hP.fragment hbuffer
  | some q =>
      show finish buffer (63 :: (q ++ delimited 35 fragment)) p cs s = _
      rw [finish_move hquery]
      cases perform (act buffer p) acts s with
      | error e => rfl
      | ok s' => exact finish_query (hP.query q rfl) hP.fragment (drop_succ hbuffer)

/-! ## A path without an authority -/

/-- Nothing is done any more before the query. -/
theorem finish_rest (hP : P.Valid) {v : Bytes} (hv : ∀ c ∈ v, among (escaped pathChar) c = true)
    (hbuffer : buffer.drop p = v ++ P.tail) :
    finish buffer (v ++ P.tail) p 455 s = .ok (some (s.uri.withTail P)) := by
  rw [finish_loop fun c hc => (move_path (hv c hc)).1,
    finish_tail hP (ends_edges 455 (by decide)) (drop_add_length hbuffer)]
  rfl

theorem finish_pathRootless (hP : P.Valid) {w : Bytes} (h : Is .pathRootless w)
    (hbuffer : buffer.drop p = w ++ P.tail) :
    finish buffer (w ++ P.tail) p 509 s = .ok (some (s.uri.withTail P)) := by
  obtain ⟨b, v, rfl, hb, hv⟩ := pathRootless_bytes h
  rw [List.cons_append, finish_move (move_pchar (by decide) hb)]
  exact finish_rest hP hv (drop_succ hbuffer)

/-- Behind a scheme and without one. -/
theorem finish_pathAbsolute (hP : P.Valid) {w : Bytes} (h : Is .pathAbsolute w)
    (hbuffer : buffer.drop p = w ++ P.tail) {cs : Nat} (hcs : cs = 451 ∨ cs = 509) :
    finish buffer (w ++ P.tail) p cs s = .ok (some (s.uri.withTail P)) := by
  obtain ⟨slash, hslash, hends, hpchar⟩ : ∃ slash, move outline cs 47 = some ([], slash) ∧
      Ends slash [] ∧ slash ∈ [458, 509, 510] := by
    rcases hcs with rfl | rfl
    · exact ⟨458, slash_edges.1, ends_edges 458 (by decide), by decide⟩
    · exact ⟨510, slash_edges.2.2.1, ends_edges 510 (by decide), by decide⟩
  rcases pathAbsolute_bytes h with rfl | ⟨b, v, rfl, hb, hv⟩
  · rw [List.cons_append, finish_move hslash]
    exact finish_tail hP hends (drop_succ hbuffer)
  · rw [List.cons_append, finish_move hslash]
    show finish buffer (b :: (v ++ P.tail)) (p + 1) slash s = _
    rw [finish_move (move_pchar hpchar hb)]
    exact finish_rest hP hv (drop_succ (drop_succ hbuffer))

theorem finish_pathNoscheme (hP : P.Valid) {w : Bytes} (h : Is .pathNoscheme w)
    (hbuffer : buffer.drop p = w ++ P.tail) :
    finish buffer (w ++ P.tail) p 451 s = .ok (some (s.uri.withTail P)) := by
  obtain ⟨b, u, v, rfl, hall, hv⟩ := pathNoscheme_bytes h
  obtain ⟨hb, hu⟩ := List.forall_mem_cons.mp hall
  obtain ⟨acts, hacts, cs, hcs, hmove⟩ := move_noscheme_first hb
  obtain ⟨s', hperform, huri⟩ : ∃ s', perform (act buffer p) acts s = .ok s' ∧ s'.uri = s.uri := by
    simp only [List.mem_cons, List.not_mem_nil, or_false] at hacts
    rcases hacts with rfl | rfl
    · exact ⟨s, rfl, rfl⟩
    · exact ⟨_, perform_marku, rfl⟩
  have hslash : ∀ cs ∈ [452, 508], move outline cs 47 = some ([], 455) := by decide
  -- the first segment, which may be a scheme yet or no longer
  obtain ⟨cs', hcs', hfinish⟩ := finish_within buffer (v ++ P.tail) s' (p := p + 1)
    (fun _ h _ => move_noscheme h) hu hcs
  have hends : Ends cs' [] :=
    ends_edges cs' ((by decide : [452, 508] ⊆ [451, 452, 455, 458, 508, 509, 510]) hcs')
  rw [List.append_assoc, List.cons_append] at hbuffer ⊢
  rw [finish_move hmove, hperform, ← huri]
  refine Eq.trans hfinish ?_
  have hrest := drop_add_length (drop_succ hbuffer)
  rcases hv with rfl | ⟨v', rfl, hv'⟩
  · exact finish_tail hP hends hrest
  · rw [List.cons_append, finish_move (hslash cs' hcs')]
    exact finish_rest hP hv' (drop_succ hrest)

/-! ## The scheme -/

theorem finish_scheme {w rest : Bytes} (h : Is .scheme w)
    (hbuffer : buffer.drop p = w ++ 58 :: rest) :
    finish buffer (w ++ 58 :: rest) p 451 s =
      finish buffer rest (p + w.length + 1) 509 ⟨none, { s.uri with scheme := w }⟩ := by
  have hcolon : move outline 508 58 = some ([.saveScheme], 509) := by decide
  have hmarked := marked_eq hbuffer
  obtain ⟨b, v, rfl, hb, hv⟩ := scheme_bytes h
  rw [add_length_cons] at hmarked ⊢
  rw [List.cons_append, finish_move (move_scheme_first hb), perform_marku]
  show finish buffer (v ++ 58 :: rest) (p + 1) 508 { s with mark := some p } = _
  rw [finish_loop fun c hc => move_scheme (hv c hc), finish_move hcolon,
    perform_saveScheme hmarked]
  rfl

/-! ## The end of an authority -/

/-- The run over `text` comes to where an authority may end; if it ends
there, the URI is `u`, and behind a scheme the mark is `m`. -/
def Stops (buffer : Bytes) (abs : Bool) (text rest : Bytes) (p cs : Nat) (s : Scan)
    (m : Option Nat) (u : Uri) : Prop :=
  ∃ cs' acts s' m', Leaves abs cs' acts ∧
    finish buffer (text ++ rest) p (inCopy abs cs) s =
      finish buffer rest (p + text.length) (inCopy abs cs') s' ∧
    perform (act buffer (p + text.length)) (leaving abs acts 455) s' = .ok ⟨m', u⟩ ∧
    (abs = true → m' = m)

theorem perform_append {σ : Type} {f : UriAction → σ → Except UriFault σ} :
    ∀ {as as' : List UriAction} {s : σ},
      perform f (as ++ as') s = perform f as s >>= perform f as'
  | [], _, _ => rfl
  | a :: as, as', s => by
      show (f a s >>= perform f (as ++ as')) = (f a s >>= perform f as) >>= perform f as'
      rw [bind_assoc]
      exact congrArg (f a s >>= ·) (funext fun _ => perform_append)

/-- Behind a scheme the path is saved, from the mark on. -/
theorem finish_of_stops (hP : P.Valid) {abs : Bool} {text w : Bytes} {cs : Nat} {m : Option Nat}
    {u : Uri} (h : Stops buffer abs text (w ++ P.tail) p cs s m u) (hw : Is .pathAbempty w)
    (hbuffer : buffer.drop p = text ++ (w ++ P.tail)) :
    finish buffer (text ++ (w ++ P.tail)) p (inCopy abs cs) s =
      if abs then marked buffer (p + text.length + w.length) m >>= fun v =>
        .ok (some ({ u with path := v }.withTail P))
      else .ok (some (u.withTail P)) := by
  obtain ⟨cs', acts, s', m', ⟨hslash, hends⟩, hfinish, hperform, hmark⟩ := h
  have hrest := drop_add_length hbuffer
  generalize p + text.length = q at *
  rw [hfinish]
  cases abs with
  | false =>
      show _ = Except.ok (some (u.withTail P))
      rcases pathAbempty_bytes hw with rfl | ⟨v, rfl, hv⟩
      · rw [List.nil_append, finish_tail hP hends hrest]
        show perform (act buffer q) acts s' >>= _ = _
        rw [show perform (act buffer q) acts s' = _ from hperform]
        rfl
      · rw [List.cons_append, finish_move hslash, hperform]
        exact finish_rest hP hv (drop_succ hrest)
  | true =>
      obtain rfl := hmark rfl
      show _ = marked buffer (q + w.length) m' >>= fun v =>
        .ok (some ({ u with path := v }.withTail P))
      rcases pathAbempty_bytes hw with rfl | ⟨v, rfl, hv⟩
      · have hacts : leaving true acts 453 = leaving true acts 455 ++ [.savePath] := rfl
        rw [List.nil_append, finish_tail hP hends hrest, hacts, perform_append, hperform]
        show (perform (act buffer q) [.savePath] _ >>= _) = _
        rw [perform, act]
        cases marked buffer q m' <;> rfl
      · rw [List.cons_append, finish_move hslash, hperform]
        show finish buffer (v ++ P.tail) (q + 1) 513 ⟨m', u⟩ = _
        have hsaves : Ends 513 [.savePath] := by decide
        rw [finish_loop fun c hc => (move_path (hv c hc)).2, finish_tail hP hsaves
          (drop_add_length (drop_succ hrest)), add_length_cons, perform, act]
        cases marked buffer (q + 1 + v.length) m' <;> rfl

/-! ## The port -/

/-- `atoi` reads the digits at the mark. -/
theorem atoi_digits {d rest : Bytes} (hne : d ≠ []) (hd : ∀ b ∈ d, 48 ≤ b ∧ b ≤ 57)
    (hrest : ∀ b w, rest = b :: w → ¬(48 ≤ b ∧ b ≤ 57)) :
    atoi (cStr (d ++ rest)) = savedPort d := by
  have hchar (b : UInt8) (hb : 48 ≤ b ∧ b ≤ 57) := ((decimal_digit b).1 hb).2
  have hstr : cStr (d ++ rest) = d ++ cStr rest :=
    List.takeWhile_append_of_pos fun b hb => decide_eq_true (hchar b (hd b hb)).1
  have hnext : ∀ b w, cStr rest = b :: w → ¬(48 ≤ b ∧ b ≤ 57) := by
    intro b w h
    cases rest with
    | nil => cases h
    | cons c rest =>
        rw [cStr, List.takeWhile_cons] at h
        split at h
        · obtain ⟨rfl, -⟩ := List.cons.inj h
          exact hrest c rest rfl
        · cases h
  have hdigits := digits_decimal_append hnext hd
  obtain ⟨c, cs, rfl⟩ := List.exists_cons_of_ne_nil hne
  obtain ⟨-, hspace, hminus, hplus, -⟩ := hchar c (hd c (List.mem_cons_self ..))
  have hsign : sign ((c :: cs ++ cStr rest).dropWhile isspace) = (false, c :: cs ++ cStr rest) := by
    rw [List.cons_append, List.dropWhile_cons_of_neg (by rw [hspace]; decide), sign,
      if_neg hminus, if_neg hplus]
  rw [hstr, atoi, savedPort, strtol, hsign]
  show toInt32 (min (ofDigits 10 (digits 10 (c :: cs ++ cStr rest)).1 : Int) (2 ^ 63 - 1)) = _
  rw [hdigits, ofDigits_decimal]

theorem stops_port (s : Scan) (abs : Bool) {d rest : Bytes} (hd : Is .port d) {cs : Nat}
    (hcs : cs ∈ [468, 461]) (hbuffer : buffer.drop p = d ++ rest)
    (hrest : ∀ b w, rest = b :: w → ¬(48 ≤ b ∧ b ≤ 57)) (hport : s.uri.port = 0) :
    Stops buffer abs d rest p cs s (if d = [] then none else some (p + d.length))
      { s.uri with port := savedPort d } := by
  have hdigit := port_bytes hd
  obtain ⟨digits, -, hempty, hfirst, hloop, hleaves⟩ := port_edges abs hcs
  cases d with
  | nil =>
      have hsame : { s.uri with port := savedPort [] } = s.uri := by
        rw [show savedPort [] = 0 by decide, ← hport]
      rw [hsame, if_pos rfl]
      refine ⟨cs, [.markh, .savePort], s, none, hempty, rfl, ?_, fun _ => rfl⟩
      have hacts : leaving abs [.markh, .savePort] 455 = [.markh, .savePort] := by
        cases abs <;> rfl
      rw [hacts, perform_markh, perform_savePort_self rfl]
      rfl
  | cons b d =>
      obtain ⟨hb, hall⟩ := List.forall_mem_cons.mp hdigit
      have hatoi := atoi_digits (List.cons_ne_nil b d) hdigit hrest
      rw [← hbuffer] at hatoi
      rw [if_neg (List.cons_ne_nil b d), ← hatoi, add_length_cons]
      have hp : p ≠ p + 1 + d.length := by omega
      refine ⟨digits, [.savePort], { s with mark := some p },
        if abs then some (p + 1 + d.length) else none, hleaves, ?_, ?_, fun habs => if_pos habs⟩
      · rw [List.cons_append, finish_move (hfirst b hb), perform_markh, add_length_cons]
        exact finish_loop fun c hc => hloop c (hall c hc)
      · rw [add_length_cons]
        cases abs with
        | false =>
            show perform (act buffer _) [.savePort] _ = _
            rw [perform_savePort rfl hp]
            rfl
        | true =>
            show perform (act buffer _) [.savePort, .markh] _ = _
            rw [perform_savePort rfl hp]
            rfl

/-! ## The host -/

/-- The bytes of a name, of four octets or of a host in brackets. -/
theorem finish_host (buffer rest : Bytes) (p : Nat) (s : Scan) (abs : Bool) {h : Bytes}
    (hh : Is .host h) (hne : h ≠ []) {cs : Nat}
    (hcs : cs ∈ [459, 469]) :
    ∃ cs' ∈ [467, 470], finish buffer (h ++ rest) p (inCopy abs cs) s =
      finish buffer rest (p + h.length) (inCopy abs cs') { s with mark := some p } := by
  rcases host_bytes hh with hall | ⟨v, rfl, hv⟩
  · obtain ⟨b, v, rfl⟩ := List.exists_cons_of_ne_nil hne
    obtain ⟨hb, hv⟩ := List.forall_mem_cons.mp hall
    obtain ⟨cs₁, hcs₁, hmove⟩ := move_host_first abs hcs hb
    obtain ⟨cs₂, hcs₂, hfinish⟩ := finish_within buffer rest { s with mark := some p } (p := p + 1)
      (fun _ h _ => move_host abs h) hv hcs₁
    obtain ⟨cs', hcs', rfl⟩ := List.mem_map.mp hcs₂
    refine ⟨cs', hcs', ?_⟩
    rw [List.cons_append, finish_move hmove, add_length_cons]
    exact hfinish
  · refine ⟨470, by decide, ?_⟩
    rw [List.cons_append, finish_move ((move_bracket abs).1 cs hcs), List.append_assoc]
    show finish buffer (v ++ 93 :: rest) (p + 1) (inCopy abs 38) { s with mark := some p } = _
    rw [finish_loop fun c hc => move_literal abs (hv c hc),
      finish_move (move_bracket abs).2, add_length_cons, add_length_concat]
    rfl

/-- The host is over: the authority may end, or a port begin. -/
theorem host_ends (s : Scan) (abs : Bool) {h rest : Bytes} (hh : Is .host h) {cs : Nat}
    (hcs : cs ∈ [459, 469]) (hbuffer : buffer.drop p = h ++ rest) :
    ∃ cs' acts s', Leaves abs cs' acts ∧
      (∃ c ∈ [468, 461], move outline (inCopy abs cs') 58 = some (acts, inCopy abs c)) ∧
      finish buffer (h ++ rest) p (inCopy abs cs) s =
        finish buffer rest (p + h.length) (inCopy abs cs') s' ∧
      perform (act buffer (p + h.length)) acts s' =
        .ok ⟨some p, { s.uri with host := h }⟩ ∧
      ∃ m', perform (act buffer (p + h.length)) (leaving abs acts 455) s' =
        .ok ⟨m', { s.uri with host := h }⟩ ∧ (abs = true → m' = some (p + h.length)) := by
  cases h with
  | nil =>
      have hacts : leaving abs [.markh, .saveHost] 455 = [.markh, .saveHost] := by
        cases abs <;> rfl
      have hperform : perform (act buffer p) [.markh, .saveHost] s =
          .ok ⟨some p, { s.uri with host := [] }⟩ := by
        rw [perform_markh, perform_saveHost rfl marked_self]
        rfl
      obtain ⟨hleaves, hcolon⟩ := noHost_edges abs cs hcs
      refine ⟨cs, _, s, hleaves, hcolon, rfl, hperform, some p, ?_, fun _ => rfl⟩
      rw [hacts]
      exact hperform
  | cons b h =>
      obtain ⟨cs', hcs', hfinish⟩ := finish_host buffer rest p s abs hh (List.cons_ne_nil b h)
        hcs
      obtain ⟨hleaves, hcolon⟩ := host_edges abs cs' hcs'
      have hmarked := marked_eq hbuffer
      generalize p + (b :: h).length = q at *
      have hperform (as : List UriAction) :
          perform (act buffer q) (.saveHost :: as) { s with mark := some p } =
            perform (act buffer q) as ⟨some p, { s.uri with host := b :: h }⟩ :=
        perform_saveHost rfl hmarked
      refine ⟨cs', _, _, hleaves, hcolon, hfinish, hperform [], if abs then some q else some p,
        ?_, fun habs => if_pos habs⟩
      cases abs with
      | false => exact hperform []
      | true => exact hperform [.markh]

/-! ## The userinfo -/

/-- Behind a `:` the mark stays where it is. -/
theorem finish_colon {abs : Bool} {v w rest : Bytes} {m q cs : Nat} {u : Uri}
    (hw : ∀ b ∈ w, among (escaped userinfoChar) b = true) (hcs : cs ∈ [33, 489])
    (hmarked : marked buffer (q + w.length) (some m) = .ok v) :
    finish buffer (w ++ 64 :: rest) q (inCopy abs cs) ⟨some m, u⟩ =
      finish buffer rest (q + w.length + 1) (inCopy abs 469) ⟨none, { u with userinfo := v }⟩ := by
  obtain ⟨cs', hcs', hfinish⟩ := finish_within buffer (64 :: rest) ⟨some m, u⟩ (p := q)
    (fun _ h _ => move_userinfo abs h) hw (List.mem_map_of_mem hcs)
  rw [hfinish, finish_move (userinfo_at abs cs' hcs'), perform_saveUserinfo rfl hmarked]
  rfl

/-- Up to the first `:`. -/
theorem finish_name (s : Scan) (abs : Bool) {a rest : Bytes}
    (ha : ∀ b ∈ a, among (escaped userinfoChar) b = true ∧ b ≠ 58)
    (hbuffer : buffer.drop p = a ++ rest) :
    ∃ cs' s', finish buffer (a ++ rest) p (inCopy abs 459) s =
        finish buffer rest (p + a.length) (inCopy abs cs') s' ∧
      ∃ acts, move outline (inCopy abs cs') 58 = some (acts ++ [.saveHost], inCopy abs 468) ∧
        move outline (inCopy abs cs') 64 = some (acts ++ [.saveUserinfo], inCopy abs 469) ∧
        perform (act buffer (p + a.length)) acts s' = .ok ⟨some p, s.uri⟩ := by
  cases a with
  | nil =>
      obtain ⟨hcolon, hat⟩ := noName_edges abs
      exact ⟨459, s, rfl, [.markh], hcolon, hat, perform_markh⟩
  | cons b a =>
      obtain ⟨hcolon, hat⟩ := name_edges abs
      obtain ⟨hb, ha⟩ := List.forall_mem_cons.mp ha
      refine ⟨467, { s with mark := some p }, ?_, [], hcolon, hat, rfl⟩
      rw [List.cons_append, finish_move (move_name abs hb.1 hb.2).1, add_length_cons]
      exact finish_loop fun c hc => (move_name abs (ha c hc).1 (ha c hc).2).2

/-- Where the first `:` is. -/
theorem userinfo_cases (u : Bytes) : ∃ a, (∀ b ∈ a, b ≠ 58) ∧
    (u = a ∧ savedUserinfo u = u ∨ u = a ++ [58] ∧ savedUserinfo u = u ∨
      ∃ d w, u = a ++ 58 :: d :: w ∧
        savedUserinfo u = if 48 ≤ d ∧ d ≤ 57 then d :: w else u) := by
  have hsplit : u.takeWhile (· ≠ 58) ++ u.dropWhile (· ≠ 58) = u := List.takeWhile_append_dropWhile
  refine ⟨u.takeWhile (· ≠ 58), fun b hb => of_decide_eq_true
    (List.mem_takeWhile_imp (p := fun b : UInt8 => decide (b ≠ 58)) hb), ?_⟩
  rw [savedUserinfo]
  cases hrest : u.dropWhile (· ≠ 58) with
  | nil =>
      rw [hrest, List.append_nil] at hsplit
      exact .inl ⟨hsplit.symm, rfl⟩
  | cons c w =>
      have hc : c = 58 := by
        have hhead := List.head?_dropWhile_not (fun b : UInt8 => decide (b ≠ 58)) u
        rw [hrest] at hhead
        simpa using hhead
      rw [hrest, hc] at hsplit
      cases w with
      | nil => exact .inr (.inl ⟨hsplit.symm, rfl⟩)
      | cons d w => exact .inr (.inr ⟨d, w, hsplit.symm, rfl⟩)

theorem finish_userinfo (s : Scan) (abs : Bool) {u rest : Bytes} (hu : Is .userinfo u)
    (hbuffer : buffer.drop p = u ++ 64 :: rest) :
    ∃ host, finish buffer (u ++ 64 :: rest) p (inCopy abs 459) s =
      finish buffer rest (p + u.length + 1) (inCopy abs 469)
        ⟨none, { s.uri with userinfo := savedUserinfo u, host := host }⟩ := by
  have hbytes := userinfo_bytes hu
  have hmarked := marked_eq hbuffer
  obtain ⟨a, ha, hcases⟩ := userinfo_cases u
  have hname (hall : ∀ b ∈ a, b ∈ u) : ∀ b ∈ a, among (escaped userinfoChar) b = true ∧ b ≠ 58 :=
    fun b hb => ⟨hbytes b (hall b hb), ha b hb⟩
  -- up to the `:`, which takes the name for the host
  have hcolon {w : Bytes} (hall : ∀ b ∈ a, b ∈ u) (hdrop : buffer.drop p = a ++ 58 :: w) :
      finish buffer (a ++ 58 :: w) p (inCopy abs 459) s =
        finish buffer w (p + a.length + 1) (inCopy abs 468) ⟨some p, { s.uri with host := a }⟩ := by
    obtain ⟨cs', s', hfinish, acts, hmove, -, hperform⟩ :=
      finish_name s abs (hname hall) hdrop
    rw [hfinish, finish_move hmove, perform_append, hperform]
    show perform (act buffer (p + a.length)) [.saveHost] ⟨some p, s.uri⟩ >>= _ = _
    rw [perform_saveHost rfl (marked_eq hdrop)]
    rfl
  rcases hcases with ⟨rfl, hsaved⟩ | ⟨rfl, hsaved⟩ | ⟨d, w, rfl, hsaved⟩
  · obtain ⟨cs', s', hfinish, acts, -, hmove, hperform⟩ :=
      finish_name s abs (hname fun _ h => h) hbuffer
    refine ⟨s.uri.host, ?_⟩
    rw [hsaved, hfinish, finish_move hmove, perform_append, hperform]
    show perform (act buffer (p + u.length)) [.saveUserinfo] ⟨some p, s.uri⟩ >>= _ = _
    rw [perform_saveUserinfo rfl hmarked]
    rfl
  · refine ⟨a, ?_⟩
    rw [add_length_concat] at hmarked ⊢
    rw [List.append_assoc, List.cons_append, List.nil_append] at hbuffer ⊢
    rw [hsaved, hcolon (fun b hb => List.mem_append_left _ hb) hbuffer, finish_move
      (colon_at abs), perform_saveUserinfo rfl hmarked]
    rfl
  · refine ⟨a, ?_⟩
    have hlength : p + (a ++ 58 :: d :: w).length = p + a.length + 1 + 1 + w.length := by
      simp only [List.length_append, List.length_cons]
      omega
    rw [hlength] at hmarked ⊢
    rw [List.append_assoc, List.cons_append, List.cons_append] at hbuffer ⊢
    have hd : among (escaped userinfoChar) d = true := hbytes d (by simp)
    have hw : ∀ b ∈ w, among (escaped userinfoChar) b = true := fun b hb => hbytes b (by simp [hb])
    rw [hcolon (fun b hb => List.mem_append_left _ hb) hbuffer, hsaved]
    by_cases hrange : 48 ≤ d ∧ d ≤ 57
    · have hdrop : buffer.drop (p + a.length + 1) = (d :: w) ++ 64 :: rest :=
        drop_succ (drop_add_length hbuffer)
      have hmarked' := marked_eq hdrop
      rw [add_length_cons] at hmarked'
      rw [finish_move (move_colon_digit abs hrange), perform_markh, if_pos hrange]
      exact finish_colon hw (by decide) hmarked'
    · rw [finish_move (move_colon_other abs hd hrange), if_neg hrange]
      exact finish_colon hw (by decide) hmarked

/-! ## All parts -/

theorem Stops.cons {abs : Bool} {x y rest : Bytes} {cs cs' : Nat} {s' : Scan} {m : Option Nat}
    {u : Uri} (heq : finish buffer (x ++ (y ++ rest)) p (inCopy abs cs) s =
      finish buffer (y ++ rest) (p + x.length) (inCopy abs cs') s')
    (h : Stops buffer abs y rest (p + x.length) cs' s' m u) :
    Stops buffer abs (x ++ y) rest p cs s m u := by
  obtain ⟨cs₂, acts, s₂, m', hleaves, hfinish, hperform, hm⟩ := h
  rw [Nat.add_assoc, ← List.length_append] at hfinish hperform
  refine ⟨cs₂, acts, s₂, m', hleaves, ?_, hperform, hm⟩
  rw [List.append_assoc, heq, hfinish]

theorem stops_hostPort (s : Scan) (abs : Bool) {h rest : Bytes} {port : Option Bytes}
    (hh : Is .host h) (hport : ∀ d, port = some d → Is .port d) (cs : Nat) (hcs : cs ∈ [459, 469])
    (hbuffer : buffer.drop p = h ++ (delimited 58 port ++ rest))
    (hrest : ∀ b w, rest = b :: w → ¬(48 ≤ b ∧ b ≤ 57)) (hzero : s.uri.port = 0) :
    Stops buffer abs (h ++ delimited 58 port) rest p cs s
      (if port = some [] then none else some (p + (h ++ delimited 58 port).length))
      { s.uri with host := h, port := savedPort (port.getD []) } := by
  obtain ⟨cs', acts, s', hleaves, ⟨c, hc, hcolon⟩, hfinish, hperform, m', hperform', hm'⟩ :=
    host_ends s abs hh hcs hbuffer
  cases port with
  | none =>
      have hsame : { s.uri with host := h, port := savedPort (Option.getD none []) } =
          { s.uri with host := h } := by
        rw [show savedPort (Option.getD none []) = s.uri.port by rw [hzero]; decide]
      rw [hsame, delimited, List.append_nil, if_neg (by simp)]
      exact ⟨cs', acts, s', m', hleaves, hfinish, hperform', hm'⟩
  | some d =>
      rw [delimited, List.cons_append] at hbuffer hfinish
      have hdrop : buffer.drop (p + (h ++ [58]).length) = d ++ rest := by
        rw [add_length_concat]
        exact drop_succ (drop_add_length hbuffer)
      have hstops := stops_port ⟨some p, { s.uri with host := h }⟩ abs
        (hport d rfl) hc hdrop hrest hzero
      have heq : finish buffer (h ++ [58] ++ (d ++ rest)) p (inCopy abs cs) s =
          finish buffer (d ++ rest) (p + (h ++ [58]).length) (inCopy abs c)
            ⟨some p, { s.uri with host := h }⟩ := by
        rw [List.append_assoc, List.singleton_append, hfinish, finish_move hcolon, hperform,
          add_length_concat]
        rfl
      have hall := hstops.cons heq
      rw [List.append_assoc, List.singleton_append, Nat.add_assoc, ← List.length_append,
        List.append_assoc, List.singleton_append] at hall
      rw [delimited]
      by_cases hd : d = []
      · subst hd
        exact hall
      · rw [if_neg hd] at hall
        rw [if_neg fun h => hd (Option.some.inj h)]
        exact hall

theorem stops_authority {abs : Bool} {a : UriAuthority} (ha : a.Valid) {rest : Bytes}
    (hbuffer : buffer.drop p = a.text ++ rest)
    (hrest : ∀ b w, rest = b :: w → ¬(48 ≤ b ∧ b ≤ 57)) (hzero : s.uri.port = 0)
    (hempty : s.uri.userinfo = []) :
    Stops buffer abs a.text rest p 459 s
      (if a.port = some [] then none else some (p + a.text.length)) (s.uri.withAuthority a) := by
  obtain ⟨ui, h, port⟩ := a
  rw [UriAuthority.text, List.append_assoc] at hbuffer
  cases ui with
  | none =>
      have hstops := stops_hostPort s abs ha.host ha.port 459 (by decide)
        (hbuffer.trans (List.append_assoc ..)) hrest hzero
      have hsaved : savedUserinfo (Option.getD none []) = s.uri.userinfo := hempty.symm
      rw [UriAuthority.text, withAuthority, hsaved]
      exact hstops
  | some ui =>
      have hbuffer' : buffer.drop p = ui ++ 64 :: (h ++ delimited 58 port ++ rest) :=
        hbuffer.trans (List.append_assoc ..)
      obtain ⟨host, hfinish⟩ := finish_userinfo s abs (ha.userinfo ui rfl) hbuffer'
      have hdrop : buffer.drop (p + (ui ++ [64]).length) = h ++ (delimited 58 port ++ rest) := by
        rw [add_length_concat, ← List.append_assoc]
        exact drop_succ (drop_add_length hbuffer')
      have hstops := stops_hostPort
        ⟨none, { s.uri with userinfo := savedUserinfo ui, host := host }⟩ abs ha.host ha.port 469
        (by decide) hdrop hrest hzero
      have heq : finish buffer (ui ++ [64] ++ (h ++ delimited 58 port ++ rest)) p
          (inCopy abs 459) s = finish buffer (h ++ delimited 58 port ++ rest)
            (p + (ui ++ [64]).length) (inCopy abs 469)
            ⟨none, { s.uri with userinfo := savedUserinfo ui, host := host }⟩ := by
        rw [List.append_assoc, List.singleton_append, hfinish, add_length_concat]
      have hall := hstops.cons heq
      rw [Nat.add_assoc, ← List.length_append] at hall
      exact hall

theorem finish_authority (hP : P.Valid) (abs : Bool) {a : UriAuthority} (ha : a.Valid)
    (hpath : Is .pathAbempty P.path) (hbuffer : buffer.drop p = a.text ++ (P.path ++ P.tail))
    (hzero : s.uri.port = 0) (hempty : s.uri.userinfo = []) :
    finish buffer (a.text ++ (P.path ++ P.tail)) p (inCopy abs 459) s =
      if abs then
        if a.port = some [] then .error .nullMark
        else .ok (some ({ s.uri.withAuthority a with path := P.path }.withTail P))
      else .ok (some ((s.uri.withAuthority a).withTail P)) := by
  -- what follows the authority begins with a slash, `?` or `#`
  have hrest : ∀ b w, P.path ++ P.tail = b :: w → ¬(48 ≤ b ∧ b ≤ 57) := by
    intro b w h
    rcases pathAbempty_bytes hpath with hnil | ⟨v, hcons, -⟩
    · rw [hnil, List.nil_append, UriParts.tail] at h
      cases hquery : P.query with
      | some q =>
          rw [hquery] at h
          obtain ⟨rfl, -⟩ := List.cons.inj h
          decide
      | none =>
          rw [hquery] at h
          cases hfragment : P.fragment with
          | some f =>
              rw [hfragment] at h
              obtain ⟨rfl, -⟩ := List.cons.inj h
              decide
          | none =>
              rw [hfragment] at h
              cases h
    · rw [hcons] at h
      obtain ⟨rfl, -⟩ := List.cons.inj h
      decide
  rw [finish_of_stops hP (stops_authority ha hbuffer hrest hzero hempty) hpath hbuffer]
  cases abs with
  | false => rfl
  | true =>
      rw [if_pos rfl, if_pos rfl]
      by_cases hport : a.port = some []
      · rw [if_pos hport, if_pos hport]
        rfl
      · rw [if_neg hport, if_neg hport, marked_eq (drop_add_length hbuffer)]
        rfl

theorem finish_text (hP : P.Valid) (hbuffer : buffer.drop 0 = P.text) :
    finish buffer P.text 0 start ⟨none, new⟩ = P.outcome := by
  have hport : savedPort [] = 0 := by decide
  obtain ⟨hfirst, hsecond, hthird, hfourth⟩ := slash_edges
  obtain ⟨scheme, authority, path, query, fragment⟩ := P
  have hfits := hP.path
  cases scheme with
  | none =>
      cases authority with
      | none =>
          have houtcome : UriParts.outcome ⟨none, none, path, query, fragment⟩ =
              .ok (some (new.withTail ⟨none, none, path, query, fragment⟩)) := by
            simp [UriParts.outcome, UriParts.Absolute, UriParts.saved, UriParts.port, withTail, new,
              savedUserinfo, hport]
          rw [houtcome]
          rcases hfits with h | h | rfl
          · exact finish_pathAbsolute hP h hbuffer (.inl rfl)
          · exact finish_pathNoscheme hP h hbuffer
          · exact finish_tail hP (ends_edges 451 (by decide)) hbuffer
      | some a =>
          have houtcome : UriParts.outcome ⟨none, some a, path, query, fragment⟩ =
              .ok (some ((new.withAuthority a).withTail
                ⟨none, some a, path, query, fragment⟩)) := by
            simp [UriParts.outcome, UriParts.Absolute, UriParts.saved, UriParts.port, withTail,
              withAuthority, new]
          have hdrop : buffer.drop 2 = a.text ++ (path ++ UriParts.tail _) :=
            drop_succ (drop_succ hbuffer)
          rw [houtcome]
          show finish buffer (47 :: 47 :: (a.text ++ (path ++ UriParts.tail _))) 0 451 _ = _
          rw [finish_move hfirst]
          show finish buffer (47 :: (a.text ++ (path ++ UriParts.tail _))) 1 458 _ = _
          rw [finish_move hsecond]
          exact finish_authority hP false (hP.authority a rfl) hfits hdrop rfl rfl
  | some w =>
      have hscheme := hP.scheme w rfl
      rw [UriParts.text, terminated, List.append_assoc, List.singleton_append] at hbuffer ⊢
      have hrest := drop_succ (drop_add_length hbuffer)
      rw [show start = 451 from rfl, finish_scheme hscheme hbuffer]
      generalize 0 + w.length + 1 = q at *
      cases authority with
      | none =>
          have houtcome : UriParts.outcome ⟨some w, none, path, query, fragment⟩ =
              .ok (some ({ new with scheme := w }.withTail
                ⟨some w, none, path, query, fragment⟩)) := by
            simp [UriParts.outcome, UriParts.Absolute, UriParts.saved, UriParts.port, withTail, new,
              savedUserinfo, hport]
          rw [houtcome]
          rcases hfits with h | h | rfl
          · exact finish_pathAbsolute hP h hrest (.inr rfl)
          · exact finish_pathRootless hP h hrest
          · exact finish_tail hP (ends_edges 509 (by decide)) hrest
      | some a =>
          have houtcome : UriParts.outcome ⟨some w, some a, path, query, fragment⟩ =
              if a.port = some [] then .error .nullMark
              else .ok (some ({ ({ new with scheme := w } : Uri).withAuthority a with
                path := path }.withTail ⟨some w, some a, path, query, fragment⟩)) := by
            simp [UriParts.outcome, UriParts.Absolute, UriParts.saved, UriParts.port, withTail,
              withAuthority, new]
          have hdrop : buffer.drop (q + 1 + 1) = a.text ++ (path ++ UriParts.tail _) :=
            drop_succ (drop_succ hrest)
          rw [houtcome]
          show finish buffer (47 :: 47 :: (a.text ++ (path ++ UriParts.tail _))) q 509 _ = _
          rw [finish_move hthird]
          show finish buffer (47 :: (a.text ++ (path ++ UriParts.tail _))) (q + 1) 510 _ = _
          rw [finish_move hfourth]
          exact finish_authority hP true (hP.authority a rfl) hfits hdrop rfl rfl

/-- What `create` makes of the text of valid parts. -/
theorem create_text (hP : P.Valid) : create P.text = P.outcome := by
  rw [create_eq_finish (derives_iff.mpr ⟨P, hP, rfl⟩)]
  exact finish_text hP rfl

/-- What `create` returns for the text has saved the parts. -/
theorem create_text_iff (hP : P.Valid) {u : Uri} : create P.text = .ok (some u) ↔
    ¬(P.Absolute ∧ P.port = some []) ∧ P.saved = u := by
  rw [create_text hP, UriParts.outcome]
  split
  · rename_i hport
    exact iff_of_false (by simp) fun h => h.1 hport
  · rename_i hport
    rw [and_iff_right hport]
    simp

/-- What `create` accepts is the text of valid parts. -/
theorem create_some_iff {s : Bytes} {u : Uri} : create s = .ok (some u) ↔
    ∃ P : UriParts, P.Valid ∧ P.text = s ∧ ¬(P.Absolute ∧ P.port = some []) ∧ P.saved = u := by
  constructor
  · intro h
    obtain ⟨P, hP, rfl⟩ := derives_iff.mp (is_of_create h)
    exact ⟨P, hP, rfl, (create_text_iff hP).mp h⟩
  · rintro ⟨P, hP, rfl, hsaved⟩
    exact (create_text_iff hP).mpr hsaved

end Uri

end Sylar
