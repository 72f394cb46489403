import Sylar.UrlCodec

/-!
# The loops of UrlEncode and UrlDecode

Both look a byte up in a table of 256 entries and copy the string only
when a byte is to change: `ss` is null up to there, and then holds what
the string before `c` has become. They return what `urlEncode` and
`urlDecode` say (`urlEncode_eq`, `urlDecode_eq`), so that what has been
encoded is decoded, and the text consists of unreserved bytes and
escapes (`escape_lossless`).
-/

namespace Sylar

namespace StringUtil

namespace Copied

/-- `uri_chars`. -/
def uriChars : List UInt8 :=
  [0, 0, 0, 0, 0, 0, 0, 0, 0, 0, 0, 0, 0, 0, 0, 0, 0, 0, 0, 0, 0, 0, 0, 0, 0, 0, 0, 0, 0, 0, 0, 0,
    0, 0, 0, 0, 0, 0, 0, 0, 0, 0, 0, 0, 0, 1, 1, 0, 1, 1, 1, 1, 1, 1, 1, 1, 1, 1, 0, 0, 0, 1, 0, 0,
    0, 1, 1, 1, 1, 1, 1, 1, 1, 1, 1, 1, 1, 1, 1, 1, 1, 1, 1, 1, 1, 1, 1, 1, 1, 1, 1, 0, 0, 0, 0, 1,
    0, 1, 1, 1, 1, 1, 1, 1, 1, 1, 1, 1, 1, 1, 1, 1, 1, 1, 1, 1, 1, 1, 1, 1, 1, 1, 1, 0, 0, 0, 1, 0,
    0, 0, 0, 0, 0, 0, 0, 0, 0, 0, 0, 0, 0, 0, 0, 0, 0, 0, 0, 0, 0, 0, 0, 0, 0, 0, 0, 0, 0, 0, 0, 0,
    0, 0, 0, 0, 0, 0, 0, 0, 0, 0, 0, 0, 0, 0, 0, 0, 0, 0, 0, 0, 0, 0, 0, 0, 0, 0, 0, 0, 0, 0, 0, 0,
    0, 0, 0, 0, 0, 0, 0, 0, 0, 0, 0, 0, 0, 0, 0, 0, 0, 0, 0, 0, 0, 0, 0, 0, 0, 0, 0, 0, 0, 0, 0, 0,
    0, 0, 0, 0, 0, 0, 0, 0, 0, 0, 0, 0, 0, 0, 0, 0, 0, 0, 0, 0, 0, 0, 0, 0, 0, 0, 0, 0, 0, 0, 0, 0]

/-- `xdigit_chars`. -/
def xdigitTable : List UInt8 :=
  [0, 0, 0, 0, 0, 0, 0, 0, 0, 0, 0, 0, 0, 0, 0, 0, 0, 0, 0, 0, 0, 0, 0, 0, 0, 0, 0, 0, 0, 0, 0, 0,
    0, 0, 0, 0, 0, 0, 0, 0, 0, 0, 0, 0, 0, 0, 0, 0, 0, 1, 2, 3, 4, 5, 6, 7, 8, 9, 0, 0, 0, 0, 0, 0,
    0, 10, 11, 12, 13, 14, 15, 0, 0, 0, 0, 0, 0, 0, 0, 0, 0, 0, 0, 0, 0, 0, 0, 0, 0, 0, 0, 0, 0, 0, 0, 0,
    0, 10, 11, 12, 13, 14, 15, 0, 0, 0, 0, 0, 0, 0, 0, 0, 0, 0, 0, 0, 0, 0, 0, 0, 0, 0, 0, 0, 0, 0, 0, 0,
    0, 0, 0, 0, 0, 0, 0, 0, 0, 0, 0, 0, 0, 0, 0, 0, 0, 0, 0, 0, 0, 0, 0, 0, 0, 0, 0, 0, 0, 0, 0, 0,
    0, 0, 0, 0, 0, 0, 0, 0, 0, 0, 0, 0, 0, 0, 0, 0, 0, 0, 0, 0, 0, 0, 0, 0, 0, 0, 0, 0, 0, 0, 0, 0,
    0, 0, 0, 0, 0, 0, 0, 0, 0, 0, 0, 0, 0, 0, 0, 0, 0, 0, 0, 0, 0, 0, 0, 0, 0, 0, 0, 0, 0, 0, 0, 0,
    0, 0, 0, 0, 0, 0, 0, 0, 0, 0, 0, 0, 0, 0, 0, 0, 0, 0, 0, 0, 0, 0, 0, 0, 0, 0, 0, 0, 0, 0, 0, 0]

/-- `CHAR_IS_UNRESERVED(c)`. -/
def charIsUnreserved (c : UInt8) : UInt8 := uriChars.getD c.toNat 0

/-- `xdigit_chars[(int)c]`, for a `c` that is not negative as a `char`. -/
def xdigit (c : UInt8) : UInt8 := xdigitTable.getD c.toNat 0

/-- The loop of `UrlEncode`, with `front` before `c`. -/
def encodeLoop (spaceAsPlus : Bool) : Bytes → Bytes → Option Bytes → Option Bytes
  | _, [], ss => ss
  | front, c :: rest, ss =>
      encodeLoop spaceAsPlus (front ++ [c]) rest <|
        if charIsUnreserved c = 0 then
          let ss := ss.getD front
          if c = 32 ∧ spaceAsPlus then some (ss ++ [43])
          else some (ss ++ [37, hexdigits (c >>> 4), hexdigits (c &&& 0xf)])
        else ss.map (· ++ [c])

def urlEncode (str : Bytes) (spaceAsPlus : Bool) : Bytes :=
  (encodeLoop spaceAsPlus [] str none).getD str

/-- The loop of `UrlDecode`; an escape takes two bytes more. -/
def decodeLoop (spaceAsPlus : Bool) : Bytes → Bytes → Option Bytes → Option Bytes
  | front, 37 :: a :: b :: rest, ss =>
      if isXdigit a && isXdigit b then
        decodeLoop spaceAsPlus (front ++ [37, a, b]) rest
          (some (ss.getD front ++ [xdigit a <<< 4 ||| xdigit b]))
      else decodeLoop spaceAsPlus (front ++ [37]) (a :: b :: rest) (ss.map (· ++ [37]))
  | front, c :: rest, ss =>
      decodeLoop spaceAsPlus (front ++ [c]) rest <|
        if c = 43 ∧ spaceAsPlus then some (ss.getD front ++ [32]) else ss.map (· ++ [c])
  | _, [], ss => ss

def urlDecode (str : Bytes) (spaceAsPlus : Bool) : Bytes :=
  (decodeLoop spaceAsPlus [] str none).getD str

/-! ## The tables -/

theorem charIsUnreserved_iff (c : UInt8) : charIsUnreserved c = 0 ↔ isUnreserved c = false := by
  have htable : ∀ c, charIsUnreserved c = 0 ↔ isUnreserved c = false := by decide +kernel
  exact htable c

theorem xdigit_eq (c : UInt8) : xdigit c = xdigitChars c := by
  have htable : ∀ c, xdigit c = xdigitChars c := by decide +kernel
  exact htable c

/-! ## The loops -/

variable {spaceAsPlus : Bool}

theorem getD_map_append (ss : Option Bytes) (front : Bytes) (c : UInt8) :
    (ss.map (· ++ [c])).getD (front ++ [c]) = ss.getD front ++ [c] := by
  cases ss <;> rfl

/-- The loop has made `ss` of the string before `c`, or left it as it is. -/
theorem encodeLoop_eq : ∀ (rest front : Bytes) (ss : Option Bytes),
    (encodeLoop spaceAsPlus front rest ss).getD (front ++ rest) =
      ss.getD front ++ StringUtil.urlEncode rest spaceAsPlus
  | [], front, ss => by
      rw [encodeLoop, List.append_nil]
      exact (List.append_nil _).symm
  | c :: rest, front, ss => by
      have hrest := encodeLoop_eq rest (front ++ [c])
      rw [List.append_cons, encodeLoop, hrest, StringUtil.urlEncode, StringUtil.urlEncode,
        List.flatMap_cons, urlEncodeByte, ← List.append_assoc]
      congr 1
      by_cases hplain : isUnreserved c = true
      · have hne : charIsUnreserved c ≠ 0 := by
          rw [Ne, charIsUnreserved_iff, hplain]
          decide
        rw [if_neg hne, if_pos hplain, getD_map_append]
      · have hzero : charIsUnreserved c = 0 :=
          (charIsUnreserved_iff c).mpr (Bool.eq_false_iff.mpr hplain)
        rw [if_pos hzero, if_neg hplain]
        split <;> rfl

theorem urlEncode_eq (str : Bytes) : urlEncode str spaceAsPlus =
    StringUtil.urlEncode str spaceAsPlus := encodeLoop_eq str [] none

theorem decodeLoop_eq : ∀ (rest front : Bytes) (ss : Option Bytes),
    (decodeLoop spaceAsPlus front rest ss).getD (front ++ rest) =
      ss.getD front ++ StringUtil.urlDecode spaceAsPlus rest := by
  intro rest
  induction rest using StringUtil.urlDecode.induct with
  | case1 a b rest hhex ih =>
      intro front ss
      have hstep := ih (front ++ [37, a, b]) (some (ss.getD front ++ [xdigit a <<< 4 ||| xdigit b]))
      rw [decodeLoop, if_pos hhex, StringUtil.urlDecode, if_pos hhex]
      simpa [xdigit_eq] using hstep
  | case2 a b rest hhex ih =>
      intro front ss
      have hstep := ih (front ++ [37]) (ss.map (· ++ [37]))
      rw [decodeLoop, if_neg hhex, StringUtil.urlDecode, if_neg hhex]
      rw [getD_map_append] at hstep
      simpa using hstep
  | case3 c rest hshort ih =>
      intro front ss
      have hstep := ih (front ++ [c])
        (if c = 43 ∧ spaceAsPlus then some (ss.getD front ++ [32]) else ss.map (· ++ [c]))
      rw [decodeLoop, StringUtil.urlDecode]
      · by_cases hplus : c = 43 ∧ spaceAsPlus
        · rw [if_pos hplus] at hstep ⊢
          rw [if_pos hplus]
          simpa using hstep
        · rw [if_neg hplus] at hstep ⊢
          rw [if_neg hplus]
          rw [getD_map_append] at hstep
          simpa using hstep
      · exact hshort
      · exact hshort
  | case4 =>
      intro front ss
      rw [decodeLoop, List.append_nil]
      exact (List.append_nil _).symm

theorem urlDecode_eq (str : Bytes) : urlDecode str spaceAsPlus =
    StringUtil.urlDecode spaceAsPlus str := decodeLoop_eq str [] none

/-! ## What the text consists of -/

/-- An upper-case hexadecimal digit. -/
def IsUpperXdigit (b : UInt8) : Prop := 48 ≤ b ∧ b ≤ 57 ∨ 65 ≤ b ∧ b ≤ 70

instance (b : UInt8) : Decidable (IsUpperXdigit b) := inferInstanceAs (Decidable (_ ∨ _))

/-- A text that stands for a string, byte by byte: unreserved bytes, `%`
with two digits, and `+` for a blank. -/
inductive Escapes (spaceAsPlus : Bool) : Bytes → Bytes → Prop
  | nil : Escapes spaceAsPlus [] []
  | unreserved {c : UInt8} {str text : Bytes} :
      charIsUnreserved c ≠ 0 → Escapes spaceAsPlus str text →
      Escapes spaceAsPlus (c :: str) (c :: text)
  | escape {c hi lo : UInt8} {str text : Bytes} :
      IsUpperXdigit hi → IsUpperXdigit lo → xdigit hi <<< 4 ||| xdigit lo = c →
      Escapes spaceAsPlus str text →
      Escapes spaceAsPlus (c :: str) (37 :: hi :: lo :: text)
  | plus {str text : Bytes} :
      spaceAsPlus = true → Escapes spaceAsPlus str text →
      Escapes spaceAsPlus (32 :: str) (43 :: text)

theorem escapes_urlEncode (spaceAsPlus : Bool) :
    ∀ str : Bytes, Escapes spaceAsPlus str (StringUtil.urlEncode str spaceAsPlus)
  | [] => .nil
  | c :: str => by
      have hrest := escapes_urlEncode spaceAsPlus str
      have hupper : ∀ c : UInt8, IsUpperXdigit (hexdigits (c >>> 4)) ∧
          IsUpperXdigit (hexdigits (c &&& 0xf)) := by decide +kernel
      rw [StringUtil.urlEncode, List.flatMap_cons, urlEncodeByte]
      split
      · rename_i hc
        refine .unreserved (fun hzero => ?_) hrest
        rw [charIsUnreserved_iff, hc] at hzero
        cases hzero
      split
      · rename_i hc
        rw [hc.1]
        exact .plus hc.2 hrest
      · obtain ⟨-, -, hvalue⟩ := hexdigits_spec c
        refine .escape (hupper c).1 (hupper c).2 ?_ hrest
        rw [xdigit_eq, xdigit_eq, hvalue]

/-- **Escaping loses nothing**: the text is decoded to the string unless
a `+` is written for a blank and not read as one, and it consists of
unreserved bytes, escapes and such pluses. -/
theorem escape_lossless (str : Bytes) (a b : Bool) :
    (¬(a = true ∧ b = false) → urlDecode (urlEncode str a) b = str) ∧
      Escapes a str (urlEncode str a) := by
  rw [urlDecode_eq, urlEncode_eq]
  refine ⟨fun h => urlDecode_urlEncode (fun ha => ?_) str, escapes_urlEncode a str⟩
  cases b with
  | true => rfl
  | false => exact absurd ⟨ha, rfl⟩ h

theorem escape_lossless_mixed :
    urlDecode (urlEncode [97, 32, 37, 43, 255] false) true = [97, 32, 37, 43, 255] ∧
      Escapes false [97, 32, 37, 43, 255] (urlEncode [97, 32, 37, 43, 255] false) :=
  have hlossless := escape_lossless [97, 32, 37, 43, 255] false true
  ⟨hlossless.1 (by decide), hlossless.2⟩

example : urlEncode [97, 32, 37, 43, 255] true = bytes "a+%25%2B%FF" := by decide

end Copied

end StringUtil

end Sylar
