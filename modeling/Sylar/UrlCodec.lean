import Mathlib.Data.List.TakeWhile
import Sylar.HttpMessage
import Sylar.Lib.Scanner

/-!
# Escapes in a URL

`StringUtil::UrlEncode`, `UrlDecode` and `Trim` in `util.cc`. A byte is
decoded to what it was encoded from, whatever comes behind it
(`urlDecode_urlEncode`). The encoder leaves `=` alone, which is the
separator in a query.
-/

namespace Sylar

open Scanner

namespace StringUtil

/-- `CHAR_IS_UNRESERVED(c)`. -/
def isUnreserved (c : UInt8) : Bool :=
  48 ≤ c && c ≤ 57 || 65 ≤ c && c ≤ 90 || 97 ≤ c && c ≤ 122 ||
    c == 45 || c == 46 || c == 61 || c == 95 || c == 126

/-- `hexdigits[n]`. -/
def hexdigits (n : UInt8) : UInt8 := if n < 10 then 48 + n else 55 + n

/-- `xdigit_chars[c]`. -/
def xdigitChars (c : UInt8) : UInt8 :=
  if 48 ≤ c ∧ c ≤ 57 then c - 48
  else if 65 ≤ c ∧ c ≤ 70 then c - 55
  else if 97 ≤ c ∧ c ≤ 102 then c - 87
  else 0

def urlEncodeByte (spaceAsPlus : Bool) (c : UInt8) : Bytes :=
  if isUnreserved c then [c]
  else if c = 32 ∧ spaceAsPlus then [43]
  else [37, hexdigits (c >>> 4), hexdigits (c &&& 0xf)]

def urlEncode (str : Bytes) (spaceAsPlus : Bool) : Bytes := str.flatMap (urlEncodeByte spaceAsPlus)

/-- A `%` without two hexadecimal digits stands for itself. -/
def urlDecode (spaceAsPlus : Bool) : Bytes → Bytes
  | 37 :: a :: b :: rest =>
      if isXdigit a && isXdigit b then
        (xdigitChars a <<< 4 ||| xdigitChars b) :: urlDecode spaceAsPlus rest
      else 37 :: urlDecode spaceAsPlus (a :: b :: rest)
  | c :: rest => (if c = 43 ∧ spaceAsPlus then 32 else c) :: urlDecode spaceAsPlus rest
  | [] => []

/-- The blanks that `Trim` takes away by default. -/
def blanks : Bytes := [32, 9, 13, 10]

def trim (str delimit : Bytes) : Bytes :=
  ((str.dropWhile (· ∈ delimit)).reverse.dropWhile (· ∈ delimit)).reverse

/-! ## Decoding what has been encoded -/

section

variable {plus : Bool}

theorem urlDecode_escape {a b : UInt8} (rest : Bytes) (ha : isXdigit a = true)
    (hb : isXdigit b = true) : urlDecode plus (37 :: a :: b :: rest) =
      (xdigitChars a <<< 4 ||| xdigitChars b) :: urlDecode plus rest := by
  rw [urlDecode, if_pos (by rw [ha, hb]; rfl)]

theorem urlDecode_cons {c : UInt8} (hc : c ≠ 37) (rest : Bytes) : urlDecode plus (c :: rest) =
    (if c = 43 ∧ plus then 32 else c) :: urlDecode plus rest := by
  rw [urlDecode]
  rintro a b rest' heq -
  exact hc heq

theorem isUnreserved_ne {c : UInt8} (h : isUnreserved c = true) : c ≠ 37 ∧ c ≠ 43 := by
  constructor
  · rintro rfl
    cases h
  · rintro rfl
    cases h

/-- A byte behind `%`. -/
theorem hexdigits_spec : ∀ c : UInt8, isXdigit (hexdigits (c >>> 4)) = true ∧
    isXdigit (hexdigits (c &&& 0xf)) = true ∧
    xdigitChars (hexdigits (c >>> 4)) <<< 4 ||| xdigitChars (hexdigits (c &&& 0xf)) = c := by
  decide +kernel

/-- A `+` that stands for a blank has to be read as one. -/
theorem urlDecode_urlEncodeByte {a b : Bool} (h : a = true → b = true) (c : UInt8) (rest : Bytes) :
    urlDecode b (urlEncodeByte a c ++ rest) = c :: urlDecode b rest := by
  rw [urlEncodeByte]
  split
  · rename_i hc
    obtain ⟨hpercent, hplus⟩ := isUnreserved_ne hc
    rw [List.singleton_append, urlDecode_cons hpercent, if_neg fun hblank => hplus hblank.1]
  split
  · rename_i hc
    rw [List.singleton_append, urlDecode_cons (by decide), if_pos ⟨rfl, h hc.2⟩, hc.1]
  · obtain ⟨ha, hb, hvalue⟩ := hexdigits_spec c
    rw [List.cons_append, List.cons_append, List.cons_append, List.nil_append,
      urlDecode_escape rest ha hb, hvalue]

/-- **What has been encoded is decoded.** -/
theorem urlDecode_urlEncode {a b : Bool} (h : a = true → b = true) :
    ∀ str : Bytes, urlDecode b (urlEncode str a) = str
  | [] => rfl
  | c :: str => by
      rw [urlEncode, List.flatMap_cons, urlDecode_urlEncodeByte h]
      exact congrArg _ (urlDecode_urlEncode h str)

end

/-! ## What an encoded text consists of -/

variable {b : UInt8} {str delimit : Bytes}

theorem mem_urlEncodeByte {c : UInt8} (h : b ∈ urlEncodeByte true c) :
    b ≠ 0 ∧ b ≠ 38 ∧ b ∉ blanks ∧ (b = 61 → c = 61) := by
  have hunreserved : ∀ d, isUnreserved d = true → d ≠ 0 ∧ d ≠ 38 ∧ d ∉ blanks := by
    decide +kernel
  have hxdigit : ∀ d, isXdigit d = true → d ≠ 0 ∧ d ≠ 38 ∧ d ∉ blanks ∧ d ≠ 61 := by
    decide +kernel
  rw [urlEncodeByte] at h
  split at h
  · rename_i hc
    obtain rfl := List.mem_singleton.mp h
    obtain ⟨hzero, hamp, hblank⟩ := hunreserved b hc
    exact ⟨hzero, hamp, hblank, id⟩
  split at h
  · obtain rfl := List.mem_singleton.mp h
    exact ⟨by decide, by decide, by decide, fun heq => absurd heq (by decide)⟩
  · obtain ⟨hhigh, hlow, -⟩ := hexdigits_spec c
    have hplain : b ≠ 0 ∧ b ≠ 38 ∧ b ∉ blanks ∧ b ≠ 61 := by
      simp only [List.mem_cons, List.not_mem_nil, or_false] at h
      rcases h with rfl | rfl | rfl
      · decide
      · exact hxdigit _ hhigh
      · exact hxdigit _ hlow
    obtain ⟨hzero, hamp, hblank, heq⟩ := hplain
    exact ⟨hzero, hamp, hblank, fun hb => absurd hb heq⟩

theorem mem_urlEncode (h : b ∈ urlEncode str true) :
    b ≠ 0 ∧ b ≠ 38 ∧ b ∉ blanks ∧ (b = 61 → 61 ∈ str) := by
  obtain ⟨c, hc, hb⟩ := List.mem_flatMap.mp h
  obtain ⟨hzero, hamp, hblank, heq⟩ := mem_urlEncodeByte hb
  exact ⟨hzero, hamp, hblank, fun hb => heq hb ▸ hc⟩

theorem urlEncode_append (s t : Bytes) :
    urlEncode (s ++ t) true = urlEncode s true ++ urlEncode t true := List.flatMap_append

theorem urlEncode_unreserved : ∀ {str : Bytes}, (∀ c ∈ str, isUnreserved c = true) →
    urlEncode str true = str
  | [], _ => rfl
  | c :: str, h => by
      have hrest : urlEncode str true = str :=
        urlEncode_unreserved fun c' hc' => h c' (List.mem_cons_of_mem _ hc')
      rw [urlEncode, List.flatMap_cons, urlEncodeByte, if_pos (h c (List.mem_cons_self ..))]
      exact congrArg (c :: ·) hrest

/-- The bytes that only an escape produces. -/
def Escaped (str : Bytes) : Prop := 37 ∈ str ∨ 43 ∈ str

theorem escaped_urlEncodeByte {c : UInt8} (h : isUnreserved c = false) :
    Escaped (urlEncodeByte true c) := by
  rw [urlEncodeByte, if_neg (by rw [h]; exact Bool.false_ne_true)]
  split
  · exact .inr (List.mem_cons_self ..)
  · exact .inl (List.mem_cons_self ..)

theorem escaped_urlEncode {c : UInt8} (hc : c ∈ str) (h : isUnreserved c = false) :
    Escaped (urlEncode str true) :=
  (escaped_urlEncodeByte h).imp (fun hb => List.mem_flatMap.mpr ⟨c, hc, hb⟩)
    fun hb => List.mem_flatMap.mpr ⟨c, hc, hb⟩

theorem Escaped.urlEncode (h : Escaped str) : Escaped (urlEncode str true) := by
  obtain h | h := h
  · exact escaped_urlEncode h (by decide)
  · exact escaped_urlEncode h (by decide)

theorem urlEncodeByte_ne_nil (c : UInt8) : urlEncodeByte true c ≠ [] := by
  rw [urlEncodeByte]
  split
  · exact List.cons_ne_nil _ _
  · split <;> exact List.cons_ne_nil _ _

theorem length_le_urlEncode : ∀ str : Bytes, str.length ≤ (urlEncode str true).length
  | [] => Nat.le_refl _
  | c :: str => by
      have hrest := length_le_urlEncode str
      have hc := List.length_pos_iff.mpr (urlEncodeByte_ne_nil c)
      rw [StringUtil.urlEncode] at hrest ⊢
      rw [List.flatMap_cons, List.length_append, List.length_cons]
      omega

/-- An escape is escaped once more, and gets longer. -/
theorem Escaped.length_lt (h : Escaped str) : str.length < (StringUtil.urlEncode str true).length := by
  have hsplit : ∃ s t c, str = s ++ c :: t ∧ (urlEncodeByte true c).length = 3 := by
    obtain h | h := h
    · obtain ⟨s, t, rfl⟩ := List.append_of_mem h
      exact ⟨s, t, 37, rfl, by decide⟩
    · obtain ⟨s, t, rfl⟩ := List.append_of_mem h
      exact ⟨s, t, 43, rfl, by decide⟩
  obtain ⟨s, t, c, rfl, hthree⟩ := hsplit
  have hs := length_le_urlEncode s
  have ht := length_le_urlEncode t
  rw [StringUtil.urlEncode] at hs ht
  rw [urlEncode_append, StringUtil.urlEncode, StringUtil.urlEncode, List.flatMap_cons,
    List.length_append, List.length_append, List.length_append, List.length_cons, hthree]
  omega

theorem trim_self (h : ∀ b ∈ str, b ∉ delimit) : trim str delimit = str := by
  have hdrop : ∀ {l : Bytes}, (∀ b ∈ l, b ∉ delimit) → l.dropWhile (· ∈ delimit) = l := by
    intro l hl
    cases l with
    | nil => rfl
    | cons b l => exact List.dropWhile_cons_of_neg (by simpa using hl b (List.mem_cons_self ..))
  rw [trim, hdrop h, hdrop fun b hb => h b (List.mem_reverse.mp hb), List.reverse_reverse]

end StringUtil

end Sylar
