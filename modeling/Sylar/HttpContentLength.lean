import Mathlib.Data.Rat.Floor
import Sylar.HttpConnection
import Sylar.HttpRequestText

/-!
# The length of a body

`getAs` reads the header `content-length` with `std::stold` and converts
the number to an `uint64_t`; `recvRequest` and `recvResponse` take it as
an `int64_t`. A text of digits below 2 ^ 63 comes through that as it is.
But whatever has a number in front is a length too, up to the fraction
that is cut off; only numbers that end at 0 or below it are no body
(`strict_iff`).
-/

namespace Sylar

/-- `int64_t length = parser->getContentLength()`. -/
def HttpRequestParser.bodyLength (r : HttpRequestParser) : Except StdFault Int := do
  return toInt64 (← r.getContentLength)

/-- `int64_t length = parser->getContentLength()`. -/
def HttpResponseParser.bodyLength (r : HttpResponseParser) : Except StdFault Int := do
  return toInt64 (← r.getContentLength)

/-- What a strict reader makes of a value: its number, or no body. -/
structure Obeys (v : Bytes) (length : Except StdFault Int) : Prop where
  decimal : IsDecimal v → decimalValue v < 2 ^ 63 → length = .ok (decimalValue v : Int)
  others : ¬(IsDecimal v ∧ decimalValue v < 2 ^ 63) → ∃ n ≤ 0, length = .ok n

/-- The length that is used in both directions. -/
structure Strict (v : Bytes) : Prop where
  request : ∀ r : HttpRequestParser, r.data.headers.find (bytes "content-length") = some v →
    Obeys v r.bodyLength
  response : ∀ r : HttpResponseParser, r.data.headers.find (bytes "content-length") = some v →
    Obeys v r.bodyLength

/-- A number that is no length of a body, and is one that an `uint64_t` has. -/
def NoLength : Option LongDouble → Prop
  | none => True
  | some (.finite q) => -1 < q ∧ q < 1 ∨ 2 ^ 63 ≤ q ∧ q < 2 ^ 64
  | some _ => False

/-- The value is a number as a whole, or there is no length in front. -/
def Plain (v : Bytes) : Prop := IsDecimal v ∧ decimalValue v < 2 ^ 63 ∨ NoLength (stold v)

/-! ## Where the length is used -/

theorem SocketStream.readLeft_length : ∀ {fuel left : Nat} {s s' : SocketStream} {got : Bytes},
    s.readLeft fuel left = (some got, s') → got.length = left
  | _, 0, s, s', got, h => by
      rw [readLeft] at h
      rw [← Option.some.inj (Prod.mk.inj h).1]
      rfl
  | 0, left + 1, s, s', got, h => by
      rw [readLeft] at h
      · cases h
      · exact Nat.succ_ne_zero left
  | fuel + 1, left + 1, s, s', got, h => by
      rw [readLeft] at h
      · split at h
        · cases h
        · rename_i first s₁ hread
          have hle := read_length_le hread
          split at h
          · cases h
          · rename_i rest s₂ hrest
            have hlength := readLeft_length hrest
            rw [← Option.some.inj (Prod.mk.inj h).1, List.length_append]
            omega
      · exact Nat.succ_ne_zero left

theorem SocketStream.readFixSize_length {s s' : SocketStream} {n : Nat} {rt : Int} {got : Bytes}
    (h : s.readFixSize n = (rt, got, s')) (hrt : 0 < rt) : got.length = n := by
  rw [readFixSize] at h
  split at h
  · obtain ⟨rfl, -⟩ := Prod.mk.inj h
    exact absurd hrt (Int.lt_irrefl 0)
  · rename_i got' s'' hread
    obtain ⟨-, h⟩ := Prod.mk.inj h
    obtain ⟨rfl, -⟩ := Prod.mk.inj h
    exact readLeft_length hread

@[simp] theorem HttpRequest.init_body (r : HttpRequest) : r.init.body = r.body := by
  rw [init]
  split <;> rfl

/-- What is there of a body, and what has to come. -/
theorem head_length (data : Bytes) {length : Int} (hpos : 0 < length) :
    ((if length ≥ data.length then data else data.take length.toNat).length : Int) =
      min length data.length := by
  split
  · omega
  · rw [List.length_take]
    omega

/-- Together they are the body. -/
theorem head_rest_length {s : SocketStream} {data : Bytes} {length : Int} (hpos : 0 < length)
    (hrt : ¬(s.readFixSize (length - data.length).toNat).1 ≤ 0) (hleft : length - data.length > 0) :
    (((if length ≥ data.length then data else data.take length.toNat) ++
      (s.readFixSize (length - data.length).toNat).2.1).length : Int) = length := by
  have hhead := head_length data hpos
  have hgot : (s.readFixSize (length - data.length).toNat).2.1.length =
      (length - data.length).toNat := SocketStream.readFixSize_length rfl (Int.not_le.mp hrt)
  rw [List.length_append, Nat.cast_add, hhead, hgot]
  omega

namespace HttpSession

variable {relaxed : Bool} {s s' s'' : SocketStream} {parser : HttpRequestParser} {data : Bytes}
  {length : Int} {r : HttpRequest}

/-- The length decides between a body and none. -/
theorem recvRequest_body
    (h : parse (s.incoming.length + 1) s [] (.new relaxed) = .ok (some (parser, data), s')) :
    recvRequest relaxed s = parser.bodyLength >>= fun length =>
      if length > 0 then .ok (readBody s' parser data length)
      else .ok (some parser.data.init, s') := by
  rw [recvRequest, h, HttpRequestParser.bodyLength]
  show (parser.getContentLength >>= _) = (parser.getContentLength >>= _) >>= _
  cases parser.getContentLength <;> rfl

/-- A body has the length. -/
theorem readBody_length (hpos : 0 < length) (h : readBody s parser data length = (some r, s')) :
    (r.body.length : Int) = length := by
  rw [readBody] at h
  dsimp only at h
  split at h
  · rename_i hleft
    split at h
    · cases h
    · rename_i hrt
      obtain ⟨rfl, -⟩ := (Prod.mk.inj h).imp_left Option.some.inj
      rw [HttpRequest.init_body]
      exact head_rest_length hpos hrt hleft
  · obtain ⟨rfl, -⟩ := (Prod.mk.inj h).imp_left Option.some.inj
    rw [HttpRequest.init_body]
    exact (head_length data hpos).trans (by omega)

end HttpSession

namespace HttpConnection

variable {s s' : SocketStream} {parser : HttpResponseParser} {data body : Bytes} {length : Int}

theorem recvResponse_body (inflate : ZlibFormat → Bytes → Bytes)
    (h : parse (s.incoming.length + 1) s [] .new = .ok (some (parser, data), s'))
    (hchunked : parser.parser.chunked = false) :
    recvResponse inflate s = parser.bodyLength >>= fun length =>
      if length > 0 then
        .ok (((readBody s' data length).1.map (setBody inflate parser.data)),
          (readBody s' data length).2)
      else .ok (some parser.data, s') := by
  rw [recvResponse, h, HttpResponseParser.bodyLength]
  show (if parser.parser.chunked = true then _ else parser.getContentLength >>= _) =
    (parser.getContentLength >>= _) >>= _
  rw [hchunked, if_neg Bool.false_ne_true]
  cases parser.getContentLength with
  | error e => rfl
  | ok n =>
      show (if toInt64 n > 0 then _ else _) = (if toInt64 n > 0 then _ else _)
      congr 1
      cases hread : readBody s' data (toInt64 n) with
      | mk body s₁ => cases body <;> rfl

/-- A body has the length. -/
theorem readBody_length (hpos : 0 < length) (h : readBody s data length = (some body, s')) :
    (body.length : Int) = length := by
  rw [readBody] at h
  dsimp only at h
  split at h
  · rename_i hleft
    split at h
    · cases h
    · rename_i hrt
      obtain ⟨rfl, -⟩ := (Prod.mk.inj h).imp_left Option.some.inj
      exact head_rest_length hpos hrt hleft
  · obtain ⟨rfl, -⟩ := (Prod.mk.inj h).imp_left Option.some.inj
    exact (head_length data hpos).trans (by omega)

end HttpConnection

/-! ## What is made of a value -/

section

variable {v : Bytes} {headers : MapType} {q : ℚ}

theorem toInt64_eq {n : Nat} (h : n < 2 ^ 63) : toInt64 n = n := if_pos h

/-- A converted number is no length if it is 0, or its sign bit is set. -/
theorem toInt64_nonpos {n : Nat} (h : n < 2 ^ 64) : toInt64 n ≤ 0 ↔ n = 0 ∨ 2 ^ 63 ≤ n := by
  unfold toInt64
  split <;> omega

theorem toUInt64_ok (h : -1 < q ∧ q < 2 ^ 64) : toUInt64 (.finite q) = .ok ⌊q⌋.toNat := if_pos h

theorem toUInt64_natCast {n : Nat} (h : n < 2 ^ 64) : toUInt64 (.finite n) = .ok n := by
  have hrange : (-1 : ℚ) < n ∧ (n : ℚ) < 2 ^ 64 := by
    refine ⟨lt_of_lt_of_le (by norm_num) (Nat.cast_nonneg n), ?_⟩
    exact_mod_cast h
  rw [toUInt64_ok hrange, Int.floor_natCast, Int.toNat_natCast]

/-- The length that a number in front comes to. -/
theorem floor_nonpos (h : -1 < q ∧ q < 2 ^ 64) :
    toInt64 ⌊q⌋.toNat ≤ 0 ↔ q < 1 ∨ 2 ^ 63 ≤ q := by
  have hlt : ⌊q⌋ < 2 ^ 64 := by
    rw [Int.floor_lt]
    exact_mod_cast h.2
  have hone : q < 1 ↔ ⌊q⌋ < 1 := by
    rw [Int.floor_lt]
    norm_num
  have hlarge : (2 : ℚ) ^ 63 ≤ q ↔ 2 ^ 63 ≤ ⌊q⌋ := by
    rw [Int.le_floor]
    norm_num
  rw [toInt64_nonpos (by omega), hone, hlarge]
  omega

theorem getAs_none {key : Bytes} (h : headers.find key = some v) (hread : stold v = none) :
    headers.getAs key = .ok 0 := by
  rw [MapType.getAs, h]
  dsimp only
  rw [hread]

theorem getAs_some {key : Bytes} {x : LongDouble} (h : headers.find key = some v)
    (hread : stold v = some x) : headers.getAs key = toUInt64 x := by
  rw [MapType.getAs, h]
  dsimp only
  rw [hread]

/-- What the code makes of a value. -/
theorem obeys_iff (h : headers.find (bytes "content-length") = some v) :
    Obeys v (headers.getAs (bytes "content-length") >>= fun n => .ok (toInt64 n)) ↔ Plain v := by
  by_cases hplain : IsDecimal v ∧ decimalValue v < 2 ^ 63
  · refine iff_of_true ⟨fun _ _ => ?_, fun hnot => absurd hplain hnot⟩ (.inl hplain)
    have hlt : decimalValue v < 2 ^ 64 := by omega
    rw [getAs_some h (stold_digits hplain.1 hlt), toUInt64_natCast hlt]
    exact congrArg Except.ok (toInt64_eq hplain.2)
  · have hother : ∀ length, Obeys v length ↔ ∃ n ≤ 0, length = .ok n := fun length =>
      ⟨fun hobeys => hobeys.others hplain,
        fun hn => ⟨fun hdec hlt => absurd ⟨hdec, hlt⟩ hplain, fun _ => hn⟩⟩
    rw [hother, Plain, or_iff_right hplain]
    cases hread : stold v with
    | none =>
        rw [getAs_none h hread]
        exact iff_of_true ⟨0, Int.le_refl 0, rfl⟩ trivial
    | some x =>
        rw [getAs_some h hread]
        cases x with
        | inf | nan =>
            refine iff_of_false ?_ id
            rintro ⟨n, -, hn⟩
            cases hn
        | finite q =>
            rw [NoLength]
            by_cases hrange : -1 < q ∧ q < 2 ^ 64
            · rw [toUInt64_ok hrange]
              have hfloor := floor_nonpos hrange
              constructor
              · rintro ⟨n, hn, heq⟩
                obtain rfl := Except.ok.inj heq
                exact (hfloor.mp hn).imp (fun h => ⟨hrange.1, h⟩) fun h => ⟨h, hrange.2⟩
              · intro hor
                exact ⟨_, hfloor.mpr (hor.imp And.right And.left), rfl⟩
            · have hfault : toUInt64 (.finite q) = .error .conversion := if_neg hrange
              rw [hfault]
              refine iff_of_false ?_ fun hor => hrange ?_
              · rintro ⟨n, -, hn⟩
                cases hn
              · obtain ⟨hlow, hhigh⟩ | ⟨hlow, hhigh⟩ := hor
                · exact ⟨hlow, lt_trans hhigh (by norm_num)⟩
                · exact ⟨lt_of_lt_of_le (by norm_num) hlow, hhigh⟩

/-- **When a value is taken strictly.** -/
theorem strict_iff (v : Bytes) : Strict v ↔ Plain v := by
  constructor
  · intro h
    have hfind : MapType.find [(bytes "content-length", v)] (bytes "content-length") = some v := by
      rw [MapType.find_cons, if_pos SameName.rfl]
    have hobeys := h.request { HttpRequestParser.new false with
      data := { HttpRequest.new with headers := [(bytes "content-length", v)] } } hfind
    exact (obeys_iff hfind).mp hobeys
  · intro h
    exact ⟨fun r hfind => (obeys_iff hfind).mpr h, fun r hfind => (obeys_iff hfind).mpr h⟩

/-- `5x` is a body of 5 bytes. -/
theorem not_strict : ¬∀ v : Bytes, Strict v := by
  intro h
  obtain ⟨hdecimal, -⟩ | hnone := (strict_iff (bytes "5x")).mp (h _)
  · exact absurd (hdecimal.2 120 (by decide)) (by decide)
  · have hread : stold (bytes "5x") = some (.finite 5) := by
      have hdigits : digits 10 (bytes "5x") = ([5], [120]) := by decide
      have hscaled : scaled 10 10 101 (bytes "5x") = some ((5 : Nat) : ℚ) := by
        rw [scaled, hdigits]
        simp [ofDigits, tolower]
      have hsign : sign ((cStr (bytes "5x")).dropWhile isspace) = (false, bytes "5x") := by decide
      have hround : BinaryFloat.toBinary 64 ((5 : Nat) : ℚ) = (5 : Nat) :=
        BinaryFloat.toBinary_natCast (by norm_num)
      rw [stold, hsign]
      have hhex : hexFloatPrefix (bytes "5x") = none := by decide
      have hword : strncmpEq ((bytes "5x").map tolower) (bytes "inf") 3 = false ∧
          strncmpEq ((bytes "5x").map tolower) (bytes "nan") 3 = false := by decide
      simp only [hword.1, hword.2, hhex, hscaled, hround]
      rw [if_neg Bool.false_ne_true, if_neg Bool.false_ne_true,
        if_neg (normal_natCast (show 5 < 2 ^ 64 by norm_num)), if_neg Bool.false_ne_true]
      rfl
    rw [hread, NoLength] at hnone
    norm_num at hnone

end

end Sylar
