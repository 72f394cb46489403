import Sylar.HttpChunkTurns
import Sylar.HttpChunked
import Sylar.HttpContentLength

/-!
# The size of a body

`GetHttpRequestMaxBodySize` and `GetHttpResponseMaxBodySize` are asked
by nobody: a body is as large as its header or its chunks say. So a peer
is held to the limits if what it announces is within them
(`limited_iff`): the number in front of a `content-length`, and the sum
of the sizes of the chunks, as far as these arrive.
-/

namespace Sylar

/-- `GetHttpRequestMaxBodySize()`. -/
def httpRequestMaxBodySize : Int := 64 * 1024 * 1024

/-- `GetHttpResponseMaxBodySize()`. -/
def httpResponseMaxBodySize : Int := 64 * 1024 * 1024

/-- No body is resized to more than the limit, and larger ones are
refused. -/
structure Bounded (limit : Int) (length : Except StdFault Int) (refused : Prop) : Prop where
  resize : ∀ n, length = .ok n → 0 < n → n ≤ limit
  larger : ∀ n, length = .ok n → limit < n → refused

/-- A number that is not a length beyond the limit. -/
def Within (limit : Int) : Option LongDouble → Prop
  | some (.finite q) => ¬((limit : ℚ) + 1 ≤ q ∧ q < 2 ^ 63)
  | _ => True

open HttpConnection

/-- The limits are kept: of a request, of a response with a length, and
of a response in chunks, of which the last may come in part. -/
structure Limited (relaxed : Bool) (inflate : ZlibFormat → Bytes → Bytes) (s : SocketStream) :
    Prop where
  request : ∀ parser data s',
    HttpSession.parse (s.incoming.length + 1) s [] (.new relaxed) = .ok (some (parser, data), s') →
    Bounded httpRequestMaxBodySize parser.bodyLength
      (∃ s', HttpSession.recvRequest relaxed s = .ok (none, s'))
  response : ∀ parser data s',
    parse (s.incoming.length + 1) s [] .new = .ok (some (parser, data), s') →
    parser.parser.chunked = false →
    Bounded httpResponseMaxBodySize parser.bodyLength
      (∃ s', recvResponse inflate s = .ok (none, s'))
  chunks : ∀ sizes s₁ s₂ body data data' parser parser',
    Turn s sizes s₁ body data parser →
    parseChunk (s₁.incoming.length + data.length + 1) s₁ true data parser =
      .ok (some (parser', data'), s₂) →
    (∀ body' data'' s₃, takeChunk s₂ body data' parser'.parser.contentLen =
      .ok (some (body', data''), s₃) → (body'.length : Int) ≤ httpResponseMaxBodySize) ∧
    (∀ s₃, takeChunk s₂ body data' parser'.parser.contentLen = .ok (none, s₃) →
      body.length + min parser'.parser.contentLen
        (data'.length + s₂.incoming.length - s₃.incoming.length) ≤ httpResponseMaxBodySize) ∧
    (httpResponseMaxBodySize < body.length + parser'.parser.contentLen →
      ∃ s', recvResponse inflate s = .ok (none, s'))

/-- What the peer announces is within the limits, or the stream ends in a
chunk and what is there of it is within them. -/
structure WithinLimits (relaxed : Bool) (s : SocketStream) : Prop where
  request : ∀ parser data s' v,
    HttpSession.parse (s.incoming.length + 1) s [] (.new relaxed) = .ok (some (parser, data), s') →
    parser.data.headers.find (bytes "content-length") = some v →
    Within httpRequestMaxBodySize (stold v)
  response : ∀ parser data s' v,
    parse (s.incoming.length + 1) s [] .new = .ok (some (parser, data), s') →
    parser.parser.chunked = false →
    parser.data.headers.find (bytes "content-length") = some v →
    Within httpResponseMaxBodySize (stold v)
  chunks : ∀ sizes s₁ s₂ body data data' parser parser',
    Turn s sizes s₁ body data parser →
    parseChunk (s₁.incoming.length + data.length + 1) s₁ true data parser =
      .ok (some (parser', data'), s₂) →
    sizes.sum + parser'.parser.contentLen ≤ httpResponseMaxBodySize ∨
      (data'.length + s₂.incoming.length : Int) < toInt32 (parser'.parser.contentLen + 2) ∧
        sizes.sum + min parser'.parser.contentLen (data'.length + s₂.incoming.length) ≤
          httpResponseMaxBodySize

/-! ## A length -/

section

variable {headers : MapType} {v : Bytes} {limit : Int} {refused : Prop}

/-- The length that a number comes to. -/
theorem toInt64_floor {q : ℚ} (hlow : 0 ≤ q) (hhigh : q < 2 ^ 63) : toInt64 ⌊q⌋.toNat = ⌊q⌋ := by
  have hfloor : 0 ≤ ⌊q⌋ := Int.floor_nonneg.mpr hlow
  have hlt : ⌊q⌋ < 2 ^ 63 := by
    rw [Int.floor_lt]
    exact_mod_cast hhigh
  rw [toInt64_eq (by omega), Int.toNat_of_nonneg hfloor]

/-- A value is within a limit if its length is. -/
theorem within_iff (h : headers.find (bytes "content-length") = some v) (hlimit : 0 ≤ limit) :
    (∀ n, (headers.getAs (bytes "content-length") >>= fun n => .ok (toInt64 n)) = .ok n →
      n ≤ limit) ↔ Within limit (stold v) := by
  cases hread : stold v with
  | none =>
      rw [getAs_none h hread]
      refine iff_of_true (fun n hn => ?_) trivial
      obtain rfl := Except.ok.inj hn
      exact hlimit
  | some x =>
      rw [getAs_some h hread]
      cases x with
      | inf | nan => exact iff_of_true (fun n hn => by cases hn) trivial
      | finite q =>
          rw [Within]
          by_cases hrange : -1 < q ∧ q < 2 ^ 64
          · have hlength : (toUInt64 (.finite q) >>= fun n => .ok (toInt64 n)) =
                Except.ok (toInt64 ⌊q⌋.toNat) := by
              rw [toUInt64_ok hrange]
              rfl
            rw [hlength]
            simp only [Except.ok.injEq, forall_eq']
            have hnonneg : (0 : ℚ) ≤ limit := by exact_mod_cast hlimit
            by_cases hlength : 1 ≤ q ∧ q < 2 ^ 63
            · rw [toInt64_floor (le_trans zero_le_one hlength.1) hlength.2, and_iff_left hlength.2,
                not_le, ← Int.lt_add_one_iff, Int.floor_lt]
              norm_num
            · have hzero : toInt64 ⌊q⌋.toNat ≤ 0 := by
                rw [floor_nonpos hrange]
                by_contra hno
                simp only [not_or, not_lt, not_le] at hno
                exact hlength hno
              refine iff_of_true (hzero.trans hlimit) fun hno => hlength ⟨?_, hno.2⟩
              linarith [hno.1]
          · have hfault : toUInt64 (.finite q) = .error .conversion := if_neg hrange
            rw [hfault]
            refine iff_of_true (fun n hn => by cases hn) fun hno => hrange ⟨?_, ?_⟩
            · have hnonneg : (0 : ℚ) ≤ limit := by exact_mod_cast hlimit
              linarith [hno.1]
            · exact lt_trans hno.2 (by norm_num)

end

theorem bounded_iff {limit : Int} {length : Except StdFault Int} {refused : Prop}
    (hlimit : 0 ≤ limit) :
    Bounded limit length refused ↔ ∀ n, length = .ok n → n ≤ limit := by
  constructor
  · intro h n hn
    by_contra hlt
    exact hlt (h.resize n hn (by omega))
  · intro h
    exact ⟨fun n hn _ => h n hn, fun n hn hlt => absurd (h n hn) (Int.not_le.mpr hlt)⟩

/-- A length is within a limit if the value of its header is. -/
theorem bounded_length {headers : MapType} {limit : Int} {refused : Prop} (hlimit : 0 ≤ limit) :
    Bounded limit (headers.getAs (bytes "content-length") >>= fun n => .ok (toInt64 n)) refused ↔
      ∀ v, headers.find (bytes "content-length") = some v → Within limit (stold v) := by
  rw [bounded_iff hlimit]
  cases hfind : headers.find (bytes "content-length") with
  | none =>
      have hzero : headers.getAs (bytes "content-length") = .ok 0 := by
        rw [MapType.getAs, hfind]
      rw [hzero]
      refine iff_of_true (fun n hn => ?_) fun v hv => by cases hv
      obtain rfl := Except.ok.inj hn
      exact hlimit
  | some v =>
      rw [within_iff hfind hlimit]
      exact ⟨fun h v' hv' => Option.some.inj hv' ▸ h, fun h => h v rfl⟩

/-! ## Chunks -/

namespace HttpConnection

variable {s s₁ s₂ : SocketStream} {sizes : List Int} {body data data' : Bytes}
  {parser parser' : HttpResponseParser}

/-- One chunk. -/
theorem chunk_limited_iff (inflate : ZlibFormat → Bytes → Bytes) (limit : Int)
    (hturn : Turn s sizes s₁ body data parser)
    (hparse : parseChunk (s₁.incoming.length + data.length + 1) s₁ true data parser =
      .ok (some (parser', data'), s₂)) :
    ((∀ body' data'' s₃, takeChunk s₂ body data' parser'.parser.contentLen =
        .ok (some (body', data''), s₃) → (body'.length : Int) ≤ limit) ∧
      (∀ s₃, takeChunk s₂ body data' parser'.parser.contentLen = .ok (none, s₃) →
        body.length + min parser'.parser.contentLen
          (data'.length + s₂.incoming.length - s₃.incoming.length) ≤ limit) ∧
      (limit < body.length + parser'.parser.contentLen →
        ∃ s', recvResponse inflate s = .ok (none, s'))) ↔
      (sizes.sum + parser'.parser.contentLen ≤ limit ∨
        (data'.length + s₂.incoming.length : Int) < toInt32 (parser'.parser.contentLen + 2) ∧
          sizes.sum + min parser'.parser.contentLen (data'.length + s₂.incoming.length) ≤
            limit) := by
  have hready := ready_parseChunk hturn.ready.connected hturn.ready.fits hparse
  have hrange : Narrow parser' := narrow_parseChunk hparse
  obtain ⟨hnone, herror⟩ := hturn.recvResponse_take inflate hparse
  rw [hturn.body_length]
  by_cases hless : (data'.length + s₂.incoming.length : Int) <
      toInt32 (parser'.parser.contentLen + 2)
  · -- the stream ends in the chunk
    obtain ⟨s₃, htake, hnil⟩ : ∃ s₃, takeChunk s₂ body data' parser'.parser.contentLen =
        .ok (none, s₃) ∧ s₃.incoming = [] := takeChunk_missing hrange hready.connected hless
    have hrecv := hnone s₃ htake
    constructor
    · rintro ⟨-, hpart, -⟩
      have hle := hpart s₃ htake
      rw [hnil] at hle
      exact .inr ⟨hless, by simpa using hle⟩
    · intro hwithin
      refine ⟨fun body' data'' t ht => ?_, fun t ht => ?_, fun _ => ⟨s₃, hrecv⟩⟩
      · rw [htake] at ht
        cases ht
      · rw [htake] at ht
        obtain ⟨-, rfl⟩ := Prod.mk.inj (Except.ok.inj ht)
        rw [hnil, List.length_nil]
        omega
  · have hthere : ∀ t, takeChunk s₂ body data' parser'.parser.contentLen ≠ .ok (none, t) :=
      fun t ht => hless (missing_of_take hrange hready.connected ht)
    rw [and_iff_right (fun t ht => absurd ht (hthere t)), or_iff_left fun h => hless h.1]
    cases htake : takeChunk s₂ body data' parser'.parser.contentLen with
    | error e =>
        rw [and_iff_right (fun _ _ _ ht => by cases ht), herror e htake]
        constructor
        · intro hlarger
          by_contra hlt
          obtain ⟨s', hs'⟩ := hlarger (Int.not_le.mp hlt)
          cases hs'
        · exact fun hle hlt => absurd hle (Int.not_le.mpr hlt)
    | ok r =>
        obtain ⟨_ | ⟨body', data''⟩, s₃⟩ := r
        · exact absurd htake (hthere s₃)
        · obtain ⟨-, -, hlen⟩ := takeChunk_length hrange hready.connected htake
          rw [hturn.body_length] at hlen
          constructor
          · rintro ⟨hle, -⟩
            rw [← hlen]
            exact hle _ _ _ rfl
          · intro hle
            refine ⟨fun b d t ht => ?_, fun hlt => absurd hle (Int.not_le.mpr hlt)⟩
            obtain ⟨hr, -⟩ := Prod.mk.inj (Except.ok.inj ht)
            obtain ⟨rfl, -⟩ := Prod.mk.inj (Option.some.inj hr)
            rw [hlen]
            exact hle

/-- **When the limits are kept.** -/
theorem limited_iff (relaxed : Bool) (inflate : ZlibFormat → Bytes → Bytes) (s : SocketStream) :
    Limited relaxed inflate s ↔ WithinLimits relaxed s := by
  have hrequest : 0 ≤ httpRequestMaxBodySize := by decide
  have hresponse : 0 ≤ httpResponseMaxBodySize := by decide
  constructor
  · intro h
    refine ⟨fun parser data s' v hparse hv => ?_, fun parser data s' v hparse hlength hv => ?_,
      fun sizes s₁ s₂ body data data' parser parser' hturn hparse => ?_⟩
    · exact (bounded_length hrequest).mp (h.request parser data s' hparse) v hv
    · exact (bounded_length hresponse).mp (h.response parser data s' hparse hlength) v hv
    · exact (chunk_limited_iff inflate _ hturn hparse).mp (h.chunks _ _ _ _ _ _ _ _ hturn hparse)
  · intro h
    refine ⟨fun parser data s' hparse => ?_, fun parser data s' hparse hlength => ?_,
      fun sizes s₁ s₂ body data data' parser parser' hturn hparse => ?_⟩
    · exact (bounded_length hrequest).mpr fun v => h.request parser data s' v hparse
    · exact (bounded_length hresponse).mpr fun v => h.response parser data s' v hparse hlength
    · exact (chunk_limited_iff inflate _ hturn hparse).mpr (h.chunks _ _ _ _ _ _ _ _ hturn hparse)

/-- A header block that announces one byte too many. -/
def largeHeader : Bytes := bytes "HTTP/1.1 200 OK\r\ncontent-length: 67108865\r\n\r\n"

def largeParser : HttpResponseParser :=
  { parser := ⟨120, 45, 67108865, false, false, 33, 17, 14⟩, error := 0
    data := { HttpResponse.new with
      status := 200, version := 0x11, reason := bytes "OK"
      headers := [(bytes "content-length", bytes "67108865")] } }

theorem begins_large : Begins largeHeader ⟨largeHeader, [], true⟩ largeHeader ⟨[], [], true⟩
    largeParser where
  read := rfl
  whole := Nat.le_refl _
  execute := by decide +kernel
  finished := rfl
  good := rfl

/-- A body of 67108865 bytes. -/
theorem not_limited : ¬∀ (relaxed : Bool) (inflate : ZlibFormat → Bytes → Bytes)
    (s : SocketStream), Limited relaxed inflate s := by
  intro h
  have hlimited := (limited_iff false (fun _ b => b) ⟨largeHeader, [], true⟩).mp (h ..)
  have hparse := parse_first begins_large (by decide) largeHeader.length
  have hwithin := hlimited.response _ _ _ (bytes "67108865") hparse rfl rfl
  have hdecimal : IsDecimal (bytes "67108865") := by
    refine ⟨by decide, ?_⟩
    decide +kernel
  have hvalue : decimalValue (bytes "67108865") = 67108865 := by decide
  rw [stold_digits hdecimal (by rw [hvalue]; norm_num), hvalue, Within] at hwithin
  refine hwithin ⟨?_, ?_⟩
  · rw [httpResponseMaxBodySize]
    norm_num
  · norm_num

end HttpConnection

end Sylar
