import Mathlib.Algebra.BigOperators.Group.List.Basic
import Mathlib.Algebra.Group.Int.Defs
import Sylar.HttpConnectionClose
import Sylar.HttpTransferEncoding

/-!
# The turns of the chunk loop

`recvResponse` takes one chunk in each turn of its loop. `Turn` says
which states it comes to at the beginning of a turn, and which sizes it
has taken until then: whatever the peer sends, the body is as long as
these say (`Turn.body_length`), and what a turn ends with is what
`recvResponse` ends with (`Turn.recvResponse_eq`).
-/

namespace Sylar

open Scanner

namespace HttpConnection

/-- The state at the beginning of a turn: the sizes so far, the stream,
the body and the buffer, and the parser. -/
inductive Turn (s : SocketStream) :
    List Int → SocketStream → Bytes → Bytes → HttpResponseParser → Prop
  | first {s₁ : SocketStream} {data : Bytes} {parser : HttpResponseParser} :
      parse (s.incoming.length + 1) s [] .new = .ok (some (parser, data), s₁) →
      parser.parser.chunked = true → Turn s [] s₁ [] data parser
  | next {sizes : List Int} {s₁ s₂ s₃ : SocketStream} {body data body' data' data'' : Bytes}
      {parser parser' : HttpResponseParser} : Turn s sizes s₁ body data parser →
      parseChunk (s₁.incoming.length + data.length + 1) s₁ true data parser =
        .ok (some (parser', data'), s₂) →
      takeChunk s₂ body data' parser'.parser.contentLen = .ok (some (body', data''), s₃) →
      parser'.parser.chunksDone = false →
      Turn s (sizes ++ [parser'.parser.contentLen]) s₃ body' data'' parser'

/-! ## What a state is like -/

/-- What is received next is there, and no error has been met. -/
structure Ready (s : SocketStream) (data : Bytes) (parser : HttpResponseParser) : Prop where
  connected : s.connected = true
  fits : data.length ≤ httpResponseBufferSize
  error : parser.error = 0

variable {s s' s₁ s₂ : SocketStream} {n : Nat} {got data data' body body' : Bytes}
  {parser parser' : HttpResponseParser}

theorem read_connected (h : s.read n = (some got, s')) : s'.connected = true := by
  rw [SocketStream.read] at h
  split at h
  · cases h
  · rename_i hmay
    rw [← (Prod.mk.inj h).2]
    simp only [not_or, Bool.not_eq_false] at hmay
    exact hmay.1

theorem error_of_good (h : parser.hasError ≠ true) : parser.error = 0 := by
  simp only [HttpResponseParser.hasError, ne_eq, Bool.not_eq_true, Bool.or_eq_false_iff] at h
  simpa using h.1

theorem ready_parse : ∀ {fuel : Nat} {s s' : SocketStream} {data data' : Bytes}
    {parser parser' : HttpResponseParser}, data.length ≤ httpResponseBufferSize →
    parse fuel s data parser = .ok (some (parser', data'), s') → Ready s' data' parser'
  | 0, s, s', data, data', parser, parser', _, h => by cases h
  | fuel + 1, s, s', data, data', parser, parser', hfits, h => by
      rw [parse] at h
      split at h
      · cases h
      · rename_i got t hread
        have hlen := SocketStream.read_length_le hread
        obtain ⟨⟨nparse, p⟩, -, h⟩ := bind_eq_ok.mp h
        dsimp only at h
        have hrest : ((data ++ got).drop nparse).length ≤ httpResponseBufferSize := by
          rw [List.length_drop, List.length_append]
          omega
        split at h
        · cases h
        rename_i hgood
        split at h
        · cases h
        split at h
        · obtain ⟨hr, rfl⟩ := Prod.mk.inj (Except.ok.inj h)
          obtain ⟨rfl, rfl⟩ := Prod.mk.inj (Option.some.inj hr)
          exact ⟨read_connected hread, hrest, error_of_good hgood⟩
        · exact ready_parse hrest h

theorem readMore_ready {begin_ : Bool} (hc : s.connected = true)
    (hfits : data.length ≤ httpResponseBufferSize) (h : readMore s begin_ data = (some got, s')) :
    s'.connected = true ∧ got.length ≤ httpResponseBufferSize := by
  rw [readMore] at h
  split at h
  · split at h
    · cases h
    · rename_i more t hread
      have hlen := SocketStream.read_length_le hread
      obtain ⟨rfl, rfl⟩ := (Prod.mk.inj h).imp_left Option.some.inj
      rw [List.length_append]
      exact ⟨read_connected hread, by omega⟩
  · obtain ⟨rfl, rfl⟩ := (Prod.mk.inj h).imp_left Option.some.inj
    exact ⟨hc, hfits⟩

/-- The execution with which the loop over a size line ends. -/
theorem parseChunk_last : ∀ {fuel : Nat} {s s' : SocketStream} {begin_ : Bool}
    {data data' : Bytes} {parser parser' : HttpResponseParser},
    parseChunk fuel s begin_ data parser = .ok (some (parser', data'), s') →
    ∃ (p : HttpResponseParser) (got : Bytes) (n : Nat), p.execute got true = .ok (n, parser') ∧
      data' = got.drop n ∧ ¬parser'.hasError = true ∧
      (s.connected = true → data.length ≤ httpResponseBufferSize →
        s'.connected = true ∧ got.length ≤ httpResponseBufferSize)
  | 0, s, s', begin_, data, data', parser, parser', h => by cases h
  | fuel + 1, s, s', begin_, data, data', parser, parser', h => by
      rw [parseChunk] at h
      split at h
      · cases h
      · rename_i more t hread
        obtain ⟨⟨nparse, p⟩, hexec, h⟩ := bind_eq_ok.mp h
        dsimp only at h
        split at h
        · cases h
        rename_i hgood
        split at h
        · cases h
        split at h
        · obtain ⟨hr, rfl⟩ := Prod.mk.inj (Except.ok.inj h)
          obtain ⟨rfl, rfl⟩ := Prod.mk.inj (Option.some.inj hr)
          exact ⟨parser, more, nparse, hexec, rfl, hgood, fun hc hfits =>
            readMore_ready hc hfits hread⟩
        · obtain ⟨q, got, n, hlast, hdata, hgood', hready⟩ := parseChunk_last h
          refine ⟨q, got, n, hlast, hdata, hgood', fun hc hfits => ?_⟩
          obtain ⟨hc', hlen⟩ := readMore_ready hc hfits hread
          exact hready hc' (by rw [List.length_drop]; omega)

theorem ready_parseChunk {fuel : Nat} {begin_ : Bool} (hc : s.connected = true)
    (hfits : data.length ≤ httpResponseBufferSize)
    (h : parseChunk fuel s begin_ data parser = .ok (some (parser', data'), s')) :
    Ready s' data' parser' := by
  obtain ⟨p, got, n, -, rfl, hgood, hready⟩ := parseChunk_last h
  obtain ⟨hc', hlen⟩ := hready hc hfits
  exact ⟨hc', by rw [List.length_drop]; omega, error_of_good hgood⟩

/-- `readRest` delivers as much as it is asked for. -/
theorem readRest_spec : ∀ {fuel : Nat} {s s' : SocketStream} {left : Int} {rest : Bytes},
    s.connected = true → readRest fuel s left = (some rest, s') →
    s'.connected = true ∧ (rest.length : Int) = max left 0 ∧
      rest.length + s'.incoming.length = s.incoming.length
  | 0, s, s', left, rest, hc, h => by
      rw [readRest] at h
      split at h
      · cases h
      · obtain ⟨rfl, rfl⟩ := (Prod.mk.inj h).imp_left Option.some.inj
        exact ⟨hc, by rw [List.length_nil]; omega, Nat.zero_add _⟩
  | fuel + 1, s, s', left, rest, hc, h => by
      rw [readRest] at h
      split at h
      · split at h
        · cases h
        · rename_i got t hread
          have hlen := SocketStream.read_length_le hread
          split at h
          · cases h
          · rename_i more u hrest
            obtain ⟨hc', hmore, hleft⟩ := readRest_spec (read_connected hread) hrest
            have hshrinks := (read_shrinks hread).1
            obtain ⟨rfl, rfl⟩ := (Prod.mk.inj h).imp_left Option.some.inj
            rw [List.length_append]
            exact ⟨hc', by omega, by omega⟩
      · obtain ⟨rfl, rfl⟩ := (Prod.mk.inj h).imp_left Option.some.inj
        exact ⟨hc, by rw [List.length_nil]; omega, Nat.zero_add _⟩

/-- Without what it is asked for, `readRest` has taken all there was. -/
theorem readRest_none : ∀ {fuel : Nat} {s s' : SocketStream} {left : Int}, s.connected = true →
    left ≤ fuel → readRest fuel s left = (none, s') →
    s'.incoming = [] ∧ (s.incoming.length : Int) < left
  | 0, s, s', left, _, hfuel, h => by
      rw [readRest] at h
      split at h
      · omega
      · cases h
  | fuel + 1, s, s', left, hc, hfuel, h => by
      rw [readRest] at h
      split at h
      · rename_i hleft
        split at h
        · rename_i t hread
          obtain ⟨-, rfl⟩ := Prod.mk.inj h
          have hin : s.incoming = [] := by
            by_contra hin
            obtain ⟨k, -, -, -, -, hread'⟩ := SocketStream.read_eq hc
              (show 0 < min left.toNat httpResponseBufferSize by
                simp only [httpResponseBufferSize]
                omega) hin
            rw [hread'] at hread
            cases hread
          rw [read_none hread, hin]
          exact ⟨rfl, hleft⟩
        · rename_i got t hread
          obtain ⟨hlen, hpos⟩ := read_shrinks hread
          split at h
          · rename_i u hrest
            obtain ⟨-, rfl⟩ := Prod.mk.inj h
            obtain ⟨hnil, hlt⟩ := readRest_none (read_connected hread) (by omega) hrest
            exact ⟨hnil, by omega⟩
          · cases h
      · cases h

theorem toInt32_self {v : Int} (hlow : -2 ^ 31 ≤ v) (hhigh : v < 2 ^ 31) : toInt32 v = v := by
  unfold toInt32
  omega

theorem toInt32_bounds (v : Int) : -2 ^ 31 ≤ toInt32 v ∧ toInt32 v < 2 ^ 31 := by
  unfold toInt32
  omega

/-- The addition of 2 overflows, or the sum is the mathematical one. -/
theorem toInt32_add_two {v : Int} (hrange : -2 ^ 31 ≤ v ∧ v < 2 ^ 31) :
    toInt32 (v + 2) = v + 2 ∨ 2 ^ 31 - 2 ≤ v ∧ toInt32 (v + 2) < 0 := by
  unfold toInt32
  omega

/-- With more to come than there is in the buffer the sums do not overflow,
or the first branch would be taken. -/
theorem left_eq {contentLen : Int} (hrange : -2 ^ 31 ≤ contentLen ∧ contentLen < 2 ^ 31)
    (hmore : (data.length : Int) < toInt32 (contentLen + 2)) :
    toInt32 (contentLen + 2) = contentLen + 2 ∧
      toInt32 (contentLen - data.length + 2) = contentLen - data.length + 2 := by
  have hsmall := (toInt32_bounds (contentLen + 2)).2
  obtain hsum | ⟨-, hneg⟩ := toInt32_add_two hrange
  · rw [hsum] at hmore hsmall
    exact ⟨hsum, toInt32_self (by omega) (by omega)⟩
  · omega

/-- What a chunk takes away of the buffer and adds to the body. -/
theorem takeChunk_length {contentLen : Int} (hrange : -2 ^ 31 ≤ contentLen ∧ contentLen < 2 ^ 31)
    (hc : s.connected = true)
    (h : takeChunk s body data contentLen = .ok (some (body', data'), s')) :
    s'.connected = true ∧ data'.length ≤ data.length ∧
      (body'.length : Int) = body.length + contentLen := by
  rw [takeChunk] at h
  split at h
  · obtain ⟨b, happend, h⟩ := bind_eq_ok.mp h
    obtain ⟨hr, rfl⟩ := Prod.mk.inj (Except.ok.inj h)
    obtain ⟨rfl, rfl⟩ := Prod.mk.inj (Option.some.inj hr)
    rw [appendTo] at happend
    split at happend
    · cases happend
    split at happend
    · cases happend
    · rename_i hpos hlen
      obtain rfl := Except.ok.inj happend
      rw [List.length_drop, List.length_append, List.length_take]
      exact ⟨hc, by omega, by omega⟩
  · rename_i hmore
    dsimp only at h
    split at h
    · cases h
    · rename_i rest t hrest
      obtain ⟨b, hdrop, h⟩ := bind_eq_ok.mp h
      obtain ⟨hr, rfl⟩ := Prod.mk.inj (Except.ok.inj h)
      obtain ⟨rfl, rfl⟩ := Prod.mk.inj (Option.some.inj hr)
      obtain ⟨hc', hlen, -⟩ := readRest_spec hc hrest
      obtain ⟨hsum, hleft⟩ := left_eq hrange (Int.not_le.mp hmore)
      rw [hsum] at hmore
      rw [hleft] at hlen
      rw [dropCrlf] at hdrop
      split at hdrop
      · cases hdrop
      · obtain rfl := Except.ok.inj hdrop
        simp only [List.length_append, List.length_nil, List.length_take] at *
        exact ⟨hc', Nat.zero_le _, by omega⟩

/-- A chunk is missing if there are less bytes than it has. -/
theorem takeChunk_missing {contentLen : Int} (hrange : -2 ^ 31 ≤ contentLen ∧ contentLen < 2 ^ 31)
    (hc : s.connected = true)
    (hless : (data.length + s.incoming.length : Int) < toInt32 (contentLen + 2)) :
    ∃ s', takeChunk s body data contentLen = .ok (none, s') ∧ s'.incoming = [] := by
  have hmore : (data.length : Int) < toInt32 (contentLen + 2) := by omega
  obtain ⟨hsum, hleft⟩ := left_eq hrange hmore
  rw [hsum] at hless hmore
  rw [takeChunk, hsum, if_neg (Int.not_le.mpr hmore), hleft]
  dsimp only
  split
  · rename_i t hrest
    exact ⟨_, rfl, (readRest_none hc (by omega) hrest).1⟩
  · rename_i rest t hrest
    obtain ⟨-, hlen, hall⟩ := readRest_spec hc hrest
    omega

/-- And only then. -/
theorem missing_of_take {contentLen : Int} (hrange : -2 ^ 31 ≤ contentLen ∧ contentLen < 2 ^ 31)
    (hc : s.connected = true) (h : takeChunk s body data contentLen = .ok (none, s')) :
    (data.length + s.incoming.length : Int) < toInt32 (contentLen + 2) := by
  rw [takeChunk] at h
  split at h
  · obtain ⟨b, -, h⟩ := bind_eq_ok.mp h
    cases h
  · rename_i hmore
    dsimp only at h
    split at h
    · rename_i t hrest
      obtain ⟨hsum, hleft⟩ := left_eq hrange (Int.not_le.mp hmore)
      rw [hleft] at hrest
      rw [hsum]
      have hlt := (readRest_none hc (by omega) hrest).2
      omega
    · obtain ⟨b, -, h⟩ := bind_eq_ok.mp h
      cases h

/-! ## The sizes -/

/-- What `contentLen` can be. -/
def Narrow (r : HttpResponseParser) : Prop :=
  -2 ^ 31 ≤ r.parser.contentLen ∧ r.parser.contentLen < 2 ^ 31

/-- Two of the actions assign to it. -/
theorem act_contentLen (buffer : Bytes) (p : Nat) (r : HttpClientParser) (a : ClientAction) :
    (r.act buffer p a).contentLen = r.contentLen ∨
      ∃ v, (r.act buffer p a).contentLen = toInt32 v := by
  cases a with
  | writeContentLen | chunkSize => exact .inr ⟨_, rfl⟩
  | writeField =>
      -- the kernel must not come to unfold `sub64`
      have hact : r.act buffer p .writeField =
          { r with fieldLen := sub64 p r.fieldStart } := rfl
      rw [hact]
      exact .inl rfl
  | mark | startField | startValue | writeConnectionClose | writeValue | reasonPhrase
  | statusCode | httpVersion | transChunked | done => exact .inl rfl

theorem narrow_act {buffer : Bytes} (p : Nat) (a : ClientAction) (r r' : HttpResponseParser)
    (hr : Narrow r) (h : HttpResponseParser.act buffer p a r = .ok r') : Narrow r' := by
  rw [Narrow, (HttpClient.act_spec h).1]
  obtain hsame | ⟨v, hv⟩ := act_contentLen buffer p r.parser a
  · rw [hsame]
    exact hr
  · rw [hv]
    exact toInt32_bounds v

theorem narrow_execute {n : Nat} (h : parser.execute data true = .ok (n, parser')) :
    Narrow parser' := by
  obtain ⟨r, hexec, -, -, rfl⟩ := HttpResponseParser.execute_ok h
  have hinit : Narrow { parser with parser := .init } := by
    show -2 ^ 31 ≤ (-1 : Int) ∧ (-1 : Int) < 2 ^ 31
    omega
  exact exec_keeps narrow_act hinit hexec

theorem narrow_parseChunk {fuel : Nat} {begin_ : Bool}
    (h : parseChunk fuel s begin_ data parser = .ok (some (parser', data'), s')) :
    Narrow parser' := by
  obtain ⟨p, got, n, hexec, -⟩ := parseChunk_last h
  exact narrow_execute hexec

namespace Turn

variable {sizes : List Int}

theorem ready (h : Turn s sizes s₁ body data parser) : Ready s₁ data parser := by
  induction h with
  | first hparse _ => exact ready_parse (Nat.zero_le _) hparse
  | next _ hparse htake _ ih =>
      obtain ⟨hc, hfits, herror⟩ := ready_parseChunk ih.connected ih.fits hparse
      obtain ⟨hc', hle, -⟩ := takeChunk_length (narrow_parseChunk hparse) hc htake
      exact ⟨hc', hle.trans hfits, herror⟩

/-- **The body is as long as the sizes say.** -/
theorem body_length (h : Turn s sizes s₁ body data parser) : (body.length : Int) = sizes.sum := by
  induction h with
  | first _ _ => rfl
  | next hturn hparse htake _ ih =>
      have hready := ready_parseChunk hturn.ready.connected hturn.ready.fits hparse
      obtain ⟨-, -, hlen⟩ := takeChunk_length (narrow_parseChunk hparse) hready.connected htake
      rw [hlen, ih, List.sum_append, List.sum_singleton]

end Turn

/-! ## What it comes to -/

/-- The end of `recvResponse`, behind the loop. -/
def finish (inflate : ZlibFormat → Bytes → Bytes) :
    Option (HttpResponseParser × Bytes) × SocketStream →
    Except StdFault (Option HttpResponse × SocketStream)
  | (none, s) => .ok (none, s)
  | (some (parser, body), s) => .ok (some (setBody inflate parser.data body), s)

/-- A turn is part of what `recvResponse` does, and its fuel suffices. -/
theorem Turn.recvResponse_eq (inflate : ZlibFormat → Bytes → Bytes) {sizes : List Int}
    (h : Turn s sizes s₁ body data parser) :
    ∃ fuel, s₁.incoming.length + data.length < fuel ∧
      recvResponse inflate s = readChunks fuel s₁ body data parser >>= finish inflate := by
  induction h with
  | @first s₁ data parser hparse hchunked =>
      refine ⟨_, Nat.lt_succ_self _, ?_⟩
      rw [recvResponse, hparse]
      show (if parser.parser.chunked = true then _ else _) = _
      rw [if_pos hchunked]
      congr 1
      funext r
      obtain ⟨_ | ⟨p, b⟩, t⟩ := r <;> rfl
  | @next sizes s₁ s₂ s₃ body data body' data' data'' parser parser' _ hparse htake hgo ih =>
      obtain ⟨fuel, hfuel, heq⟩ := ih
      obtain ⟨-, hless⟩ := parseChunk_closed (by omega) (fun _ hdata => by
        have hpos := List.length_pos_iff.mpr hdata
        omega) hparse
      have hlt := hless _ _ rfl
      have hle := (takeChunk_spec htake).2 _ _ rfl
      obtain ⟨fuel, rfl⟩ := Nat.exists_eq_add_one_of_ne_zero
        (Nat.ne_of_gt (Nat.zero_lt_of_lt hfuel))
      refine ⟨fuel, by omega, heq.trans ?_⟩
      rw [readChunks, hparse]
      show (takeChunk s₂ body data' parser'.parser.contentLen >>= _) >>= _ = _
      rw [htake]
      show (if parser'.parser.chunksDone = true then _ else _) >>= _ = _
      rw [hgo, if_neg Bool.false_ne_true]

/-- What happens to a chunk when its size is known. -/
theorem Turn.recvResponse_take (inflate : ZlibFormat → Bytes → Bytes) {sizes : List Int}
    (h : Turn s sizes s₁ body data parser)
    (hparse : parseChunk (s₁.incoming.length + data.length + 1) s₁ true data parser =
      .ok (some (parser', data'), s₂)) :
    (∀ s', takeChunk s₂ body data' parser'.parser.contentLen = .ok (none, s') →
      recvResponse inflate s = .ok (none, s')) ∧
    ∀ e, takeChunk s₂ body data' parser'.parser.contentLen = .error e →
      recvResponse inflate s = .error e := by
  obtain ⟨fuel, hfuel, heq⟩ := h.recvResponse_eq inflate
  obtain ⟨fuel, rfl⟩ := Nat.exists_eq_add_one_of_ne_zero (Nat.ne_of_gt (Nat.zero_lt_of_lt hfuel))
  constructor
  · intro s' htake
    rw [heq, readChunks, hparse]
    show (takeChunk s₂ body data' parser'.parser.contentLen >>= _) >>= _ = _
    rw [htake]
    rfl
  · intro e htake
    rw [heq, readChunks, hparse]
    show (takeChunk s₂ body data' parser'.parser.contentLen >>= _) >>= _ = _
    rw [htake]
    rfl

/-- Without a size there is no response. -/
theorem Turn.recvResponse_parse (inflate : ZlibFormat → Bytes → Bytes) {sizes : List Int}
    (h : Turn s sizes s₁ body data parser)
    (hparse : parseChunk (s₁.incoming.length + data.length + 1) s₁ true data parser =
      .ok (none, s₂)) : recvResponse inflate s = .ok (none, s₂) := by
  obtain ⟨fuel, hfuel, heq⟩ := h.recvResponse_eq inflate
  obtain ⟨fuel, rfl⟩ := Nat.exists_eq_add_one_of_ne_zero (Nat.ne_of_gt (Nat.zero_lt_of_lt hfuel))
  rw [heq, readChunks, hparse]
  rfl

end HttpConnection

end Sylar
