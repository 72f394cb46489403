import Sylar.HttpDelivery
import Sylar.HttpRequestText

/-!
# A request that is written is read back

`HttpRequest::dump` beside `recvRequest`. What `dump` writes is a
request line, the headers (`connection` in front, `content-length` at
the end) and the body; the parser reads it part by part and has the same
request at the end (`recvRequest_dump`).

Two kinds of request are not read back. The grammar has no `-` in a
method, so that `M-SEARCH` is refused, and the result of `readFixSize`
is an `int`, so that a body is lost when too much of it is missing after
the first read.
-/

namespace Sylar

open Scanner

/-! ## The request -/

namespace HttpRequest

/-- A request that can be written in the grammar; the body fits a
`std::string`. -/
structure Printable (relaxed : Bool) (r : HttpRequest) : Prop where
  method : r.method ≠ .INVALID_METHOD
  version : r.version = 0x10 ∨ r.version = 0x11
  path : Http11.Path relaxed r.path
  query : UriText relaxed r.query
  fragment : UriText relaxed r.fragment
  websocket : r.websocket = false
  distinct : r.headers.Pairwise fun a b => ¬SameName a.1 b.1
  headers : ∀ e ∈ r.headers, (e.1 ≠ [] ∧ ∀ b ∈ e.1, isTokenChar b = true) ∧
    e.2.head? ≠ some 32 ∧ ∀ b ∈ e.2, isValueChar b = true
  other : ∀ e ∈ r.headers,
    ¬SameName e.1 (bytes "connection") ∧ ¬SameName e.1 (bytes "content-length")
  body : r.body.length < 2 ^ 63

/-- `r'` has what `r` has. -/
structure ReadBack (r r' : HttpRequest) : Prop where
  method : r'.method = r.method
  version : r'.version = r.version
  path : r'.path = r.path
  query : r'.query = r.query
  fragment : r'.fragment = r.fragment
  close : r'.close = r.close
  body : r'.body = r.body
  headers : ∀ e ∈ r.headers, r'.headers.find e.1 = some e.2

/-- All the headers of `dump`. -/
def fields (r : HttpRequest) : List (Bytes × Bytes) :=
  (bytes "connection", if r.close then bytes "close" else bytes "keep-alive") ::
    (r.headers ++
      if r.body = [] then [] else [(bytes "content-length", decimal r.body.length)])

/-- `dump` without the body. -/
def header (r : HttpRequest) : Bytes :=
  httpMethodToString r.method ++ 32 ::
    (r.path ++ ((if r.query = [] then [] else [63]) ++ r.query ++
      ((if r.fragment = [] then [] else [35]) ++ r.fragment ++ 32 ::
        (bytes "HTTP/" ++ decimal (r.version / 16) ++ bytes "." ++ decimal (r.version % 16) ++
          (crlf ++ (r.fields.flatMap dumpHeader ++ crlf))))))

variable {relaxed : Bool} {r : HttpRequest}

theorem dump_eq (h : r.Printable relaxed) : r.dump = r.header ++ r.body := by
  have hkeep : (r.headers.flatMap fun i =>
      if !r.websocket ∧ strcasecmp (cStr i.1) (bytes "connection") = .eq then []
      else dumpHeader i) = r.headers.flatMap dumpHeader := by
    refine List.flatMap_congr fun e he => if_neg fun hsame => (h.other e he).1 ?_
    exact hsame.2
  rw [dump, hkeep, h.websocket]
  by_cases hbody : r.body = []
  · simp [header, fields, hbody, dumpHeader, show bytes " " = [32] from rfl,
      show bytes "?" = [63] from rfl, show bytes "#" = [35] from rfl,
      show bytes " HTTP/" = 32 :: bytes "HTTP/" from rfl,
      show bytes "connection: " = bytes "connection" ++ bytes ": " from rfl]
  · simp [header, fields, hbody, dumpHeader, show bytes " " = [32] from rfl,
      show bytes "?" = [63] from rfl, show bytes "#" = [35] from rfl,
      show bytes " HTTP/" = 32 :: bytes "HTTP/" from rfl,
      show bytes "connection: " = bytes "connection" ++ bytes ": " from rfl,
      show bytes "content-length: " = bytes "content-length" ++ bytes ": " from rfl]

theorem fields_distinct (h : r.Printable relaxed) :
    r.fields.Pairwise fun a b => ¬SameName a.1 b.1 := by
  have hlength : ∀ e ∈ (if r.body = [] then [] else
      [(bytes "content-length", decimal r.body.length)]), e.1 = bytes "content-length" := by
    intro e he
    split at he
    · cases he
    · rw [List.mem_singleton.mp he]
  refine List.pairwise_cons.mpr ⟨fun e he hsame => ?_, List.pairwise_append.mpr
    ⟨h.distinct, ?_, fun a ha b hb hsame => ?_⟩⟩
  · rcases List.mem_append.mp he with he | he
    · exact (h.other e he).1 hsame.symm
    · rw [hlength e he] at hsame
      have hne : ¬SameName (bytes "connection") (bytes "content-length") := by decide
      exact hne hsame
  · split
    · exact .nil
    · exact List.pairwise_singleton ..
  · rw [hlength b hb] at hsame
    exact (h.other a ha).2 hsame

theorem fields_printable (h : r.Printable relaxed) : ∀ e ∈ r.fields,
    (e.1 ≠ [] ∧ ∀ b ∈ e.1, isTokenChar b = true) ∧
      e.2.head? ≠ some 32 ∧ ∀ b ∈ e.2, isValueChar b = true := by
  have hdigit : ∀ b : UInt8, 48 ≤ b ∧ b ≤ 57 → b ≠ 32 ∧ isValueChar b = true := by
    decide +kernel
  have hname : bytes "content-length" ≠ [] ∧ ∀ b ∈ bytes "content-length", isTokenChar b = true := by
    decide +kernel
  intro e he
  rcases List.mem_cons.mp he with rfl | he
  · cases r.close <;> decide +kernel
  · rcases List.mem_append.mp he with he | he
    · exact h.headers e he
    · split at he
      · cases he
      · obtain rfl := List.mem_singleton.mp he
        refine ⟨hname, fun hhead => ?_, fun b hb => (hdigit b (decimal_range hb)).2⟩
        exact (hdigit 32 (decimal_range (List.mem_of_head? hhead))).1 rfl

/-- What the parser has made of the header block. -/
def parsed (r : HttpRequest) : HttpRequest :=
  { new with
    method := r.method, version := r.version, path := r.path, query := r.query
    fragment := r.fragment, headers := MapType.setAll [] r.fields }

theorem execute_header (h : r.Printable relaxed) (hsearch : r.method ≠ .MSEARCH)
    (hlt : r.header.length < 2 ^ 63) :
    ∃ p, (HttpRequestParser.new relaxed).execute r.header = .ok (r.header.length, p) ∧
      p.isFinished = true ∧ p.hasError = false ∧ p.data = r.parsed := by
  obtain ⟨p₁, parser₁, hmethod, hdrop₁⟩ := HttpRequestParser.reads_method relaxed
    h.method hsearch (rfl : r.header = _) (.new relaxed)
  obtain ⟨p₂, parser₂, htarget, hdrop₂⟩ := HttpRequestParser.reads_target hlt h.path h.query
    h.fragment hdrop₁ (u := ⟨parser₁, 0, { new with method := r.method }⟩) rfl rfl
  obtain ⟨p₃, parser₃, hversion, hdrop₃⟩ := HttpRequestParser.reads_version relaxed
    h.version hdrop₂ ⟨parser₂, 0, { new with
      method := r.method, path := r.path, query := r.query, fragment := r.fragment }⟩
  obtain ⟨p₄, parser₄, hheaders, hdrop₄⟩ := HttpRequestParser.reads_headers relaxed
    hlt ⟨parser₃, 0, { new with
      method := r.method, version := r.version, path := r.path, query := r.query
      fragment := r.fragment }⟩ (fields_printable h) hdrop₃
  obtain ⟨parser₅, hend⟩ := HttpRequestParser.exec_end relaxed hdrop₄
    ⟨parser₄, 0, r.parsed⟩
  have hexec := Eq.trans (((hmethod.trans htarget).trans hversion).trans hheaders) hend
  have hne : r.header ≠ [] := by
    intro hnil
    have hlen := congrArg List.length hnil
    simp [header] at hlen
  refine ⟨⟨{ parser₅ with cs := 348 }, 0, r.parsed⟩, ?_, rfl, rfl, rfl⟩
  rw [HttpRequestParser.execute, if_neg hne]
  exact congrArg (· >>= _) hexec

theorem find_parsed (h : r.Printable relaxed) {e : Bytes × Bytes} (he : e ∈ r.fields) :
    r.parsed.headers.find e.1 = some e.2 :=
  MapType.find_setAll (fields_distinct h) he

theorem contentLength_parsed (h : r.Printable relaxed) :
    r.parsed.headers.getAs (bytes "content-length") = .ok r.body.length := by
  by_cases hbody : r.body = []
  · have hnone : r.parsed.headers.find (bytes "content-length") = none := by
      refine MapType.find_setAll_other fun e he hsame => ?_
      rcases List.mem_cons.mp he with rfl | he
      · have hne : ¬SameName (bytes "content-length") (bytes "connection") := by decide
        exact hne hsame
      · rw [if_pos hbody, List.append_nil] at he
        exact (h.other e he).2 hsame.symm
    rw [MapType.getAs, hnone, hbody]
    rfl
  · have hfind := find_parsed h (e := (bytes "content-length", decimal r.body.length))
      (List.mem_cons_of_mem _ (List.mem_append_right _ (by rw [if_neg hbody]; simp)))
    have hlt := h.body
    have hrange : (-1 : ℚ) < (r.body.length : ℚ) ∧ (r.body.length : ℚ) < 2 ^ 64 := by
      refine ⟨lt_of_lt_of_le neg_one_lt_zero (Nat.cast_nonneg _), ?_⟩
      have hnat : r.body.length < 2 ^ 64 := by omega
      exact_mod_cast hnat
    rw [MapType.getAs, hfind]
    simp only
    rw [stold_decimal (by omega)]
    simp only
    rw [toUInt64, if_pos hrange]
    simp

/-- What `recvRequest` makes of it. -/
def received (r : HttpRequest) : HttpRequest :=
  (if r.body = [] then r.parsed else { r.parsed with body := r.body }).init

theorem valid_header (h : r.Printable relaxed) (hsearch : r.method ≠ .MSEARCH)
    (hlt : r.header.length < 2 ^ 63) :
    HttpSession.Valid relaxed r.header r.body r.received := by
  obtain ⟨p, hexec, hfinished, herror, hdata⟩ := execute_header h hsearch hlt
  refine ⟨h.body, p, hexec, hfinished, herror, ?_, ?_⟩
  · rw [HttpRequestParser.getContentLength, hdata, contentLength_parsed h]
  · rw [received, hdata]

theorem readBack_received (h : r.Printable relaxed) : ReadBack r r.received := by
  have hconn : r.parsed.headers.find (bytes "connection") =
      some (if r.close then bytes "close" else bytes "keep-alive") :=
    find_parsed h (List.mem_cons_self ..)
  have hinit (q : HttpRequest) (hq : q.headers = r.parsed.headers) :
      q.init = { q with close := r.close } := by
    have hheader : q.getHeader (bytes "connection") [] =
        if r.close then bytes "close" else bytes "keep-alive" := by
      rw [getHeader, hq, hconn]
      rfl
    rw [init, hheader]
    cases r.close <;> rfl
  have heq : r.received = { r.parsed with body := r.body, close := r.close } := by
    rw [received]
    split
    · rename_i hbody
      rw [hinit _ rfl, hbody]
      rfl
    · exact hinit { r.parsed with body := r.body } rfl
  rw [heq]
  exact ⟨rfl, rfl, rfl, rfl, rfl, rfl, rfl, fun e he =>
    find_parsed h (List.mem_cons_of_mem _ (List.mem_append_left _ he))⟩

end HttpRequest

namespace HttpSession

/-- The end of a body that is too long for the result of `readFixSize`. -/
theorem readBody_lost {s : SocketStream} {p : HttpRequestParser} {data : Bytes} {length : Nat}
    (hmore : data.length < length) (hleft : toInt32 ((length - data.length : Nat) : Int) ≤ 0) :
    (readBody s p data length).1 = none := by
  have hsub : ((length : Int) - data.length).toNat = length - data.length := by omega
  have hrt : (s.readFixSize (length - data.length)).1 ≤ 0 := by
    rw [SocketStream.readFixSize]
    split
    · exact Int.le_refl _
    · exact hleft
  rw [readBody]
  simp only [hsub]
  rw [if_pos (by omega), if_pos hrt]

/-- The first read takes what fits into the buffer. -/
theorem read_full {text : Bytes} (hne : text ≠ []) :
    (SocketStream.mk text [] true).read httpRequestBufferSize =
      (some (text.take httpRequestBufferSize), ⟨text.drop httpRequestBufferSize, [], true⟩) := by
  have hshare : (SocketStream.mk text [] true).share httpRequestBufferSize =
      httpRequestBufferSize := rfl
  rw [SocketStream.read, if_neg (by simp [hne, httpRequestBufferSize]), hshare]
  rfl

/-- `M-` does not begin a request. -/
theorem recvRequest_dash (relaxed : Bool) (rest : Bytes) :
    (recvRequest relaxed ⟨77 :: 45 :: rest, [], true⟩).map Prod.fst = .ok none := by
  have hmoves : ∀ relaxed, move (Http11.machine relaxed) 1 77 = some ([.mark], 2) ∧
      (next (Http11.machine relaxed) 2 45).isNone = true := by
    decide
  obtain ⟨hfirst, hsecond⟩ := hmoves relaxed
  have hexecute (data : Bytes) :
      (HttpRequestParser.new relaxed).execute (77 :: 45 :: data) =
        .ok (1, ⟨⟨0, 0, 0, 0, none, relaxed⟩, 0, .new⟩) := by
    have hmark : HttpRequestParser.Reads relaxed (77 :: 45 :: data) 0 1 (.new relaxed) 1 2
        (.new relaxed) :=
      leads_move rfl hfirst rfl rfl
    have herror : exec (Http11.machine relaxed) Http11.stops
        (HttpRequestParser.act (77 :: 45 :: data)) (45 :: data) 1 2 (.new relaxed) = _ :=
      exec_error (Option.isNone_iff_eq_none.mp hsecond)
    rw [HttpRequestParser.execute, if_neg (List.cons_ne_nil _ _)]
    exact congrArg (· >>= _) (Eq.trans hmark herror)
  have hread := read_full (List.cons_ne_nil 77 (45 :: rest))
  have htake : (77 :: 45 :: rest).take httpRequestBufferSize =
      77 :: 45 :: rest.take 4094 := rfl
  rw [recvRequest, parse, List.length_nil, Nat.sub_zero, hread]
  simp only [List.nil_append, htake, hexecute]
  rfl

variable {r : HttpRequest}

/-- The header phase of a greedy read ends behind the buffer or the
text. -/
theorem cuts_full {text : Bytes} {stop k : Nat} (hpos : 0 < stop)
    (hstop : stop ≤ httpRequestBufferSize) (hle : stop ≤ text.length)
    (hk : k ∈ cuts stop (text.length + 1) ⟨text, [], true⟩ 0) (hend : stop ≤ k) :
    k = min httpRequestBufferSize text.length := by
  have hgreedy := (cuts_greedy (s := ⟨text, [], true⟩) (i := 0) _ rfl rfl
    (by rw [Nat.mul_zero]; exact hpos) (by rw [Nat.mul_zero, Nat.zero_add]; exact hle) k hk).1 hend
  have hread : readEnd stop = httpRequestBufferSize := by
    simp only [readEnd, httpRequestBufferSize] at hstop ⊢
    omega
  rw [hread, Nat.mul_zero, Nat.zero_add] at hgreedy
  exact hgreedy

/-- A header block that one read can take is not cut. -/
theorem whole_full {header wire : Bytes} (hpos : 0 < header.length)
    (hlen : header.length ≤ httpRequestBufferSize) (hwire : header.length ≤ wire.length) :
    Whole relaxed header ⟨wire, [], true⟩ := by
  refine whole_greedy rfl rfl hpos hwire fun j hj => ?_
  obtain rfl : j = 0 := by
    simp only [httpRequestBufferSize] at hlen hj
    omega
  exact uncut_zero _

/-- What is behind the buffer is too long for the result of
`readFixSize`. -/
theorem recvRequest_long {header body : Bytes} {r : HttpRequest} (h : Valid relaxed header body r)
    (hlen : header.length ≤ httpRequestBufferSize)
    (hmore : httpRequestBufferSize < (header ++ body).length)
    (hleft : toInt32 (((header ++ body).length - httpRequestBufferSize : Nat) : Int) ≤ 0) :
    (recvRequest relaxed ⟨header ++ body, [], true⟩).map Prod.fst = .ok none := by
  obtain ⟨ref, href, hprog, hcontent, -⟩ := h.accepted
  have hwhole : Whole relaxed header ⟨header ++ body, [], true⟩ := whole_full h.pos hlen (by simp)
  obtain ⟨k, n, p, hmem, hle, -, -, hparse, hdata⟩ := parse_spec href _ ⟨header ++ body, [], true⟩ 0
    rfl (by rw [List.drop_zero]) (Nat.lt_succ_self _) hprog (uncut_zero _) hwhole
  obtain rfl : k = httpRequestBufferSize := by
    rw [cuts_full h.pos hlen (by simp) hmem hle, Nat.min_eq_left (Nat.le_of_lt hmore)]
  rw [List.length_append] at hmore hleft
  have hsmall : toInt64 body.length = body.length := if_pos h.1
  have htake : (body.take (httpRequestBufferSize - header.length)).length =
      httpRequestBufferSize - header.length := by
    rw [List.length_take]
    omega
  have hbehind : toInt32 ((body.length -
      (body.take (httpRequestBufferSize - header.length)).length : Nat) : Int) ≤ 0 := by
    rw [htake, show body.length - (httpRequestBufferSize - header.length) =
      header.length + body.length - httpRequestBufferSize by omega]
    exact hleft
  have hlost := readBody_lost (s := ⟨(header ++ body).drop httpRequestBufferSize,
    ([] : List Nat).drop n, true⟩) (p := p) (by rw [htake]; omega) hbehind
  rw [recvRequest, hparse]
  show (p.getContentLength >>= _ : Except StdFault _).map Prod.fst = _
  rw [HttpRequestParser.getContentLength, hdata, ← HttpRequestParser.getContentLength, hcontent]
  show (if toInt64 body.length > 0 then _ else _ : Except StdFault _).map Prod.fst = _
  rw [hsmall, if_pos (by omega)]
  exact congrArg Except.ok hlost

/-- A request that `dump` writes, in reads of full size. -/
theorem recvRequest_dump (h : r.Printable relaxed)
    (hlen : r.dump.length ≤ httpRequestBufferSize + r.body.length) :
    (∃ r', (recvRequest relaxed ⟨r.dump, [], true⟩).map Prod.fst = .ok (some r') ∧
      r.ReadBack r') ↔
    r.method ≠ .MSEARCH ∧ (httpRequestBufferSize < r.dump.length →
      0 < toInt32 ((r.dump.length - httpRequestBufferSize : Nat) : Int)) := by
  have hdump := HttpRequest.dump_eq h
  have hheader : r.header.length ≤ httpRequestBufferSize := by
    rw [hdump, List.length_append] at hlen
    omega
  have hvalid (hsearch : r.method ≠ .MSEARCH) : Valid relaxed r.header r.body r.received := by
    refine HttpRequest.valid_header h hsearch ?_
    simp only [httpRequestBufferSize] at hheader
    omega
  constructor
  · rintro ⟨r', hrecv, -⟩
    have hsearch : r.method ≠ .MSEARCH := by
      intro hmethod
      obtain ⟨rest, hrest⟩ : ∃ rest, r.dump = 77 :: 45 :: rest := by
        rw [hdump, HttpRequest.header, hmethod]
        exact ⟨_, rfl⟩
      rw [hrest, recvRequest_dash] at hrecv
      cases hrecv
    refine ⟨hsearch, fun hmore => ?_⟩
    by_contra hleft
    rw [hdump] at hrecv hmore hleft
    rw [recvRequest_long (hvalid hsearch) hheader hmore (Int.not_lt.mp hleft)] at hrecv
    cases hrecv
  · rintro ⟨hsearch, hfits⟩
    rw [hdump] at hfits ⊢
    have hpos := (hvalid hsearch).pos
    have hfull : Fits r.header r.body ⟨r.header ++ (r.body ++ []), [], true⟩ := by
      intro k hk hle hlt
      have hend := cuts_full hpos hheader (by simp) hk hle
      rw [List.append_nil, List.length_append] at hend
      rw [List.length_append] at hfits
      rw [show k = httpRequestBufferSize by omega]
      exact hfits (by omega)
    have hwhole : Whole relaxed r.header ⟨r.header ++ (r.body ++ []), [], true⟩ :=
      whole_full hpos hheader (by simp)
    have hrecv := (recvRequest_delivery (hvalid hsearch) hheader [] [] hwhole hfull hfull).1
    rw [List.append_nil] at hrecv
    exact ⟨_, hrecv, HttpRequest.readBack_received h⟩

/-- A request for `/a?b#c` with one header and a body. -/
def sample (method : HttpMethod) : HttpRequest :=
  { HttpRequest.new with
    method := method, path := bytes "/a", query := bytes "b", fragment := bytes "c"
    body := bytes "hello", headers := [(bytes "Host", bytes "x")] }

theorem sample_printable {method : HttpMethod} (h : method ≠ .INVALID_METHOD) :
    (sample method).Printable false where
  method := h
  version := .inr rfl
  path := ⟨[97], 26, rfl, by decide, by decide⟩
  query := .char (by decide) .nil
  fragment := .char (by decide) .nil
  websocket := rfl
  distinct := List.pairwise_singleton ..
  headers := by
    intro e he
    obtain rfl := List.mem_singleton.mp he
    decide +kernel
  other := by
    intro e he
    obtain rfl := List.mem_singleton.mp he
    decide
  body := by
    show 5 < 2 ^ 63
    decide

theorem recvRequest_dump_post :
    ∃ r', (recvRequest false ⟨(sample .POST).dump, [], true⟩).map Prod.fst = .ok (some r') ∧
      (sample .POST).ReadBack r' :=
  (recvRequest_dump (sample_printable (by decide)) (by decide)).mpr
    ⟨by decide, by decide⟩

/-- A method of the table is not read back: `-` is no letter of a method
in the grammar. -/
theorem search_not_read_back :
    ¬∀ relaxed (r : HttpRequest), r.Printable relaxed →
      r.dump.length ≤ httpRequestBufferSize + r.body.length →
      ∃ r', (recvRequest relaxed ⟨r.dump, [], true⟩).map Prod.fst = .ok (some r') ∧
        r.ReadBack r' := by
  intro hall
  obtain ⟨r', hrecv, -⟩ := hall false (sample .MSEARCH) (sample_printable (by decide))
    (by decide)
  have hnone := recvRequest_dash false ((sample .MSEARCH).dump.drop 2)
  have hdump : 77 :: 45 :: (sample .MSEARCH).dump.drop 2 = (sample .MSEARCH).dump := by
    decide
  rw [hdump, hrecv] at hnone
  cases hnone

end HttpSession

end Sylar
