import Sylar.HttpChunked
import Sylar.HttpContentLength
import Sylar.HttpFraming
import Sylar.HttpResponseText

/-!
# A response that is written is received

`HttpResponse::dump` beside `recvResponse`. The header block has to come
with the first read, for the parser does not go on inside a token; then
the response arrives however the reads cut the body
(`recvResponse_dump`). As with requests, the result of `readFixSize` is
an `int`, so that a body is lost when too much of it is missing after
the first read.

The header map has one value for a name, so that of several cookies the
last one is received.
-/

namespace Sylar

open Scanner

namespace MapType

variable {m : MapType} {key : Bytes}

theorem setAll_append (a b : List (Bytes × Bytes)) : m.setAll (a ++ b) = (m.setAll a).setAll b :=
  List.foldl_append ..

/-- The last header of a name stays. -/
theorem find_setAll_last {pre post : List (Bytes × Bytes)} {e : Bytes × Bytes}
    (hsame : SameName key e.1) (h : ∀ e' ∈ post, ¬SameName key e'.1) :
    (m.setAll (pre ++ e :: post)).find key = some e.2 := by
  have hlast : (((m.setAll pre).set e.1 e.2).setAll post).find key = some e.2 := by
    rw [find_setAll_other h, find_set, if_pos hsame]
  rw [setAll_append]
  exact hlast

theorem find_none_of_ne : ∀ {fields : MapType}, (∀ e ∈ fields, ¬SameName key e.1) →
    find fields key = none
  | [], _ => rfl
  | e :: fields, h => by
      rw [find_cons, if_neg (h e (List.mem_cons_self ..)),
        find_none_of_ne fun e' he' => h e' (List.mem_cons_of_mem _ he')]

/-- Headers with different names are in the map as they are in the list. -/
theorem find_setAll_distinct : ∀ {fields : MapType} {m : MapType},
    fields.Pairwise (fun a b => ¬SameName a.1 b.1) →
    (m.setAll fields).find key = (find fields key).or (m.find key)
  | [], _, _ => rfl
  | e :: fields, m, h => by
      obtain ⟨hhead, htail⟩ := List.pairwise_cons.mp h
      have hrest := find_setAll_distinct (m := m.set e.1 e.2) htail
      rw [find_set] at hrest
      rw [find_cons]
      refine Eq.trans hrest ?_
      by_cases hkey : SameName key e.1
      · have hnone : find fields key = none :=
          find_none_of_ne fun e' he' hsame => hhead e' he' (hkey.symm.trans hsame)
        rw [if_pos hkey, if_pos hkey, hnone]
        rfl
      · rw [if_neg hkey, if_neg hkey]

end MapType

namespace HttpResponseParser

variable {e : Bytes × Bytes}

theorem Plain.name_ne (h : Plain e) {name : Bytes} (hzero : (0 : UInt8) ∉ name)
    (hknown : name.map tolower ∈ HttpClient.known) : ¬SameName e.1 name := by
  have hnone : (0 : UInt8) ∉ e.1 := fun hmem => absurd (h.1.2 0 hmem) (by decide)
  intro hsame
  rw [sameName_iff, cStr_self hnone, cStr_self hzero] at hsame
  rw [← hsame] at hknown
  exact h.2.1 hknown

theorem Plain.ne_connection (h : Plain e) : ¬SameName e.1 (bytes "connection") :=
  h.name_ne (by decide) (by decide)

theorem Plain.ne_contentLength (h : Plain e) : ¬SameName e.1 (bytes "content-length") :=
  h.name_ne (by decide) (by decide)

end HttpResponseParser

/-! ## The response -/

namespace SentResponse

/-- What `dump` writes behind the status. -/
def written (r : SentResponse) : Bytes :=
  if r.reason = [] then httpStatusToString r.status else r.reason

/-- A response that can be written in the grammar; the body fits a
`std::string`. -/
structure Printable (r : SentResponse) : Prop where
  version : r.version = 0x10 ∨ r.version = 0x11
  status : 0 ≤ r.status ∧ r.status < 2 ^ 31
  reason : ∀ b ∈ r.reason, HttpClient.isLineChar b = true
  websocket : r.websocket = false
  distinct : r.headers.Pairwise fun a b => ¬SameName a.1 b.1
  headers : ∀ e ∈ r.headers, HttpResponseParser.Plain e
  cookies : ∀ c ∈ r.cookies, (∀ b ∈ c.head?, HttpClient.isBlank b = false) ∧
    ∀ b ∈ c, HttpClient.isLineChar b = true
  body : r.body.length < 2 ^ 63

/-- `r'` is what was sent with `r`. -/
structure ReadBack (inflate : ZlibFormat → Bytes → Bytes) (r : SentResponse)
    (r' : HttpResponse) : Prop where
  version : r'.version = r.version
  status : r'.status = r.status
  reason : r'.reason = r.written
  connection : r'.headers.find (bytes "connection") = some (connectionValue r.close)
  cookie : ∀ c ∈ r.cookies.getLast?, r'.headers.find (bytes "Set-Cookie") = some c
  headers : ∀ key, ¬SameName key (bytes "connection") → ¬SameName key (bytes "content-length") →
    (r.cookies = [] ∨ ¬SameName key (bytes "Set-Cookie")) →
    r'.headers.find key = r.headers.find key
  body : r'.body = if r.body = [] then [] else HttpConnection.decode inflate r.toHttpResponse r.body

variable {r : SentResponse}

/-- The headers of the user, and the cookies. -/
def userFields (r : SentResponse) : List (Bytes × Bytes) :=
  r.headers ++ r.cookies.map fun c => (bytes "Set-Cookie", c)

def lengthFields (r : SentResponse) : List (Bytes × Bytes) :=
  if r.body = [] then [] else [(bytes "content-length", decimal r.body.length)]

/-- `dump` without the body. -/
def header (r : SentResponse) : Bytes :=
  bytes "HTTP/" ++ decimal (r.version / 16) ++ bytes "." ++ decimal (r.version % 16) ++ 32 ::
    (decimal r.status.toNat ++ 32 :: (r.written ++ 13 :: 10 ::
      (r.userFields.flatMap HttpRequest.dumpHeader ++
        (HttpRequest.dumpHeader (bytes "connection", connectionValue r.close) ++
          (r.lengthFields.flatMap HttpRequest.dumpHeader ++ HttpRequest.crlf)))))

/-- What the parser makes of it. -/
def parsed (r : SentResponse) : HttpResponse :=
  { HttpResponse.new with
    version := r.version, status := r.status, reason := r.written
    headers := MapType.setAll [] (r.userFields ++
      (bytes "connection", connectionValue r.close) :: r.lengthFields) }

theorem dump_eq (h : r.Printable) : r.dump = r.header ++ r.body := by
  have hstatus : (r.status % 2 ^ 32).toNat = r.status.toNat := by
    obtain ⟨hle, hlt⟩ := h.status
    rw [Int.emod_eq_of_lt hle (by omega)]
  have hkeep : (r.headers.flatMap fun i =>
      if !r.websocket ∧ strcasecmp (cStr i.1) (bytes "connection") = .eq then []
      else HttpRequest.dumpHeader i) = r.headers.flatMap HttpRequest.dumpHeader := by
    refine List.flatMap_congr fun e he => if_neg fun hsame => ?_
    exact (h.headers e he).ne_connection hsame.2
  have hcookies : (r.cookies.flatMap fun i => bytes "Set-Cookie: " ++ i ++ HttpRequest.crlf) =
      (r.cookies.map fun c => (bytes "Set-Cookie", c)).flatMap HttpRequest.dumpHeader := by
    rw [List.flatMap_map]
    refine List.flatMap_congr fun c _ => ?_
    simp [HttpRequest.dumpHeader,
      show bytes "Set-Cookie: " = bytes "Set-Cookie" ++ bytes ": " from rfl]
  rw [dump, hkeep, hcookies, h.websocket, startLine, hstatus]
  by_cases hbody : r.body = []
  · simp [header, written, userFields, lengthFields, hbody, HttpRequest.dumpHeader, connectionValue,
      HttpRequest.crlf, show bytes " " = [32] from rfl,
      show bytes "connection: " = bytes "connection" ++ bytes ": " from rfl]
  · simp [header, written, userFields, lengthFields, hbody, HttpRequest.dumpHeader, connectionValue,
      HttpRequest.crlf, show bytes " " = [32] from rfl,
      show bytes "connection: " = bytes "connection" ++ bytes ": " from rfl,
      show bytes "content-length: " = bytes "content-length" ++ bytes ": " from rfl]

theorem userFields_plain (h : r.Printable) : ∀ e ∈ r.userFields, HttpResponseParser.Plain e := by
  have hname : (bytes "Set-Cookie" ≠ [] ∧ ∀ b ∈ bytes "Set-Cookie", isTokenChar b = true) ∧
      (bytes "Set-Cookie").map tolower ∉ HttpClient.known :=
    ⟨⟨by decide, List.all_eq_true.mp rfl⟩, by decide⟩
  intro e he
  obtain he | he := List.mem_append.mp he
  · exact h.headers e he
  · obtain ⟨c, hc, rfl⟩ := List.mem_map.mp he
    exact ⟨hname.1, hname.2, h.cookies c hc⟩

set_option maxRecDepth 10000 in
/-- The texts of the table. -/
theorem statusText_printable (status : Int) : httpStatusToString status ≠ [] ∧
    ∀ b ∈ httpStatusToString status, HttpClient.isLineChar b = true := by
  have htable : (httpStatusMap.all fun e => bytes e.2 ≠ [] ∧
      (bytes e.2).all HttpClient.isLineChar = true) = true := by
    decide
  rw [httpStatusToString]
  cases hfind : httpStatusMap.find? fun e => e.1 = status with
  | some e =>
      obtain ⟨hne, hall⟩ := of_decide_eq_true
        (List.all_eq_true.mp htable e (List.mem_of_find?_eq_some hfind))
      exact ⟨hne, List.all_eq_true.mp hall⟩
  | none => exact ⟨by decide, List.all_eq_true.mp rfl⟩

theorem written_printable (h : r.Printable) :
    r.written ≠ [] ∧ ∀ b ∈ r.written, HttpClient.isLineChar b = true := by
  rw [written]
  split
  · exact statusText_printable r.status
  · rename_i hne
    exact ⟨hne, h.reason⟩

/-- The header block is parsed as a whole. -/
theorem execute_header (h : r.Printable) (extra : Bytes)
    (hlt : (r.header ++ extra).length < 2 ^ 63) :
    ∃ p, HttpResponseParser.new.execute (r.header ++ extra) false = .ok (r.header.length, p) ∧
      p.isFinished = true ∧ p.hasError = false ∧ p.data = r.parsed ∧ p.parser.chunked = false := by
  obtain ⟨buffer, hbuffer⟩ : ∃ buffer, buffer = r.header ++ extra := ⟨_, rfl⟩
  rw [← hbuffer] at hlt ⊢
  obtain ⟨n, hn⟩ : ∃ n : Nat, r.status = n := ⟨_, (Int.toNat_of_nonneg h.status.1).symm⟩
  have hsmall : n < 2 ^ 31 := by
    have hlt := h.status.2
    omega
  obtain ⟨hne, hwritten⟩ := written_printable h
  have htext : buffer.drop 0 = bytes "HTTP/" ++ decimal (r.version / 16) ++ bytes "." ++
      decimal (r.version % 16) ++ 32 :: (decimal n ++ 32 :: (r.written ++ 13 :: 10 ::
        (r.userFields.flatMap HttpRequest.dumpHeader ++
          (HttpRequest.dumpHeader (bytes "connection", connectionValue r.close) ++
            (r.lengthFields.flatMap HttpRequest.dumpHeader ++ (HttpRequest.crlf ++ extra)))))) := by
    rw [hbuffer, header, hn]
    simp
  obtain ⟨p₁, hversion, hdrop₁⟩ := HttpResponseParser.reads_version h.version htext .new
  obtain ⟨p₂, hstatus, hdrop₂⟩ := HttpResponseParser.reads_status hsmall hdrop₁ _
  obtain ⟨p₃, hreason, hdrop₃⟩ := HttpResponseParser.reads_reason hlt hne hwritten hdrop₂ _
  obtain ⟨p₄, parser₄, hheaders, hchunked₄, hdrop₄⟩ := HttpResponseParser.reads_headers hlt _
    (userFields_plain h) hdrop₃
  obtain ⟨p₅, cs, parser₅, hconn, hstart, hchunked₅, hdrop₅⟩ :=
    HttpResponseParser.reads_connection hlt hdrop₄ _
  -- the last header, if there is a body
  obtain ⟨p₆, cs', parser₆, hlength, hstart', hchunked₆, hdrop₆⟩ : ∃ p' cs' parser,
      HttpResponseParser.Reads buffer p₅ cs _ p' cs' ⟨parser, 0, r.parsed⟩ ∧
        HttpClient.LineStart cs' ∧ parser.chunked = parser₅.chunked ∧
        buffer.drop p' = HttpRequest.crlf ++ extra := by
    rw [parsed, MapType.setAll_append, hn]
    by_cases hbody : r.body = []
    · rw [lengthFields, if_pos hbody] at hdrop₅ ⊢
      exact ⟨p₅, cs, parser₅, rfl, hstart, rfl, hdrop₅⟩
    · rw [lengthFields, if_neg hbody] at hdrop₅ ⊢
      rw [List.flatMap_singleton] at hdrop₅
      obtain ⟨p₆, parser₆, hlength, hchunked₆, hdrop₆⟩ :=
        HttpResponseParser.reads_contentLength hlt hstart hdrop₅ _
      exact ⟨p₆, 20, parser₆, hlength, .inl rfl, hchunked₆, hdrop₆⟩
  have hend := HttpResponseParser.exec_end hstart' hdrop₆ ⟨parser₆, 0, r.parsed⟩
  have hexec := Eq.trans (((((hversion.trans hstatus).trans hreason).trans hheaders).trans
    hconn).trans hlength) hend
  rw [List.drop_zero] at hexec
  have hpos : p₆ + 1 + 1 = r.header.length := by
    have hlen := congrArg List.length hdrop₆
    rw [hbuffer, List.length_drop, List.length_append, List.length_append] at hlen
    have htwo : HttpRequest.crlf.length = 2 := rfl
    omega
  have hin : p₆ + 1 + 1 ≤ buffer.length := by
    rw [hpos, hbuffer, List.length_append]
    exact Nat.le_add_right ..
  obtain ⟨ref, href, hchecked⟩ := HttpResponseParser.exec_within hlt
    (by rw [hbuffer]; simp [header, HttpRequest.crlf]) 1 .new
  obtain rfl := Except.ok.inj (hexec.symm.trans href)
  refine ⟨⟨{ parser₆ with cs := 120, bodyStart := p₆ + 1 + 1 }, 0, r.parsed⟩,
    ?_, rfl, rfl, rfl, ?_⟩
  · rw [HttpResponseParser.execute, ← hpos]
    exact Eq.trans (congrArg (· >>= _) hexec)
      ((if_neg (Nat.not_lt.mpr hin)).trans (if_pos hchecked))
  · exact ((hchunked₆.trans hchunked₅).trans hchunked₄).trans rfl

/-! ### The headers that arrive -/

theorem lengthFields_name : ∀ e ∈ r.lengthFields, e.1 = bytes "content-length" := by
  intro e he
  rw [lengthFields] at he
  split at he
  · cases he
  · rw [List.mem_singleton.mp he]

theorem find_connection : r.parsed.headers.find (bytes "connection") =
    some (connectionValue r.close) := by
  refine MapType.find_setAll_last SameName.rfl fun e he hsame => ?_
  rw [lengthFields_name e he] at hsame
  exact absurd hsame (by decide)

/-- The other headers are those of the user. -/
theorem find_other {key : Bytes} (hconn : ¬SameName key (bytes "connection"))
    (hlength : ¬SameName key (bytes "content-length")) :
    r.parsed.headers.find key = (MapType.setAll [] r.userFields).find key := by
  rw [parsed, MapType.setAll_append]
  refine MapType.find_setAll_other fun e he => ?_
  obtain rfl | he := List.mem_cons.mp he
  · exact hconn
  · rw [lengthFields_name e he]
    exact hlength

theorem find_user (h : r.Printable) {key : Bytes}
    (hcookie : r.cookies = [] ∨ ¬SameName key (bytes "Set-Cookie")) :
    (MapType.setAll [] r.userFields).find key = r.headers.find key := by
  have hheaders : (MapType.setAll [] r.headers).find key = r.headers.find key := by
    rw [MapType.find_setAll_distinct h.distinct]
    exact Option.or_none
  rw [userFields, MapType.setAll_append, MapType.find_setAll_other, hheaders]
  intro e he
  obtain ⟨c, hc, rfl⟩ := List.mem_map.mp he
  exact hcookie.resolve_left (List.ne_nil_of_mem hc)

theorem find_cookie : ∀ c ∈ r.cookies.getLast?,
    r.parsed.headers.find (bytes "Set-Cookie") = some c := by
  intro c hc
  obtain ⟨cs, hcs⟩ := List.getLast?_eq_some_iff.mp hc
  have hsplit : r.userFields = (r.headers ++ cs.map fun c => (bytes "Set-Cookie", c)) ++
      (bytes "Set-Cookie", c) :: [] := by
    simp [userFields, hcs]
  rw [find_other (by decide) (by decide), hsplit]
  exact MapType.find_setAll_last SameName.rfl fun e he => by cases he

theorem contentLength_parsed (h : r.Printable) :
    r.parsed.headers.getAs (bytes "content-length") = .ok r.body.length := by
  by_cases hbody : r.body = []
  · have hnone : r.parsed.headers.find (bytes "content-length") = none := by
      refine MapType.find_setAll_other fun e he hsame => ?_
      rw [lengthFields, if_pos hbody] at he
      obtain he | he := List.mem_append.mp he
      · exact (userFields_plain h e he).ne_contentLength hsame.symm
      · obtain rfl := List.mem_singleton.mp he
        have hne : ¬SameName (bytes "content-length") (bytes "connection") := by decide
        exact hne hsame
    rw [MapType.getAs, hnone, hbody]
    rfl
  · have hfind : r.parsed.headers.find (bytes "content-length") = some (decimal r.body.length) := by
      have hsplit : r.userFields ++ (bytes "connection", connectionValue r.close) ::
          r.lengthFields = (r.userFields ++ [(bytes "connection", connectionValue r.close)]) ++
            (bytes "content-length", decimal r.body.length) :: [] := by
        rw [lengthFields, if_neg hbody]
        simp
      rw [parsed, hsplit]
      exact MapType.find_setAll_last SameName.rfl fun e he => by cases he
    have hlt := h.body
    rw [getAs_some hfind (stold_decimal (by omega)), toUInt64_natCast (by omega)]

theorem bodyLength_parsed (h : r.Printable) {p : HttpResponseParser} (hp : p.data = r.parsed) :
    p.bodyLength = .ok (r.body.length : Int) := by
  rw [HttpResponseParser.bodyLength, HttpResponseParser.getContentLength, hp,
    contentLength_parsed h]
  exact congrArg Except.ok (toInt64_eq h.body)

/-- With the body that has come behind the header block. -/
def received (inflate : ZlibFormat → Bytes → Bytes) (r : SentResponse) : HttpResponse :=
  HttpConnection.setBody inflate r.parsed r.body

theorem readBack_received (inflate : ZlibFormat → Bytes → Bytes) (h : r.Printable) :
    r.ReadBack inflate (r.received inflate) := by
  have hkeep : ∀ body, HttpConnection.setBody inflate r.parsed body =
      { r.parsed with body :=
        if body = [] then [] else HttpConnection.decode inflate r.parsed body } := by
    intro body
    rw [HttpConnection.setBody]
    split <;> rfl
  have hencoding : HttpConnection.decode inflate r.parsed r.body =
      HttpConnection.decode inflate r.toHttpResponse r.body := by
    have hfind : r.parsed.headers.find (bytes "content-encoding") =
        r.headers.find (bytes "content-encoding") := by
      rw [find_other (by decide) (by decide), find_user h (.inr (by decide))]
    rw [HttpConnection.decode, HttpConnection.decode, HttpResponse.getHeader,
      HttpResponse.getHeader, hfind]
  rw [received, hkeep]
  refine ⟨rfl, rfl, rfl, find_connection, find_cookie, fun key hconn hlength hcookie => ?_, ?_⟩
  · exact (find_other hconn hlength).trans (find_user h hcookie)
  · rw [hencoding]

end SentResponse

/-! ## Receiving it -/

namespace HttpConnection

variable {s s' : SocketStream} {body rest got : Bytes} {m : Nat}
  {inflate : ZlibFormat → Bytes → Bytes} {r : SentResponse}

/-- A body of which `m` bytes are in the buffer. -/
theorem readBody_spec (hc : s.connected = true) (hm : m ≤ (body ++ rest).length)
    (hin : s.incoming = (body ++ rest).drop m)
    (hleft : m < body.length → 0 < toInt32 ((body.length - m : Nat) : Int)) :
    ∃ n, readBody s ((body ++ rest).take m) body.length =
      (some body, ⟨(body ++ rest).drop (max m body.length), s.sizes.drop n, true⟩) := by
  have hlen : ((body ++ rest).take m).length = m := by
    rw [List.length_take, Nat.min_eq_left hm]
  rw [readBody]
  simp only [hlen]
  by_cases hmore : m < body.length
  · have htake : (body ++ rest).take m = body.take m :=
      List.take_append_of_le_length (Nat.le_of_lt hmore)
    have hgot : s.incoming.take (body.length - m) = body.drop m := by
      rw [hin, List.drop_append_of_le_length (Nat.le_of_lt hmore), List.take_left' (by simp)]
    have hsub : ((body.length : Int) - m).toNat = body.length - m := by omega
    obtain ⟨n, hread⟩ := SocketStream.readLeft_eq hc (Nat.le_refl (body.length - m)) (by
      rw [hin, List.length_drop, List.length_append]
      omega)
    have hfix : s.readFixSize (body.length - m) = (toInt32 ((body.length - m : Nat) : Int),
        body.drop m, ⟨(body ++ rest).drop body.length, s.sizes.drop n, true⟩) := by
      rw [SocketStream.readFixSize, hread]
      simp only
      rw [hgot, hin, List.drop_drop, Nat.add_sub_cancel' (Nat.le_of_lt hmore)]
    refine ⟨n, ?_⟩
    simp only [hsub, hfix]
    rw [if_pos (show (body.length : Int) ≥ m by omega),
      if_pos (show (body.length : Int) - m > 0 by omega),
      if_neg (Int.not_le.mpr (hleft hmore)), htake, List.take_append_drop,
      Nat.max_eq_right (Nat.le_of_lt hmore)]
  · have hle : body.length ≤ m := Nat.le_of_not_lt hmore
    have hhead : (if (body.length : Int) ≥ m then (body ++ rest).take m
        else ((body ++ rest).take m).take (body.length : Int).toNat) = body := by
      split
      · rw [List.take_left' (by omega)]
      · rw [Int.toNat_natCast, List.take_take, Nat.min_eq_left hle, List.take_left]
    refine ⟨0, ?_⟩
    rw [hhead, if_neg (by omega), Nat.max_eq_left hle, List.drop_zero, ← hin, ← hc]

/-- The end of a body that is too long for the result of `readFixSize`. -/
theorem readBody_lost {data : Bytes} {length : Nat} (hmore : data.length < length)
    (hleft : toInt32 ((length - data.length : Nat) : Int) ≤ 0) :
    (readBody s data length).1 = none := by
  have hsub : ((length : Int) - data.length).toNat = length - data.length := by omega
  have hrt : (s.readFixSize (length - data.length)).1 ≤ 0 := by
    rw [SocketStream.readFixSize]
    split
    · exact Int.le_refl _
    · exact hleft
  rw [readBody]
  simp only [hsub]
  rw [if_pos (by omega), if_pos hrt]

/-- The header block comes with the first read. -/
theorem begins_dump (h : r.Printable) {sizes : List Nat}
    (hread : SocketStream.read ⟨r.dump ++ rest, sizes, true⟩ httpResponseBufferSize =
      (some got, s')) (hwhole : r.header.length ≤ got.length) :
    ∃ m n p, got.length = r.header.length + m ∧ m ≤ (r.body ++ rest).length ∧
      s' = ⟨(r.body ++ rest).drop m, sizes.drop n, true⟩ ∧
      got.drop r.header.length = (r.body ++ rest).take m ∧
      Begins r.header ⟨r.dump ++ rest, sizes, true⟩ got s' p ∧ p.data = r.parsed ∧
        p.parser.chunked = false := by
  have htext : r.dump ++ rest = r.header ++ (r.body ++ rest) := by
    rw [SentResponse.dump_eq h, List.append_assoc]
  have hne : r.dump ++ rest ≠ [] := by
    rw [htext]
    simp [SentResponse.header, HttpRequest.crlf]
  obtain ⟨k, -, hle, hk, -, hread'⟩ := SocketStream.read_eq
    (s := ⟨r.dump ++ rest, sizes, true⟩) rfl (show 0 < httpResponseBufferSize by decide) hne
  obtain ⟨hgot, rfl⟩ := Prod.mk.inj (hread'.symm.trans hread)
  obtain rfl := Option.some.inj hgot
  simp only at hk hwhole ⊢
  have hlen : ((r.dump ++ rest).take k).length = k := by rw [List.length_take, Nat.min_eq_left hk]
  rw [hlen] at hwhole ⊢
  obtain ⟨m, rfl⟩ := Nat.exists_eq_add_of_le hwhole
  rw [htext, List.length_append] at hk
  have hpiece : (r.dump ++ rest).take (r.header.length + m) =
      r.header ++ (r.body ++ rest).take m := by
    rw [htext, List.take_length_add_append]
  have hdrop : (r.dump ++ rest).drop (r.header.length + m) = (r.body ++ rest).drop m := by
    rw [htext, ← List.drop_drop, List.drop_left]
  have hlt : (r.header ++ (r.body ++ rest).take m).length < 2 ^ 63 := by
    rw [← hpiece, hlen]
    simp only [httpResponseBufferSize] at hle
    omega
  obtain ⟨p, hexec, hfinished, hgood, hdata, hchunked⟩ := SentResponse.execute_header h _ hlt
  refine ⟨m, 1, p, rfl, by omega, ?_, ?_, ⟨hread, ?_, ?_, hfinished, hgood⟩, hdata, hchunked⟩
  · rw [hdrop, List.drop_one]
  · rw [hpiece, List.drop_left]
  · rw [hlen]
    exact hwhole
  · rw [hpiece]
    exact hexec

/-- What `recvResponse` does with a response that has no chunks. -/
theorem recvResponse_begun (inflate : ZlibFormat → Bytes → Bytes) (h : r.Printable)
    {sizes : List Nat}
    (hread : SocketStream.read ⟨r.dump ++ rest, sizes, true⟩ httpResponseBufferSize =
      (some got, s')) (hwhole : r.header.length ≤ got.length) :
    ∃ m n, got.length = r.header.length + m ∧ m ≤ (r.body ++ rest).length ∧
      recvResponse inflate ⟨r.dump ++ rest, sizes, true⟩ = if (r.body.length : Int) > 0 then
          .ok ((readBody ⟨(r.body ++ rest).drop m, sizes.drop n, true⟩ ((r.body ++ rest).take m)
              r.body.length).1.map (setBody inflate r.parsed),
            (readBody ⟨(r.body ++ rest).drop m, sizes.drop n, true⟩ ((r.body ++ rest).take m)
              r.body.length).2)
        else .ok (some r.parsed, ⟨(r.body ++ rest).drop m, sizes.drop n, true⟩) := by
  obtain ⟨m, n, p, hlen, hm, rfl, hdata, hbegins, hparsed, hchunked⟩ :=
    begins_dump h hread hwhole
  have hheader : r.header ≠ [] := by simp [SentResponse.header, HttpRequest.crlf]
  have hparse := parse_first hbegins hheader (r.dump ++ rest).length
  rw [hdata] at hparse
  have hrecv := recvResponse_body (s := ⟨r.dump ++ rest, sizes, true⟩) inflate hparse hchunked
  rw [SentResponse.bodyLength_parsed h hparsed] at hrecv
  refine ⟨m, n, hlen, hm, ?_⟩
  rw [hrecv, ← hparsed]
  rfl

/-- Where the text goes on behind what was read. -/
theorem drop_dump (h : r.Printable) {m : Nat} (hlen : got.length = r.header.length + m) :
    (r.dump ++ rest).drop (max got.length r.dump.length) =
      (r.body ++ rest).drop (max m r.body.length) := by
  rw [SentResponse.dump_eq h, List.append_assoc, hlen, List.length_append,
    Nat.add_max_add_left, ← List.drop_drop, List.drop_left]

/-- The response, if what is missing of it behind the first read is
positive as an `int`. -/
theorem recvResponse_received (inflate : ZlibFormat → Bytes → Bytes) (h : r.Printable)
    {sizes : List Nat}
    (hread : SocketStream.read ⟨r.dump ++ rest, sizes, true⟩ httpResponseBufferSize =
      (some got, s')) (hwhole : r.header.length ≤ got.length)
    (hleft : got.length < r.dump.length →
      0 < toInt32 ((r.dump.length - got.length : Nat) : Int)) :
    ∃ n, recvResponse inflate ⟨r.dump ++ rest, sizes, true⟩ = .ok (some (r.received inflate),
      ⟨(r.dump ++ rest).drop (max got.length r.dump.length), sizes.drop n, true⟩) := by
  obtain ⟨m, n, hlen, hm, hrecv⟩ := recvResponse_begun inflate h hread hwhole
  have hdump : r.dump.length = r.header.length + r.body.length := by
    rw [SentResponse.dump_eq h, List.length_append]
  rw [hrecv, drop_dump h hlen]
  by_cases hbody : r.body = []
  · -- without a body, all has come
    have hparsed : r.received inflate = r.parsed := by
      rw [SentResponse.received, setBody, if_pos hbody]
    have hstop : ¬(r.body.length : Int) > 0 := by simp [hbody]
    refine ⟨n, ?_⟩
    rw [if_neg hstop, hparsed, hbody, List.length_nil, Nat.max_zero]
  · have hpos : (r.body.length : Int) > 0 := by
      have hne := List.length_pos_iff.mpr hbody
      omega
    obtain ⟨n', hspec⟩ := readBody_spec (s := ⟨(r.body ++ rest).drop m, sizes.drop n, true⟩)
      rfl hm rfl fun hmore => by
        have hmissing : r.body.length - m = r.dump.length - got.length := by omega
        rw [hmissing]
        exact hleft (by omega)
    refine ⟨n + n', ?_⟩
    rw [if_pos hpos, hspec, Option.map_some, SentResponse.received]
    simp only [List.drop_drop]

/-- Otherwise there is none. -/
theorem recvResponse_lost (inflate : ZlibFormat → Bytes → Bytes) (h : r.Printable)
    {sizes : List Nat}
    (hread : SocketStream.read ⟨r.dump ++ rest, sizes, true⟩ httpResponseBufferSize =
      (some got, s')) (hwhole : r.header.length ≤ got.length)
    (hmore : got.length < r.dump.length)
    (hleft : ¬0 < toInt32 ((r.dump.length - got.length : Nat) : Int)) :
    ∃ s, recvResponse inflate ⟨r.dump ++ rest, sizes, true⟩ = .ok (none, s) := by
  obtain ⟨m, n, hlen, hm, hrecv⟩ := recvResponse_begun inflate h hread hwhole
  have hdump : r.dump.length = r.header.length + r.body.length := by
    rw [SentResponse.dump_eq h, List.length_append]
  have hmissing : r.dump.length - got.length = r.body.length - m := by omega
  rw [hmissing] at hleft
  have hpos : (r.body.length : Int) > 0 := by omega
  have hgot : ((r.body ++ rest).take m).length = m := by
    rw [List.length_take, Nat.min_eq_left hm]
  have hlost := readBody_lost (s := ⟨(r.body ++ rest).drop m, sizes.drop n, true⟩)
    (show ((r.body ++ rest).take m).length < r.body.length by omega)
    (by rwa [hgot, ← Int.not_lt])
  rw [if_pos hpos, hlost] at hrecv
  exact ⟨_, hrecv⟩

/-- **A response arrives as it was sent**, if what is missing of it behind
the first read is positive as an `int`. -/
theorem recvResponse_dump (inflate : ZlibFormat → Bytes → Bytes) (h : r.Printable)
    {sizes : List Nat}
    (hread : SocketStream.read ⟨r.dump ++ rest, sizes, true⟩ httpResponseBufferSize =
      (some got, s')) (hwhole : r.header.length ≤ got.length) :
    (∃ r' n, recvResponse inflate ⟨r.dump ++ rest, sizes, true⟩ = .ok (some r',
        ⟨(r.dump ++ rest).drop (max got.length r.dump.length), sizes.drop n, true⟩) ∧
      r.ReadBack inflate r') ↔
    (got.length < r.dump.length → 0 < toInt32 ((r.dump.length - got.length : Nat) : Int)) := by
  constructor
  · rintro ⟨r', n, hrecv, -⟩ hmore
    by_contra hleft
    obtain ⟨s, hlost⟩ := recvResponse_lost inflate h hread hwhole hmore hleft
    rw [hlost] at hrecv
    cases hrecv
  · intro hleft
    obtain ⟨n, hrecv⟩ := recvResponse_received inflate h hread hwhole hleft
    exact ⟨_, n, hrecv, SentResponse.readBack_received inflate h⟩

/-- A response with a header, two cookies and a body. -/
def sampleResponse : SentResponse :=
  { SentResponse.new 0x11 true with
    headers := [(bytes "A", bytes "b")], cookies := [bytes "c=1", bytes "d=2"]
    body := bytes "hello" }

theorem sampleResponse_printable : sampleResponse.Printable where
  version := .inr rfl
  status := by decide
  reason _ hb := nomatch hb
  websocket := rfl
  distinct := List.pairwise_singleton ..
  headers := by
    intro e he
    obtain rfl := List.mem_singleton.mp he
    exact ⟨⟨by decide, List.all_eq_true.mp rfl⟩, by decide, by simp [bytes]; decide,
      List.all_eq_true.mp rfl⟩
  cookies := by
    intro c hc
    obtain rfl | hc := List.mem_cons.mp hc
    · exact ⟨by simp [bytes]; decide, List.all_eq_true.mp rfl⟩
    · obtain rfl := List.mem_singleton.mp hc
      exact ⟨by simp [bytes]; decide, List.all_eq_true.mp rfl⟩
  body := by
    show 5 < 2 ^ 63
    decide

/-- The first read takes two bytes of the body. -/
theorem recvResponse_dump_sample :
    ∃ r' n, recvResponse (fun _ b => b) ⟨sampleResponse.dump ++ [], [97, 1], true⟩ =
        .ok (some r', ⟨[], ([97, 1] : List Nat).drop n, true⟩) ∧
      sampleResponse.ReadBack (fun _ b => b) r' := by
  have hread : SocketStream.read ⟨sampleResponse.dump ++ [], [97, 1], true⟩
      httpResponseBufferSize = (some ((sampleResponse.dump ++ []).take 97),
        ⟨(sampleResponse.dump ++ []).drop 97, [1], true⟩) := by
    rfl
  exact (recvResponse_dump (fun _ b => b) sampleResponse_printable hread (by decide)).mpr
    (by decide)

end HttpConnection

end Sylar
