import Sylar.HttpRequestText
import Sylar.Lib.Lines
import Sylar.UrlCodec

/-!
# The framing headers

Both `dump` functions write a `connection` header of their own, and a
`content-length` header if there is a body. Of the headers that the user
has set they leave out `connection`, but not `content-length`. So the
text is framed as it should be if the lines that come from the user do
not read as these headers (`framed_iff`).
-/

namespace Sylar

open Lines

/-- `HTTP_STATUS_MAP`. -/
def httpStatusMap : List (Int × String) :=
  [(100, "Continue"), (101, "Switching Protocols"), (102, "Processing"), (200, "OK"),
    (201, "Created"), (202, "Accepted"), (203, "Non-Authoritative Information"),
    (204, "No Content"), (205, "Reset Content"), (206, "Partial Content"), (207, "Multi-Status"),
    (208, "Already Reported"), (226, "IM Used"), (300, "Multiple Choices"),
    (301, "Moved Permanently"), (302, "Found"), (303, "See Other"), (304, "Not Modified"),
    (305, "Use Proxy"), (307, "Temporary Redirect"), (308, "Permanent Redirect"),
    (400, "Bad Request"), (401, "Unauthorized"), (402, "Payment Required"), (403, "Forbidden"),
    (404, "Not Found"), (405, "Method Not Allowed"), (406, "Not Acceptable"),
    (407, "Proxy Authentication Required"), (408, "Request Timeout"), (409, "Conflict"),
    (410, "Gone"), (411, "Length Required"), (412, "Precondition Failed"),
    (413, "Payload Too Large"), (414, "URI Too Long"), (415, "Unsupported Media Type"),
    (416, "Range Not Satisfiable"), (417, "Expectation Failed"), (421, "Misdirected Request"),
    (422, "Unprocessable Entity"), (423, "Locked"), (424, "Failed Dependency"),
    (426, "Upgrade Required"), (428, "Precondition Required"), (429, "Too Many Requests"),
    (431, "Request Header Fields Too Large"), (451, "Unavailable For Legal Reasons"),
    (500, "Internal Server Error"), (501, "Not Implemented"), (502, "Bad Gateway"),
    (503, "Service Unavailable"), (504, "Gateway Timeout"), (505, "HTTP Version Not Supported"),
    (506, "Variant Also Negotiates"), (507, "Insufficient Storage"), (508, "Loop Detected"),
    (510, "Not Extended"), (511, "Network Authentication Required")]

/-- `HttpStatusToString(s)`. -/
def httpStatusToString (s : Int) : Bytes :=
  match httpStatusMap.find? fun e => e.1 = s with
  | some e => bytes e.2
  | none => bytes "<unknown>"

/-- A response with what only its sender sets. -/
structure SentResponse extends HttpResponse where
  close : Bool
  websocket : Bool
  cookies : List Bytes
deriving Repr, DecidableEq

/-- What both functions write for `m_close`. -/
def connectionValue (close : Bool) : Bytes := if close then bytes "close" else bytes "keep-alive"

namespace SentResponse

/-- `new HttpResponse(version, close)`. -/
def new (version : Nat) (close : Bool) : SentResponse :=
  { HttpResponse.new with version, close, websocket := false, cookies := [] }

def startLine (r : SentResponse) : Bytes :=
  bytes "HTTP/"
    ++ decimal (r.version / 16)
    ++ bytes "."
    ++ decimal (r.version % 16)
    ++ bytes " "
    ++ decimal (r.status % 2 ^ 32).toNat
    ++ bytes " "
    ++ (if r.reason = [] then httpStatusToString r.status else r.reason)

def dump (r : SentResponse) : Bytes :=
  r.startLine
    ++ HttpRequest.crlf
    ++ (r.headers.flatMap fun i =>
        if !r.websocket ∧ strcasecmp (cStr i.1) (bytes "connection") = .eq then []
        else HttpRequest.dumpHeader i)
    ++ (r.cookies.flatMap fun i => bytes "Set-Cookie: " ++ i ++ HttpRequest.crlf)
    ++ (if !r.websocket then
        bytes "connection: " ++ (if r.close then bytes "close" else bytes "keep-alive")
          ++ HttpRequest.crlf
      else [])
    ++ (if r.body ≠ [] then
        bytes "content-length: " ++ decimal r.body.length ++ HttpRequest.crlf ++ HttpRequest.crlf
          ++ r.body
      else HttpRequest.crlf)

end SentResponse

/-! ## The header section of a text -/

/-- The value that a line has for a field. -/
def fieldValue (name line : Bytes) : Option Bytes :=
  if 58 ∈ line ∧ (line.takeWhile (· ≠ 58)).map tolower = name then
    some (StringUtil.trim ((line.dropWhile (· ≠ 58)).drop 1) [32, 9])
  else none

def fieldValues (name : Bytes) (ls : List Bytes) : List Bytes := ls.filterMap (fieldValue name)

/-- The lines behind the first, up to the empty one. -/
def headerLines (text : Bytes) : List Bytes := heading (lines 13 10 text).tail

/-- What the headers of a message have to say. -/
structure Framed (text body : Bytes) (websocket close : Bool) : Prop where
  atMostOne : (fieldValues (bytes "content-length") (headerLines text)).length ≤ 1
  size : body ≠ [] →
    fieldValues (bytes "content-length") (headerLines text) = [decimal body.length]
  connection : websocket = false →
    fieldValues (bytes "connection") (headerLines text) = [connectionValue close]

/-- The user's lines, those in front of the `connection` header and those
behind it, do not read as the headers of `dump`, unless an empty one of
them has cut these off and the user's take their place. -/
structure Clear (ahead behind : List Bytes) (body : Bytes) (websocket close : Bool) : Prop where
  size : body ≠ [] → fieldValues (bytes "content-length") (heading (ahead ++ behind)) =
    if [] ∈ ahead ++ behind then [decimal body.length] else []
  noBody : body = [] →
    (fieldValues (bytes "content-length") (heading (ahead ++ behind))).length ≤ 1
  connection : websocket = false → fieldValues (bytes "connection") (heading (ahead ++ behind)) =
    if [] ∈ ahead then [connectionValue close] else []

/-! ## The lines that `dump` adds -/

def connectionLine (close : Bool) : Bytes := bytes "connection: " ++ connectionValue close

def connectionLines (websocket close : Bool) : List Bytes :=
  if websocket then [] else [connectionLine close]

def lengthLines (body : Bytes) : List Bytes :=
  if body = [] then [] else [bytes "content-length: " ++ decimal body.length]

theorem fieldValue_written {name field value : Bytes} (hname : 58 ∉ field)
    (hvalue : ∀ b ∈ value, b ∉ ([32, 9] : Bytes)) :
    fieldValue name (field ++ 58 :: 32 :: value) =
      if field.map tolower = name then some value else none := by
  have hall : ∀ c ∈ field, decide (c ≠ 58) = true := by
    intro c hc
    rw [decide_eq_true_eq]
    rintro rfl
    exact hname hc
  have htrim : StringUtil.trim (32 :: value) [32, 9] = value := by
    have hself := StringUtil.trim_self hvalue
    rw [StringUtil.trim] at hself ⊢
    rwa [List.dropWhile_cons_of_pos (by decide)]
  rw [fieldValue, List.takeWhile_append_of_pos hall, List.dropWhile_append_of_pos hall,
    List.takeWhile_cons_of_neg (by simp), List.dropWhile_cons_of_neg (by simp), List.append_nil,
    List.drop_one, List.tail_cons, htrim]
  simp

theorem fieldValue_connectionLine (close : Bool) :
    fieldValue (bytes "connection") (connectionLine close) = some (connectionValue close) ∧
      fieldValue (bytes "content-length") (connectionLine close) = none := by
  have hline : connectionLine close = bytes "connection" ++ 58 :: 32 :: connectionValue close := rfl
  have hvalue : ∀ b ∈ connectionValue close, b ∉ ([32, 9] : Bytes) := by
    have hall : (connectionValue close).all (· ∉ ([32, 9] : Bytes)) = true := by
      cases close <;> decide
    simpa using hall
  rw [hline, fieldValue_written (by decide) hvalue, fieldValue_written (by decide) hvalue]
  exact ⟨if_pos (by decide), if_neg (by decide)⟩

theorem fieldValue_lengthLine (n : Nat) :
    fieldValue (bytes "content-length") (bytes "content-length: " ++ decimal n) =
        some (decimal n) ∧
      fieldValue (bytes "connection") (bytes "content-length: " ++ decimal n) = none := by
  have hline : bytes "content-length: " ++ decimal n =
      bytes "content-length" ++ 58 :: 32 :: decimal n := rfl
  have hvalue : ∀ b ∈ decimal n, b ∉ ([32, 9] : Bytes) := by
    intro b hb hblank
    have hrange := decimal_range hb
    obtain rfl | hb := List.mem_cons.mp hblank
    · exact absurd hrange (by decide)
    · obtain rfl := List.mem_singleton.mp hb
      exact absurd hrange (by decide)
  rw [hline, fieldValue_written (by decide) hvalue, fieldValue_written (by decide) hvalue]
  exact ⟨if_pos (by decide), if_neg (by decide)⟩

theorem fieldValues_append (name : Bytes) (a b : List Bytes) :
    fieldValues name (a ++ b) = fieldValues name a ++ fieldValues name b := List.filterMap_append

theorem fieldValues_connectionLines (websocket close : Bool) :
    fieldValues (bytes "connection") (connectionLines websocket close) =
        (if websocket then [] else [connectionValue close]) ∧
      fieldValues (bytes "content-length") (connectionLines websocket close) = [] := by
  obtain ⟨hvalue, hnone⟩ := fieldValue_connectionLine close
  cases websocket with
  | true => exact ⟨rfl, rfl⟩
  | false =>
      rw [connectionLines, fieldValues, fieldValues]
      simp [hvalue, hnone]

theorem fieldValues_lengthLines (body : Bytes) :
    fieldValues (bytes "content-length") (lengthLines body) =
        (if body = [] then [] else [decimal body.length]) ∧
      fieldValues (bytes "connection") (lengthLines body) = [] := by
  obtain ⟨hvalue, hnone⟩ := fieldValue_lengthLine body.length
  by_cases hbody : body = []
  · rw [lengthLines, if_pos hbody, if_pos hbody]
    exact ⟨rfl, rfl⟩
  · rw [lengthLines, if_neg hbody, if_neg hbody, fieldValues, fieldValues]
    simp [hvalue, hnone]

theorem connectionLine_whole (close : Bool) : 13 ∉ connectionLine close := by
  cases close <;> decide

theorem lengthLine_whole (n : Nat) : 13 ∉ bytes "content-length: " ++ decimal n := by
  intro hmem
  obtain hmem | hmem := List.mem_append.mp hmem
  · exact absurd hmem (by decide)
  · exact absurd (decimal_range hmem) (by decide)

/-! ## Both sections -/

section

variable {ahead behind rest : List Bytes} {body : Bytes} {websocket close : Bool}

/-- What is seen of the lines: an empty line of the user's hides what is
behind it. -/
theorem heading_split (h : [] ∉ ahead) :
    heading (ahead ++ connectionLines websocket close ++ behind ++ lengthLines body ++ [] :: rest) =
      ahead ++ connectionLines websocket close ++ heading behind ++
        if [] ∈ behind then [] else lengthLines body := by
  have hconn : [] ∉ connectionLines websocket close := by
    cases websocket <;> cases close <;> decide
  have hlength : [] ∉ lengthLines body := by
    rw [lengthLines]
    split
    · simp
    · intro hmem
      have hnil := congrArg List.length (List.mem_singleton.mp hmem)
      rw [List.length_append, bytes, List.length_map] at hnil
      simp at hnil
      omega
  simp only [List.append_assoc]
  rw [heading_whole h, heading_whole hconn]
  congr 2
  by_cases hb : [] ∈ behind
  · rw [heading_cut hb, if_pos hb, List.append_nil]
  · have hself : heading behind = behind := by
      have hwhole := heading_whole (b := []) hb
      rw [List.append_nil] at hwhole
      rw [hwhole]
      exact List.append_nil _
    rw [heading_whole hb, heading_whole hlength, heading_stop, List.append_nil, if_neg hb, hself]

variable {text : Bytes} (htext : (lines 13 10 text).tail =
  ahead ++ connectionLines websocket close ++ behind ++ lengthLines body ++ [] :: rest)

include htext in
/-- The user's lines are all there is. -/
theorem headerLines_cut (h : [] ∈ ahead) : headerLines text = heading (ahead ++ behind) := by
  rw [headerLines, htext, heading_cut h]
  simp only [List.append_assoc]
  rw [heading_cut h]

include htext in
theorem lengths_seen : fieldValues (bytes "content-length") (headerLines text) =
    fieldValues (bytes "content-length") (heading (ahead ++ behind)) ++
      if [] ∈ ahead ++ behind ∨ body = [] then [] else [decimal body.length] := by
  by_cases hcut : [] ∈ ahead
  · rw [headerLines_cut htext hcut, if_pos (.inl (List.mem_append_left _ hcut)), List.append_nil]
  · rw [headerLines, htext, heading_split hcut, heading_whole hcut]
    simp only [fieldValues_append, (fieldValues_connectionLines websocket close).2,
      List.append_assoc, List.nil_append, List.mem_append, hcut, false_or]
    congr 2
    by_cases hb : [] ∈ behind
    · rw [if_pos hb, if_pos (.inl hb)]
      rfl
    · rw [if_neg hb, (fieldValues_lengthLines body).1]
      simp [hb]

include htext in
theorem connections_seen : ∃ a b,
    fieldValues (bytes "connection") (heading (ahead ++ behind)) = a ++ b ∧
    fieldValues (bytes "connection") (headerLines text) =
      a ++ (if [] ∈ ahead ∨ websocket = true then [] else [connectionValue close]) ++ b := by
  by_cases hcut : [] ∈ ahead
  · refine ⟨_, [], (List.append_nil _).symm, ?_⟩
    rw [headerLines_cut htext hcut, if_pos (.inl hcut), List.append_nil, List.append_nil]
  · refine ⟨fieldValues (bytes "connection") ahead,
      fieldValues (bytes "connection") (heading behind), ?_, ?_⟩
    · rw [heading_whole hcut, fieldValues_append]
    · have hlength : fieldValues (bytes "connection")
          (if [] ∈ behind then [] else lengthLines body) = [] := by
        split
        · rfl
        · exact (fieldValues_lengthLines body).2
      rw [headerLines, htext, heading_split hcut]
      simp only [fieldValues_append, (fieldValues_connectionLines websocket close).1, hlength,
        List.append_nil, hcut, false_or]

include htext in
theorem framed_iff_clear :
    Framed text body websocket close ↔ Clear ahead behind body websocket close := by
  have hlengths := lengths_seen htext
  obtain ⟨a, b, huser, hseen⟩ := connections_seen htext
  have hsize : body ≠ [] → (fieldValues (bytes "content-length") (headerLines text) =
      [decimal body.length] ↔ fieldValues (bytes "content-length") (heading (ahead ++ behind)) =
        if [] ∈ ahead ++ behind then [decimal body.length] else []) := by
    intro hbody
    rw [hlengths]
    by_cases hcut : [] ∈ ahead ++ behind
    · rw [if_pos (.inl hcut), if_pos hcut, List.append_nil]
    · rw [if_neg (not_or.mpr ⟨hcut, hbody⟩), if_neg hcut]
      exact List.append_left_eq_self
  have hconn : websocket = false → (fieldValues (bytes "connection") (headerLines text) =
      [connectionValue close] ↔ fieldValues (bytes "connection") (heading (ahead ++ behind)) =
        if [] ∈ ahead then [connectionValue close] else []) := by
    rintro rfl
    rw [hseen, huser]
    by_cases hcut : [] ∈ ahead
    · rw [if_pos (.inl hcut), if_pos hcut, List.append_nil]
    · rw [if_neg (by simp [hcut]), if_neg hcut, List.append_eq_nil_iff]
      constructor
      · intro h
        have hlength := congrArg List.length h
        simp only [List.length_append, List.length_singleton] at hlength
        exact ⟨List.length_eq_zero_iff.mp (by omega), List.length_eq_zero_iff.mp (by omega)⟩
      · rintro ⟨rfl, rfl⟩
        rfl
  constructor
  · intro h
    refine ⟨fun hbody => (hsize hbody).mp (h.size hbody), fun hbody => ?_,
      fun hws => (hconn hws).mp (h.connection hws)⟩
    have hmost := h.atMostOne
    rwa [hlengths, if_pos (.inr hbody), List.append_nil] at hmost
  · intro h
    refine ⟨?_, fun hbody => (hsize hbody).mpr (h.size hbody),
      fun hws => (hconn hws).mpr (h.connection hws)⟩
    by_cases hbody : body = []
    · rw [hlengths, if_pos (.inr hbody), List.append_nil]
      exact h.noBody hbody
    · rw [(hsize hbody).mpr (h.size hbody)]
      exact Nat.le_refl 1

end

/-! ## The two functions -/

theorem lines_line (s t : Bytes) :
    lines 13 10 (s ++ HttpRequest.crlf ++ t) = lines 13 10 s ++ lines 13 10 t := by
  rw [HttpRequest.crlf, List.append_assoc]
  exact lines_append (by decide) s t

theorem lines_flatMap {β : Type} (f : β → Bytes) (t : Bytes) : ∀ xs : List β,
    lines 13 10 (xs.flatMap (fun x => f x ++ HttpRequest.crlf) ++ t) =
      xs.flatMap (fun x => lines 13 10 (f x)) ++ lines 13 10 t
  | [] => rfl
  | x :: xs => by
      rw [List.flatMap_cons, List.append_assoc, lines_line, lines_flatMap f t xs,
        List.flatMap_cons, List.append_assoc]

/-- The headers that are written. -/
def keptHeaders (headers : MapType) (websocket : Bool) : MapType :=
  headers.filter fun i => websocket || strcasecmp (cStr i.1) (bytes "connection") ≠ .eq

/-- A header without the end of its line. -/
def headerText (e : Bytes × Bytes) : Bytes := e.1 ++ bytes ": " ++ e.2

/-- The lines of the headers that are written. -/
def userLines (headers : MapType) (websocket : Bool) : List Bytes :=
  (keptHeaders headers websocket).flatMap fun e => lines 13 10 (headerText e)

theorem dumpHeaders_eq (websocket : Bool) (headers : MapType) :
    (headers.flatMap fun i =>
      if !websocket ∧ strcasecmp (cStr i.1) (bytes "connection") = .eq then []
      else HttpRequest.dumpHeader i) =
    (keptHeaders headers websocket).flatMap fun e => headerText e ++ HttpRequest.crlf := by
  induction headers with
  | nil => rfl
  | cons e headers ih =>
      rw [List.flatMap_cons, ih, keptHeaders, keptHeaders, List.filter_cons]
      cases websocket with
      | true => simp [HttpRequest.dumpHeader, headerText]
      | false =>
          by_cases heq : strcasecmp (cStr e.1) (bytes "connection") = .eq
          · simp [heq]
          · simp [heq, HttpRequest.dumpHeader, headerText]

theorem lines_connection (websocket close : Bool) (t : Bytes) :
    lines 13 10 ((if !websocket then
        bytes "connection: " ++ (if close then bytes "close" else bytes "keep-alive")
          ++ HttpRequest.crlf
      else []) ++ t) = connectionLines websocket close ++ lines 13 10 t := by
  cases websocket with
  | true => rfl
  | false =>
      exact (lines_line (connectionLine close) t).trans
        (congrArg (· ++ lines 13 10 t) (lines_single (connectionLine_whole close)))

theorem lines_length (body : Bytes) : ∃ rest,
    lines 13 10 (if body ≠ [] then
        bytes "content-length: " ++ decimal body.length ++ HttpRequest.crlf ++ HttpRequest.crlf
          ++ body
      else HttpRequest.crlf) = lengthLines body ++ [] :: rest := by
  by_cases hbody : body = []
  · refine ⟨[[]], ?_⟩
    rw [lengthLines, if_pos hbody, if_neg (not_not.mpr hbody)]
    rfl
  · refine ⟨lines 13 10 body, ?_⟩
    rw [lengthLines, if_neg hbody, if_pos hbody, List.append_assoc, lines_line,
      lines_single (lengthLine_whole _)]
    exact congrArg _ (lines_cut body)

namespace HttpRequest

def startLine (r : HttpRequest) : Bytes :=
  httpMethodToString r.method ++ bytes " "
    ++ r.path
    ++ (if r.query = [] then [] else bytes "?")
    ++ r.query
    ++ (if r.fragment = [] then [] else bytes "#")
    ++ r.fragment
    ++ bytes " HTTP/"
    ++ decimal (r.version / 16)
    ++ bytes "."
    ++ decimal (r.version % 16)

/-- The lines behind the first. -/
theorem dump_lines (r : HttpRequest) : ∃ rest, (lines 13 10 r.dump).tail =
    (lines 13 10 r.startLine).tail ++ connectionLines r.websocket r.close ++
      userLines r.headers r.websocket ++ lengthLines r.body ++ [] :: rest := by
  obtain ⟨rest, hlength⟩ := lines_length r.body
  have hdump : r.dump = r.startLine ++ crlf ++ ((if !r.websocket then
        bytes "connection: " ++ (if r.close then bytes "close" else bytes "keep-alive") ++ crlf
      else []) ++ (((keptHeaders r.headers r.websocket).flatMap fun e => headerText e ++ crlf) ++
        if r.body ≠ [] then
          bytes "content-length: " ++ decimal r.body.length ++ crlf ++ crlf ++ r.body
        else crlf)) := by
    rw [dump, dumpHeaders_eq, startLine]
    simp only [List.append_assoc]
  refine ⟨rest, ?_⟩
  rw [hdump, lines_line, lines_connection, lines_flatMap, hlength,
    List.tail_append_of_ne_nil (lines_ne_nil _), userLines]
  simp only [List.append_assoc]

/-- The user's lines do not read as those of `dump`. -/
def Clear (r : HttpRequest) : Prop :=
  Sylar.Clear (lines 13 10 r.startLine).tail (userLines r.headers r.websocket) r.body r.websocket
    r.close

end HttpRequest

namespace SentResponse

theorem dump_lines (r : SentResponse) : ∃ rest, (lines 13 10 r.dump).tail =
    ((lines 13 10 r.startLine).tail ++ userLines r.headers r.websocket ++
        r.cookies.flatMap fun i => lines 13 10 (bytes "Set-Cookie: " ++ i)) ++
      connectionLines r.websocket r.close ++ [] ++ lengthLines r.body ++ [] :: rest := by
  obtain ⟨rest, hlength⟩ := lines_length r.body
  have hdump : r.dump = r.startLine ++ HttpRequest.crlf ++
      (((keptHeaders r.headers r.websocket).flatMap fun e => headerText e ++ HttpRequest.crlf) ++
        ((r.cookies.flatMap fun i => (bytes "Set-Cookie: " ++ i) ++ HttpRequest.crlf) ++
          ((if !r.websocket then
              bytes "connection: " ++ (if r.close then bytes "close" else bytes "keep-alive")
                ++ HttpRequest.crlf
            else []) ++
          if r.body ≠ [] then
            bytes "content-length: " ++ decimal r.body.length ++ HttpRequest.crlf
              ++ HttpRequest.crlf ++ r.body
          else HttpRequest.crlf))) := by
    rw [dump, dumpHeaders_eq]
    simp only [List.append_assoc]
  refine ⟨rest, ?_⟩
  rw [hdump, lines_line, lines_flatMap, lines_flatMap, lines_connection, hlength,
    List.tail_append_of_ne_nil (lines_ne_nil _), userLines]
  simp only [List.append_assoc, List.nil_append]

/-- The user's lines do not read as those of `dump`. -/
def Clear (r : SentResponse) : Prop :=
  Sylar.Clear ((lines 13 10 r.startLine).tail ++ userLines r.headers r.websocket ++
    r.cookies.flatMap fun i => lines 13 10 (bytes "Set-Cookie: " ++ i)) [] r.body r.websocket
    r.close

end SentResponse

/-- **When a message is framed unambiguously**: the user's lines do not
read as the headers that `dump` writes. -/
theorem framed_iff (q : HttpRequest) (r : SentResponse) :
    (Framed q.dump q.body q.websocket q.close ↔ q.Clear) ∧
      (Framed r.dump r.body r.websocket r.close ↔ r.Clear) := by
  constructor
  · obtain ⟨rest, hlines⟩ := q.dump_lines
    exact framed_iff_clear hlines
  · obtain ⟨rest, hlines⟩ := r.dump_lines
    exact framed_iff_clear hlines

/-- A request whose user has set `Content-Length: 5`, with the body
`ab`. -/
def userLength : HttpRequest :=
  { HttpRequest.new with headers := [(bytes "Content-Length", bytes "5")], body := bytes "ab" }

/-- The text has both lengths. -/
theorem two_lengths :
    fieldValues (bytes "content-length") (headerLines userLength.dump) = [bytes "5", bytes "2"] ∧
      ¬Framed userLength.dump userLength.body userLength.websocket userLength.close := by
  have hboth : fieldValues (bytes "content-length") (headerLines userLength.dump) =
      [bytes "5", bytes "2"] := by
    rfl
  refine ⟨hboth, fun h => ?_⟩
  have hmost := h.atMostOne
  rw [hboth] at hmost
  exact absurd hmost (by decide)

end Sylar
