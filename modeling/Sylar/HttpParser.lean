import Sylar.Http11Machine
import Sylar.HttpMessage
import Sylar.Lib.Word

/-!
# The request parser

`http_parser` with the actions of its grammar, and `HttpRequestParser`
with the callbacks it installs there. An execution runs over one buffer:
`p` is the position of the byte an action is at, and the members hold
positions in the same buffer. `execute` resets all of them but
`query_start`, of which nothing is known before the first assignment,
nor is of `uri_relaxed`, which is never assigned to.

`content_len` and the flags for the two other kinds of request are
written and never read, `nread` is what `execute` returns, and logging is
left out. So is `body_start`: the action that ends the request sets it to
a position in the buffer and reads it back for `content_len`, and the
`assert` at the end of `execute` compares it with the length of the
buffer. That holds in the execution that ends the request, and there is
none after it: `recvRequest` makes no use of a parser that is finished.
-/

namespace Sylar

open Scanner

structure HttpParser where
  cs : Nat
  mark : Nat
  fieldStart : Nat
  fieldLen : Nat
  queryStart : Option Nat
  uriRelaxed : Bool
deriving Repr, DecidableEq

namespace HttpParser

/-- `http_parser_init`. -/
def init (uriRelaxed : Bool) : HttpParser := ⟨Http11.start, 0, 0, 0, none, uriRelaxed⟩

/-- What an action assigns. -/
def act (p : Nat) (r : HttpParser) : HttpAction → HttpParser
  | .mark => { r with mark := p }
  | .startField => { r with fieldStart := p }
  | .writeField => { r with fieldLen := sub64 p r.fieldStart }
  | .startValue => { r with mark := p }
  | .startQuery => { r with queryStart := some p }
  | _ => r

-- an equation of its own: unfolding `sub64` in a unification is out of the question
theorem act_writeField (p : Nat) (r : HttpParser) :
    r.act p .writeField = { r with fieldLen := sub64 p r.fieldStart } := rfl

@[simp] theorem act_uriRelaxed (p : Nat) (r : HttpParser) (a : HttpAction) :
    (r.act p a).uriRelaxed = r.uriRelaxed := by
  cases a with
  | writeField => rw [act_writeField]
  | _ => rfl

def hasError (r : HttpParser) : Bool := r.cs == 0

def isFinished (r : HttpParser) : Bool := Http11.firstFinal ≤ r.cs

end HttpParser

/-- `std::string(buffer + start, length)`. -/
def str (buffer : Bytes) (start length : Nat) : Except StdFault Bytes :=
  if 2 ^ 63 ≤ length then .error .lengthError else .ok ((buffer.drop start).take length)

structure HttpRequestParser where
  parser : HttpParser
  error : Nat
  data : HttpRequest
deriving Repr, DecidableEq

namespace HttpRequestParser

def new (uriRelaxed : Bool) : HttpRequestParser := ⟨.init uriRelaxed, 0, .new⟩

/-- `on_request_method`. -/
def onRequestMethod (r : HttpRequestParser) (at_ : Bytes) : HttpRequestParser :=
  let m := charsToHttpMethod at_
  if m = .INVALID_METHOD then { r with error := 1000 }
  else { r with data := { r.data with method := m } }

/-- `on_request_version`. -/
def onRequestVersion (r : HttpRequestParser) (at_ : Bytes) (length : Nat) : HttpRequestParser :=
  if strncmpEq at_ (bytes "HTTP/1.1") length then { r with data := { r.data with version := 0x11 } }
  else if strncmpEq at_ (bytes "HTTP/1.0") length then
    { r with data := { r.data with version := 0x10 } }
  else { r with error := 1001 }

/-- `on_request_http_field`. -/
def onRequestHttpField (r : HttpRequestParser) (buffer : Bytes) (p : Nat) :
    Except StdFault HttpRequestParser :=
  if r.parser.fieldLen = 0 then .ok r
  else do
    let name ← str buffer r.parser.fieldStart r.parser.fieldLen
    let value ← str buffer r.parser.mark (sub64 p r.parser.mark)
    return { r with data := { r.data with headers := r.data.headers.set name value } }

/-- The callback of an action. -/
def notify (buffer : Bytes) (p : Nat) (r : HttpRequestParser) :
    HttpAction → Except StdFault HttpRequestParser
  | .writeValue => r.onRequestHttpField buffer p
  | .requestMethod => .ok (r.onRequestMethod (buffer.drop r.parser.mark))
  | .fragment => do
      let s ← str buffer r.parser.mark (sub64 p r.parser.mark)
      return { r with data := { r.data with fragment := s } }
  | .queryString =>
      match r.parser.queryStart with
      | none => .error .indeterminate
      | some start => do
          let s ← str buffer start (sub64 p start)
          return { r with data := { r.data with query := s } }
  | .httpVersion =>
      .ok (r.onRequestVersion (buffer.drop r.parser.mark) (sub64 p r.parser.mark))
  | .requestPath => do
      let s ← str buffer r.parser.mark (sub64 p r.parser.mark)
      return { r with data := { r.data with path := s } }
  | _ => .ok r

/-- An action at position `p`. -/
def act (buffer : Bytes) (p : Nat) (a : HttpAction) (r : HttpRequestParser) :
    Except StdFault HttpRequestParser := do
  let r ← r.notify buffer p a
  return { r with parser := r.parser.act p a }

/-- What `http_parser_execute` resets. -/
def reset (r : HttpRequestParser) : HttpRequestParser :=
  { r with parser := { r.parser with mark := 0, fieldLen := 0, fieldStart := 0 } }

/-- `execute(data, len)`, `buffer` the bytes of `data`: how many have
been parsed. -/
def execute (r : HttpRequestParser) (buffer : Bytes) : Except StdFault (Nat × HttpRequestParser) :=
  if buffer = [] then .ok (0, r)
  else do
    let h ← exec (Http11.machine r.parser.uriRelaxed) Http11.stops (act buffer) buffer 0 r.parser.cs
      r.reset
    return (h.p, if r.parser.hasError then h.user
      else { h.user with parser := { h.user.parser with cs := h.cs } })

def hasError (r : HttpRequestParser) : Bool := r.error ≠ 0 || r.parser.hasError

def isFinished (r : HttpRequestParser) : Bool := r.parser.isFinished

def getContentLength (r : HttpRequestParser) : Except StdFault Nat :=
  r.data.headers.getAs (bytes "content-length")

end HttpRequestParser

end Sylar
