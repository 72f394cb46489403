import Sylar.HttpClientMachine
import Sylar.HttpParser

/-!
# The response parser

`httpclient_parser` with the actions of its grammar, and
`HttpResponseParser` with the callbacks it installs there. An execution
runs over one buffer, at whose end `recvResponse` has put a zero; its
length is that of an `int`, or the first `assert` fails. With `chunck` it
starts from the initial state, whatever came before.

`body_start` is a position too, but unlike the others it is kept from one
execution to the next: the `assert` at the end of an execution compares
it with the length of the buffer of this one. `close` and `status` are
written and not read, `nread` is what `execute` returns; the callbacks of
a chunk and of the end of the headers do nothing.
-/

namespace Sylar

open Scanner

structure HttpClientParser where
  cs : Nat
  bodyStart : Nat
  contentLen : Int
  chunked : Bool
  chunksDone : Bool
  mark : Nat
  fieldStart : Nat
  fieldLen : Nat
deriving Repr, DecidableEq

namespace HttpClientParser

/-- `httpclient_parser_init`. -/
def init : HttpClientParser := ⟨HttpClient.start, 0, -1, false, false, 0, 0, 0⟩

/-- What an action assigns. -/
def act (buffer : Bytes) (p : Nat) (r : HttpClientParser) : ClientAction → HttpClientParser
  | .mark => { r with mark := p }
  | .startField => { r with fieldStart := p }
  | .writeField => { r with fieldLen := sub64 p r.fieldStart }
  | .startValue => { r with mark := p }
  | .writeContentLen => { r with contentLen := toInt32 (strtol (buffer.drop r.mark) 10) }
  | .chunkSize =>
      let contentLen := toInt32 (strtol (buffer.drop r.mark) 16)
      { r with chunked := true, contentLen, chunksDone := contentLen ≤ 0 }
  | .transChunked => { r with chunked := true }
  | .done => { r with bodyStart := p + 1 }
  | _ => r

def hasError (r : HttpClientParser) : Bool := r.cs == 0

/-- The other final states do not count. -/
def isFinished (r : HttpClientParser) : Bool := r.cs == HttpClient.firstFinal

end HttpClientParser

structure HttpResponseParser where
  parser : HttpClientParser
  error : Nat
  data : HttpResponse
deriving Repr, DecidableEq

namespace HttpResponseParser

def new : HttpResponseParser := ⟨.init, 0, .new⟩

/-- `on_response_version`. -/
def onResponseVersion (r : HttpResponseParser) (at_ : Bytes) (length : Nat) : HttpResponseParser :=
  if strncmpEq at_ (bytes "HTTP/1.1") length then { r with data := { r.data with version := 0x11 } }
  else if strncmpEq at_ (bytes "HTTP/1.0") length then
    { r with data := { r.data with version := 0x10 } }
  else { r with error := 1001 }

/-- `on_response_http_field`. -/
def onResponseHttpField (r : HttpResponseParser) (buffer : Bytes) (p : Nat) :
    Except StdFault HttpResponseParser :=
  if r.parser.fieldLen = 0 then .ok r
  else do
    let name ← str buffer r.parser.fieldStart r.parser.fieldLen
    let value ← str buffer r.parser.mark (sub64 p r.parser.mark)
    return { r with data := { r.data with headers := r.data.headers.set name value } }

/-- The callback of an action. -/
def notify (buffer : Bytes) (p : Nat) (r : HttpResponseParser) :
    ClientAction → Except StdFault HttpResponseParser
  | .writeValue => r.onResponseHttpField buffer p
  | .reasonPhrase => do
      let s ← str buffer r.parser.mark (sub64 p r.parser.mark)
      return { r with data := { r.data with reason := s } }
  | .statusCode => .ok { r with data := { r.data with status := atoi (buffer.drop r.parser.mark) } }
  | .httpVersion =>
      .ok (r.onResponseVersion (buffer.drop r.parser.mark) (sub64 p r.parser.mark))
  | _ => .ok r

/-- An action at position `p`. -/
def act (buffer : Bytes) (p : Nat) (a : ClientAction) (r : HttpResponseParser) :
    Except StdFault HttpResponseParser := do
  let r ← r.notify buffer p a
  return { r with parser := r.parser.act buffer p a }

/-- What `httpclient_parser_execute` resets. -/
def reset (r : HttpResponseParser) : HttpResponseParser :=
  { r with parser := { r.parser with mark := 0, fieldLen := 0, fieldStart := 0 } }

/-- What `httpclient_parser_execute` checks at its end, behind the `assert`. -/
def Checked (r : HttpClientParser) (len : Nat) : Prop :=
  r.mark < len ∧ r.fieldLen ≤ len ∧ r.fieldStart < len

instance (r : HttpClientParser) (len : Nat) : Decidable (Checked r len) :=
  inferInstanceAs (Decidable (_ ∧ _ ∧ _))

/-- `execute(data, len, chunck)`, `buffer` the bytes of `data`: how many
have been parsed. If a check fails, that is -1. The `assert` on
`body_start` stands before the checks. -/
def execute (r : HttpResponseParser) (buffer : Bytes) (chunck : Bool) :
    Except StdFault (Nat × HttpResponseParser) := do
  let r := if chunck then { r with parser := .init } else r
  let h ← exec HttpClient.machine HttpClient.stops (act buffer) buffer 0 r.parser.cs r.reset
  let r := { h.user with parser := { h.user.parser with cs := h.cs } }
  if buffer.length < r.parser.bodyStart then throw .assertion
  else if Checked r.parser buffer.length then return (h.p, r)
  else throw .outOfRange

/-- What an execution that comes to its end has been. -/
theorem execute_ok {r r' : HttpResponseParser} {buffer : Bytes} {chunck : Bool} {n : Nat}
    (h : r.execute buffer chunck = .ok (n, r')) :
    ∃ ref : Halt HttpResponseParser,
      (let r := if chunck then { r with parser := .init } else r;
        exec HttpClient.machine HttpClient.stops (act buffer) buffer 0 r.parser.cs r.reset =
          .ok ref) ∧
      ref.user.parser.bodyStart ≤ buffer.length ∧ ref.p = n ∧
      r' = { ref.user with parser := { ref.user.parser with cs := ref.cs } } := by
  obtain ⟨ref, hexec, h⟩ := bind_eq_ok.mp h
  refine ⟨ref, hexec, ?_⟩
  dsimp only at h
  split at h
  · cases h
  split at h
  · obtain ⟨hn, hr⟩ := Prod.mk.inj (Except.ok.inj h)
    exact ⟨Nat.le_of_not_lt ‹_›, hn, hr.symm⟩
  · cases h

def hasError (r : HttpResponseParser) : Bool := r.error ≠ 0 || r.parser.hasError

def isFinished (r : HttpResponseParser) : Bool := r.parser.isFinished

def getContentLength (r : HttpResponseParser) : Except StdFault Nat :=
  r.data.headers.getAs (bytes "content-length")

end HttpResponseParser

end Sylar
