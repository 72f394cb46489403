import Sylar.HttpClientParser
import Sylar.SocketStream

/-!
# Receiving a response

`HttpConnection::recvResponse`, with a body of known length or in
chunks. The array `data` is the list of the bytes in it that have not
been parsed. Each loop is bounded by the number of bytes there are, one
of which every turn takes.

`inflate` stands for `ZlibStream`, which is not part of the repository:
what it makes of a body in one of its two formats.
-/

namespace Sylar

/-- `GetHttpRequestBufferSize()`, which `recvResponse` takes as well. -/
def httpResponseBufferSize : Nat := 4 * 1024

inductive ZlibFormat where
  | gzip
  | deflate
deriving Repr, DecidableEq

namespace HttpConnection

/-- The loop up to the end of the header block. -/
def parse : Nat → SocketStream → Bytes → HttpResponseParser →
    Except StdFault (Option (HttpResponseParser × Bytes) × SocketStream)
  | 0, s, _, _ => .ok (none, s)
  | fuel + 1, s, data, parser =>
      match s.read (httpResponseBufferSize - data.length) with
      | (none, s) => .ok (none, s.close)
      | (some got, s) => do
          let (nparse, parser) ← parser.execute (data ++ got) false
          if parser.hasError then return (none, s.close)
          else
            let data := (data ++ got).drop nparse
            if data.length = httpResponseBufferSize then return (none, s.close)
            else if parser.isFinished then return (some (parser, data), s)
            else parse fuel s data parser

/-- The read in front of an execution; the first one does without it if
there is something in `data`. -/
def readMore (s : SocketStream) (begin_ : Bool) (data : Bytes) : Option Bytes × SocketStream :=
  if !begin_ ∨ data = [] then
    match s.read (httpResponseBufferSize - data.length) with
    | (none, s) => (none, s)
    | (some got, s) => (some (data ++ got), s)
  else (some data, s)

/-- The loop over the size line of a chunk. -/
def parseChunk : Nat → SocketStream → Bool → Bytes → HttpResponseParser →
    Except StdFault (Option (HttpResponseParser × Bytes) × SocketStream)
  | 0, s, _, _, _ => .ok (none, s)
  | fuel + 1, s, begin_, data, parser =>
      match readMore s begin_ data with
      | (none, s) => .ok (none, s.close)
      | (some data, s) => do
          let (nparse, parser) ← parser.execute data true
          if parser.hasError then return (none, s.close)
          else
            let data := data.drop nparse
            if data.length = httpResponseBufferSize then return (none, s.close)
            else if parser.isFinished then return (some (parser, data), s)
            else parseChunk fuel s false data parser

/-- The rest of a chunk, `left` bytes in reads of at most the size of the
buffer. -/
def readRest : Nat → SocketStream → Int → Option Bytes × SocketStream
  | 0, s, left => if left > 0 then (none, s) else (some [], s)
  | fuel + 1, s, left =>
      if left > 0 then
        match s.read (min left.toNat httpResponseBufferSize) with
        | (none, s) => (none, s)
        | (some got, s) =>
            match readRest fuel s (left - got.length) with
            | (none, s) => (none, s)
            | (some rest, s) => (some (got ++ rest), s)
      else (some [], s)

/-- `body.append(data, content_len)`. -/
def appendTo (body data : Bytes) (contentLen : Int) : Except StdFault Bytes :=
  if contentLen < 0 then .error .lengthError
  else if data.length < contentLen then .error .outOfRange
  else .ok (body ++ data.take contentLen.toNat)

/-- `body.resize(body.size() - 2)`. -/
def dropCrlf (body : Bytes) : Except StdFault Bytes :=
  if body.length < 2 then .error .lengthError else .ok (body.take (body.length - 2))

/-- The payload of a chunk and the line break behind it: the body, and
what is left in `data`. -/
def takeChunk (s : SocketStream) (body data : Bytes) (contentLen : Int) :
    Except StdFault (Option (Bytes × Bytes) × SocketStream) :=
  if toInt32 (contentLen + 2) ≤ data.length then do
    let body ← appendTo body data contentLen
    return (some (body, data.drop (contentLen + 2).toNat), s)
  else
    let left := toInt32 (contentLen - data.length + 2)
    match readRest left.toNat s left with
    | (none, s) => .ok (none, s.close)
    | (some rest, s) => do
        let body ← dropCrlf (body ++ data ++ rest)
        return (some (body, []), s)

/-- The chunks. -/
def readChunks : Nat → SocketStream → Bytes → Bytes → HttpResponseParser →
    Except StdFault (Option (HttpResponseParser × Bytes) × SocketStream)
  | 0, s, _, _, _ => .ok (none, s)
  | fuel + 1, s, body, data, parser => do
      let (r, s) ← parseChunk (s.incoming.length + data.length + 1) s true data parser
      match r with
      | none => return (none, s)
      | some (parser, data) => do
          let (r, s) ← takeChunk s body data parser.parser.contentLen
          match r with
          | none => return (none, s)
          | some (body, data) =>
              if parser.parser.chunksDone then return (some (parser, body), s)
              else readChunks fuel s body data parser

/-- A body of known length: what is left in `data`, and the rest from the
stream. -/
def readBody (s : SocketStream) (data : Bytes) (length : Int) : Option Bytes × SocketStream :=
  let head := if length ≥ data.length then data else data.take length.toNat
  let left := length - data.length
  if left > 0 then
    match s.readFixSize left.toNat with
    | (rt, got, s) => if rt ≤ 0 then (none, s.close) else (some (head ++ got), s)
  else (some head, s)

/-- `content-encoding`. -/
def decode (inflate : ZlibFormat → Bytes → Bytes) (r : HttpResponse) (body : Bytes) : Bytes :=
  let encoding := cStr (r.getHeader (bytes "content-encoding") [])
  if strcasecmp encoding (bytes "gzip") = .eq then inflate .gzip body
  else if strcasecmp encoding (bytes "deflate") = .eq then inflate .deflate body
  else body

/-- The response with its body. -/
def setBody (inflate : ZlibFormat → Bytes → Bytes) (r : HttpResponse) (body : Bytes) :
    HttpResponse :=
  if body = [] then r else { r with body := decode inflate r body }

def recvResponse (inflate : ZlibFormat → Bytes → Bytes) (s : SocketStream) :
    Except StdFault (Option HttpResponse × SocketStream) := do
  let (r, s) ← parse (s.incoming.length + 1) s [] .new
  match r with
  | none => return (none, s)
  | some (parser, data) =>
      if parser.parser.chunked then do
        let (r, s) ← readChunks (s.incoming.length + data.length + 1) s [] data parser
        match r with
        | none => return (none, s)
        | some (parser, body) => return (some (setBody inflate parser.data body), s)
      else do
        let length := toInt64 (← parser.getContentLength)
        if length > 0 then
          match readBody s data length with
          | (none, s) => return (none, s)
          | (some body, s) => return (some (setBody inflate parser.data body), s)
        else return (some parser.data, s)

end HttpConnection

end Sylar
