import Sylar.HttpParser
import Sylar.SocketStream

/-!
# Receiving a request

`HttpSession::recvRequest`. The array `data` is the list of the bytes
in it that have not been parsed; `execute` moves them to its front. The
loop is bounded by the number of bytes to come, one of which every read
takes.
-/

namespace Sylar

/-- `GetHttpRequestBufferSize()`. -/
def httpRequestBufferSize : Nat := 4 * 1024

namespace HttpSession

/-- The loop up to the end of the header block: the parser and what is
left in `data`. -/
def parse : Nat → SocketStream → Bytes → HttpRequestParser →
    Except StdFault (Option (HttpRequestParser × Bytes) × SocketStream)
  | 0, s, _, _ => .ok (none, s)
  | fuel + 1, s, data, parser =>
      match s.read (httpRequestBufferSize - data.length) with
      | (none, s) => .ok (none, s.close)
      | (some got, s) => do
          let (nparse, parser) ← parser.execute (data ++ got)
          if parser.hasError then return (none, s.close)
          else
            let data := (data ++ got).drop nparse
            if data.length = httpRequestBufferSize then return (none, s.close)
            else if parser.isFinished then return (some (parser, data), s)
            else parse fuel s data parser

/-- The body: what is left in `data`, and the rest from the stream. -/
def readBody (s : SocketStream) (parser : HttpRequestParser) (data : Bytes) (length : Int) :
    Option HttpRequest × SocketStream :=
  let head := if length ≥ data.length then data else data.take length.toNat
  let left := length - data.length
  if left > 0 then
    match s.readFixSize left.toNat with
    | (rt, got, s) =>
        if rt ≤ 0 then (none, s.close)
        else (some { parser.data with body := head ++ got }.init, s)
  else (some { parser.data with body := head }.init, s)

def recvRequest (uriRelaxed : Bool) (s : SocketStream) :
    Except StdFault (Option HttpRequest × SocketStream) := do
  let (r, s) ← parse (s.incoming.length + 1) s [] (.new uriRelaxed)
  match r with
  | none => return (none, s)
  | some (parser, data) => do
      let length := toInt64 (← parser.getContentLength)
      if length > 0 then return readBody s parser data length
      else return (some parser.data.init, s)

/-- `n` calls, one after the other. -/
def recvRequests (uriRelaxed : Bool) : Nat → SocketStream →
    Except StdFault (List (Option HttpRequest))
  | 0, _ => .ok []
  | n + 1, s => do
      let (r, s) ← recvRequest uriRelaxed s
      let rs ← recvRequests uriRelaxed n s
      return r :: rs

end HttpSession

end Sylar
