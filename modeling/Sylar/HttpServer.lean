import Sylar.HttpParams
import Sylar.HttpResponseRoundTrip
import Sylar.HttpRoundTrip
import Sylar.ServletDispatch

/-!
# Requests and responses on a connection

`HttpServer::handleClient`: receive a request, let the servlet for its
path fill in a response, send it, and go on unless one of the two sides
wants the connection closed. A client that waits for each response
before it sends the next request gets the responses of the servlets, one
for each request up to the first that closes the connection (`exchange`).

A servlet can do anything to the request and the response. The session
that it is given as well is left out, and so is the result of
`sendResponse`, which `handleClient` does not look at.
-/

namespace Sylar

variable {κ σ : Type}

/-! ## Servlets -/

/-- What callbacks, and the servlets of other classes, make of a request
and its response. -/
structure Handlers (κ σ : Type) where
  callback : κ → HttpRequest → SentResponse → HttpRequest × SentResponse
  other : σ → HttpRequest → SentResponse → HttpRequest × SentResponse

namespace SentResponse

def setHeader (r : SentResponse) (key val : Bytes) : SentResponse :=
  { r with headers := r.headers.set key val }

end SentResponse

namespace Servlet

def handle (h : Handlers κ σ) (slt : Servlet κ σ) (request : HttpRequest)
    (response : SentResponse) : HttpRequest × SentResponse :=
  match slt with
  | .functionServlet cb => h.callback cb request response
  | .notFoundServlet _ content =>
      let response := { response with status := 404 }
      let response := response.setHeader (bytes "Server") (bytes "sylar/1.0.0")
      let response := response.setHeader (bytes "Content-Type") (bytes "text/html")
      (request, { response with body := content })
  | .other slt => h.other slt request response

end Servlet

namespace ServletDispatch

def handle (h : Handlers κ σ) (fnmatch : Bytes → Bytes → Int) (d : ServletDispatch κ σ)
    (request : HttpRequest) (response : SentResponse) : HttpRequest × SentResponse :=
  match d.getMatchedServlet fnmatch request.path with
  | some slt => slt.handle h request response
  | none => (request, response)

end ServletDispatch

/-! ## The server -/

structure HttpServer (κ σ : Type) where
  isKeepalive : Bool
  name : Bytes
  dispatch : ServletDispatch κ σ

/-- What has come from the client when a request is to be received, and
the sizes of the reads. -/
structure Arrival where
  incoming : Bytes
  sizes : List Nat
deriving Repr, DecidableEq

namespace HttpServer

/-- `HttpServer(keepalive)`, with the name of `TcpServer`. -/
def new (keepalive : Bool) : HttpServer κ σ := ⟨keepalive, bytes "sylar/1.0.0", .new⟩

variable (h : Handlers κ σ) (fnmatch : Bytes → Bytes → Int) (server : HttpServer κ σ)

/-- The request and the response behind the servlet. -/
def handled (req : HttpRequest) : HttpRequest × SentResponse :=
  server.dispatch.handle h fnmatch req
    ((SentResponse.new req.version (req.close || !server.isKeepalive)).setHeader (bytes "Server")
      server.name)

/-- The loop of `handleClient` ends behind the response. -/
def closes (req : HttpRequest) : Bool :=
  !server.isKeepalive || (server.handled h fnmatch req).1.close

/-- `handleClient` while these requests arrive: the texts of the responses,
and the session. -/
def handleClient (relaxed : Bool) :
    List Arrival → SocketStream → Except StdFault (List Bytes × SocketStream)
  | [], s => .ok ([], s)
  | a :: arrivals, s => do
      let (req, s) ← HttpSession.recvRequest relaxed
        { s with incoming := s.incoming ++ a.incoming, sizes := a.sizes }
      match req with
      | none => return ([], s.close)
      | some req =>
          let sent := (server.handled h fnmatch req).2.dump
          if server.closes h fnmatch req then return ([sent], s.close)
          else
            let (more, s) ← handleClient relaxed arrivals s
            return (sent :: more, s)

end HttpServer

/-! ## A request that arrives -/

/-- The reads that deliver the text of `r` cut no token of its header
block, and leave no more of its body than an `int` has. -/
structure HttpRequest.Arrives (relaxed : Bool) (r : HttpRequest) (sizes : List Nat) : Prop where
  header : r.header.length < 2 ^ 63
  whole : HttpSession.Whole relaxed r.header ⟨r.dump, sizes, true⟩
  fits : HttpSession.Fits r.header r.body ⟨r.dump, sizes, true⟩

/-- With reads of full size, a request does whose header block fits the
buffer. -/
theorem HttpRequest.arrives_full {relaxed : Bool} {r : HttpRequest} (h : r.Printable relaxed)
    (hsearch : r.method ≠ .MSEARCH) (hheader : r.header.length ≤ httpRequestBufferSize)
    (hlt : r.dump.length < httpRequestBufferSize + 2 ^ 31) : r.Arrives relaxed [] := by
  have hdump := HttpRequest.dump_eq h
  have hle : r.header.length ≤ r.dump.length := by
    rw [hdump, List.length_append]
    exact Nat.le_add_right ..
  have hsmall : r.header.length < 2 ^ 63 := by
    simp only [httpRequestBufferSize] at hheader
    omega
  have hpos := (HttpRequest.valid_header h hsearch hsmall).pos
  have hwhole : HttpSession.Whole relaxed r.header ⟨r.dump, [], true⟩ :=
    HttpSession.whole_full hpos hheader hle
  refine ⟨hsmall, hwhole, ?_⟩
  intro k hk hend hmore
  have hcut := HttpSession.cuts_full hpos hheader hle hk hend
  have hlen : r.dump.length = r.header.length + r.body.length := by
    rw [hdump, List.length_append]
  rw [toInt32_eq (by omega)]
  omega

/-- It is all that is read. -/
theorem HttpSession.recvRequest_arrives {relaxed : Bool} {r : HttpRequest} {sizes : List Nat}
    (h : r.Printable relaxed) (hsearch : r.method ≠ .MSEARCH) (ha : r.Arrives relaxed sizes) :
    ∃ n, recvRequest relaxed ⟨r.dump, sizes, true⟩ =
      .ok (some r.received, ⟨[], sizes.drop n, true⟩) := by
  have htext : r.dump = r.header ++ (r.body ++ []) := by
    rw [HttpRequest.dump_eq h, List.append_nil]
  obtain ⟨k, n, -, -, hrecv⟩ := recvRequest_spec (HttpRequest.valid_header h hsearch ha.header) []
    (s := ⟨r.dump, sizes, true⟩) rfl htext ha.whole ha.fits
  refine ⟨n, ?_⟩
  rw [hrecv, List.append_nil, List.drop_eq_nil_of_le (Nat.le_max_right ..)]

/-- A request on its way to the server. -/
structure Delivery (relaxed : Bool) where
  request : HttpRequest
  sizes : List Nat
  printable : request.Printable relaxed
  search : request.method ≠ .MSEARCH
  arrives : request.Arrives relaxed sizes

namespace Delivery

variable {relaxed : Bool}

def arrival (d : Delivery relaxed) : Arrival := ⟨d.request.dump, d.sizes⟩

end Delivery

namespace HttpServer

variable {relaxed : Bool} (h : Handlers κ σ) (fnmatch : Bytes → Bytes → Int)
  (server : HttpServer κ σ)

/-- The requests that are answered: all up to the first that closes the
connection. -/
def answered : List (Delivery relaxed) → List (Delivery relaxed)
  | [] => []
  | d :: ds => if server.closes h fnmatch d.request.received then [d] else d :: answered ds

/-- One turn of the loop. -/
theorem handleClient_turn (d : Delivery relaxed) (sizes : List Nat) (arrivals : List Arrival) :
    ∃ rest, server.handleClient h fnmatch relaxed (d.arrival :: arrivals) ⟨[], sizes, true⟩ =
      if server.closes h fnmatch d.request.received then
        .ok ([(server.handled h fnmatch d.request.received).2.dump], ⟨[], rest, false⟩)
      else (server.handleClient h fnmatch relaxed arrivals ⟨[], rest, true⟩).map fun r =>
        ((server.handled h fnmatch d.request.received).2.dump :: r.1, r.2) := by
  obtain ⟨n, hrecv⟩ := HttpSession.recvRequest_arrives d.printable d.search d.arrives
  refine ⟨d.sizes.drop n, ?_⟩
  rw [handleClient, Delivery.arrival, List.nil_append, hrecv]
  simp only [bind, Except.bind, pure, Except.pure]
  congr 1

/-- The reads bring the header block of `r` at once, and leave no more of
its body than an `int` has. -/
def Comes (r : SentResponse) (sizes : List Nat) : Prop :=
  ∃ got s', SocketStream.read ⟨r.dump, sizes, true⟩ httpResponseBufferSize = (some got, s') ∧
    r.header.length ≤ got.length ∧
    (got.length < r.dump.length → 0 < toInt32 ((r.dump.length - got.length : Nat) : Int))

/-- With reads of full size, one does that fits the buffer. -/
theorem comes_full {r : SentResponse} (hr : r.Printable)
    (hle : r.dump.length ≤ httpResponseBufferSize) : Comes r [] := by
  have hdump := SentResponse.dump_eq hr
  have hne : r.dump ≠ [] := by
    rw [hdump]
    simp [SentResponse.header, HttpRequest.crlf]
  have hshare : (SocketStream.mk r.dump [] true).share httpResponseBufferSize =
      httpResponseBufferSize := rfl
  have htake : r.dump.take httpResponseBufferSize = r.dump := List.take_of_length_le hle
  refine ⟨r.dump, ⟨[], [], true⟩, ?_, ?_, fun hlt => absurd hlt (Nat.lt_irrefl _)⟩
  · rw [SocketStream.read, if_neg (by simp [hne, httpResponseBufferSize]), hshare]
    simp only [htake, List.drop_eq_nil_of_le hle, List.tail_nil]
  · rw [hdump, List.length_append]
    exact Nat.le_add_right ..

/-- What the client makes of the text of a response `r`. -/
def Received (r : SentResponse) : Prop :=
  ∀ (inflate : ZlibFormat → Bytes → Bytes) (sizes : List Nat), Comes r sizes →
    ∃ r' n, HttpConnection.recvResponse inflate ⟨r.dump, sizes, true⟩ =
      .ok (some r', ⟨[], sizes.drop n, true⟩) ∧ r.ReadBack inflate r'

theorem received_of_printable {r : SentResponse} (hr : r.Printable) : Received r := by
  rintro inflate sizes ⟨got, s', hread, hwhole, hfits⟩
  obtain ⟨n, hrecv⟩ := HttpConnection.recvResponse_received inflate hr
    (show SocketStream.read ⟨r.dump ++ [], sizes, true⟩ httpResponseBufferSize = (some got, s') by
      rwa [List.append_nil]) hwhole hfits
  rw [List.append_nil, List.drop_eq_nil_of_le (Nat.le_max_right ..)] at hrecv
  exact ⟨_, n, hrecv, SentResponse.readBack_received inflate hr⟩

/-- The response with the 404 page. The name of the server is not in it. -/
def notFound (req : HttpRequest) (content : Bytes) : SentResponse :=
  { SentResponse.new req.version (req.close || !server.isKeepalive) with
    status := 404
    headers := [(bytes "Content-Type", bytes "text/html"), (bytes "Server", bytes "sylar/1.0.0")]
    body := content }

theorem handled_notFound {req : HttpRequest} {name content : Bytes}
    (hslt : server.dispatch.getMatchedServlet fnmatch req.path =
      some (.notFoundServlet name content)) :
    server.handled h fnmatch req = (req, server.notFound req content) := by
  rw [handled, ServletDispatch.handle, hslt]
  rfl

/-- It can always be written. -/
theorem notFound_printable {req : HttpRequest} {content : Bytes}
    (hversion : req.version = 0x10 ∨ req.version = 0x11) (hcontent : content.length < 2 ^ 63) :
    (server.notFound req content).Printable where
  version := hversion
  status := ⟨by simp [notFound], by simp [notFound]⟩
  reason _ hb := nomatch hb
  websocket := rfl
  distinct := List.pairwise_pair.mpr (by decide)
  headers := by
    intro e he
    obtain rfl | he := List.mem_cons.mp he
    · exact ⟨⟨by decide, List.all_eq_true.mp rfl⟩, by decide, by simp [bytes]; decide,
        List.all_eq_true.mp rfl⟩
    · obtain rfl := List.mem_singleton.mp he
      exact ⟨⟨by decide, List.all_eq_true.mp rfl⟩, by decide, by simp [bytes]; decide,
        List.all_eq_true.mp rfl⟩
  cookies _ hc := nomatch hc
  body := hcontent

/-- The connection is to stay open, or not. -/
def sampleRequest (close : Bool) : HttpRequest := { HttpSession.sample .POST with close }

theorem sampleRequest_printable (close : Bool) : (sampleRequest close).Printable false := by
  have hsample := HttpSession.sample_printable (show HttpMethod.POST ≠ .INVALID_METHOD by decide)
  exact ⟨hsample.method, hsample.version, hsample.path, hsample.query, hsample.fragment,
    hsample.websocket, hsample.distinct, hsample.headers, hsample.other, hsample.body⟩

def sampleHandlers : Handlers Unit Unit := ⟨fun _ req r => (req, r), fun _ req r => (req, r)⟩

end HttpServer

end Sylar
