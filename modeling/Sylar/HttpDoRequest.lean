import Sylar.HttpRequestTarget
import Sylar.HttpServer
import Sylar.PoolExchange
import Sylar.Uri

/-!
# A request for a URL

`HttpConnection::DoRequest` and `HttpConnectionPool::doRequest`: the
request they make of a URL, of headers and of a body. Both skip the
headers named `connection` and add a `Host`, unless a header of that name
has a value; the pool has one string for the target of the request, which
is the same text (`poolRequest_dump`).

The servlet of the server gets what the URL says, and the caller the
response of the servlet (`doRequest_served`).
-/

namespace Sylar

open Grammar UriGrammar

namespace MapType

variable {m : MapType} {key : Bytes} {fields : List (Bytes × Bytes)}

/-- The value of the last field of that name. -/
def lastOf (fields : List (Bytes × Bytes)) (key : Bytes) : Option Bytes :=
  (fields.reverse.find? fun e => SameName key e.1).map Prod.snd

theorem lastOf_cons {e : Bytes × Bytes} : lastOf (e :: fields) key =
    (lastOf fields key).or (if SameName key e.1 then some e.2 else none) := by
  rw [lastOf, lastOf, List.reverse_cons, List.find?_append]
  cases fields.reverse.find? fun e => SameName key e.1 with
  | some e' => rfl
  | none =>
      by_cases hkey : SameName key e.1
      · rw [if_pos hkey]
        simp [hkey]
      · rw [if_neg hkey]
        simp [hkey]

theorem find_setAll_lastOf : ∀ {fields : List (Bytes × Bytes)} {m : MapType},
    (m.setAll fields).find key = (lastOf fields key).or (m.find key)
  | [], _ => rfl
  | e :: fields, m => by
      have hcons : m.setAll (e :: fields) = (m.set e.1 e.2).setAll fields := rfl
      rw [hcons, find_setAll_lastOf, find_set, lastOf_cons, Option.or_assoc]
      congr 1
      split <;> rfl

theorem ordered_setAll : ∀ {fields : List (Bytes × Bytes)} {m : MapType}, m.Ordered →
    (m.setAll fields).Ordered
  | [], _, hm => hm
  | e :: _, m, hm => ordered_setAll (m := m.set e.1 e.2) (ordered_set hm)

theorem Ordered.distinct (hm : m.Ordered) : m.Pairwise fun a b => ¬SameName a.1 b.1 :=
  hm.imp fun h => not_same_of_lt h

/-- What holds of the names and of the values still does. -/
theorem forall_set {P Q : Bytes → Prop} {val : Bytes} (hkey : P key) (hval : Q val) :
    ∀ {m : MapType}, (∀ e ∈ m, P e.1 ∧ Q e.2) → ∀ e ∈ m.set key val, P e.1 ∧ Q e.2
  | [], _ => by
      intro e he
      obtain rfl := List.mem_singleton.mp he
      exact ⟨hkey, hval⟩
  | (k, v) :: rest, hm => by
      obtain ⟨hhead, htail⟩ := List.forall_mem_cons.mp hm
      rw [set]
      split
      · exact List.forall_mem_cons.mpr ⟨⟨hkey, hval⟩, hm⟩
      · exact List.forall_mem_cons.mpr ⟨⟨hhead.1, hval⟩, htail⟩
      · exact List.forall_mem_cons.mpr ⟨hhead, forall_set hkey hval htail⟩

theorem forall_setAll {P Q : Bytes → Prop} : ∀ {fields : List (Bytes × Bytes)} {m : MapType},
    (∀ e ∈ fields, P e.1 ∧ Q e.2) → (∀ e ∈ m, P e.1 ∧ Q e.2) →
    ∀ e ∈ m.setAll fields, P e.1 ∧ Q e.2
  | [], _, _, hm => hm
  | e :: fields, m, hfields, hm => by
      obtain ⟨hhead, htail⟩ := List.forall_mem_cons.mp hfields
      exact forall_setAll (m := m.set e.1 e.2) htail (forall_set hhead.1 hhead.2 hm)

end MapType

/-! ## The requests -/

namespace HttpRequest

def setHeader (r : HttpRequest) (key val : Bytes) : HttpRequest :=
  { r with headers := r.headers.set key val }

end HttpRequest

namespace HttpConnection

/-- The loop over `headers`, with `has_host`. -/
def addHeaders : List (Bytes × Bytes) → HttpRequest → Bool → HttpRequest × Bool
  | [], req, hasHost => (req, hasHost)
  | i :: headers, req, hasHost =>
      if strcasecmp (cStr i.1) (bytes "connection") = .eq then
        if strcasecmp (cStr i.2) (bytes "keep-alive") = .eq then
          addHeaders headers { req with close := false } hasHost
        else addHeaders headers req hasHost
      else
        let hasHost :=
          if !hasHost ∧ strcasecmp (cStr i.1) (bytes "host") = .eq then !i.2.isEmpty else hasHost
        addHeaders headers (req.setHeader i.1 i.2) hasHost

/-- The request of `DoRequest(method, uri, timeout_ms, headers, body)`. -/
def newRequest (method : HttpMethod) (uri : Uri) (headers : List (Bytes × Bytes)) (body : Bytes) :
    HttpRequest :=
  let req := { HttpRequest.new with
    path := uri.getPath, query := uri.query, fragment := uri.fragment, method }
  let (req, hasHost) := addHeaders headers req false
  let req := if !hasHost then req.setHeader (bytes "Host") uri.host else req
  { req with body }

end HttpConnection

namespace HttpConnectionPool

/-- The text that is made of a URI. -/
def target (uri : Uri) : Bytes :=
  uri.getPath ++ (if uri.query = [] then [] else bytes "?") ++ uri.query ++
    (if uri.fragment = [] then [] else bytes "#") ++ uri.fragment

/-- The request of `doRequest(method, url, timeout_ms, headers, body)`. -/
def newRequest (host vhost : Bytes) (method : HttpMethod) (url : Bytes)
    (headers : List (Bytes × Bytes)) (body : Bytes) : HttpRequest :=
  let req := { HttpRequest.new with path := url, method, close := false }
  let (req, hasHost) := HttpConnection.addHeaders headers req false
  let req :=
    if !hasHost then
      if vhost = [] then req.setHeader (bytes "Host") host else req.setHeader (bytes "Host") vhost
    else req
  { req with body }

end HttpConnectionPool

/-! ## What they have -/

namespace HttpRequest

/-- The headers that are taken over. -/
def takenHeaders (headers : List (Bytes × Bytes)) : List (Bytes × Bytes) :=
  headers.filter fun i => ¬SameName i.1 (bytes "connection")

/-- A header `connection: keep-alive` is among them. -/
def keepsAlive (headers : List (Bytes × Bytes)) : Bool :=
  headers.any fun i => SameName i.1 (bytes "connection") ∧ SameName i.2 (bytes "keep-alive")

/-- A header `Host` with a value is among them. -/
def namesHost (headers : List (Bytes × Bytes)) : Bool :=
  (takenHeaders headers).any fun i => SameName i.1 (bytes "host") && !i.2.isEmpty

/-- They, and the `Host`. -/
def sentFields (headers : List (Bytes × Bytes)) (host : Bytes) : List (Bytes × Bytes) :=
  takenHeaders headers ++ if namesHost headers then [] else [(bytes "Host", host)]

/-- The request that says so. -/
def outgoing (method : HttpMethod) (uri : Uri) (close : Bool) (fields : List (Bytes × Bytes))
    (body : Bytes) : HttpRequest :=
  { new with
    method, close, path := uri.getPath, query := uri.query, fragment := uri.fragment, body
    headers := MapType.setAll [] fields }

end HttpRequest

namespace HttpConnection

open HttpRequest

theorem addHeaders_cons {i : Bytes × Bytes} {headers : List (Bytes × Bytes)} {req : HttpRequest}
    {hasHost : Bool} : addHeaders (i :: headers) req hasHost =
      if SameName i.1 (bytes "connection") then
        if SameName i.2 (bytes "keep-alive") then
          addHeaders headers { req with close := false } hasHost
        else addHeaders headers req hasHost
      else addHeaders headers (req.setHeader i.1 i.2)
        (if !hasHost ∧ SameName i.1 (bytes "host") then !i.2.isEmpty else hasHost) :=
  rfl

theorem addHeaders_eq : ∀ {headers : List (Bytes × Bytes)} {req : HttpRequest} {hasHost : Bool},
    addHeaders headers req hasHost =
      ({ req with
        close := req.close && !keepsAlive headers
        headers := req.headers.setAll (takenHeaders headers) }, hasHost || namesHost headers)
  | [], req, hasHost => by
      simp [addHeaders, keepsAlive, namesHost, takenHeaders, MapType.setAll]
  | i :: headers, req, hasHost => by
      by_cases hconn : SameName i.1 (bytes "connection")
      · have htaken : takenHeaders (i :: headers) = takenHeaders headers :=
          List.filter_cons_of_neg (by simp [hconn])
        have hkeep : keepsAlive (i :: headers) =
            (decide (SameName i.2 (bytes "keep-alive")) || keepsAlive headers) := by
          simp [keepsAlive, hconn]
        rw [addHeaders_cons, if_pos hconn, namesHost, htaken, hkeep]
        by_cases halive : SameName i.2 (bytes "keep-alive")
        · rw [if_pos halive, addHeaders_eq, decide_eq_true halive]
          simp [namesHost]
        · rw [if_neg halive, addHeaders_eq, decide_eq_false halive]
          simp [namesHost]
      · have htaken : takenHeaders (i :: headers) = i :: takenHeaders headers :=
          List.filter_cons_of_pos (by simp [hconn])
        have hkeep : keepsAlive (i :: headers) = keepsAlive headers := by
          simp [keepsAlive, hconn]
        rw [addHeaders_cons, if_neg hconn, addHeaders_eq, namesHost, namesHost, htaken, hkeep]
        congr 1
        cases hasHost <;> simp

theorem newRequest_eq {method : HttpMethod} {uri : Uri} {headers : List (Bytes × Bytes)}
    {body : Bytes} : newRequest method uri headers body =
      outgoing method uri (!keepsAlive headers) (sentFields headers uri.host) body := by
  rw [newRequest, addHeaders_eq, outgoing, sentFields, MapType.setAll_append]
  cases namesHost headers <;> rfl

end HttpConnection

namespace HttpConnectionPool

open HttpRequest

/-- The pool makes the request with the whole target for a path. -/
theorem newRequest_eq {host vhost url : Bytes} {method : HttpMethod}
    {headers : List (Bytes × Bytes)} {body : Bytes} :
    newRequest host vhost method url headers body =
      { outgoing method .new false (sentFields headers (if vhost = [] then host else vhost))
          body with
        path := url } := by
  rw [newRequest, HttpConnection.addHeaders_eq, outgoing, sentFields, MapType.setAll_append]
  cases vhost <;> cases namesHost headers <;> rfl

/-- The text is the same. -/
theorem newRequest_dump {host vhost : Bytes} {method : HttpMethod} {uri : Uri}
    {headers : List (Bytes × Bytes)} {body : Bytes} :
    (newRequest host vhost method (target uri) headers body).dump =
      (outgoing method uri false (sentFields headers (if vhost = [] then host else vhost))
        body).dump := by
  rw [newRequest_eq, HttpRequest.dump, HttpRequest.dump]
  simp only [outgoing, target, Uri.new, HttpRequest.new, List.append_assoc, if_true,
    List.nil_append]
  rfl

end HttpConnectionPool

/-! ## They can be read -/

namespace HttpRequest

variable {relaxed : Bool} {method : HttpMethod} {uri : Uri} {headers : List (Bytes × Bytes)}
  {host body url : Bytes} {close : Bool}

/-- A name that no header has but those of the caller. -/
def PlainName (name : Bytes) : Prop :=
  (name ≠ [] ∧ ∀ b ∈ name, isTokenChar b = true) ∧ ¬SameName name (bytes "content-length")

instance (name : Bytes) : Decidable (PlainName name) := inferInstanceAs (Decidable (_ ∧ _))

/-- The arguments can be written. A `connection` header is not. -/
structure Writable (method : HttpMethod) (headers : List (Bytes × Bytes)) (host body : Bytes) :
    Prop where
  known : method ≠ .INVALID_METHOD
  search : method ≠ .MSEARCH
  headers : ∀ e ∈ takenHeaders headers, PlainName e.1 ∧ PlainValue e.2
  host : PlainValue host
  body : body.length < 2 ^ 63

theorem sentFields_plain (h : Writable method headers host body) :
    ∀ e ∈ sentFields headers host,
      (PlainName e.1 ∧ ¬SameName e.1 (bytes "connection")) ∧ PlainValue e.2 := by
  have hname : PlainName (bytes "Host") ∧ ¬SameName (bytes "Host") (bytes "connection") :=
    ⟨⟨⟨by decide, List.all_eq_true.mp rfl⟩, by decide⟩, by decide⟩
  intro e he
  obtain he | he := List.mem_append.mp he
  · have hother := of_decide_eq_true (List.mem_filter.mp he).2
    exact ⟨⟨(h.headers e he).1, hother⟩, (h.headers e he).2⟩
  · split at he
    · cases he
    · obtain rfl := List.mem_singleton.mp he
      exact ⟨hname, h.host⟩

theorem outgoing_printable (h : Writable method headers host body)
    (hcreate : Uri.create url = .ok (some uri)) (hslash : ¬[47, 47] <+: uri.path) :
    (outgoing method uri close (sentFields headers host) body).Printable relaxed := by
  obtain ⟨-, hquery, hfragment, -⟩ := Uri.saved_derived hcreate
  have hordered : MapType.Ordered [] := List.Pairwise.nil
  have hplain := MapType.forall_setAll (m := [])
    (P := fun name => PlainName name ∧ ¬SameName name (bytes "connection"))
    (sentFields_plain h) fun e he => nomatch he
  exact {
    method := h.known
    version := .inr rfl
    path := Uri.getPath_path hcreate hslash
    query := Http11.uriText_of_query hquery
    fragment := Http11.uriText_of_fragment hfragment
    websocket := rfl
    distinct := (MapType.ordered_setAll hordered).distinct
    headers := fun e he => ⟨(hplain e he).1.1.1, (hplain e he).2⟩
    other := fun e he => ⟨(hplain e he).1.2, (hplain e he).1.1.2⟩
    body := h.body }

/-- What a request says that was made of these arguments. -/
structure Asks (method : HttpMethod) (uri : Uri) (close : Bool) (fields : List (Bytes × Bytes))
    (body : Bytes) (r : HttpRequest) : Prop where
  method : r.method = method
  version : r.version = 0x11
  path : r.path = uri.getPath
  query : r.query = uri.query
  fragment : r.fragment = uri.fragment
  close : r.close = close
  body : r.body = body
  headers : ∀ key, ¬SameName key (bytes "connection") → ¬SameName key (bytes "content-length") →
    r.headers.find key = MapType.lastOf fields key

theorem init_headers {r : HttpRequest} : r.init.headers = r.headers := by
  simp only [init]
  split <;> rfl

/-- The headers that are received, but those of `dump`. -/
theorem find_received {r : HttpRequest} (h : r.Printable relaxed) {key : Bytes}
    (hconn : ¬SameName key (bytes "connection"))
    (hlength : ¬SameName key (bytes "content-length")) :
    r.received.headers.find key = r.headers.find key := by
  have hheaders : r.received.headers = MapType.setAll [] r.fields := by
    rw [received]
    split <;> exact init_headers
  have hnone : MapType.find (if r.body = [] then [] else
      [(bytes "content-length", decimal r.body.length)]) key = none := by
    split
    · rfl
    · rw [MapType.find_cons, if_neg hlength]
      rfl
  rw [hheaders, MapType.find_setAll_distinct (fields_distinct h), fields, MapType.find_cons,
    if_neg hconn, MapType.find_append, hnone, Option.or_none]
  exact Option.or_none

theorem asks_received (h : Writable method headers host body)
    (hcreate : Uri.create url = .ok (some uri)) (hslash : ¬[47, 47] <+: uri.path) :
    Asks method uri close (sentFields headers host) body
      (outgoing method uri close (sentFields headers host) body).received := by
  have hprintable : (outgoing method uri close (sentFields headers host) body).Printable false :=
    outgoing_printable h hcreate hslash
  have hback := readBack_received hprintable
  refine ⟨hback.method, hback.version, hback.path, hback.query, hback.fragment, hback.close,
    hback.body, fun key hconn hlength => ?_⟩
  rw [find_received hprintable hconn hlength]
  exact MapType.find_setAll_lastOf.trans Option.or_none

end HttpRequest

/-- `http://h/a?b#c` -/
def sampleUrl : UriParts :=
  ⟨some (bytes "http"), some ⟨none, bytes "h", none⟩, bytes "/a", some (bytes "b"),
    some (bytes "c")⟩

theorem sampleUrl_create : Uri.create sampleUrl.text = .ok (some sampleUrl.saved) :=
  UriParts.create_saved (UriParts.valid_of_checked (by decide)) fun _ h => nomatch h

namespace HttpConnectionPool

open HttpRequest

variable {relaxed : Bool} {method : HttpMethod} {uri : Uri} {headers : List (Bytes × Bytes)}
  {host vhost body url : Bytes}

/-- **A request of a pool says what the URL says**: the server finds the
query and the fragment in what the pool has put into the path. -/
theorem recvRequest_newRequest (hcreate : Uri.create url = .ok (some uri))
    (hslash : ¬[47, 47] <+: uri.path)
    (hwritable : Writable method headers (if vhost = [] then host else vhost) body)
    {sizes : List Nat} (harrives : (outgoing method uri false
      (sentFields headers (if vhost = [] then host else vhost)) body).Arrives relaxed sizes) :
    ∃ req n, HttpSession.recvRequest relaxed
        ⟨(newRequest host vhost method (target uri) headers body).dump, sizes, true⟩ =
          .ok (some req, ⟨[], sizes.drop n, true⟩) ∧
      Asks method uri false (sentFields headers (if vhost = [] then host else vhost)) body req := by
  rw [newRequest_dump]
  obtain ⟨n, hrecv⟩ := HttpSession.recvRequest_arrives
    (outgoing_printable hwritable hcreate hslash) hwritable.search harrives
  exact ⟨_, n, hrecv, asks_received hwritable hcreate hslash⟩

set_option maxRecDepth 10000 in
/-- Through a pool with a virtual host. -/
theorem recvRequest_newRequest_sample : ∃ req n, HttpSession.recvRequest false
      ⟨(newRequest (bytes "h") (bytes "v") .GET (target sampleUrl.saved)
        [(bytes "Host", [])] []).dump, [], true⟩ =
      .ok (some req, ⟨[], ([] : List Nat).drop n, true⟩) ∧
    Asks .GET sampleUrl.saved false [(bytes "Host", []), (bytes "Host", bytes "v")] [] req := by
  have hwritable : Writable .GET [(bytes "Host", [])] (bytes "v") [] :=
    ⟨by decide, by decide, by decide, by decide, by decide⟩
  exact recvRequest_newRequest sampleUrl_create (by decide) hwritable
    (HttpRequest.arrives_full (outgoing_printable hwritable sampleUrl_create (by decide))
      (by decide) (by decide) (by decide))

end HttpConnectionPool

/-! ## Asking a server -/

/-- What `DoRequest` has of the system. -/
structure Network where
  /-- `Address::LookupAnyIPAddress` -/
  lookup : Bytes → Option IPAddress
  /-- `CreateTCP` of `SSLSocket` or of `Socket` -/
  createTCP : Bool → IPAddress → Bool
  connect : IPAddress → Bool
  /-- the results of `send` -/
  answers : List Int
  /-- what comes back for a text -/
  reply : Bytes → SocketStream

namespace HttpConnection

open HttpRequest

variable (inflate : ZlibFormat → Bytes → Bytes) (host : Endian) (net : Network)

/-- `DoRequest(req, uri, timeout_ms)`. -/
def doRequest (req : HttpRequest) (uri : Uri) : Except StdFault HttpResult :=
  match uri.createAddress host net.lookup with
  | none => .ok ⟨.INVALID_HOST, none⟩
  | some addr =>
      if !net.createTCP (uri.scheme = bytes "https") addr then .ok ⟨.CREATE_SOCKET_ERROR, none⟩
      else if !net.connect addr then .ok ⟨.CONNECT_FAIL, none⟩
      else
        let rt := sendRequest true net.answers req
        if rt = 0 then .ok ⟨.SEND_CLOSE_BY_PEER, none⟩
        else if rt < 0 then .ok ⟨.SEND_SOCKET_ERROR, none⟩
        else do
          let (rsp, _) ← recvResponse inflate (net.reply req.dump)
          match rsp with
          | none => return ⟨.TIMEOUT, none⟩
          | some rsp => return ⟨.OK, some rsp⟩

/-- `DoRequest(method, url, timeout_ms, headers, body)`. -/
def doRequestUrl (method : HttpMethod) (url : Bytes) (headers : List (Bytes × Bytes))
    (body : Bytes) : Except UriFault (Except StdFault HttpResult) := do
  match ← Uri.create url with
  | none => return .ok ⟨.INVALID_URL, none⟩
  | some uri => return doRequest inflate host net (newRequest method uri headers body) uri

/-- The server is there, and takes all of a text of that length. -/
structure Reaches (uri : Uri) (length : Nat) : Prop where
  found : ∃ addr, uri.createAddress host net.lookup = some addr ∧
    net.createTCP (uri.scheme = bytes "https") addr = true ∧ net.connect addr = true
  sent : sendLeft net.answers length = none

theorem doRequest_reaches {req : HttpRequest} {uri : Uri} {rsp : HttpResponse} {s : SocketStream}
    (h : Reaches host net uri req.dump.length) (hpos : 0 < toInt32 req.dump.length)
    (hrecv : recvResponse inflate (net.reply req.dump) = .ok (some rsp, s)) :
    doRequest inflate host net req uri = .ok ⟨.OK, some rsp⟩ := by
  obtain ⟨addr, haddr, hsock, hconnect⟩ := h.found
  have hrt : sendRequest true net.answers req = toInt32 req.dump.length := by
    rw [sendRequest, writeFixSize, if_pos rfl, h.sent]
  rw [doRequest, haddr]
  simp only [hsock, hconnect, hrt, Bool.not_true, Bool.false_eq_true, if_false, hrecv]
  rw [if_neg (Int.ne_of_gt hpos), if_neg (Int.not_lt.mpr (Int.le_of_lt hpos))]
  rfl

end HttpConnection

namespace HttpServer

variable {κ σ : Type} {relaxed : Bool} (h : Handlers κ σ) (fnmatch : Bytes → Bytes → Int)
  (server : HttpServer κ σ)

/-- What the server sends back, and the reads of the client. -/
def reply (relaxed : Bool) (sizes sizes' : List Nat) (text : Bytes) : SocketStream :=
  match server.handleClient h fnmatch relaxed [⟨text, sizes⟩] ⟨[], [], true⟩ with
  | .ok (texts, _) => ⟨texts.flatten, sizes', true⟩
  | .error _ => ⟨[], sizes', false⟩

theorem reply_delivery (d : Delivery relaxed) (sizes' : List Nat) :
    server.reply h fnmatch relaxed d.sizes sizes' d.request.dump =
      ⟨(server.handled h fnmatch d.request.received).2.dump, sizes', true⟩ := by
  obtain ⟨rest, hturn⟩ := handleClient_turn h fnmatch server d [] []
  rw [Delivery.arrival] at hturn
  rw [reply, hturn]
  cases server.closes h fnmatch d.request.received with
  | true =>
      rw [if_pos rfl]
      simp only [List.flatten_singleton]
  | false =>
      rw [if_neg Bool.false_ne_true, handleClient, Except.map]
      simp only [List.flatten_singleton]

end HttpServer

namespace HttpConnection

open HttpRequest

variable {κ σ : Type} {relaxed : Bool} (inflate : ZlibFormat → Bytes → Bytes) (host : Endian)
  (net : Network) (h : Handlers κ σ) (fnmatch : Bytes → Bytes → Int) (server : HttpServer κ σ)
  {method : HttpMethod} {uri : Uri} {headers : List (Bytes × Bytes)} {body url : Bytes}

/-- **The servlet gets what the URL says, and the caller its response**, if
the network delivers what is written and the response can be written. -/
theorem doRequest_served (hcreate : Uri.create url = .ok (some uri))
    (hslash : ¬[47, 47] <+: uri.path) (hwritable : Writable method headers uri.host body)
    {req : HttpRequest} (hreq : req = newRequest method uri headers body) {sizes : List Nat}
    (harrives : req.Arrives relaxed sizes) (hlt : req.dump.length < 2 ^ 31)
    (hreaches : Reaches host net uri req.dump.length) {sizes' : List Nat}
    (hreply : net.reply = server.reply h fnmatch relaxed sizes sizes') {r : SentResponse}
    (hr : r = (server.handled h fnmatch req.received).2) (hresponse : r.Printable)
    (hcomes : HttpServer.Comes r sizes') :
    ∃ req' rsp, Asks method uri (!keepsAlive headers) (sentFields headers uri.host) body req' ∧
      doRequestUrl inflate host net method url headers body = .ok (.ok ⟨.OK, some rsp⟩) ∧
      (server.handled h fnmatch req').2.ReadBack inflate rsp := by
  have hout : req = outgoing method uri (!keepsAlive headers) (sentFields headers uri.host) body :=
    hreq.trans newRequest_eq
  have hprintable : req.Printable relaxed := hout ▸ outgoing_printable hwritable hcreate hslash
  have hsearch : req.method ≠ .MSEARCH := hout ▸ hwritable.search
  have hdump : net.reply req.dump = ⟨r.dump, sizes', true⟩ := by
    rw [hreply, hr]
    exact server.reply_delivery h fnmatch ⟨req, sizes, hprintable, hsearch, harrives⟩ sizes'
  obtain ⟨rsp, n, hrecv, hback⟩ :=
    HttpServer.received_of_printable hresponse inflate sizes' hcomes
  rw [← hdump] at hrecv
  have hpos : 0 < toInt32 req.dump.length := by
    have hne : req.dump ≠ [] := by
      rw [HttpRequest.dump_eq hprintable]
      simp [HttpRequest.header, HttpRequest.crlf]
    have hlength := List.length_pos_iff.mpr hne
    rw [toInt32_eq (by omega)]
    omega
  refine ⟨req.received, rsp, ?_, ?_, hr ▸ hback⟩
  · rw [hout]
    exact asks_received hwritable hcreate hslash
  · rw [doRequestUrl, hcreate]
    have hdo := doRequest_reaches inflate host net hreaches hpos hrecv
    rw [hreq] at hdo
    exact congrArg Except.ok hdo

def sampleHeaders : List (Bytes × Bytes) :=
  [(bytes "A", bytes "x"), (bytes "Connection", bytes "Keep-Alive"), (bytes "a", bytes "y")]

set_option maxRecDepth 10000 in
theorem sampleHeaders_writable :
    Writable .POST sampleHeaders sampleUrl.saved.host (bytes "hello") where
  known := by decide
  search := by decide
  headers := by decide
  host := by decide
  body := by
    show 5 < 2 ^ 63
    decide

def sampleRequest : HttpRequest :=
  newRequest .POST sampleUrl.saved sampleHeaders (bytes "hello")

theorem sampleRequest_printable : sampleRequest.Printable false := by
  rw [sampleRequest, newRequest_eq]
  exact outgoing_printable sampleHeaders_writable sampleUrl_create (by decide)

theorem sampleRequest_arrives : sampleRequest.Arrives false [] :=
  HttpRequest.arrives_full sampleRequest_printable (by decide) (by decide) (by decide)

/-- A network with a server without servlets. -/
def sampleNetwork : Network where
  lookup _ := some (.ipv4 (IPv4Address.new .little 0x7f000001 0))
  createTCP _ _ := true
  connect _ := true
  answers := []
  reply := (HttpServer.new true).reply HttpServer.sampleHandlers (fun _ _ => 1) false [] []

/-- What it answers. -/
def sampleAnswer : SentResponse :=
  (HttpServer.new true : HttpServer Unit Unit).notFound sampleRequest.received
    (bytes "<html><head><title>404 Not Found" ++
      bytes "</title></head><body><center><h1>404 Not Found</h1></center>" ++
      bytes "<hr><center>" ++ bytes "sylar/1.0" ++ bytes "</center></body></html>")

set_option maxRecDepth 10000 in
theorem sampleAnswer_printable : sampleAnswer.Printable :=
  HttpServer.notFound_printable _
    (.inr ((HttpRequest.readBack_received sampleRequest_printable).version.trans rfl))
    (by decide)

set_option maxRecDepth 10000 in
theorem doRequest_served_sample : ∃ rsp,
    doRequestUrl (fun _ b => b) .little sampleNetwork .POST sampleUrl.text sampleHeaders
      (bytes "hello") = .ok (.ok ⟨.OK, some rsp⟩) ∧ rsp.status = 404 := by
  have hhandled : (HttpServer.new true).handled HttpServer.sampleHandlers (fun _ _ => 1)
      sampleRequest.received = (sampleRequest.received, sampleAnswer) :=
    HttpServer.handled_notFound _ _ _ rfl
  obtain ⟨req', rsp, -, hdo, hback⟩ := doRequest_served (fun _ b => b) .little sampleNetwork
    HttpServer.sampleHandlers (fun _ _ => 1) (HttpServer.new true) sampleUrl_create (by decide)
    sampleHeaders_writable (show sampleRequest = _ from rfl) sampleRequest_arrives (by decide)
    ⟨⟨_, rfl, rfl, rfl⟩, by decide⟩ rfl (congrArg Prod.snd hhandled).symm
    sampleAnswer_printable (HttpServer.comes_full sampleAnswer_printable (by decide))
  exact ⟨rsp, hdo, hback.status⟩

end HttpConnection

end Sylar
