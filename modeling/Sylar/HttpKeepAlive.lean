import Sylar.HttpDelivery
import Sylar.HttpRequestText

/-!
# Requests back to back on one connection

Each `recvRequest` has a buffer of its own, and what it has read behind
the end of its request goes with it. The next call finds its request
only if the reads of this one end at or before the end of the body:
they end at multiples of the buffer size (`cuts_greedy`), so the
request has to fill the buffers its header block is read with
(`Message.Filled`).
-/

namespace Sylar

open HttpSession Scanner

structure Message (relaxed : Bool) where
  header : Bytes
  body : Bytes
  request : HttpRequest
  valid : Valid relaxed header body request

namespace Message

variable {relaxed : Bool}

/-- The bytes on the connection. -/
def wire (m : Message relaxed) : Bytes := m.header ++ m.body

/-- A header block longer than the buffer is not cut inside a token, and
what is missing of the body behind it is positive as an `int`. -/
def Clean (m : Message relaxed) : Prop :=
  (∀ j, httpRequestBufferSize * j < m.header.length →
    Uncut (httpRequestBufferSize * j) (tokens relaxed m.header)) ∧
  (readEnd m.header.length < m.wire.length →
    0 < toInt32 ((m.wire.length - readEnd m.header.length : Nat) : Int))

/-- The request fills the buffers that its header block is read with. -/
def Filled (m : Message relaxed) : Prop := readEnd m.header.length ≤ m.wire.length

/-- One call, with `rest` behind the request. -/
theorem recvRequest_message (m : Message relaxed) (hclean : m.Clean) (rest : Bytes)
    (hfilled : rest = [] ∨ m.Filled) :
    recvRequest relaxed ⟨m.wire ++ rest, [], true⟩ = .ok (some m.request, ⟨rest, [], true⟩) := by
  obtain ⟨hcut, hint⟩ := hclean
  have hlen : (m.wire ++ rest).length = m.header.length + m.body.length + rest.length := by
    simp [wire, Nat.add_assoc]
  have hwire : m.wire.length = m.header.length + m.body.length := by simp [wire]
  rw [hwire] at hint
  have hcuts (k : Nat) (hk : k ∈ cuts m.header.length ((m.wire ++ rest).length + 1)
      ⟨m.wire ++ rest, [], true⟩ 0) (hle : m.header.length ≤ k) :
      k = min (readEnd m.header.length) (m.wire ++ rest).length := by
    have hgreedy := (cuts_greedy _ (i := 0) rfl rfl m.valid.pos (by
      rw [Nat.mul_zero, Nat.zero_add, hlen]
      omega) k hk).1 hle
    rwa [Nat.mul_zero, Nat.zero_add] at hgreedy
  have hwhole : Whole relaxed m.header ⟨m.wire ++ rest, [], true⟩ :=
    whole_greedy rfl rfl m.valid.pos (by rw [hlen]; omega) hcut
  have hfits : Fits m.header m.body ⟨m.wire ++ rest, [], true⟩ := by
    intro k hk hle hlt
    have hend := hcuts k hk hle
    rw [hlen] at hend
    obtain rfl : k = readEnd m.header.length := by omega
    exact hint hlt
  obtain ⟨k, n, hmem, hle, hrecv⟩ := recvRequest_spec m.valid rest
    (s := ⟨m.wire ++ rest, [], true⟩) rfl (by rw [wire, List.append_assoc]) hwhole hfits
  have hend := hcuts k hmem hle
  rw [hlen] at hend
  have hmax : max (k - m.header.length) m.body.length = m.body.length := by
    rcases hfilled with rfl | hfilled
    · rw [List.length_nil] at hend
      omega
    · rw [Filled, hwire] at hfilled
      omega
  rw [hrecv, hmax, List.drop_left, List.drop_nil]

/-- **Requests back to back are received in order**, if each fills its
buffers before the next. -/
theorem recvRequests_inOrder : ∀ (ms : List (Message relaxed)), (∀ m ∈ ms, m.Clean) →
    (∀ m ∈ ms.dropLast, m.Filled) →
    recvRequests relaxed ms.length ⟨(ms.map wire).flatten, [], true⟩ =
      .ok (ms.map fun m => some m.request)
  | [], _, _ => rfl
  | m :: ms, hclean, hfilled => by
      have hlast : (ms.map wire).flatten = [] ∨ m.Filled := by
        cases ms with
        | nil => exact .inl rfl
        | cons m' ms =>
            refine .inr (hfilled m ?_)
            rw [List.dropLast_cons_cons]
            exact List.mem_cons_self ..
      have hrest := recvRequests_inOrder ms (fun m' hm' => hclean m' (List.mem_cons_of_mem _ hm'))
        (fun m' hm' => hfilled m' (by
          cases ms with
          | nil => cases hm'
          | cons m'' ms =>
              rw [List.dropLast_cons_cons]
              exact List.mem_cons_of_mem _ hm'))
      rw [List.length_cons, recvRequests, List.map_cons, List.flatten_cons,
        recvRequest_message m (hclean m (List.mem_cons_self ..)) _ hlast]
      show (do
        let rs ← recvRequests relaxed ms.length _
        return some m.request :: rs) = _
      rw [hrest]
      rfl

open HttpRequestParser in
/-- A request line with a path, and no headers behind it. -/
theorem valid_path {path : Bytes} (hpath : Http11.Path false path)
    (hlt : path.length < 2 ^ 62) :
    Valid false (bytes "GET " ++ path ++ bytes " HTTP/1.1\r\n\r\n") []
      { HttpRequest.new with path := path } := by
  have htext : bytes "GET " ++ path ++ bytes " HTTP/1.1\r\n\r\n" =
      httpMethodToString .GET ++ 32 :: (path ++ bytes " HTTP/1.1\r\n\r\n") := by
    rw [List.append_assoc]
    rfl
  have hlen : (bytes "GET " ++ path ++ bytes " HTTP/1.1\r\n\r\n").length < 2 ^ 63 := by
    rw [List.length_append, List.length_append]
    show 4 + path.length + 13 < 2 ^ 63
    omega
  obtain ⟨p₁, parser₁, hmethod, hdrop₁⟩ := reads_method false (by decide : HttpMethod.GET ≠ _)
    (by decide) htext (.new false)
  obtain ⟨p₂, parser₂, htarget, hdrop₂⟩ := reads_target hlen hpath .nil .nil hdrop₁
    (u := ⟨parser₁, 0, HttpRequest.new⟩) rfl rfl
  have hknown : 0x11 = 0x10 ∨ 0x11 = 0x11 := .inr rfl
  obtain ⟨p₃, parser₃, hversion, hdrop₃⟩ := reads_version false hknown hdrop₂
    ⟨parser₂, 0, { HttpRequest.new with path := path }⟩
  obtain ⟨parser₄, hend⟩ := exec_end false hdrop₃
    ⟨parser₃, 0, { HttpRequest.new with path := path }⟩
  have hexec := Eq.trans ((hmethod.trans htarget).trans hversion) hend
  refine ⟨by decide, ⟨{ parser₄ with cs := 348 }, 0, { HttpRequest.new with path := path }⟩, ?_,
    rfl, rfl, rfl, rfl⟩
  rw [execute, if_neg (by simp [bytes])]
  exact congrArg (· >>= _) hexec

theorem path_replicate (n : Nat) : Http11.Path false (47 :: List.replicate (n + 1) 97) := by
  refine ⟨_, 26, rfl, ?_, rfl⟩
  rw [List.replicate_succ, walk_cons rfl]
  exact walk_loop fun b hb => by rw [List.eq_of_mem_replicate hb]; rfl

/-- A header block of exactly one buffer. -/
theorem valid_long : Valid false
    (bytes "GET /" ++ List.replicate 4078 97 ++ bytes " HTTP/1.1\r\n\r\n") []
    { HttpRequest.new with path := 47 :: List.replicate 4078 97 } := by
  have hpath : Http11.Path false (47 :: List.replicate 4078 97) := path_replicate 4077
  have hlen : (47 :: List.replicate 4078 (97 : UInt8)).length < 2 ^ 62 := by
    rw [List.length_cons, List.length_replicate]
    decide
  exact valid_path hpath hlen

/-- One such request, and a short one behind it. -/
theorem recvRequests_inOrder_two :
    recvRequests false 2 ⟨bytes "GET /" ++ List.replicate 4078 97 ++ bytes " HTTP/1.1\r\n\r\n" ++
        bytes "GET / HTTP/1.1\r\nHost: x\r\n\r\n", [], true⟩ =
      .ok [some { HttpRequest.new with path := 47 :: List.replicate 4078 97 },
        some { HttpRequest.new with headers := [(bytes "Host", bytes "x")] }] := by
  have hlen : (bytes "GET /" ++ List.replicate 4078 97 ++ bytes " HTTP/1.1\r\n\r\n").length =
      4096 := by
    rw [List.length_append, List.length_append, List.length_replicate]
    rfl
  have horder := recvRequests_inOrder [⟨_, _, _, valid_long⟩, ⟨_, _, _, valid_get⟩]
    (fun m hm => ?_) (fun m hm => ?_)
  · simpa only [List.map_cons, List.map_nil, List.flatten_cons, List.flatten_nil, wire,
      List.append_nil, List.append_assoc, List.length_cons, List.length_nil] using horder
  · rcases List.mem_cons.mp hm with rfl | hm
    · refine ⟨fun j hj => ?_, fun h => ?_⟩
      · simp only [hlen, httpRequestBufferSize] at hj
        obtain rfl : j = 0 := by omega
        exact uncut_zero _
      · simp only [wire, hlen, List.append_nil] at h
        exact absurd h (by decide)
    · obtain rfl := List.mem_singleton.mp hm
      refine ⟨fun j hj => ?_, by decide⟩
      obtain rfl : j = 0 := by
        have hlt : 4096 * j < 27 := hj
        omega
      exact uncut_zero _
  · obtain rfl := List.mem_singleton.mp hm
    show readEnd _ ≤ _
    simp only [wire, hlen, List.append_nil]
    decide

/-- Of two short requests the second is lost. -/
theorem second_request_lost :
    Valid false (bytes "GET / HTTP/1.1\r\nHost: x\r\n\r\n") []
        { HttpRequest.new with headers := [(bytes "Host", bytes "x")] } ∧
      recvRequests false 2 ⟨bytes "GET / HTTP/1.1\r\nHost: x\r\n\r\n" ++
          bytes "GET / HTTP/1.1\r\nHost: x\r\n\r\n", [], true⟩ =
        .ok [some { HttpRequest.new with headers := [(bytes "Host", bytes "x")] }, none] :=
  ⟨valid_get, by decide⟩

end Message

end Sylar
