import Sylar.HttpSegments
import Sylar.HttpSession

/-!
# A request is received alike however it is delivered

`cuts` lists where the reads of the header phase of `recvRequest` end.
If none of them is inside a token of the header block, the parser goes
through the same states as in one execution over the whole block
(`parse_spec`), and `recvRequest` returns the same request
(`recvRequest_spec`); only how much of the stream it has taken depends
on the reads. The result of `readFixSize` is an `int`, so fewer than
`2 ^ 31` bytes of the body may be missing after the header phase.
-/

namespace Sylar

open Scanner

namespace HttpSession

/-- Where the reads of the header phase end, for a header block that
ends at `stop`. -/
def cuts (stop : Nat) : Nat → SocketStream → Nat → List Nat
  | 0, _, _ => []
  | fuel + 1, s, pos =>
      match s.read httpRequestBufferSize with
      | (none, _) => []
      | (some got, s) => (pos + got.length) ::
          if pos + got.length < stop then cuts stop fuel s (pos + got.length) else []

/-- A header block and a body that make the request `r`: the parser
accepts all of the header block, in one piece, and finds the length of
the body in it. The body fits a `std::string`. -/
def Valid (relaxed : Bool) (header body : Bytes) (r : HttpRequest) : Prop :=
  body.length < 2 ^ 63 ∧ ∃ p, (HttpRequestParser.new relaxed).execute header = .ok (header.length, p) ∧
    p.isFinished = true ∧ p.hasError = false ∧ p.getContentLength = .ok body.length ∧
    r = (if body = [] then p.data else { p.data with body := body }).init

/-- No read of the header phase cuts a token. -/
def Whole (relaxed : Bool) (header : Bytes) (s : SocketStream) : Prop :=
  ∀ k ∈ cuts header.length (s.incoming.length + 1) s 0, Uncut k (tokens relaxed header)

/-- The number of bytes of the body that are still to be read after the
header phase is positive as an `int`. -/
def Fits (header body : Bytes) (s : SocketStream) : Prop :=
  ∀ k ∈ cuts header.length (s.incoming.length + 1) s 0, header.length ≤ k →
    k < header.length + body.length → 0 < toInt32 ((header.length + body.length - k : Nat) : Int)

variable {relaxed : Bool} {header body tail : Bytes} {ref : Halt HttpRequestParser}
  {r : HttpRequest}

/-- One execution over the whole header block is a run that accepts it. -/
theorem Valid.accepted (h : Valid relaxed header body r) :
    ∃ ref : Halt HttpRequestParser, Accepted header ref ∧
      Progress header relaxed ref 0 (.new relaxed) ∧
      ref.user.getContentLength = .ok body.length ∧
      r = (if body = [] then ref.user.data else { ref.user.data with body := body }).init := by
  obtain ⟨-, p, hexec, hfin, herr, hlen, hr⟩ := h
  have hne : header ≠ [] := by
    rintro rfl
    obtain ⟨-, rfl⟩ := Prod.mk.inj (Except.ok.inj hexec)
    cases hfin
  rw [HttpRequestParser.execute, if_neg hne] at hexec
  obtain ⟨ref, hrun, hexec⟩ := bind_eq_ok.mp hexec
  obtain ⟨hp, hparser⟩ := Prod.mk.inj (Except.ok.inj hexec)
  obtain rfl : p = { ref.user with parser := { ref.user.parser with cs := ref.cs } } :=
    hparser.symm
  have hfinal : Http11.firstFinal ≤ ref.cs := by
    simpa [HttpRequestParser.isFinished, HttpParser.isFinished] using hfin
  have herror : ref.user.error = 0 := by
    simp only [HttpRequestParser.hasError, Bool.or_eq_false_iff] at herr
    simpa using herr.1
  have hstopped : ref.running = false := by
    refine Bool.eq_false_iff.mpr fun hrunning => absurd hfinal (Nat.not_le_of_lt ?_)
    exact exec_running_cs (show 1 < 348 by decide) hrun hrunning
  refine ⟨ref, ⟨hstopped, hfinal, hp, herror⟩, ⟨List.length_pos_iff.mpr hne, rfl,
    show 1 ≠ 0 ∧ 1 < 348 by decide, .new relaxed, hrun, rfl, ?_, fun hcs => ?_, fun hcs => ?_,
    fun t ht => ht⟩, hlen, hr⟩
  · exact ⟨rfl, rfl, rfl, .inr rfl, fun _ => rfl, .inr rfl, fun _ => rfl, fun q hq => by cases hq⟩
  · exact absurd hcs (show ¬(1 = 15 ∨ 1 = 16) by decide)
  · exact absurd hcs (show ¬1 = 16 by decide)

theorem uncut_zero (ts : List (Nat × Nat)) : Uncut 0 ts := fun _ _ h => Nat.not_lt_zero _ h.1

/-- The header phase. -/
theorem parse_spec (href : Accepted header ref) : ∀ (fuel : Nat) (s : SocketStream) (pos : Nat)
    {parser : HttpRequestParser}, s.connected = true → s.incoming = (header ++ tail).drop pos →
    s.incoming.length < fuel → Progress header relaxed ref pos parser →
    Uncut pos (tokens relaxed header) →
    (∀ k ∈ cuts header.length fuel s pos, Uncut k (tokens relaxed header)) →
    ∃ k n p, k ∈ cuts header.length fuel s pos ∧ header.length ≤ k ∧
      k < header.length + httpRequestBufferSize ∧ k ≤ (header ++ tail).length ∧
      parse fuel s [] parser = .ok (some (p, tail.take (k - header.length)),
        ⟨(header ++ tail).drop k, s.sizes.drop n, true⟩) ∧ p.data = ref.user.data
  | 0, _, _, _, _, _, hfuel, _, _, _ => absurd hfuel (Nat.not_lt_zero _)
  | fuel + 1, s, pos, parser, hc, hin, hfuel, hprog, hcut, hcuts => by
      have hpos := hprog.lt
      have hlen : s.incoming.length = header.length + tail.length - pos := by
        rw [hin, List.length_drop, List.length_append]
      have hne : s.incoming ≠ [] := List.ne_nil_of_length_pos (by omega)
      obtain ⟨k, hkpos, hkle, hklen, -, hread⟩ :=
        SocketStream.read_eq hc (show 0 < httpRequestBufferSize by decide) hne
      have hgot : (s.incoming.take k).length = k := by
        rw [List.length_take, Nat.min_eq_left hklen]
      rw [cuts] at hcuts ⊢
      simp only [hread, hgot] at hcuts ⊢
      have hdrop : (header ++ tail).drop pos = header.drop pos ++ tail :=
        List.drop_append_of_le_length (Nat.le_of_lt hpos)
      have hdata : [] ++ s.incoming.take k = (header.drop pos ++ tail).take k := by
        rw [List.nil_append, hin, hdrop]
      rw [parse, List.length_nil, Nat.sub_zero]
      simp only [hread, hdata]
      by_cases hend : pos + k < header.length
      · -- the parser takes all of the read
        have hpiece : (header.drop pos ++ tail).take k = (header.drop pos).take k :=
          List.take_append_of_le_length (by rw [List.length_drop]; omega)
        obtain ⟨p, hexec, herr, hfin, hprog'⟩ := hprog.execute_block href hcut hkpos hend
        obtain ⟨k', n, p', hmem, hle, hlt, htotal, hparse, hdata'⟩ :=
          parse_spec href fuel ⟨s.incoming.drop k, s.sizes.tail, true⟩
            (pos + k) rfl
            (by rw [hin, List.drop_drop]) (by rw [List.length_drop]; omega) hprog'
            (hcuts _ (List.mem_cons_self ..)) (fun k' hk' => hcuts k' (by
              rw [if_pos hend]
              exact List.mem_cons_of_mem _ hk'))
        refine ⟨k', n + 1, p', ?_, hle, hlt, htotal, ?_, hdata'⟩
        · rw [if_pos hend]
          exact List.mem_cons_of_mem _ hmem
        · have hrest : ((header.drop pos).take k).drop k = [] :=
            List.drop_eq_nil_of_le (List.length_take_le ..)
          rw [hpiece, hexec]
          show (if p.hasError then _ else _) = _
          rw [herr, if_neg Bool.false_ne_true, hrest, if_neg (by decide), hfin,
            if_neg Bool.false_ne_true, hparse, List.drop_tail]
      · -- the header block ends inside the read
        have hpiece : (header.drop pos ++ tail).take k =
            header.drop pos ++ tail.take (pos + k - header.length) := by
          rw [List.take_append, List.take_of_length_le (by rw [List.length_drop]; omega),
            List.length_drop, show k - (header.length - pos) = pos + k - header.length by omega]
        obtain ⟨p, hexec, herr, hfin, hdata'⟩ :=
          hprog.execute_last href hcut (tail.take (pos + k - header.length))
        have hrest : (header.drop pos ++ tail.take (pos + k - header.length)).drop
            (header.length - pos) = tail.take (pos + k - header.length) :=
          List.drop_left' (by rw [List.length_drop])
        have hshort : (tail.take (pos + k - header.length)).length ≠ httpRequestBufferSize := by
          rw [List.length_take]
          omega
        refine ⟨pos + k, 1, p, List.mem_cons_self .., by omega, by omega,
          by rw [List.length_append]; omega, ?_, hdata'⟩
        rw [hpiece, hexec]
        show (if p.hasError then _ else _) = _
        rw [herr, if_neg Bool.false_ne_true, hrest, if_neg hshort, hfin, if_pos rfl, hin,
          List.drop_drop, List.drop_one]
        rfl

/-- The body phase, with `m` bytes in `data` behind the header block. -/
theorem readBody_spec {s : SocketStream} (p : HttpRequestParser) (body rest : Bytes) {m : Nat}
    (hc : s.connected = true) (hm : m ≤ (body ++ rest).length)
    (hin : s.incoming = (body ++ rest).drop m)
    (hleft : m < body.length → 0 < toInt32 ((body.length - m : Nat) : Int)) :
    ∃ n, readBody s p ((body ++ rest).take m) body.length =
      (some { p.data with body := body }.init,
        ⟨(body ++ rest).drop (max m body.length), s.sizes.drop n, true⟩) := by
  have hlen : ((body ++ rest).take m).length = m := by
    rw [List.length_take, Nat.min_eq_left hm]
  rw [readBody]
  simp only [hlen]
  by_cases hmore : m < body.length
  · have htake : (body ++ rest).take m = body.take m :=
      List.take_append_of_le_length (Nat.le_of_lt hmore)
    have hgot : s.incoming.take (body.length - m) = body.drop m := by
      rw [hin, List.drop_append_of_le_length (Nat.le_of_lt hmore), List.take_left' (by simp)]
    have hsub : ((body.length : Int) - m).toNat = body.length - m := by omega
    obtain ⟨n, hread⟩ := SocketStream.readLeft_eq hc (Nat.le_refl (body.length - m)) (by
      rw [hin, List.length_drop, List.length_append]
      omega)
    have hfix : s.readFixSize (body.length - m) = (toInt32 ((body.length - m : Nat) : Int),
        body.drop m, ⟨(body ++ rest).drop body.length, s.sizes.drop n, true⟩) := by
      rw [SocketStream.readFixSize, hread]
      simp only
      rw [hgot, hin, List.drop_drop,
        Nat.add_sub_cancel' (Nat.le_of_lt hmore)]
    refine ⟨n, ?_⟩
    simp only [hsub, hfix]
    rw [if_pos (show (body.length : Int) ≥ m by omega),
      if_pos (show (body.length : Int) - m > 0 by omega),
      if_neg (Int.not_le.mpr (hleft hmore)), htake, List.take_append_drop,
      Nat.max_eq_right (Nat.le_of_lt hmore)]
  · refine ⟨0, ?_⟩
    have hhead : (if (body.length : Int) ≥ m then (body ++ rest).take m
        else ((body ++ rest).take m).take (body.length : Int).toNat) = body := by
      have hle : body.length ≤ m := Nat.le_of_not_lt hmore
      split
      · rw [List.take_left' (by omega)]
      · rw [Int.toNat_natCast, List.take_take, Nat.min_eq_left hle, List.take_left]
    rw [hhead, if_neg (by omega), Nat.max_eq_left (Nat.le_of_not_lt hmore), List.drop_zero, ← hin,
      ← hc]

/-- A whole request, delivered without cutting a token. -/
theorem recvRequest_spec (h : Valid relaxed header body r) (rest : Bytes) {s : SocketStream}
    (hc : s.connected = true) (hin : s.incoming = header ++ (body ++ rest))
    (hwhole : Whole relaxed header s) (hfits : Fits header body s) :
    ∃ k n, k ∈ cuts header.length (s.incoming.length + 1) s 0 ∧ header.length ≤ k ∧
      recvRequest relaxed s = .ok (some r,
        ⟨(body ++ rest).drop (max (k - header.length) body.length), s.sizes.drop n, true⟩) := by
  obtain ⟨ref, href, hprog, hlen, hr⟩ := h.accepted
  obtain ⟨k, n, p, hmem, hle, hlt, htotal, hparse, hdata⟩ := parse_spec href _ s 0 hc
    (by rw [hin, List.drop_zero]) (Nat.lt_succ_self _) hprog (uncut_zero _)
    hwhole
  have hleft := hfits k hmem hle
  rw [List.length_append] at htotal
  have hsmall : toInt64 body.length = body.length := if_pos h.1
  have hcontent : p.getContentLength = .ok body.length := by
    rw [HttpRequestParser.getContentLength, hdata]
    exact hlen
  have hdrop : (header ++ (body ++ rest)).drop k = (body ++ rest).drop (k - header.length) := by
    rw [List.drop_append, List.drop_eq_nil_of_le hle, List.nil_append]
  rw [hdrop] at hparse
  have hrecv : recvRequest relaxed s = (p.getContentLength >>= fun length =>
      if toInt64 length > 0 then .ok (readBody
        ⟨(body ++ rest).drop (k - header.length), s.sizes.drop n, true⟩ p
        ((body ++ rest).take (k - header.length)) (toInt64 length))
      else .ok (some p.data.init,
        ⟨(body ++ rest).drop (k - header.length), s.sizes.drop n, true⟩)) := by
    rw [recvRequest, hparse]
    rfl
  rw [hrecv, hcontent]
  show ∃ k n, _ ∧ _ ∧ (if toInt64 body.length > 0 then _ else _) = _
  rw [hsmall]
  by_cases hempty : body = []
  · subst hempty
    refine ⟨k, n, hmem, hle, ?_⟩
    rw [if_neg (by simp), hr, if_pos rfl, hdata, List.length_nil, Nat.max_zero]
  · have hpos : 0 < body.length := List.length_pos_iff.mpr hempty
    obtain ⟨n', hbody⟩ := readBody_spec p body rest
      (m := k - header.length)
      (s := ⟨(body ++ rest).drop (k - header.length), s.sizes.drop n, true⟩) rfl (by omega) rfl
      (fun hmore => by
        rw [show body.length - (k - header.length) = header.length + body.length - k by omega]
        exact hleft (by omega))
    refine ⟨k, n + n', hmem, hle, ?_⟩
    rw [if_pos (by omega), hbody, hr, if_neg hempty, hdata, List.drop_drop]

/-! ## Reads that return all they are asked for -/

/-- The first multiple of the buffer size behind `n` bytes. -/
def readEnd (n : Nat) : Nat :=
  (n + httpRequestBufferSize - 1) / httpRequestBufferSize * httpRequestBufferSize

/-- They end at the multiples of the buffer size, the last one perhaps
before. -/
theorem cuts_greedy {stop : Nat} : ∀ (fuel : Nat) {s : SocketStream} {i : Nat},
    s.connected = true → s.sizes = [] → httpRequestBufferSize * i < stop →
    stop ≤ httpRequestBufferSize * i + s.incoming.length →
    ∀ k ∈ cuts stop fuel s (httpRequestBufferSize * i),
      (stop ≤ k → k = min (readEnd stop) (httpRequestBufferSize * i + s.incoming.length)) ∧
        (k < stop → ∃ j, k = httpRequestBufferSize * j)
  | 0, _, _, _, _, _, _, _, hk => nomatch hk
  | fuel + 1, s, i, hc, hs, hpos, hstop, k, hk => by
      have hne : s.incoming ≠ [] := List.ne_nil_of_length_pos (by omega)
      obtain ⟨n, hn, hle, hlen, hshare, hread⟩ :=
        SocketStream.read_eq hc (show 0 < httpRequestBufferSize by decide) hne
      have hgot : (s.incoming.take n).length = n := by
        rw [List.length_take, Nat.min_eq_left hlen]
      have hfull : s.share httpRequestBufferSize = httpRequestBufferSize := by
        rw [SocketStream.share, hs]
        rfl
      rw [hfull] at hshare
      rw [cuts] at hk
      simp only [hread, hgot] at hk
      rcases List.mem_cons.mp hk with rfl | hk
      · have hpos' : 4096 * i < stop := hpos
        have hstop' : stop ≤ 4096 * i + s.incoming.length := hstop
        have hle' : n ≤ 4096 := hle
        have hshare' : n = 4096 ∨ n = s.incoming.length := hshare
        show (stop ≤ 4096 * i + n → 4096 * i + n = min ((stop + 4096 - 1) / 4096 * 4096)
          (4096 * i + s.incoming.length)) ∧ (4096 * i + n < stop → ∃ j, 4096 * i + n = 4096 * j)
        exact ⟨fun h => by omega, fun h => ⟨i + 1, by omega⟩⟩
      · by_cases hmore : httpRequestBufferSize * i + n < stop
        · rw [if_pos hmore] at hk
          obtain rfl : n = httpRequestBufferSize := by omega
          rw [← Nat.mul_succ] at hk
          rw [← Nat.mul_succ] at hmore
          obtain ⟨hlast, hmul⟩ := cuts_greedy fuel
            (s := ⟨s.incoming.drop httpRequestBufferSize, s.sizes.tail, true⟩) (i := i + 1) rfl
            (by rw [hs]; rfl) hmore (by rw [List.length_drop, Nat.mul_succ]; omega) k hk
          have hend : httpRequestBufferSize * (i + 1) +
              (s.incoming.drop httpRequestBufferSize).length =
              httpRequestBufferSize * i + s.incoming.length := by
            rw [List.length_drop, Nat.mul_succ]
            omega
          exact ⟨fun h => hend ▸ hlast h, hmul⟩
        · rw [if_neg hmore] at hk
          cases hk

theorem whole_greedy {s : SocketStream} (hc : s.connected = true) (hs : s.sizes = [])
    (hpos : 0 < header.length) (hle : header.length ≤ s.incoming.length)
    (hcut : ∀ j, httpRequestBufferSize * j < header.length →
      Uncut (httpRequestBufferSize * j) (tokens relaxed header)) : Whole relaxed header s := by
  intro k hk
  obtain ⟨-, hmul⟩ := cuts_greedy _ (i := 0) hc hs hpos (by rw [Nat.mul_zero, Nat.zero_add]; exact hle)
    k hk
  rcases Nat.lt_or_ge k header.length with hlt | hge
  · obtain ⟨j, rfl⟩ := hmul hlt
    exact hcut j hlt
  · exact uncut_of_le hge

theorem Valid.pos (h : Valid relaxed header body r) : 0 < header.length := by
  obtain ⟨ref, -, hprog, -⟩ := h.accepted
  exact hprog.lt

/-- **Every delivery of a request that cuts no token of its header block
yields the request** that reads of full size yield. -/
theorem recvRequest_delivery (h : Valid relaxed header body r)
    (hlen : header.length ≤ httpRequestBufferSize) (rest : Bytes) (sizes : List Nat)
    (hwhole : Whole relaxed header ⟨header ++ (body ++ rest), sizes, true⟩)
    (hfits : Fits header body ⟨header ++ (body ++ rest), sizes, true⟩)
    (hfull : Fits header body ⟨header ++ (body ++ rest), [], true⟩) :
    (recvRequest relaxed ⟨header ++ (body ++ rest), sizes, true⟩).map Prod.fst = .ok (some r) ∧
      (recvRequest relaxed ⟨header ++ (body ++ rest), sizes, true⟩).map Prod.fst =
        (recvRequest relaxed ⟨header ++ (body ++ rest), [], true⟩).map Prod.fst := by
  have hgreedy : Whole relaxed header ⟨header ++ (body ++ rest), [], true⟩ := by
    refine whole_greedy rfl rfl h.pos (by simp) fun j hj => ?_
    obtain rfl : j = 0 := by
      simp only [httpRequestBufferSize] at hlen hj
      omega
    exact uncut_zero _
  obtain ⟨k, n, -, -, hrecv⟩ := recvRequest_spec h rest rfl rfl hwhole hfits
  obtain ⟨k', n', -, -, hrecv'⟩ := recvRequest_spec h rest rfl rfl hgreedy hfull
  rw [hrecv, hrecv']
  exact ⟨rfl, rfl⟩

theorem valid_get : Valid false (bytes "GET / HTTP/1.1\r\nHost: x\r\n\r\n") []
    { HttpRequest.new with headers := [(bytes "Host", bytes "x")] } :=
  ⟨by decide, _, rfl, by decide, by decide, by decide, by decide⟩

/-- The three reads of this delivery end between the tokens. -/
theorem recvRequest_delivery_three :
    (recvRequest false ⟨bytes "GET / HTTP/1.1\r\nHost: x\r\n\r\n", [4, 2], true⟩).map
      Prod.fst = .ok (some { HttpRequest.new with headers := [(bytes "Host", bytes "x")] }) :=
  (recvRequest_delivery valid_get (by decide) [] [4, 2] (by unfold Whole; decide)
    (by unfold Fits; decide) (by unfold Fits; decide)).1

/-- A read that ends behind the blank of a header loses the header. -/
theorem delivery_can_matter :
    Valid false (bytes "GET / HTTP/1.1\r\nHost: x\r\n\r\n") []
        { HttpRequest.new with headers := [(bytes "Host", bytes "x")] } ∧
      (recvRequest false ⟨bytes "GET / HTTP/1.1\r\nHost: x\r\n\r\n", [22], true⟩).map
        Prod.fst = .ok (some HttpRequest.new) ∧
      (recvRequest false ⟨bytes "GET / HTTP/1.1\r\nHost: x\r\n\r\n", [], true⟩).map
        Prod.fst = .ok (some { HttpRequest.new with headers := [(bytes "Host", bytes "x")] }) :=
  ⟨valid_get, by decide, by decide⟩

end HttpSession

end Sylar
