import Sylar.HttpConnection
import Sylar.Lib.System

/-!
# A response that is not received

Every exit of `recvResponse` without a response has closed the
connection, and the loops do come to one of their exits: each turn takes
a byte at least, of the stream or of the buffer.
-/

namespace Sylar

namespace HttpConnection

open Scanner

variable {s s' : SocketStream} {n fuel : Nat} {got data body : Bytes}
  {parser parser' : HttpResponseParser}

theorem read_shrinks (h : s.read n = (some got, s')) :
    s'.incoming.length + got.length = s.incoming.length ∧ 0 < got.length := by
  rw [SocketStream.read] at h
  split at h
  · cases h
  · rename_i hmay
    simp only [not_or] at hmay
    obtain ⟨-, hin, hn⟩ := hmay
    obtain ⟨rfl, rfl⟩ := Prod.mk.inj h |>.imp_left Option.some.inj
    have hshare := SocketStream.share_pos (s := s) (Nat.pos_of_ne_zero hn)
    have hpos := List.length_pos_iff.mpr hin
    simp only [List.length_drop, List.length_take]
    omega

theorem read_none (h : s.read n = (none, s')) : s' = s := by
  rw [SocketStream.read] at h
  split at h
  · exact (Prod.mk.inj h).2.symm
  · cases h

/-- An execution on the size line of a chunk that has finished has parsed
something. -/
theorem execute_pos (h : parser.execute data true = .ok (n, parser'))
    (hfinished : parser'.isFinished = true) : 0 < n ∧ n ≤ data.length := by
  obtain ⟨r, hexec, -, rfl, rfl⟩ := HttpResponseParser.execute_ok h
  have hle := exec_p_le hexec
  refine ⟨?_, by omega⟩
  have hcs : r.cs = HttpClient.firstFinal := by
    simpa [HttpResponseParser.isFinished, HttpClientParser.isFinished] using hfinished
  cases data with
  | nil =>
      obtain rfl := Except.ok.inj hexec
      cases hcs
  | cons b bs =>
      cases he : next HttpClient.machine HttpClient.start b with
      | none =>
          have herror := (exec_error he).symm.trans hexec
          obtain rfl := Except.ok.inj herror
          cases hcs
      | some e =>
          have hrun := (exec_cons he).symm.trans hexec
          obtain ⟨u, -, hrun⟩ := bind_eq_ok.mp hrun
          split at hrun
          · obtain rfl := Except.ok.inj hrun
            exact Nat.succ_pos _
          · exact (exec_p_le hrun).1

/-- Unless the response is there, the loop has closed the connection. -/
theorem parse_closed : ∀ {fuel : Nat} {s s' : SocketStream} {data : Bytes}
    {parser : HttpResponseParser}, s.incoming.length < fuel →
    parse fuel s data parser = .ok (none, s') → s'.connected = false
  | 0, s, s', data, parser, hfuel, h => nomatch hfuel
  | fuel + 1, s, s', data, parser, hfuel, h => by
      rw [parse] at h
      split at h
      · obtain rfl := (Prod.mk.inj (Except.ok.inj h)).2
        rfl
      · rename_i got t hread
        obtain ⟨hlen, hpos⟩ := read_shrinks hread
        obtain ⟨⟨nparse, p⟩, -, h⟩ := bind_eq_ok.mp h
        dsimp only at h
        split at h
        · obtain rfl := (Prod.mk.inj (Except.ok.inj h)).2
          rfl
        split at h
        · obtain rfl := (Prod.mk.inj (Except.ok.inj h)).2
          rfl
        split at h
        · cases h
        · exact parse_closed (by omega) h

theorem readMore_keeps {begin_ : Bool} (h : readMore s begin_ data = (some got, s')) :
    s'.incoming.length + got.length = s.incoming.length + data.length ∧
      ((begin_ = true ∧ data ≠ [] ∧ s'.incoming.length = s.incoming.length) ∨
        s'.incoming.length < s.incoming.length) := by
  rw [readMore] at h
  split at h
  · split at h
    · cases h
    · rename_i more t hread
      obtain ⟨hlen, hpos⟩ := read_shrinks hread
      obtain ⟨rfl, rfl⟩ := (Prod.mk.inj h).imp_left Option.some.inj
      rw [List.length_append]
      exact ⟨by omega, .inr (by omega)⟩
  · rename_i hmay
    obtain ⟨rfl, rfl⟩ := (Prod.mk.inj h).imp_left Option.some.inj
    simp only [Bool.not_eq_true', not_or, Bool.not_eq_false] at hmay
    exact ⟨rfl, .inl ⟨hmay.1, hmay.2, rfl⟩⟩

/-- The loop over a size line. -/
theorem parseChunk_closed : ∀ {fuel : Nat} {s s' : SocketStream} {begin_ : Bool} {data : Bytes}
    {parser : HttpResponseParser} {r : Option (HttpResponseParser × Bytes)},
    s.incoming.length < fuel → (begin_ = true → data ≠ [] → s.incoming.length + 1 < fuel) →
    parseChunk fuel s begin_ data parser = .ok (r, s') →
    (r = none → s'.connected = false) ∧ ∀ parser' data', r = some (parser', data') →
      s'.incoming.length + data'.length < s.incoming.length + data.length
  | 0, s, s', begin_, data, parser, r, hfuel, _, h => nomatch hfuel
  | fuel + 1, s, s', begin_, data, parser, r, hfuel, hfirst, h => by
      rw [parseChunk] at h
      split at h
      · obtain ⟨rfl, rfl⟩ := Prod.mk.inj (Except.ok.inj h)
        exact ⟨fun _ => rfl, fun _ _ hr => nomatch hr⟩
      · rename_i more t hread
        obtain ⟨hlen, hless⟩ := readMore_keeps hread
        obtain ⟨⟨nparse, p⟩, hexec, h⟩ := bind_eq_ok.mp h
        dsimp only at h
        split at h
        · obtain ⟨rfl, rfl⟩ := Prod.mk.inj (Except.ok.inj h)
          exact ⟨fun _ => rfl, fun _ _ hr => nomatch hr⟩
        split at h
        · obtain ⟨rfl, rfl⟩ := Prod.mk.inj (Except.ok.inj h)
          exact ⟨fun _ => rfl, fun _ _ hr => nomatch hr⟩
        split at h
        · rename_i hfinished
          obtain ⟨rfl, rfl⟩ := Prod.mk.inj (Except.ok.inj h)
          obtain ⟨hpos, hle⟩ := execute_pos hexec hfinished
          refine ⟨(nomatch ·), fun parser' data' hr => ?_⟩
          obtain ⟨rfl, rfl⟩ := Prod.mk.inj (Option.some.inj hr)
          rw [List.length_drop]
          omega
        · have hturn : t.incoming.length < fuel := by
            obtain ⟨hbegin, hdata, heq⟩ | hless := hless
            · have hlt := hfirst hbegin hdata
              omega
            · omega
          have hrest := parseChunk_closed hturn (fun hbegin => by cases hbegin) h
          rw [List.length_drop] at hrest
          refine ⟨hrest.1, fun parser' data' hr => ?_⟩
          have hlt := hrest.2 parser' data' hr
          omega

theorem readRest_keeps : ∀ {fuel : Nat} {s s' : SocketStream} {left : Int} {r : Option Bytes},
    readRest fuel s left = (r, s') → s'.incoming.length ≤ s.incoming.length
  | 0, s, s', left, r, h => by
      rw [readRest] at h
      split at h
      · rw [← (Prod.mk.inj h).2]
      · rw [← (Prod.mk.inj h).2]
  | fuel + 1, s, s', left, r, h => by
      rw [readRest] at h
      split at h
      · split at h
        · rename_i t hread
          rw [← (Prod.mk.inj h).2, read_none hread]
        · rename_i got t hread
          obtain ⟨hlen, -⟩ := read_shrinks hread
          split at h
          · rename_i u hrest
            have hle := readRest_keeps hrest
            obtain ⟨-, rfl⟩ := Prod.mk.inj h
            omega
          · rename_i rest u hrest
            have hle := readRest_keeps hrest
            obtain ⟨-, rfl⟩ := Prod.mk.inj h
            omega
      · rw [← (Prod.mk.inj h).2]

theorem takeChunk_spec {contentLen : Int} {r : Option (Bytes × Bytes)}
    (h : takeChunk s body data contentLen = .ok (r, s')) :
    (r = none → s'.connected = false) ∧ ∀ body' data', r = some (body', data') →
      s'.incoming.length + data'.length ≤ s.incoming.length + data.length := by
  rw [takeChunk] at h
  split at h
  · obtain ⟨b, -, h⟩ := bind_eq_ok.mp h
    obtain ⟨rfl, rfl⟩ := Prod.mk.inj (Except.ok.inj h)
    refine ⟨(nomatch ·), fun body' data' hr => ?_⟩
    obtain ⟨rfl, rfl⟩ := Prod.mk.inj (Option.some.inj hr)
    rw [List.length_drop]
    omega
  · dsimp only at h
    split at h
    · obtain ⟨rfl, rfl⟩ := Prod.mk.inj (Except.ok.inj h)
      exact ⟨fun _ => rfl, fun _ _ hr => nomatch hr⟩
    · rename_i rest t hrest
      have hle := readRest_keeps hrest
      obtain ⟨b, -, h⟩ := bind_eq_ok.mp h
      obtain ⟨rfl, rfl⟩ := Prod.mk.inj (Except.ok.inj h)
      refine ⟨(nomatch ·), fun body' data' hr => ?_⟩
      obtain ⟨rfl, rfl⟩ := Prod.mk.inj (Option.some.inj hr)
      rw [List.length_nil]
      omega

theorem readChunks_closed : ∀ {fuel : Nat} {s s' : SocketStream} {body data : Bytes}
    {parser : HttpResponseParser}, s.incoming.length + data.length < fuel →
    readChunks fuel s body data parser = .ok (none, s') → s'.connected = false
  | 0, s, s', body, data, parser, hfuel, h => nomatch hfuel
  | fuel + 1, s, s', body, data, parser, hfuel, h => by
      rw [readChunks] at h
      obtain ⟨⟨r, t⟩, hparse, h⟩ := bind_eq_ok.mp h
      obtain ⟨hclosed, hless⟩ := parseChunk_closed (by omega) (fun _ hdata => by
        have hpos := List.length_pos_iff.mpr hdata
        omega) hparse
      cases r with
      | none =>
          obtain ⟨-, rfl⟩ := Prod.mk.inj (Except.ok.inj h)
          exact hclosed rfl
      | some got =>
          obtain ⟨p, rest⟩ := got
          have hlt := hless p rest rfl
          obtain ⟨⟨r, u⟩, htake, h⟩ := bind_eq_ok.mp h
          obtain ⟨hclosed, hle⟩ := takeChunk_spec htake
          cases r with
          | none =>
              obtain ⟨-, rfl⟩ := Prod.mk.inj (Except.ok.inj h)
              exact hclosed rfl
          | some got =>
              obtain ⟨body', data'⟩ := got
              have hle := hle body' data' rfl
              dsimp only at h
              split at h
              · cases h
              · exact readChunks_closed (by omega) h

theorem readBody_closed {length : Int} (h : readBody s data length = (none, s')) :
    s'.connected = false := by
  rw [readBody] at h
  dsimp only at h
  split at h
  · split at h
    · rw [← (Prod.mk.inj h).2]
      rfl
    · cases h
  · cases h

/-- **Without a response the connection is closed.** -/
theorem recvResponse_closed {inflate : ZlibFormat → Bytes → Bytes}
    (h : recvResponse inflate s = .ok (none, s')) : s'.connected = false := by
  rw [recvResponse] at h
  obtain ⟨⟨r, t⟩, hparse, h⟩ := bind_eq_ok.mp h
  cases r with
  | none =>
      obtain ⟨-, rfl⟩ := Prod.mk.inj (Except.ok.inj h)
      exact parse_closed (Nat.lt_succ_self _) hparse
  | some got =>
      obtain ⟨p, data⟩ := got
      dsimp only at h
      split at h
      · obtain ⟨⟨r, u⟩, hchunks, h⟩ := bind_eq_ok.mp h
        cases r with
        | none =>
            obtain ⟨-, rfl⟩ := Prod.mk.inj (Except.ok.inj h)
            exact readChunks_closed (Nat.lt_succ_self _) hchunks
        | some got => cases h
      · obtain ⟨n, -, h⟩ := bind_eq_ok.mp h
        split at h
        · split at h
          · rename_i u hbody
            obtain ⟨-, rfl⟩ := Prod.mk.inj (Except.ok.inj h)
            exact readBody_closed hbody
          · cases h
        · cases h

end HttpConnection

end Sylar
