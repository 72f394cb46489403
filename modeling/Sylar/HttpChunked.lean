import Sylar.HttpConnection
import Sylar.HttpTransferEncoding

/-!
# A response in chunks

What `recvResponse` makes of a body in chunks. The parser starts afresh
with every execution on the size line of a chunk, so that a line has to
be in the buffer as a whole when it is parsed (`Unbroken`); the payload
and the line break behind it may be cut anywhere.
-/

namespace Sylar

open Scanner

/-! ## Hexadecimal numbers -/

/-- The value of hexadecimal digits. -/
def hexValue (ds : Bytes) : Nat := ofDigits 16 (ds.filterMap digit)

theorem digits_hex {ds : Bytes} (h : ∀ b ∈ ds, isXdigit b = true) (rest : Bytes) :
    digits 16 (ds ++ 13 :: rest) = (ds.filterMap digit, 13 :: rest) := by
  have hdigit : ∀ b, isXdigit b = true → ∃ d < 16, digit b = some d := by
    have hall : ∀ b, isXdigit b = true → (digit b).any (· < 16) = true := by decide +kernel
    intro b hb
    obtain ⟨d, hd, hlt⟩ := (Option.any_eq_true ..).mp (hall b hb)
    exact ⟨d, of_decide_eq_true hlt, hd⟩
  induction ds with
  | nil => rfl
  | cons b ds ih =>
      obtain ⟨d, hlt, hd⟩ := hdigit b (h b (List.mem_cons_self ..))
      rw [List.cons_append, digits, hd, List.filterMap_cons_some hd,
        ih fun b' hb' => h b' (List.mem_cons_of_mem _ hb')]
      exact if_pos hlt

/-- `strtol` stops at the end of the digits, and at the greatest `long`. -/
theorem strtol_hex {ds : Bytes} (hne : ds ≠ []) (h : ∀ b ∈ ds, isXdigit b = true) (rest : Bytes) :
    strtol (ds ++ 13 :: rest) 16 = min (hexValue ds : Int) (2 ^ 63 - 1) := by
  have hchar : ∀ b, isXdigit b = true ∨ b = 13 → tolower b ≠ 120 := by decide +kernel
  have hfirst : ∀ b, isXdigit b = true → isspace b = false ∧ b ≠ 45 ∧ b ≠ 43 := by decide +kernel
  have hdigits := digits_hex h rest
  obtain ⟨c, cs, rfl⟩ := List.exists_cons_of_ne_nil hne
  obtain ⟨hspace, hminus, hplus⟩ := hfirst c (h c (List.mem_cons_self ..))
  have hsign : sign (((c :: cs) ++ 13 :: rest).dropWhile isspace) =
      (false, (c :: cs) ++ 13 :: rest) := by
    rw [List.cons_append, List.dropWhile_cons_of_neg (by rw [hspace]; decide), sign,
      if_neg hminus, if_neg hplus]
  have hprefix : hexPrefix ((c :: cs) ++ 13 :: rest) = none := by
    unfold hexPrefix
    split
    · rename_i x d bs heq
      have hx : isXdigit x = true ∨ x = 13 := by
        cases cs with
        | nil => exact .inr (List.cons.inj (List.cons.inj heq).2).1.symm
        | cons y ys =>
            obtain rfl := (List.cons.inj (List.cons.inj heq).2).1
            exact .inl (h y (by simp))
      rw [if_neg fun hpre => hchar x hx hpre.1]
    · rfl
  rw [strtol, hsign]
  simp only [↓reduceIte, hprefix, Option.getD_none, hdigits, Bool.false_eq_true]
  rfl

/-! ## The size line of a chunk -/

/-- What `content_len` becomes. -/
def chunkLen (line : Bytes) : Int := toInt32 (min (hexValue line : Int) (2 ^ 63 - 1))

theorem chunkLen_small {line : Bytes} (h : hexValue line < 2 ^ 31) :
    chunkLen line = hexValue line := by
  rw [chunkLen, min_eq_left (by omega), toInt32_eq h]

/-- Behind the digits of a size line. -/
def HttpClientParser.narrowed (cs bodyStart : Nat) (contentLen : Int) : HttpClientParser :=
  { init with cs, bodyStart, chunked := true, contentLen, chunksDone := contentLen ≤ 0 }

/-- With a size that an `int` has. -/
def HttpClientParser.sized (cs bodyStart n : Nat) : HttpClientParser :=
  { init with cs, bodyStart, chunked := true, contentLen := n, chunksDone := (n : Int) ≤ 0 }

namespace HttpResponseParser

/-- What the digits of a size line do, and their end. -/
theorem move_digit {b : UInt8} (h : isXdigit b = true) :
    move HttpClient.machine 1 b = some ([.mark], 2) ∧
      move HttpClient.machine 2 b = some ([], 2) := by
  have hall : ∀ b, isXdigit b = true → move HttpClient.machine 1 b = some ([.mark], 2) ∧
      move HttpClient.machine 2 b = some ([], 2) := by
    decide +kernel
  exact hall b h

variable {line buffer rest : Bytes}

/-- The digits. -/
theorem leads_digits (hne : line ≠ []) (hline : ∀ b ∈ line, isXdigit b = true)
    (hbuffer : buffer.drop 0 = line ++ rest) (r : HttpResponseParser) :
    Leads HttpClient.machine HttpClient.stops (act buffer) buffer 0 1
      { r with parser := .init } line.length 2 { r with parser := .init } := by
  obtain ⟨b, bs, rfl⟩ := List.exists_cons_of_ne_nil hne
  have hmark : Leads HttpClient.machine HttpClient.stops (act buffer) buffer 0 1
      { r with parser := .init } 1 2 { r with parser := .init } :=
    leads_move hbuffer (move_digit (hline b (List.mem_cons_self ..))).1 rfl rfl
  have hdigits : Leads HttpClient.machine HttpClient.stops (act buffer) buffer 1 2
      { r with parser := .init } (1 + bs.length) 2 { r with parser := .init } :=
    leads_walk (drop_succ hbuffer)
      (walk_loop fun b' hb' => (move_digit (hline b' (List.mem_cons_of_mem _ hb'))).2) _
  rw [List.length_cons, Nat.add_comm]
  exact hmark.trans hdigits

/-- And the first byte of the line break, with the action on the size. -/
theorem leads_size (hne : line ≠ []) (hline : ∀ b ∈ line, isXdigit b = true)
    (hbuffer : buffer.drop 0 = line ++ 13 :: rest) (r : HttpResponseParser) :
    Leads HttpClient.machine HttpClient.stops (act buffer) buffer 0 1
      { r with parser := .init } (line.length + 1) 3
      { r with parser := .narrowed 1 0 (chunkLen line) } := by
  have hsize : toInt32 (strtol (buffer.drop 0) 16) = chunkLen line := by
    rw [hbuffer, strtol_hex hne hline, chunkLen]
  have hact : act buffer line.length .chunkSize { r with parser := .init } =
      .ok { r with parser := .narrowed 1 0 (chunkLen line) } := by
    rw [HttpClientParser.narrowed, ← hsize]
    rfl
  have hmove : move HttpClient.machine 2 13 = some ([.chunkSize], 3) := by decide
  have hcr : buffer.drop line.length = 13 :: rest := by
    have hdrop := drop_add_length hbuffer
    rwa [Nat.zero_add] at hdrop
  exact (leads_digits hne hline hbuffer r).trans
    (leads_move hcr hmove rfl (perform_cons hact []))

/-- The checks of an execution on a size line. -/
theorem checked_init {r : HttpClientParser} (hr : r.mark = 0 ∧ r.fieldLen = 0 ∧ r.fieldStart = 0)
    (hne : buffer ≠ []) : Checked r buffer.length := by
  have hpos := List.length_pos_iff.mpr hne
  rw [Checked, hr.1, hr.2.1, hr.2.2]
  exact ⟨hpos, Nat.zero_le _, hpos⟩

/-- From the run to the execution. -/
theorem execute_of_exec {r : HttpResponseParser} {h : Halt HttpResponseParser}
    (hexec : exec HttpClient.machine HttpClient.stops (act buffer) buffer 0 HttpClient.start
      { r with parser := .init } = .ok h)
    (hbody : h.user.parser.bodyStart ≤ buffer.length)
    (hchecked : Checked { h.user.parser with cs := h.cs } buffer.length) :
    r.execute buffer true =
      .ok (h.p, { h.user with parser := { h.user.parser with cs := h.cs } }) := by
  rw [execute]
  exact Eq.trans (congrArg (· >>= _) hexec)
    ((if_neg (Nat.not_lt.mpr hbody)).trans (if_pos hchecked))

/-- An execution on a size line. -/
theorem execute_narrowed (hne : line ≠ []) (hline : ∀ b ∈ line, isXdigit b = true) (rest : Bytes)
    (r : HttpResponseParser) : r.execute (line ++ 13 :: 10 :: rest) true =
      .ok (line.length + 2,
        { r with parser := .narrowed 120 (line.length + 2) (chunkLen line) }) := by
  obtain ⟨buffer, hbuffer⟩ : ∃ buffer, buffer = line ++ 13 :: 10 :: rest := ⟨_, rfl⟩
  have hat : buffer.drop 0 = line ++ 13 :: 10 :: rest := hbuffer
  have hlead := leads_size hne hline hat r
  have hmove : move HttpClient.machine 3 10 = some ([.done], 120) := by decide
  have hlf : buffer.drop (line.length + 1) = 10 :: rest := by
    have hdrop := drop_succ (drop_add_length hat)
    rwa [Nat.zero_add] at hdrop
  rw [← hbuffer]
  exact execute_of_exec (Eq.trans hlead (exec_stop hlf hmove rfl rfl))
    (by show line.length + 2 ≤ buffer.length; rw [hbuffer]; simp)
    (checked_init ⟨rfl, rfl, rfl⟩ (by rw [hbuffer]; simp))

theorem execute_line {line : Bytes} (rest : Bytes) (hne : line ≠ [])
    (hline : ∀ b ∈ line, isXdigit b = true) (hlt : hexValue line < 2 ^ 31)
    (r : HttpResponseParser) : r.execute (line ++ 13 :: 10 :: rest) true =
      .ok (line.length + 2, { r with parser := .sized 120 (line.length + 2) (hexValue line) }) := by
  rw [execute_narrowed hne hline, chunkLen_small hlt]
  rfl

end HttpResponseParser

/-! ## Chunks -/

/-- A chunk: its size as it is written, and its payload. -/
structure Chunk where
  size : Bytes
  data : Bytes
deriving Repr, DecidableEq

namespace Chunk

def text (c : Chunk) : Bytes :=
  c.size ++ HttpRequest.crlf ++ c.data ++ HttpRequest.crlf

/-- The size is the one of the payload, and no chunk is longer than the
claimed `int`s allow. -/
structure Valid (c : Chunk) : Prop where
  ne_nil : c.size ≠ []
  digits : ∀ b ∈ c.size, isXdigit b = true
  size : hexValue c.size = c.data.length
  small : c.data.length ≤ 2 ^ 31 - 3

theorem text_append (c : Chunk) (rest : Bytes) :
    c.text ++ rest = c.size ++ 13 :: 10 :: (c.data ++ 13 :: 10 :: rest) := by
  simp [text, HttpRequest.crlf]

end Chunk

namespace HttpConnection

/-- The buffer when a size line is parsed, which is read if it is empty:
how many bytes it holds. -/
def fill (s : SocketStream) (n : Nat) : Nat × SocketStream :=
  if n = 0 then
    match s.read httpResponseBufferSize with
    | (none, s) => (0, s)
    | (some got, s) => (got.length, s)
  else (n, s)

/-- No read ends inside the size line of a chunk; at the first of them
there are `n` bytes in the buffer. -/
def Unbroken : List Chunk → SocketStream → Nat → Prop
  | [], _, _ => True
  | c :: cs, s, n =>
      let m := c.size.length + 2 + (c.data.length + 2)
      c.size.length + 2 ≤ (fill s n).1 ∧
        if m ≤ (fill s n).1 then Unbroken cs (fill s n).2 ((fill s n).1 - m)
        else Unbroken cs (readRest (m - (fill s n).1) (fill s n).2 (m - (fill s n).1 : Nat)).2 0

instance decUnbroken : (cs : List Chunk) → (s : SocketStream) → (n : Nat) →
    Decidable (Unbroken cs s n)
  | [], _, _ => inferInstanceAs (Decidable True)
  | _ :: cs, _, _ =>
      have : ∀ s n, Decidable (Unbroken cs s n) := decUnbroken cs
      inferInstanceAs (Decidable (_ ∧ ite _ _ _))

/-- Of `text`, `n` bytes are in the buffer and the others in the stream. -/
structure Holds (text : Bytes) (s : SocketStream) (n : Nat) : Prop where
  connected : s.connected = true
  incoming : s.incoming = text.drop n
  le : n ≤ text.length
  fits : n ≤ httpResponseBufferSize

variable {text rest : Bytes} {s : SocketStream} {n : Nat}

theorem fill_spec (h : Holds text s n) (hne : text ≠ []) :
    Holds text (fill s n).2 (fill s n).1 ∧
      readMore s true (text.take n) = (some (text.take (fill s n).1), (fill s n).2) := by
  have hlen : (text.take n).length = n := by rw [List.length_take, Nat.min_eq_left h.le]
  by_cases hn : n = 0
  · subst hn
    have hin : s.incoming = text := h.incoming
    obtain ⟨k, -, hle, hk, -, hread⟩ := SocketStream.read_eq h.connected
      (show 0 < httpResponseBufferSize by decide) (by rw [hin]; exact hne)
    rw [hin] at hread hk
    have hgot : (text.take k).length = k := by rw [List.length_take, Nat.min_eq_left hk]
    have hfill : fill s 0 = (k, ⟨text.drop k, s.sizes.tail, true⟩) := by
      rw [fill, if_pos rfl, hread]
      simp only [hgot]
    rw [hfill, readMore, if_pos (.inr rfl), List.take_zero, List.length_nil, Nat.sub_zero, hread]
    exact ⟨⟨rfl, rfl, hk, hle⟩, rfl⟩
  · have hfill : fill s n = (n, s) := if_neg hn
    have hdata : text.take n ≠ [] := List.ne_nil_of_length_pos (by omega)
    rw [hfill, readMore, if_neg (by simp [hdata])]
    exact ⟨h, rfl⟩

/-- The size line of a chunk. -/
theorem parseChunk_spec {c : Chunk} (hc : c.Valid) (htext : text = c.size ++ 13 :: 10 :: rest)
    (h : Holds text s n) (hline : c.size.length + 2 ≤ (fill s n).1) {fuel : Nat} (hfuel : 0 < fuel)
    {r : HttpResponseParser} (herror : r.error = 0) :
    parseChunk fuel s true (text.take n) r =
      .ok (some ({ r with parser := .sized 120 (c.size.length + 2) c.data.length },
        rest.take ((fill s n).1 - (c.size.length + 2))), (fill s n).2) := by
  obtain ⟨fuel, rfl⟩ := Nat.exists_eq_add_one_of_ne_zero (Nat.ne_of_gt hfuel)
  obtain ⟨hheld, hbuffer⟩ := fill_spec h (by rw [htext]; simp)
  have htake : text.take (fill s n).1 =
      c.size ++ 13 :: 10 :: rest.take ((fill s n).1 - (c.size.length + 2)) := by
    obtain ⟨m, hm⟩ : ∃ m, (fill s n).1 = c.size.length + 2 + m := ⟨_, (Nat.add_sub_cancel' hline).symm⟩
    rw [hm, htext, Nat.add_sub_cancel_left, List.take_append, List.take_of_length_le (by omega),
      show c.size.length + 2 + m - c.size.length = m + 1 + 1 by omega, List.take_succ_cons,
      List.take_succ_cons]
  have hexecute := HttpResponseParser.execute_line
    (rest.take ((fill s n).1 - (c.size.length + 2))) hc.ne_nil hc.digits
    (by rw [hc.size]; have := hc.small; omega) r
  have hdrop : (c.size ++ 13 :: 10 :: rest.take ((fill s n).1 - (c.size.length + 2))).drop
      (c.size.length + 2) = rest.take ((fill s n).1 - (c.size.length + 2)) := by
    rw [← List.drop_drop, List.drop_left]
    rfl
  have hshort : (rest.take ((fill s n).1 - (c.size.length + 2))).length ≠
      httpResponseBufferSize := by
    have := hheld.fits
    rw [List.length_take]
    omega
  have hgood : HttpResponseParser.hasError
      { r with parser := .sized 120 (c.size.length + 2) c.data.length } = false := by
    simp [HttpResponseParser.hasError, HttpClientParser.hasError, HttpClientParser.sized, herror]
  rw [hc.size] at hexecute
  rw [parseChunk, hbuffer, htake]
  simp only [hexecute]
  show (if HttpResponseParser.hasError _ = true then _ else _) = _
  rw [hgood, if_neg Bool.false_ne_true]
  simp only [hdrop]
  rw [if_neg hshort]
  rfl

/-- `readRest` delivers what is there. -/
theorem readRest_eq : ∀ {fuel : Nat} {s : SocketStream} {left : Nat}, s.connected = true →
    left ≤ fuel → left ≤ s.incoming.length →
    ∃ n, readRest fuel s left =
      (some (s.incoming.take left), ⟨s.incoming.drop left, s.sizes.drop n, true⟩)
  | fuel, s, 0, hc, _, _ => by
      refine ⟨0, ?_⟩
      have hnone : readRest fuel s (0 : Nat) = (some [], s) := by
        cases fuel <;> exact if_neg (by decide)
      rw [hnone, List.take_zero, List.drop_zero, List.drop_zero, ← hc]
  | fuel + 1, s, left + 1, hc, hfuel, hlen => by
      have hin : s.incoming ≠ [] := List.length_pos_iff.mp (by omega)
      obtain ⟨k, hpos, hle, hk, -, hread⟩ := SocketStream.read_eq hc
        (show 0 < min (left + 1) httpResponseBufferSize by
          simp only [httpResponseBufferSize]; omega) hin
      have hkleft : k ≤ left + 1 := hle.trans (Nat.min_le_left ..)
      obtain ⟨n, hrest⟩ := @readRest_eq fuel ⟨s.incoming.drop k, s.sizes.tail, true⟩
        (left + 1 - k) rfl (by omega) (by rw [List.length_drop]; omega)
      have hgot : ((left + 1 : Nat) : Int) - (s.incoming.take k).length = (left + 1 - k : Nat) := by
        rw [List.length_take, Nat.min_eq_left hk]
        omega
      refine ⟨n + 1, ?_⟩
      rw [readRest, if_pos (by omega), Int.toNat_natCast]
      simp only [hread, hgot, hrest]
      rw [← List.take_add, List.drop_drop, Nat.add_sub_cancel' hkleft, List.drop_tail]

theorem dropCrlf_append (body : Bytes) : dropCrlf (body ++ HttpRequest.crlf) = .ok body := by
  rw [dropCrlf, if_neg (by simp [HttpRequest.crlf])]
  simp [HttpRequest.crlf]

/-- The payload of a chunk with the line break: all of it is in the
buffer. -/
theorem takeChunk_buffered {c : Chunk} (hc : c.Valid) (body : Bytes)
    (h : Holds (c.data ++ 13 :: 10 :: rest) s n) (hall : c.data.length + 2 ≤ n) :
    takeChunk s body ((c.data ++ 13 :: 10 :: rest).take n) c.data.length =
        .ok (some (body ++ c.data, rest.take (n - (c.data.length + 2))), s) ∧
      Holds rest s (n - (c.data.length + 2)) := by
  have hsmall := hc.small
  have hsize : toInt32 ((c.data.length : Int) + 2) = (c.data.length : Int) + 2 := by
    have heq := toInt32_eq (n := c.data.length + 2) (by omega)
    push_cast at heq
    exact heq
  obtain ⟨m, rfl⟩ : ∃ m, n = c.data.length + 2 + m := ⟨_, (Nat.add_sub_cancel' hall).symm⟩
  have hsplit : (c.data ++ 13 :: 10 :: rest).take (c.data.length + 2 + m) =
      c.data ++ 13 :: 10 :: rest.take m := by
    rw [List.take_append, List.take_of_length_le (by omega),
      show c.data.length + 2 + m - c.data.length = m + 1 + 1 by omega, List.take_succ_cons,
      List.take_succ_cons]
  have hle := h.le
  simp only [List.length_append, List.length_cons] at hle
  have hin : (c.data ++ 13 :: 10 :: rest).drop (c.data.length + 2 + m) = rest.drop m := by
    rw [← List.drop_drop, ← List.drop_drop, List.drop_left]
    rfl
  have hdrop : (c.data ++ 13 :: 10 :: rest.take m).drop ((c.data.length : Int) + 2).toNat =
      rest.take m := by
    rw [show ((c.data.length : Int) + 2).toNat = c.data.length + 2 by omega, ← List.drop_drop,
      List.drop_left]
    rfl
  have happend : appendTo body (c.data ++ 13 :: 10 :: rest.take m) c.data.length =
      .ok (body ++ c.data) := by
    rw [appendTo, if_neg (by omega), if_neg (by simp; omega), Int.toNat_natCast, List.take_left]
  have hfit : ((c.data.length : Int) + 2) ≤ (c.data ++ 13 :: 10 :: rest.take m).length := by
    simp only [List.length_append, List.length_cons]
    omega
  rw [Nat.add_sub_cancel_left]
  refine ⟨?_, h.connected, h.incoming.trans hin, by omega, by have := h.fits; omega⟩
  rw [takeChunk, hsplit, hsize, if_pos hfit, happend]
  show Except.ok (some (body ++ c.data, _), s) = _
  rw [hdrop]

/-- The rest of it comes from the stream. -/
theorem takeChunk_streamed {c : Chunk} (hc : c.Valid) (body : Bytes)
    (h : Holds (c.data ++ 13 :: 10 :: rest) s n) (hmore : n < c.data.length + 2) :
    takeChunk s body ((c.data ++ 13 :: 10 :: rest).take n) c.data.length =
        .ok (some (body ++ c.data, []),
          (readRest (c.data.length + 2 - n) s (c.data.length + 2 - n : Nat)).2) ∧
      Holds rest (readRest (c.data.length + 2 - n) s (c.data.length + 2 - n : Nat)).2 0 := by
  have hsmall := hc.small
  have hlen : ((c.data ++ 13 :: 10 :: rest).take n).length = n := by
    rw [List.length_take, Nat.min_eq_left h.le]
  have hsize : toInt32 ((c.data.length : Int) + 2) = (c.data.length : Int) + 2 := by
    have heq := toInt32_eq (n := c.data.length + 2) (by omega)
    push_cast at heq
    exact heq
  have hleft : toInt32 ((c.data.length : Int) - n + 2) = ((c.data.length + 2 - n : Nat) : Int) := by
    rw [show (c.data.length : Int) - n + 2 = ((c.data.length + 2 - n : Nat) : Int) by omega,
      toInt32_eq (by omega)]
  have hin := h.incoming
  obtain ⟨k, hread⟩ := readRest_eq h.connected (Nat.le_refl (c.data.length + 2 - n)) (by
    rw [hin, List.length_drop]
    simp only [List.length_append, List.length_cons]
    omega)
  have htext : (c.data ++ 13 :: 10 :: rest).take n ++
      s.incoming.take (c.data.length + 2 - n) = c.data ++ HttpRequest.crlf := by
    rw [hin, ← List.take_add, Nat.add_sub_cancel' (Nat.le_of_lt hmore), List.take_append,
      List.take_of_length_le (by omega), Nat.add_sub_cancel_left]
    rfl
  have hrest : s.incoming.drop (c.data.length + 2 - n) = rest := by
    rw [hin, List.drop_drop, Nat.add_sub_cancel' (Nat.le_of_lt hmore), ← List.drop_drop,
      List.drop_left]
    rfl
  rw [takeChunk, hsize, hlen, if_neg (by omega), hleft]
  simp only [Int.toNat_natCast]
  rw [hread]
  simp only
  rw [List.append_assoc, htext, ← List.append_assoc, dropCrlf_append, hrest]
  exact ⟨rfl, rfl, rfl, Nat.zero_le _, Nat.zero_le _⟩

theorem readChunks_succ {fuel : Nat} {s s' s'' : SocketStream} {body body' data data' data'' : Bytes}
    {r p : HttpResponseParser}
    (hparse : parseChunk (s.incoming.length + data.length + 1) s true data r =
      .ok (some (p, data'), s'))
    (htake : takeChunk s' body data' p.parser.contentLen = .ok (some (body', data''), s'')) :
    readChunks (fuel + 1) s body data r =
      if p.parser.chunksDone then .ok (some (p, body'), s'')
      else readChunks fuel s'' body' data'' p := by
  rw [readChunks, hparse]
  show (takeChunk s' body data' p.parser.contentLen >>= _) = _
  rw [htake]
  rfl

/-- One turn of the loop. -/
theorem readChunks_step {c : Chunk} {cs : List Chunk} (hc : c.Valid) (body : Bytes)
    (h : Holds (c.text ++ rest) s n) (hunbroken : Unbroken (c :: cs) s n) (fuel : Nat)
    {r : HttpResponseParser} (herror : r.error = 0) :
    ∃ s' m, Holds rest s' m ∧ Unbroken cs s' m ∧
      readChunks (fuel + 1) s body ((c.text ++ rest).take n) r =
        if (c.data.length : Int) ≤ 0 then
          .ok (some ({ r with parser := .sized 120 (c.size.length + 2) c.data.length },
            body ++ c.data), s')
        else readChunks fuel s' (body ++ c.data) (rest.take m)
          { r with parser := .sized 120 (c.size.length + 2) c.data.length } := by
  rw [Chunk.text_append] at h ⊢
  obtain ⟨hline, hrest⟩ := hunbroken
  have hparse := parseChunk_spec hc rfl h hline (Nat.add_one_pos (s.incoming.length +
    ((c.size ++ 13 :: 10 :: (c.data ++ 13 :: 10 :: rest)).take n).length)) herror
  obtain ⟨hheld, -⟩ := fill_spec h (by simp)
  obtain ⟨k, hk⟩ : ∃ k, (fill s n).1 = c.size.length + 2 + k := ⟨_, (Nat.add_sub_cancel' hline).symm⟩
  have hpayload : Holds (c.data ++ 13 :: 10 :: rest) (fill s n).2 k := by
    have hle := hheld.le
    have hfits := hheld.fits
    simp only [List.length_append, List.length_cons] at hle
    refine ⟨hheld.connected, ?_, by simp only [List.length_append, List.length_cons]; omega,
      by omega⟩
    rw [hheld.incoming, hk, ← List.drop_drop, ← List.drop_drop, List.drop_left]
    rfl
  rw [hk, Nat.add_sub_cancel_left] at hparse
  have hloop (s' : SocketStream) (data : Bytes)
      (htake : takeChunk (fill s n).2 body ((c.data ++ 13 :: 10 :: rest).take k) c.data.length =
        .ok (some (body ++ c.data, data), s')) :
      readChunks (fuel + 1) s body
          ((c.size ++ 13 :: 10 :: (c.data ++ 13 :: 10 :: rest)).take n) r =
        if (c.data.length : Int) ≤ 0 then
          .ok (some ({ r with parser := .sized 120 (c.size.length + 2) c.data.length },
            body ++ c.data), s')
        else readChunks fuel s' (body ++ c.data) data
          { r with parser := .sized 120 (c.size.length + 2) c.data.length } := by
    rw [readChunks_succ hparse htake]
    by_cases hdone : (c.data.length : Int) ≤ 0
    · rw [if_pos hdone]
      exact if_pos (decide_eq_true hdone)
    · rw [if_neg hdone]
      exact if_neg (by simpa [HttpClientParser.sized] using hdone)
  by_cases hall : c.data.length + 2 ≤ k
  · rw [if_pos (by omega)] at hrest
    obtain ⟨htake, hheld'⟩ := takeChunk_buffered hc body hpayload hall
    refine ⟨_, _, hheld', ?_, hloop _ _ htake⟩
    rwa [hk, Nat.add_sub_add_left] at hrest
  · rw [if_neg (by omega), hk, Nat.add_sub_add_left] at hrest
    obtain ⟨htake, hheld'⟩ := takeChunk_streamed hc body hpayload (Nat.lt_of_not_le hall)
    exact ⟨_, 0, hheld', hrest, hloop _ _ htake⟩

/-- All chunks. -/
theorem readChunks_spec {last : Chunk} (hlast : last.Valid) (hempty : last.data = []) :
    ∀ {chunks : List Chunk} {fuel : Nat} {s : SocketStream} {n : Nat} (body : Bytes)
      {r : HttpResponseParser}, (∀ c ∈ chunks, c.Valid ∧ c.data ≠ []) →
      Holds ((chunks ++ [last]).flatMap Chunk.text ++ rest) s n →
      Unbroken (chunks ++ [last]) s n → chunks.length < fuel → r.error = 0 →
      ∃ p s', readChunks fuel s body (((chunks ++ [last]).flatMap Chunk.text ++ rest).take n) r =
        .ok (some (p, body ++ chunks.flatMap Chunk.data), s') ∧ p.data = r.data
  | _, 0, _, _, _, _, _, _, _, hfuel, _ => absurd hfuel (Nat.not_lt_zero _)
  | [], fuel + 1, s, n, body, r, _, h, hunbroken, _, herror => by
      have htext : ([] ++ [last]).flatMap Chunk.text ++ rest = last.text ++ rest := by simp
      rw [htext] at h ⊢
      obtain ⟨s', m, -, -, hloop⟩ := readChunks_step hlast body h hunbroken fuel herror
      rw [if_pos (by rw [hempty]; decide), hempty] at hloop
      exact ⟨_, s', hloop, rfl⟩
  | c :: cs, fuel + 1, s, n, body, r, hchunks, h, hunbroken, hfuel, herror => by
      have htext : (c :: cs ++ [last]).flatMap Chunk.text ++ rest =
          c.text ++ ((cs ++ [last]).flatMap Chunk.text ++ rest) := by simp
      rw [htext] at h ⊢
      obtain ⟨hc, hne⟩ := hchunks c (List.mem_cons_self ..)
      have hpos := List.length_pos_iff.mpr hne
      obtain ⟨s', m, hheld, hrest, hloop⟩ := readChunks_step hc body h hunbroken fuel herror
      rw [if_neg (by omega)] at hloop
      obtain ⟨p, s'', hread, hdata⟩ := readChunks_spec hlast hempty (body ++ c.data)
        (r := { r with parser := .sized 120 (c.size.length + 2) c.data.length })
        (fun c' hc' => hchunks c' (List.mem_cons_of_mem _ hc')) hheld hrest
        (Nat.lt_of_succ_lt_succ hfuel) herror
      refine ⟨p, s'', ?_, hdata⟩
      rw [hloop, hread, List.flatMap_cons, List.append_assoc]

/-! ## The response -/

/-- The first read brings all of the header block, as the parser `p`
takes it. -/
structure Begins (header : Bytes) (s : SocketStream) (got : Bytes) (s' : SocketStream)
    (p : HttpResponseParser) : Prop where
  read : s.read httpResponseBufferSize = (some got, s')
  whole : header.length ≤ got.length
  execute : HttpResponseParser.new.execute got false = .ok (header.length, p)
  finished : p.isFinished = true
  good : p.hasError = false

variable {header got : Bytes} {s' : SocketStream} {p : HttpResponseParser}

/-- An execution that begins in the initial state. -/
theorem run_of_execute {n : Nat} (h : HttpResponseParser.new.execute got false = .ok (n, p)) :
    ∃ ref : Halt HttpResponseParser,
      exec HttpClient.machine HttpClient.stops (HttpResponseParser.act got) got 0 1 .new =
        .ok ref ∧ ref.p = n ∧ p = { ref.user with parser := { ref.user.parser with cs := ref.cs } } := by
  obtain ⟨ref, hrun, -, hn, hp⟩ := HttpResponseParser.execute_ok h
  exact ⟨ref, hrun, hn, hp⟩

/-- The header phase: one turn of the loop. -/
theorem parse_first (hbegins : Begins header s got s' p) (hne : header ≠ []) (fuel : Nat) :
    parse (fuel + 1) s [] .new = .ok (some (p, got.drop header.length), s') := by
  have hshort : (got.drop header.length).length ≠ httpResponseBufferSize := by
    have hpos := List.length_pos_iff.mpr hne
    have hwhole := hbegins.whole
    have hle := SocketStream.read_length_le hbegins.read
    rw [List.length_drop]
    omega
  rw [parse, List.length_nil, Nat.sub_zero, hbegins.read]
  simp only [List.nil_append, hbegins.execute]
  show (if p.hasError = true then _ else _) = _
  rw [hbegins.good, if_neg Bool.false_ne_true]
  simp only
  rw [if_neg hshort, hbegins.finished]
  rfl

/-- From the header to the chunks. -/
theorem recvResponse_of_chunks {inflate : ZlibFormat → Bytes → Bytes} {s₁ s₂ : SocketStream}
    {data body : Bytes} {p p' : HttpResponseParser}
    (hparse : parse (s.incoming.length + 1) s [] .new = .ok (some (p, data), s₁))
    (hread : readChunks (s₁.incoming.length + data.length + 1) s₁ [] data p =
      .ok (some (p', body), s₂)) (hchunked : p.parser.chunked = true) :
    recvResponse inflate s = .ok (some (setBody inflate p'.data body), s₂) := by
  rw [recvResponse, hparse]
  show (if p.parser.chunked = true then _ else _) = _
  rw [if_pos hchunked, hread]
  rfl

theorem length_le_text (chunks : List Chunk) (last : Chunk) (rest : Bytes) :
    chunks.length < ((chunks ++ [last]).flatMap Chunk.text ++ rest).length := by
  induction chunks with
  | nil => simp [Chunk.text, HttpRequest.crlf]
  | cons c cs ih =>
      have hlen : ((c :: cs ++ [last]).flatMap Chunk.text ++ rest).length =
          c.text.length + ((cs ++ [last]).flatMap Chunk.text ++ rest).length := by
        simp
      have hpos : 0 < c.text.length := by
        simp [Chunk.text, HttpRequest.crlf]
      rw [hlen, List.length_cons]
      omega

/-- Without a `content-encoding` the body is taken as it is. -/
theorem setBody_plain (inflate : ZlibFormat → Bytes → Bytes) {r : HttpResponse}
    (hplain : r.headers.find (bytes "content-encoding") = none) (hempty : r.body = [])
    (body : Bytes) : (setBody inflate r body).body = body := by
  have hheader : r.getHeader (bytes "content-encoding") [] = [] := by
    rw [HttpResponse.getHeader, hplain]
    rfl
  have hdecode : decode inflate r body = body := by
    rw [decode, hheader]
    rfl
  rw [setBody, hdecode]
  split
  · rename_i hbody
    rw [hbody, hempty]
  · rfl

/-- A chunked response whose size lines are not cut. -/
theorem recvResponse_chunked {inflate : ZlibFormat → Bytes → Bytes} {chunks : List Chunk}
    {last : Chunk} {sizes : List Nat}
    (hbegins : Begins header ⟨header ++ ((chunks ++ [last]).flatMap Chunk.text ++ rest), sizes, true⟩
      got s' p)
    (hline : HasChunkedLine header)
    (hplain : p.data.headers.find (bytes "content-encoding") = none)
    (hchunks : ∀ c ∈ chunks, c.Valid ∧ c.data ≠ []) (hlast : last.Valid) (hempty : last.data = [])
    (hunbroken : Unbroken (chunks ++ [last]) s' (got.length - header.length)) :
    ∃ r, (recvResponse inflate
        ⟨header ++ ((chunks ++ [last]).flatMap Chunk.text ++ rest), sizes, true⟩).map Prod.fst =
      .ok (some r) ∧ r.body = chunks.flatMap Chunk.data := by
  obtain ⟨text, htext⟩ : ∃ text, text = (chunks ++ [last]).flatMap Chunk.text ++ rest := ⟨_, rfl⟩
  rw [← htext] at hbegins ⊢
  obtain ⟨ref, hrun, hp, rfl⟩ := run_of_execute hbegins.execute
  have hheader : header ≠ [] := by
    rintro rfl
    obtain ⟨pre, line, post, -, hnil⟩ := hline
    simp at hnil
  -- the first read
  obtain ⟨k, -, hle, hk, -, hread⟩ := SocketStream.read_eq
    (s := ⟨header ++ text, sizes, true⟩) rfl (show 0 < httpResponseBufferSize by decide)
    (by simp [hheader])
  have hread' := hbegins.read
  rw [hread] at hread'
  obtain ⟨hgot, rfl⟩ := Prod.mk.inj hread'
  obtain rfl := Option.some.inj hgot
  have hlen : ((header ++ text).take k).length = k := by rw [List.length_take, Nat.min_eq_left hk]
  have hwhole := hbegins.whole
  rw [hlen] at hwhole hunbroken
  have hpiece : (header ++ text).take k = header ++ text.take (k - header.length) := by
    rw [List.take_append, List.take_of_length_le hwhole]
  have hrest : (header ++ text).drop k = text.drop (k - header.length) := by
    rw [List.drop_append, List.drop_eq_nil_of_le hwhole, List.nil_append]
  -- what the parser has made of it
  have hchunked : ref.user.parser.chunked = true := by
    have hexec := hrun
    rw [congrArg (fun bs => exec HttpClient.machine HttpClient.stops _ bs 0 1 _) hpiece] at hexec
    exact HttpClient.chunked_of_line hline hexec hp
  have hbody : ref.user.data.body = [] :=
    exec_keeps (P := fun u => u.data.body = [])
      (fun _ _ _ _ hu hact => (HttpClient.act_spec hact).2.trans hu) rfl hrun
  have herror : ref.user.error = 0 := by
    have hgood := hbegins.good
    simp only [HttpResponseParser.hasError, Bool.or_eq_false_iff] at hgood
    simpa using hgood.1
  have hparse := parse_first hbegins hheader (header ++ text).length
  -- the chunks
  have hheld : Holds ((chunks ++ [last]).flatMap Chunk.text ++ rest)
      ⟨(header ++ text).drop k, sizes.tail, true⟩ (k - header.length) := by
    rw [List.length_append] at hk
    rw [← htext]
    exact ⟨rfl, hrest, by omega, by omega⟩
  have hdata : ((header ++ text).take k).drop header.length = text.take (k - header.length) := by
    rw [hpiece, List.drop_left]
  rw [hdata] at hparse
  have hfuel : chunks.length <
      ((header ++ text).drop k).length + (text.take (k - header.length)).length + 1 := by
    have hbound := length_le_text chunks last rest
    rw [← htext] at hbound
    rw [hrest, List.length_drop, List.length_take]
    omega
  obtain ⟨p, s'', hchunksRead, hpdata⟩ := readChunks_spec hlast hempty []
    (r := { ref.user with parser := { ref.user.parser with cs := ref.cs } })
    hchunks hheld hunbroken hfuel herror
  rw [← htext] at hchunksRead
  refine ⟨setBody inflate p.data (chunks.flatMap Chunk.data), ?_,
    setBody_plain inflate (hpdata ▸ hplain) (hpdata ▸ hbody) _⟩
  rw [recvResponse_of_chunks hparse hchunksRead hchunked]
  rfl

/-! ### Two segmentations -/

def sampleHeader : Bytes := bytes "HTTP/1.1 200 OK\r\nTransfer-Encoding: chunked\r\n\r\n"

/-- What the parser makes of it. -/
def sampleParser : HttpResponseParser :=
  { parser := ⟨120, 47, -1, true, false, 36, 17, 17⟩, error := 0
    data := { HttpResponse.new with
      status := 200, version := 0x11, reason := bytes "OK"
      headers := [(bytes "Transfer-Encoding", bytes "chunked")] } }

/-- Its size has two digits. -/
def sixteen : Chunk := ⟨bytes "10", bytes "0123456789abcdef"⟩

def lastChunk : Chunk := ⟨bytes "0", []⟩

theorem sampleHeader_chunked : HasChunkedLine sampleHeader := by
  refine ⟨bytes "HTTP/1.1 200 OK", bytes "Transfer-Encoding: chunked", [13, 10],
    ⟨bytes "Transfer-Encoding", [32], bytes "chunked", ?_, ?_, ?_, ?_⟩, ?_⟩
  · rfl
  · rfl
  · simp
  · rfl
  · rfl

theorem lastChunk_valid : lastChunk.Valid :=
  ⟨by decide, List.all_eq_true.mp rfl, rfl, by decide⟩

theorem sixteen_valid : ∀ c ∈ [sixteen], c.Valid ∧ c.data ≠ [] := by
  intro c hc
  obtain rfl := List.mem_singleton.mp hc
  exact ⟨⟨by decide, List.all_eq_true.mp rfl, rfl, by decide⟩, by decide⟩

/-- A read takes the header block and no more. -/
theorem begins_sample (text : Bytes) (sizes : List Nat) :
    Begins sampleHeader ⟨sampleHeader ++ text, 47 :: sizes, true⟩ sampleHeader
      ⟨text, sizes, true⟩ sampleParser where
  read := by
    have hshare : SocketStream.share ⟨sampleHeader ++ text, 47 :: sizes, true⟩
        httpResponseBufferSize = 47 := rfl
    rw [SocketStream.read, if_neg (by simp [sampleHeader, httpResponseBufferSize, bytes]), hshare]
    rfl
  whole := Nat.le_refl _
  execute := by decide +kernel
  finished := rfl
  good := rfl

/-- The payload, its line break and the last chunk may be cut. -/
theorem recvResponse_chunked_sixteen :
    ∃ r, (recvResponse (fun _ b => b)
        ⟨sampleHeader ++ (([sixteen] ++ [lastChunk]).flatMap Chunk.text ++ []),
          [47, 7, 10, 5, 3, 1], true⟩).map Prod.fst = .ok (some r) ∧
      r.body = [sixteen].flatMap Chunk.data :=
  recvResponse_chunked (begins_sample _ _) sampleHeader_chunked rfl
    sixteen_valid lastChunk_valid rfl (by decide)

/-- The size line of the first chunk is cut behind its first digit. -/
theorem sizeLine_cut :
    ¬∀ (inflate : ZlibFormat → Bytes → Bytes) (header got : Bytes) (s' : SocketStream)
      (p : HttpResponseParser) (chunks : List Chunk) (last : Chunk) (rest : Bytes)
      (sizes : List Nat),
      Begins header ⟨header ++ ((chunks ++ [last]).flatMap Chunk.text ++ rest), sizes, true⟩
        got s' p →
      HasChunkedLine header → p.data.headers.find (bytes "content-encoding") = none →
      (∀ c ∈ chunks, c.Valid ∧ c.data ≠ []) → last.Valid → last.data = [] →
      ∃ r, (recvResponse inflate
          ⟨header ++ ((chunks ++ [last]).flatMap Chunk.text ++ rest), sizes, true⟩).map Prod.fst =
        .ok (some r) ∧ r.body = chunks.flatMap Chunk.data := by
  intro hall
  obtain ⟨r, hrecv, hbody⟩ := hall (fun _ b => b) _ _ _ _ [sixteen] lastChunk [] [47, 1]
    (begins_sample _ _) sampleHeader_chunked rfl
    sixteen_valid lastChunk_valid rfl
  have hempty : ((recvResponse (fun _ b => b)
      ⟨sampleHeader ++ (([sixteen] ++ [lastChunk]).flatMap Chunk.text ++ []),
        [47, 1], true⟩).map Prod.fst).map (Option.map HttpResponse.body) = .ok (some []) := by
    decide +kernel
  rw [hrecv] at hempty
  have hnil : r.body = [] := Option.some.inj (Except.ok.inj hempty)
  rw [hnil] at hbody
  exact absurd hbody (by decide)

end HttpConnection

end Sylar
