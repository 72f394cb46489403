import Sylar.HttpChunkTurns
import Sylar.HttpChunked

/-!
# The size of a chunk

`strtol` reads the size of a chunk, an `int` takes it, and every
execution on a size line begins anew, so that of a line that is cut only
the last part counts. `Handled` says what should hold in a turn of the
chunk loop whatever the size is; `handled_iff` says for which lines it
does. Sizes from 2 ^ 31 - 2 on are misread, unless what they come to is
between 1 and 2 ^ 31 - 3 and more than the stream has.
-/

namespace Sylar

open Scanner

/-- In a state, and nothing read. -/
def HttpClientParser.blank (cs : Nat) : HttpClientParser := { init with cs }

namespace HttpResponseParser

variable {line : Bytes}

/-- An execution on digits, which takes them all and forgets them. -/
theorem execute_digits (hne : line ≠ []) (hline : ∀ b ∈ line, isXdigit b = true)
    (r : HttpResponseParser) :
    r.execute line true = .ok (line.length, { r with parser := .blank 2 }) := by
  have hat : line.drop 0 = line ++ [] := (List.append_nil line).symm
  have hlead := leads_digits hne hline hat r
  have hend : exec HttpClient.machine HttpClient.stops (act line) (line.drop line.length)
      line.length 2 { r with parser := .init } =
      .ok ⟨true, 2, line.length, { r with parser := .init }⟩ := by
    rw [List.drop_length]
    rfl
  exact execute_of_exec (Eq.trans hlead hend) (Nat.zero_le _) (checked_init ⟨rfl, rfl, rfl⟩ hne)

/-- An execution that ends inside the line break. -/
theorem execute_cut (hne : line ≠ []) (hline : ∀ b ∈ line, isXdigit b = true)
    (r : HttpResponseParser) : r.execute (line ++ [13]) true =
      .ok (line.length + 1, { r with parser := .narrowed 3 0 (chunkLen line) }) := by
  obtain ⟨buffer, hbuffer⟩ : ∃ buffer, buffer = line ++ [13] := ⟨_, rfl⟩
  have hat : buffer.drop 0 = line ++ [13] := hbuffer
  have hlead := leads_size hne hline hat r
  have hend : exec HttpClient.machine HttpClient.stops (act buffer)
      (buffer.drop (line.length + 1)) (line.length + 1) 3
      { r with parser := .narrowed 1 0 (chunkLen line) } =
      .ok ⟨true, 3, line.length + 1, { r with parser := .narrowed 1 0 (chunkLen line) }⟩ := by
    have hdrop := drop_succ (drop_add_length hat)
    rw [Nat.zero_add] at hdrop
    rw [hdrop]
    rfl
  rw [← hbuffer]
  exact execute_of_exec (Eq.trans hlead hend) (Nat.zero_le _)
    (checked_init ⟨rfl, rfl, rfl⟩ (by rw [hbuffer]; simp))

/-- An execution that begins inside the line break, or in front of it. -/
theorem execute_bare {b : UInt8} (hb : b = 13 ∨ b = 10) (bs : Bytes) (r : HttpResponseParser) :
    r.execute (b :: bs) true = .ok (0, { r with parser := .blank 0 }) := by
  have hnext : next HttpClient.machine HttpClient.start b = none := by
    obtain rfl | rfl := hb
    · rfl
    · rfl
  exact execute_of_exec (exec_error hnext) (Nat.zero_le _)
    (checked_init ⟨rfl, rfl, rfl⟩ (List.cons_ne_nil b bs))

end HttpResponseParser

namespace HttpConnection

/-- An execution of the loop over a size line: its buffer, and the parser
behind it. -/
inductive Parsed : SocketStream → Bool → Bytes → HttpResponseParser → Bytes → HttpResponseParser →
    Prop
  | here {s s' : SocketStream} {begin_ : Bool} {data got : Bytes} {parser p : HttpResponseParser}
      {n : Nat} : readMore s begin_ data = (some got, s') → parser.execute got true = .ok (n, p) →
      Parsed s begin_ data parser got p
  | later {s s' : SocketStream} {begin_ : Bool} {data got got' : Bytes}
      {parser p p' : HttpResponseParser} {n : Nat} : readMore s begin_ data = (some got, s') →
      parser.execute got true = .ok (n, p) → p.hasError = false →
      (got.drop n).length ≠ httpResponseBufferSize → p.isFinished = false →
      Parsed s' false (got.drop n) p got' p' → Parsed s begin_ data parser got' p'

/-- The turn ends `recvResponse` without a response. -/
def Refused (s : SocketStream) (body data : Bytes) (parser : HttpResponseParser) : Prop :=
  (∃ s', parseChunk (s.incoming.length + data.length + 1) s true data parser = .ok (none, s')) ∨
    ∃ p data' s' s'', parseChunk (s.incoming.length + data.length + 1) s true data parser =
        .ok (some (p, data'), s') ∧
      takeChunk s' body data' p.parser.contentLen = .ok (none, s'')

/-- A turn for a chunk of size `h`: `len` stays within the buffer,
`append` and `memmove` are called with numbers of bytes that are there,
only the chunk of size 0 is the last, and a size that an `int` does not
have is refused. -/
structure Handled (s : SocketStream) (body data : Bytes) (parser : HttpResponseParser) (h : Nat) :
    Prop where
  fits : ∀ got p, Parsed s true data parser got p → got.length ≤ httpResponseBufferSize
  done : ∀ got p, Parsed s true data parser got p → p.parser.chunksDone = true → h = 0
  parsed : ∀ e, parseChunk (s.incoming.length + data.length + 1) s true data parser ≠ .error e
  copied : ∀ p data' s', parseChunk (s.incoming.length + data.length + 1) s true data parser =
    .ok (some (p, data'), s') → toInt32 (p.parser.contentLen + 2) ≤ data'.length →
    0 ≤ p.parser.contentLen ∧ p.parser.contentLen + 2 ≤ data'.length
  taken : ∀ p data' s' e, parseChunk (s.incoming.length + data.length + 1) s true data parser =
    .ok (some (p, data'), s') → takeChunk s' body data' p.parser.contentLen ≠ .error e
  refused : 2 ^ 31 ≤ h → Refused s body data parser

/-- How the reads cut a size line of which `m` digits are to come, with
`n` bytes in the buffer: how many digits the execution has that comes to
the end of the digits, and how many bytes. -/
def cut : Nat → SocketStream → Nat → Nat → Nat × Nat
  | 0, _, n, m => (m, n)
  | fuel + 1, s, n, m =>
      if (fill s n).1 ≤ m then cut fuel (fill s n).2 0 (m - (fill s n).1) else (m, (fill s n).1)

/-- The digits that count. -/
def counted (s : SocketStream) (n : Nat) (line : Bytes) : Bytes :=
  line.drop (line.length - (cut (line.length + 1) s n line.length).1)

/-- What is right for a size `h` that comes to `c`, with `left` bytes
behind the line: no digit counts, so that the line is an error; or it is
0; or it comes to more than 0 and the line is cut behind its digits, or
it comes to less than 2 ^ 31 - 2 and is meant so, or the chunk is not
there as a whole. -/
def RightSize (m n : Nat) (c : Int) (h left : Nat) : Prop :=
  m = 0 ∨ c ≤ 0 ∧ h = 0 ∨
    0 < c ∧ (n = m + 1 ∨ c + 2 < 2 ^ 31 ∧ (h < 2 ^ 31 ∨ (left : Int) < c + 2))

def Right (s : SocketStream) (data line rest : Bytes) : Prop :=
  RightSize (cut (line.length + 1) s data.length line.length).1
    (cut (line.length + 1) s data.length line.length).2
    (chunkLen (counted s data.length line)) (hexValue line) rest.length

instance (s : SocketStream) (data line rest : Bytes) : Decidable (Right s data line rest) :=
  inferInstanceAs (Decidable (_ ∨ _ ∧ _ ∨ _ ∧ (_ ∨ _ ∧ (_ ∨ _))))

/-! ## The loop over a size line -/

section

variable {s s' : SocketStream} {begin_ : Bool} {data got got' text rest : Bytes} {n fuel : Nat}
  {parser p p' : HttpResponseParser}

theorem parseChunk_step (hread : readMore s begin_ data = (some got, s'))
    (hexec : parser.execute got true = .ok (n, p)) :
    parseChunk (fuel + 1) s begin_ data parser =
      if p.hasError then .ok (none, s'.close)
      else if (got.drop n).length = httpResponseBufferSize then .ok (none, s'.close)
      else if p.isFinished then .ok (some (p, got.drop n), s')
      else parseChunk fuel s' false (got.drop n) p := by
  rw [parseChunk, hread]
  show (parser.execute got true >>= _) = _
  rw [hexec]
  rfl

theorem parsed_iff (hread : readMore s begin_ data = (some got, s'))
    (hexec : parser.execute got true = .ok (n, p)) :
    Parsed s begin_ data parser got' p' ↔ got' = got ∧ p' = p ∨
      (p.hasError = false ∧ (got.drop n).length ≠ httpResponseBufferSize ∧
        p.isFinished = false) ∧ Parsed s' false (got.drop n) p got' p' := by
  constructor
  · intro h
    cases h with
    | here hread' hexec' =>
        obtain ⟨hgot, rfl⟩ := Prod.mk.inj (hread.symm.trans hread')
        obtain rfl := Option.some.inj hgot
        exact .inl ⟨rfl, (Prod.mk.inj (Except.ok.inj (hexec.symm.trans hexec'))).2.symm⟩
    | later hread' hexec' hgood hshort hmore hrest =>
        obtain ⟨hgot, rfl⟩ := Prod.mk.inj (hread.symm.trans hread')
        obtain rfl := Option.some.inj hgot
        obtain ⟨rfl, rfl⟩ := Prod.mk.inj (Except.ok.inj (hexec.symm.trans hexec'))
        exact .inr ⟨⟨hgood, hshort, hmore⟩, hrest⟩
  · rintro (⟨rfl, rfl⟩ | ⟨⟨hgood, hshort, hmore⟩, hrest⟩)
    · exact .here hread hexec
    · exact .later hread hexec hgood hshort hmore hrest

/-- The buffers are not longer than `buff_size`. -/
theorem Parsed.fits (h : Parsed s begin_ data parser got p) (hc : s.connected = true)
    (hfits : data.length ≤ httpResponseBufferSize) : got.length ≤ httpResponseBufferSize := by
  induction h with
  | here hread _ => exact (readMore_ready hc hfits hread).2
  | later hread _ _ _ _ _ ih =>
      obtain ⟨hc', hlen⟩ := readMore_ready hc hfits hread
      exact ih hc' (by rw [List.length_drop]; omega)

theorem fill_pos (h : Holds text s n) (hne : text ≠ []) : 0 < (fill s n).1 := by
  rw [fill]
  split
  · rename_i hn
    subst hn
    have hin : s.incoming = text := h.incoming
    obtain ⟨k, hpos, -, hk, -, hread⟩ := SocketStream.read_eq h.connected
      (show 0 < httpResponseBufferSize by decide) (by rw [hin]; exact hne)
    rw [hread]
    dsimp only
    rw [List.length_take, Nat.min_eq_left hk]
    exact hpos
  · omega

/-- The read in front of an execution. -/
theorem readMore_fill (h : Holds text s n) (hne : text ≠ []) (hbegin : n ≠ 0 → begin_ = true) :
    readMore s begin_ (text.take n) = (some (text.take (fill s n).1), (fill s n).2) := by
  rw [← (fill_spec h hne).2]
  by_cases hn : n = 0
  · subst hn
    rw [List.take_zero, readMore, readMore, if_pos (.inr rfl), if_pos (.inr rfl)]
  · rw [hbegin hn]

theorem cut_le : ∀ {fuel : Nat} {s : SocketStream} {n m : Nat}, (cut fuel s n m).1 ≤ m
  | 0, s, n, m => Nat.le_refl m
  | fuel + 1, s, n, m => by
      rw [cut]
      split
      · exact cut_le.trans (Nat.sub_le ..)
      · exact Nat.le_refl m

theorem hasError_of (herror : parser.error = 0) (cs : Nat) (hcs : parser.parser.cs = cs)
    (hne : cs ≠ 0) : parser.hasError = false := by
  simp [HttpResponseParser.hasError, HttpClientParser.hasError, herror, hcs, hne]

/-- In front of the line break or inside it. -/
theorem parseChunk_bare {b : UInt8} {bs : Bytes} (hb : b = 13 ∨ b = 10) (h : Holds (b :: bs) s n)
    (hbegin : n ≠ 0 → begin_ = true) (fuel : Nat) (parser : HttpResponseParser) :
    (∃ s', parseChunk (fuel + 1) s begin_ ((b :: bs).take n) parser = .ok (none, s')) ∧
      ∀ got p, Parsed s begin_ ((b :: bs).take n) parser got p → p.parser.chunksDone = false := by
  have hread := readMore_fill h (List.cons_ne_nil b bs) hbegin
  obtain ⟨k, hk⟩ := Nat.exists_eq_add_one_of_ne_zero
    (Nat.ne_of_gt (fill_pos h (List.cons_ne_nil b bs)))
  rw [hk, List.take_succ_cons] at hread
  have hexec := parser.execute_bare hb (bs.take k)
  have herror : HttpResponseParser.hasError { parser with parser := .blank 0 } = true := by
    rw [HttpResponseParser.hasError]
    exact Bool.or_true _
  constructor
  · rw [parseChunk_step hread hexec, if_pos herror]
    exact ⟨_, rfl⟩
  · intro got p hparsed
    obtain ⟨-, rfl⟩ | ⟨⟨hgood, -, -⟩, -⟩ := (parsed_iff hread hexec).mp hparsed
    · rfl
    · rw [herror] at hgood
      cases hgood

end

/-- What the loop makes of a size line: the execution at the end of the
digits has `m` of them, `n` bytes, and gets the size `c` out of them. -/
structure Line (fuel : Nat) (s : SocketStream) (begin_ : Bool) (data : Bytes)
    (parser : HttpResponseParser) (rest : Bytes) (m n : Nat) (c : Int) : Prop where
  lt : m < n
  broken : m = 0 ∨ n = m + 1 → ∃ s', parseChunk fuel s begin_ data parser = .ok (none, s')
  whole : 0 < m → n ≠ m + 1 → ∃ s', Holds rest s' (n - (m + 2)) ∧
    parseChunk fuel s begin_ data parser =
      .ok (some ({ parser with parser := .narrowed 120 (m + 2) c }, rest.take (n - (m + 2))), s')
  done : ∀ got p, Parsed s begin_ data parser got p → p.parser.chunksDone = true → 0 < m ∧ c ≤ 0
  last : 0 < m → c ≤ 0 → ∃ got p, Parsed s begin_ data parser got p ∧ p.parser.chunksDone = true

section

variable {s s' : SocketStream} {begin_ : Bool} {line rest : Bytes} {n fuel : Nat}
  {parser : HttpResponseParser}

/-- What is in the buffer: some of the digits. -/
theorem take_digits {k : Nat} (hk : k ≤ line.length) :
    (line ++ 13 :: 10 :: rest).take k = line.take k :=
  List.take_append_of_le_length hk

/-- All of the digits and one byte. -/
theorem take_cut : (line ++ 13 :: 10 :: rest).take (line.length + 1) = line ++ [13] := by
  rw [List.take_append, List.take_of_length_le (Nat.le_succ _), Nat.add_sub_cancel_left]
  rfl

/-- The line as a whole. -/
theorem take_line (k : Nat) :
    (line ++ 13 :: 10 :: rest).take (line.length + 2 + k) = line ++ 13 :: 10 :: rest.take k := by
  rw [List.take_append, List.take_of_length_le (by omega),
    show line.length + 2 + k - line.length = k + 1 + 1 by omega, List.take_succ_cons,
    List.take_succ_cons]

/-- A read that ends between the line's two terminators. -/
theorem line_cut (hne : line ≠ []) (hline : ∀ b ∈ line, isXdigit b = true)
    (h : Holds (line ++ 13 :: 10 :: rest) s n) (hbegin : n ≠ 0 → begin_ = true)
    (hcut : (fill s n).1 = line.length + 1) (herror : parser.error = 0) :
    Line (fuel + 1 + 1) s begin_ ((line ++ 13 :: 10 :: rest).take n) parser rest line.length
      (fill s n).1 (chunkLen line) := by
  have htext : line ++ 13 :: 10 :: rest ≠ [] := by simp
  have hpos := List.length_pos_iff.mpr hne
  have hread := readMore_fill h htext hbegin
  obtain ⟨hheld, -⟩ := fill_spec h htext
  rw [hcut, take_cut] at hread
  have hexec := parser.execute_cut hne hline
  have hgood : HttpResponseParser.hasError
      { parser with parser := .narrowed 3 0 (chunkLen line) } = false :=
    hasError_of herror 3 rfl (by decide)
  have hdrop : (line ++ [13]).drop (line.length + 1) = [] := List.drop_eq_nil_of_le (by simp)
  have hshort : ((line ++ [13]).drop (line.length + 1)).length ≠ httpResponseBufferSize := by
    rw [hdrop]
    decide
  have hmore : HttpResponseParser.isFinished
      { parser with parser := .narrowed 3 0 (chunkLen line) } = false := rfl
  have hheld' : Holds (10 :: rest) (fill s n).2 0 := by
    refine ⟨hheld.connected, ?_, Nat.zero_le _, Nat.zero_le _⟩
    rw [hheld.incoming, hcut, ← List.drop_drop, List.drop_left]
    rfl
  have hlater : (0 : Nat) ≠ 0 → false = true := fun hno => absurd rfl hno
  obtain ⟨hnone, hdone⟩ := parseChunk_bare (.inr rfl) hheld' hlater fuel
    { parser with parser := .narrowed 3 0 (chunkLen line) }
  rw [List.take_zero] at hnone hdone
  refine ⟨by omega, fun _ => ?_, fun _ hno => absurd hcut hno, fun got p hp hd => ?_,
    fun _ hc => ⟨_, _, .here hread hexec, decide_eq_true hc⟩⟩
  · rw [parseChunk_step hread hexec, if_neg (by rw [hgood]; decide), if_neg hshort,
      if_neg (by rw [hmore]; decide), hdrop]
    exact hnone
  · obtain ⟨-, rfl⟩ | ⟨-, hrest⟩ := (parsed_iff hread hexec).mp hp
    · exact ⟨hpos, of_decide_eq_true hd⟩
    · rw [hdrop] at hrest
      exact absurd hd (by rw [hdone got p hrest]; exact Bool.false_ne_true)

/-- A read that ends behind the line. -/
theorem line_whole {k : Nat} (hne : line ≠ []) (hline : ∀ b ∈ line, isXdigit b = true)
    (h : Holds (line ++ 13 :: 10 :: rest) s n) (hbegin : n ≠ 0 → begin_ = true)
    (hk : (fill s n).1 = line.length + 2 + k) (herror : parser.error = 0) :
    Line (fuel + 1) s begin_ ((line ++ 13 :: 10 :: rest).take n) parser rest line.length
      (fill s n).1 (chunkLen line) := by
  have htext : line ++ 13 :: 10 :: rest ≠ [] := by simp
  have hpos := List.length_pos_iff.mpr hne
  have hread := readMore_fill h htext hbegin
  obtain ⟨hheld, -⟩ := fill_spec h htext
  rw [hk, take_line] at hread
  have hexec := parser.execute_narrowed hne hline (rest.take k)
  have hgood : HttpResponseParser.hasError
      { parser with parser := .narrowed 120 (line.length + 2) (chunkLen line) } = false :=
    hasError_of herror 120 rfl (by decide)
  have hdrop : (line ++ 13 :: 10 :: rest.take k).drop (line.length + 2) = rest.take k := by
    rw [← List.drop_drop, List.drop_left]
    rfl
  have hfits := hheld.fits
  have hshort : ((line ++ 13 :: 10 :: rest.take k).drop (line.length + 2)).length ≠
      httpResponseBufferSize := by
    rw [hdrop, List.length_take]
    omega
  have hfinished : HttpResponseParser.isFinished
      { parser with parser := .narrowed 120 (line.length + 2) (chunkLen line) } = true := rfl
  have hle := hheld.le
  simp only [List.length_append, List.length_cons] at hle
  have hheld' : Holds rest (fill s n).2 k := by
    refine ⟨hheld.connected, ?_, by omega, by omega⟩
    rw [hheld.incoming, hk, ← List.drop_drop, ← List.drop_drop, List.drop_left]
    rfl
  refine ⟨by omega, fun hbroken => by omega, fun _ _ => ⟨(fill s n).2, ?_⟩, fun got p hp hd => ?_,
    fun _ hc => ⟨_, _, .here hread hexec, decide_eq_true hc⟩⟩
  · rw [hk, Nat.add_sub_cancel_left, parseChunk_step hread hexec, if_neg (by rw [hgood]; decide),
      if_neg hshort, if_pos hfinished, hdrop]
    exact ⟨hheld', rfl⟩
  · obtain ⟨-, rfl⟩ | ⟨⟨-, -, hmore⟩, -⟩ := (parsed_iff hread hexec).mp hp
    · exact ⟨hpos, of_decide_eq_true hd⟩
    · rw [hfinished] at hmore
      cases hmore

/-- The execution behind which no digits are left. -/
theorem line_end (hline : ∀ b ∈ line, isXdigit b = true) (h : Holds (line ++ 13 :: 10 :: rest) s n)
    (hbegin : n ≠ 0 → begin_ = true) (hall : line.length < (fill s n).1) (hfuel : 1 < fuel)
    (herror : parser.error = 0) :
    Line fuel s begin_ ((line ++ 13 :: 10 :: rest).take n) parser rest line.length (fill s n).1
      (chunkLen line) := by
  obtain ⟨fuel, rfl⟩ : ∃ f, fuel = f + 1 + 1 := ⟨fuel - 2, by omega⟩
  by_cases hne : line = []
  · subst hne
    obtain ⟨hnone, hdone⟩ := parseChunk_bare (.inl rfl) h hbegin (fuel + 1) parser
    refine ⟨hall, fun _ => hnone, fun hpos => absurd hpos (Nat.lt_irrefl 0), fun got p hp hd => ?_,
      fun hpos => absurd hpos (Nat.lt_irrefl 0)⟩
    exact absurd hd (by rw [hdone got p hp]; exact Bool.false_ne_true)
  · by_cases hcut : (fill s n).1 = line.length + 1
    · exact line_cut hne hline h hbegin hcut herror
    · obtain ⟨k, hk⟩ : ∃ k, (fill s n).1 = line.length + 2 + k :=
        ⟨(fill s n).1 - (line.length + 2), by omega⟩
      exact line_whole hne hline h hbegin hk herror

/-- The loop over a size line, whatever the reads are. -/
theorem parseChunk_line : ∀ {turns fuel : Nat} {s : SocketStream} {begin_ : Bool} {n : Nat}
    {line : Bytes} {parser : HttpResponseParser}, line.length < turns → line.length + 1 < fuel →
    (∀ b ∈ line, isXdigit b = true) → Holds (line ++ 13 :: 10 :: rest) s n →
    (n ≠ 0 → begin_ = true) → parser.error = 0 →
    Line fuel s begin_ ((line ++ 13 :: 10 :: rest).take n) parser rest
      (cut turns s n line.length).1 (cut turns s n line.length).2
      (chunkLen (line.drop (line.length - (cut turns s n line.length).1)))
  | turns + 1, fuel, s, begin_, n, line, parser, hturns, hfuel, hline, h, hbegin, herror => by
      have htext : line ++ 13 :: 10 :: rest ≠ [] := by simp
      have hpos := fill_pos h htext
      rw [cut]
      by_cases hsome : (fill s n).1 ≤ line.length
      · -- digits only, and the parser forgets them
        obtain ⟨fuel, rfl⟩ : ∃ f, fuel = f + 1 := ⟨fuel - 1, by omega⟩
        rw [if_pos hsome]
        have hread := readMore_fill h htext hbegin
        rw [take_digits hsome] at hread
        obtain ⟨hheld, -⟩ := fill_spec h htext
        obtain ⟨k, hk⟩ : ∃ k, k = (fill s n).1 := ⟨_, rfl⟩
        obtain ⟨t, ht⟩ : ∃ t, t = (fill s n).2 := ⟨_, rfl⟩
        rw [← hk] at hread hheld hsome hpos ⊢
        rw [← ht] at hread hheld ⊢
        have hlen : (line.take k).length = k := by rw [List.length_take, Nat.min_eq_left hsome]
        have hexec := parser.execute_digits
          (show line.take k ≠ [] from List.ne_nil_of_length_pos (by omega))
          fun b hb => hline b (List.mem_of_mem_take hb)
        have hgood : HttpResponseParser.hasError { parser with parser := .blank 2 } = false :=
          hasError_of herror 2 rfl (by decide)
        have hdrop : (line.take k).drop (line.take k).length = [] := List.drop_length ..
        have hshort : ((line.take k).drop (line.take k).length).length ≠
            httpResponseBufferSize := by
          rw [hdrop]
          decide
        have hmore : HttpResponseParser.isFinished { parser with parser := .blank 2 } = false := rfl
        have hrest : Holds (line.drop k ++ 13 :: 10 :: rest) t 0 := by
          refine ⟨hheld.connected, ?_, Nat.zero_le _, Nat.zero_le _⟩
          rw [hheld.incoming, List.drop_append_of_le_length hsome, List.drop_zero]
        have ih := @parseChunk_line turns fuel t false 0 (line.drop k)
          { parser with parser := .blank 2 } (by rw [List.length_drop]; omega)
          (by rw [List.length_drop]; omega) (fun b hb => hline b (List.mem_of_mem_drop hb)) hrest
          (fun hno => absurd rfl hno) herror
        have hle : (cut turns t 0 (line.length - k)).1 ≤ line.length - k := cut_le
        rw [List.length_drop, List.drop_drop,
          show k + (line.length - k - (cut turns t 0 (line.length - k)).1) =
            line.length - (cut turns t 0 (line.length - k)).1 by omega, List.take_zero] at ih
        have hloop : parseChunk (fuel + 1) s begin_ ((line ++ 13 :: 10 :: rest).take n) parser =
            parseChunk fuel t false [] { parser with parser := .blank 2 } := by
          rw [parseChunk_step hread hexec, if_neg (by rw [hgood]; decide), if_neg hshort,
            if_neg (by rw [hmore]; decide), hdrop]
        have hparsed : ∀ got p, Parsed s begin_ ((line ++ 13 :: 10 :: rest).take n) parser got p ↔
            got = line.take k ∧ p = { parser with parser := .blank 2 } ∨
              Parsed t false [] { parser with parser := .blank 2 } got p := by
          intro got p
          rw [parsed_iff hread hexec, and_iff_right (And.intro hgood (And.intro hshort hmore)),
            hdrop]
        refine ⟨ih.lt, fun hbroken => hloop ▸ ih.broken hbroken,
          fun hm hn => hloop ▸ ih.whole hm hn, fun got p hp hd => ?_, fun hm hc => ?_⟩
        · obtain ⟨-, rfl⟩ | hlater := (hparsed got p).mp hp
          · cases hd
          · exact ih.done got p hlater hd
        · obtain ⟨got, p, hp, hd⟩ := ih.last hm hc
          exact ⟨got, p, (hparsed got p).mpr (.inr hp), hd⟩
      · rw [if_neg hsome, Nat.sub_self, List.drop_zero]
        exact line_end hline h hbegin (Nat.lt_of_not_le hsome) (by omega) herror

end

/-! ## A turn -/

section

variable {s s₁ s₂ : SocketStream} {sizes : List Int} {body data data' line rest : Bytes}
  {parser p : HttpResponseParser} {h : Nat}

/-- A size that leaves room for the line break faults nowhere. -/
theorem takeChunk_sound {contentLen : Int} (hlow : 0 ≤ contentLen) (hhigh : contentLen + 2 < 2 ^ 31)
    (hc : s.connected = true) (e : StdFault) : takeChunk s body data contentLen ≠ .error e := by
  have hsum : toInt32 (contentLen + 2) = contentLen + 2 := toInt32_self (by omega) (by omega)
  rw [takeChunk, hsum]
  split
  · rename_i hall
    have happend : appendTo body data contentLen = .ok (body ++ data.take contentLen.toNat) := by
      rw [appendTo, if_neg (by omega), if_neg (by omega)]
    rw [happend]
    exact fun hno => by cases hno
  · dsimp only
    split
    · exact fun hno => by cases hno
    · rename_i rest t hrest
      obtain ⟨-, hlen, -⟩ := readRest_spec hc hrest
      rw [toInt32_self (by omega) (by omega)] at hlen
      rw [dropCrlf, if_neg (by simp only [List.length_append]; omega)]
      exact fun hno => by cases hno

/-- The line is an error. -/
theorem handled_of_none (hready : Ready s data parser)
    (hnone : ∃ s', parseChunk (s.incoming.length + data.length + 1) s true data parser =
      .ok (none, s'))
    (hdone : ∀ got p, Parsed s true data parser got p → p.parser.chunksDone = true → h = 0) :
    Handled s body data parser h := by
  obtain ⟨s', hs'⟩ := hnone
  refine ⟨fun got p hp => hp.fits hready.connected hready.fits, hdone, fun e he => ?_,
    fun p data' t ht => ?_, fun p data' t e ht => ?_, fun _ => .inl ⟨s', hs'⟩⟩
  · rw [hs'] at he
    cases he
  · rw [hs'] at ht
    cases ht
  · rw [hs'] at ht
    cases ht

/-- The line has a size. -/
theorem handled_of_some (hready : Ready s data parser)
    (hparse : parseChunk (s.incoming.length + data.length + 1) s true data parser =
      .ok (some (p, data'), s₂))
    (hdone : ∀ got p, Parsed s true data parser got p → p.parser.chunksDone = true → h = 0)
    (hlow : 0 ≤ p.parser.contentLen) (hhigh : p.parser.contentLen + 2 < 2 ^ 31)
    (hmissing : 2 ^ 31 ≤ h → (data'.length + s₂.incoming.length : Int) < p.parser.contentLen + 2) :
    Handled s body data parser h := by
  have hsum : toInt32 (p.parser.contentLen + 2) = p.parser.contentLen + 2 :=
    toInt32_self (by omega) (by omega)
  have hc := (ready_parseChunk hready.connected hready.fits hparse).connected
  refine ⟨fun got p hp => hp.fits hready.connected hready.fits, hdone, fun e he => ?_,
    fun q d t ht hall => ?_, fun q d t e ht => ?_, fun hlarge => ?_⟩
  · rw [hparse] at he
    cases he
  · rw [hparse] at ht
    obtain ⟨hr, rfl⟩ := Prod.mk.inj (Except.ok.inj ht)
    obtain ⟨rfl, rfl⟩ := Prod.mk.inj (Option.some.inj hr)
    exact ⟨hlow, hsum ▸ hall⟩
  · rw [hparse] at ht
    obtain ⟨hr, rfl⟩ := Prod.mk.inj (Except.ok.inj ht)
    obtain ⟨rfl, rfl⟩ := Prod.mk.inj (Option.some.inj hr)
    exact takeChunk_sound hlow hhigh hc e
  · have hless := hmissing hlarge
    obtain ⟨s', htake, -⟩ : ∃ s', takeChunk s₂ body data' p.parser.contentLen = .ok (none, s') ∧
        s'.incoming = [] :=
      takeChunk_missing (narrow_parseChunk hparse) hc (hsum.symm ▸ hless)
    exact .inr ⟨p, data', s₂, s', hparse, htake⟩

theorem hexValue_append (xs ys : Bytes) :
    hexValue (xs ++ ys) = hexValue xs * 16 ^ (ys.filterMap digit).length + hexValue ys := by
  have hfold : ∀ (ds : List Nat) (v : Nat),
      ds.foldl (fun v d => v * 16 + d) v = v * 16 ^ ds.length + ofDigits 16 ds := by
    intro ds
    induction ds with
    | nil => intro v; simp [ofDigits]
    | cons d ds ih =>
        intro v
        have hcons : ofDigits 16 (d :: ds) = d * 16 ^ ds.length + ofDigits 16 ds := by
          rw [ofDigits, List.foldl_cons, ih, Nat.zero_mul, Nat.zero_add]
        rw [List.foldl_cons, ih, hcons, List.length_cons]
        ring
  rw [hexValue, List.filterMap_append, ofDigits, List.foldl_append, hfold]
  rfl

/-- The last digits of a size that is 0. -/
theorem chunkLen_drop (hzero : hexValue line = 0) (n : Nat) : chunkLen (line.drop n) = 0 := by
  have hsplit := hexValue_append (line.take n) (line.drop n)
  rw [List.take_append_drop, hzero] at hsplit
  have hdrop : hexValue (line.drop n) = 0 := by omega
  rw [chunkLen_small (by omega), hdrop]
  rfl

/-- A size line, at the beginning of a turn. -/
theorem line_of_ready (hready : Ready s data parser) (hline : ∀ b ∈ line, isXdigit b = true)
    (htext : data ++ s.incoming = line ++ 13 :: 10 :: rest) :
    Line (s.incoming.length + data.length + 1) s true data parser rest
      (cut (line.length + 1) s data.length line.length).1
      (cut (line.length + 1) s data.length line.length).2
      (chunkLen (counted s data.length line)) := by
  have hlen := congrArg List.length htext
  simp only [List.length_append, List.length_cons] at hlen
  have hheld : Holds (line ++ 13 :: 10 :: rest) s data.length := by
    refine ⟨hready.connected, ?_, ?_, hready.fits⟩
    · rw [← htext, List.drop_left]
    · rw [← htext, List.length_append]
      omega
  have hspec := parseChunk_line (Nat.lt_succ_self line.length)
    (show line.length + 1 < s.incoming.length + data.length + 1 by omega) hline hheld
    (fun _ => rfl) hready.error
  rwa [← htext, List.take_left] at hspec

/-- **Which sizes are handled in a turn.** -/
theorem turn_handled_iff (hready : Ready s data parser) (hline : ∀ b ∈ line, isXdigit b = true)
    (htext : data ++ s.incoming = line ++ 13 :: 10 :: rest) :
    Handled s body data parser (hexValue line) ↔ Right s data line rest := by
  have hspec := line_of_ready hready hline htext
  rw [Right, RightSize]
  have hcounted : hexValue line = 0 → chunkLen (counted s data.length line) = 0 :=
    fun hzero => chunkLen_drop hzero _
  generalize (cut (line.length + 1) s data.length line.length).1 = m at hspec ⊢
  generalize (cut (line.length + 1) s data.length line.length).2 = n at hspec ⊢
  generalize chunkLen (counted s data.length line) = c at hspec hcounted ⊢
  have hlt := hspec.lt
  constructor
  · intro hhandled
    by_cases hm : m = 0
    · exact .inl hm
    refine .inr ?_
    by_cases hc : c ≤ 0
    · obtain ⟨got, p, hp, hd⟩ := hspec.last (Nat.pos_of_ne_zero hm) hc
      exact .inl ⟨hc, hhandled.done got p hp hd⟩
    refine .inr ⟨Int.not_le.mp hc, ?_⟩
    by_cases hn : n = m + 1
    · exact .inl hn
    obtain ⟨s₂, hheld, hparse⟩ := hspec.whole (Nat.pos_of_ne_zero hm) hn
    obtain ⟨hc', hfits, -⟩ := ready_parseChunk hready.connected hready.fits hparse
    have hrange : -2 ^ 31 ≤ c ∧ c < 2 ^ 31 := narrow_parseChunk hparse
    have hsmall : c + 2 < 2 ^ 31 := by
      by_contra hlarge
      have hneg : toInt32 (c + 2) < 0 := by
        unfold toInt32
        omega
      have hcopied : 0 ≤ c ∧ c + 2 ≤ (rest.take (n - (m + 2))).length :=
        hhandled.copied _ _ _ hparse (by show toInt32 (c + 2) ≤ _; omega)
      have hbuffer : httpResponseBufferSize = 4096 := rfl
      omega
    refine .inr ⟨hsmall, ?_⟩
    by_contra hno
    rw [not_or, Nat.not_lt] at hno
    obtain ⟨t, hnone⟩ | ⟨p, data', t, t', hsome, htake⟩ := hhandled.refused hno.1
    · rw [hparse] at hnone
      cases hnone
    · rw [hparse] at hsome
      obtain ⟨hr, rfl⟩ := Prod.mk.inj (Except.ok.inj hsome)
      obtain ⟨rfl, rfl⟩ := Prod.mk.inj (Option.some.inj hr)
      have hless : _ < toInt32 (c + 2) := missing_of_take hrange hc' htake
      rw [toInt32_self (by omega) (by omega), hheld.incoming, List.length_take, List.length_drop]
        at hless
      have hle := hheld.le
      omega
  · intro hright
    by_cases hbroken : m = 0 ∨ n = m + 1
    · refine handled_of_none hready (hspec.broken hbroken) fun got p hp hd => ?_
      obtain ⟨hpos, hc⟩ := hspec.done got p hp hd
      omega
    · obtain ⟨hm, hn⟩ := not_or.mp hbroken
      obtain ⟨s₂, hheld, hparse⟩ := hspec.whole (Nat.pos_of_ne_zero hm) hn
      have hlow : 0 ≤ c := by
        by_contra hneg
        have hzero := hcounted (by omega)
        omega
      refine handled_of_some hready hparse (fun got p hp hd => ?_) hlow ?_ fun hlarge => ?_
      · obtain ⟨hpos, hc⟩ := hspec.done got p hp hd
        omega
      · show c + 2 < 2 ^ 31
        obtain hno | ⟨hc, -⟩ | ⟨-, hno | ⟨hsmall, -⟩⟩ := hright
        · exact absurd hno hm
        · omega
        · exact absurd hno hn
        · exact hsmall
      · show _ < c + 2
        have hle := hheld.le
        rw [hheld.incoming, List.length_take, List.length_drop]
        omega

/-- A turn that is refused is the end. -/
theorem Refused.recvResponse (inflate : ZlibFormat → Bytes → Bytes)
    (hturn : Turn s sizes s₁ body data parser) (h : Refused s₁ body data parser) :
    ∃ s', recvResponse inflate s = .ok (none, s') := by
  obtain ⟨s', hnone⟩ | ⟨p, data', s', s'', hparse, htake⟩ := h
  · exact ⟨s', hturn.recvResponse_parse inflate hnone⟩
  · exact ⟨s'', (hturn.recvResponse_take inflate hparse).1 s'' htake⟩

end

/-- The size lines that turns of `recvResponse` begin with are handled. -/
def SizesHandled (s : SocketStream) : Prop :=
  ∀ sizes s₁ body data parser line rest, Turn s sizes s₁ body data parser →
    (∀ b ∈ line, isXdigit b = true) → data ++ s₁.incoming = line ++ 13 :: 10 :: rest →
    Handled s₁ body data parser (hexValue line)

/-- **Which sizes are handled**, in all turns of a run. -/
theorem handled_iff (s : SocketStream) :
    SizesHandled s ↔ ∀ sizes s₁ body data parser line rest, Turn s sizes s₁ body data parser →
      (∀ b ∈ line, isXdigit b = true) → data ++ s₁.incoming = line ++ 13 :: 10 :: rest →
      Right s₁ data line rest := by
  constructor
  · intro h sizes s₁ body data parser line rest hturn hline htext
    exact (turn_handled_iff hturn.ready hline htext).mp
      (h sizes s₁ body data parser line rest hturn hline htext)
  · intro h sizes s₁ body data parser line rest hturn hline htext
    exact (turn_handled_iff hturn.ready hline htext).mpr
      (h sizes s₁ body data parser line rest hturn hline htext)

/-- 2 ^ 32 is taken for 0, and the chunk for the last. -/
theorem not_handled : ¬∀ s : SocketStream, SizesHandled s := by
  intro h
  obtain ⟨text, htext⟩ : ∃ text, text = bytes "100000000\r\n\r\n" := ⟨_, rfl⟩
  have hparse := parse_first (begins_sample text []) (by decide) (sampleHeader ++ text).length
  rw [List.drop_length] at hparse
  have hturn : Turn ⟨sampleHeader ++ text, [47], true⟩ [] ⟨text, [], true⟩ [] [] sampleParser :=
    .first hparse rfl
  have hright := (handled_iff _).mp (h _) _ _ _ _ _ (bytes "100000000") [13, 10] hturn
    (List.all_eq_true.mp rfl) htext
  rw [htext] at hright
  revert hright
  decide +kernel

end HttpConnection

end Sylar
