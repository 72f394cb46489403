import Sylar.HttpRequestText
import Sylar.HttpTransferEncoding

/-!
# The parts of a response

What the response machine does with a text that `HttpResponse::dump` can
write, part by part: the status line, a header, the two headers that the
machine knows, the empty line.

In the names of headers the machine follows the three names it knows, as
far as they go (`Named`). A name that is none of them comes to the state
of any name at its colon at the latest (`move_colon`), so that only the
three are treated in another way.

The positions that the actions store are in the buffer that is being
parsed, so that an execution fails in one way only (`execute_total`): on
the `assert` that reads `body_start`, which an earlier execution has set.
-/

namespace Sylar

open Scanner

namespace HttpClient

/-! ## The names of headers -/

/-- The states in which the beginning of a name that the grammar knows has
been read, with this beginning in lower case. -/
def words : List (Nat × Bytes) :=
  (List.range 10).map (fun i => (25 + i, (bytes "connection").take (i + 1))) ++
    (List.range 11).map (fun i => (101 + i, (bytes "content-length").take (i + 4))) ++
    (List.range 17).map (fun i => (44 + i, (bytes "transfer-encoding").take (i + 1)))

/-- The names that have states of their own behind the colon. -/
def known : List Bytes :=
  [bytes "connection", bytes "content-length", bytes "transfer-encoding"]

/-- Behind `name`, which is not empty. -/
def Named (cs : Nat) (name : Bytes) : Prop := cs = 21 ∨ (cs, name.map tolower) ∈ words

/-- Behind a whole line of the header block. -/
def LineStart (cs : Nat) : Prop := cs = 20 ∨ cs = 43

/-- What the first byte of a name does. -/
def Starts (as : List ClientAction) : Prop :=
  as = [.startField] ∨ as = [.writeConnectionClose, .startField]

/-- What ends a value. -/
def Writes (as : List ClientAction) : Prop :=
  as = [.writeValue] ∨ as = [.writeContentLen, .writeValue]

/-- A blank in front of a value. -/
def isBlank (b : UInt8) : Bool := b == 9 || b == 11 || b == 12 || b == 32

/-- A byte that does not end a line. -/
def isLineChar (b : UInt8) : Bool := b != 10 && b != 13

theorem toNat_isLineChar {b : UInt8} (hb : isLineChar b = true) :
    b.toNat ≠ 10 ∧ b.toNat ≠ 13 ∧ b.toNat < 256 := by
  simp only [isLineChar, Bool.and_eq_true, bne_iff_ne, ne_eq, ← UInt8.toNat_inj] at hb
  exact ⟨hb.1, hb.2, b.toNat_lt⟩

theorem anyChar_takes {e : Edge ClientAction} {b : UInt8} (he : e.on = anyChar)
    (hb : isLineChar b = true) : e.takes b = true := by
  obtain ⟨hlf, hcr, hlt⟩ := toNat_isLineChar hb
  rw [Edge.takes, he]
  simp [anyChar]
  omega

set_option maxRecDepth 10000 in
theorem move_digit : ∀ b, 48 ≤ b ∧ b ≤ 57 →
    move machine 16 b = some ([.mark], 17) ∧ move machine 17 b = some ([], 17) ∧
      move machine 112 b = some ([.startValue], 119) ∧ move machine 119 b = some ([], 119) := by
  decide

set_option maxRecDepth 10000 in
/-- A byte of a name is not the colon; at the start of a line it begins one
of the names. -/
theorem token_edges : ∀ b, isTokenChar b = true →
    (go token 21).takes b = true ∧ b ≠ 58 ∧ ∀ cs ∈ [20, 43], (move machine cs b).any (fun e =>
      (e.1 = [.startField] ∨ e.1 = [.writeConnectionClose, .startField]) ∧
        (e.2 = 21 ∨ (e.2, [tolower b]) ∈ [(25, [99]), (44, [116])])) = true := by
  decide

set_option maxRecDepth 10000 in
/-- Of a known name the next letter is on an edge alone, and any other
token leads to the state of any name; the colon does from the middle of a
name to that of any value. -/
theorem words_edges : ∀ w ∈ words,
    (∃ e ∈ machine w.1, e.on = token) ∧
      (∀ e ∈ machine w.1, e.on = one 58 ∨ e.acts = [] ∧ (e.target = 21 ∨
        ∀ r ∈ e.on, r.1 = r.2 ∧ (e.target, w.2 ++ [tolower (UInt8.ofNat r.1)]) ∈ words)) ∧
      (w.2 ∉ known → move machine w.1 58 = some ([.writeField], 22)) := by
  decide

variable {cs : Nat} {name : Bytes} {b : UInt8}

theorem move_name (h : Named cs name) (hb : isTokenChar b = true) :
    ∃ cs', move machine cs b = some ([], cs') ∧ Named cs' (name ++ [b]) := by
  obtain ⟨htakes, hcolon, -⟩ := token_edges b hb
  obtain rfl | hword := h
  · have hrow : machine 21 = go token 21 :: [⟨one 58, [.writeField], 22⟩] := rfl
    exact ⟨21, move_head hrow htakes, .inl rfl⟩
  · obtain ⟨⟨e₀, he₀, hon⟩, hall, -⟩ := words_edges _ hword
    have htakes₀ : e₀.takes b = true := by
      rw [Edge.takes, hon]
      exact htakes
    obtain ⟨e, he⟩ : ∃ e, next machine cs b = some e :=
      Option.isSome_iff_exists.mp (List.find?_isSome.mpr ⟨e₀, he₀, htakes₀⟩)
    obtain ⟨hmem, htake⟩ := next_mem he
    obtain ⟨r, hr, hrange⟩ := List.any_eq_true.mp htake
    simp only [Bool.and_eq_true, decide_eq_true_eq] at hrange
    obtain hcolonEdge | ⟨hacts, htarget⟩ := hall e hmem
    · rw [hcolonEdge] at hr
      obtain rfl := List.mem_singleton.mp hr
      refine absurd ?_ hcolon
      rw [← UInt8.toNat_inj]
      exact Nat.le_antisymm hrange.2 hrange.1
    · refine ⟨e.target, by rw [move, he, ← hacts]; rfl, ?_⟩
      refine htarget.imp_right fun hwords => ?_
      obtain ⟨heq, hnext⟩ := hwords r hr
      have hbyte : UInt8.ofNat r.1 = b := by
        rw [show r.1 = b.toNat by omega, UInt8.ofNat_toNat]
      rw [hbyte] at hnext
      rwa [List.map_append]

theorem walk_name : ∀ {bs : Bytes} {cs : Nat} {name : Bytes}, Named cs name →
    (∀ b ∈ bs, isTokenChar b = true) →
    ∃ cs', walk machine cs bs = some cs' ∧ Named cs' (name ++ bs)
  | [], cs, name, h, _ => ⟨cs, rfl, by rwa [List.append_nil]⟩
  | b :: bs, cs, name, h, hbs => by
      obtain ⟨cs₁, hmove, hnamed⟩ := move_name h (hbs b (List.mem_cons_self ..))
      obtain ⟨cs₂, hwalk, hrest⟩ :=
        walk_name hnamed fun b' hb' => hbs b' (List.mem_cons_of_mem _ hb')
      refine ⟨cs₂, (walk_cons hmove bs).trans hwalk, ?_⟩
      rwa [List.append_assoc] at hrest

theorem move_first (h : LineStart cs) (hb : isTokenChar b = true) :
    ∃ as cs', move machine cs b = some (as, cs') ∧ Starts as ∧ Named cs' [b] := by
  have hwords : ∀ w ∈ [(25, [99]), (44, [116])], w ∈ words := by decide
  obtain ⟨e, he, htarget⟩ := (Option.any_eq_true ..).mp
    ((token_edges b hb).2.2 cs (by obtain rfl | rfl := h <;> decide))
  obtain ⟨hstarts, hnamed⟩ := of_decide_eq_true htarget
  exact ⟨e.1, e.2, he, hstarts, hnamed.imp_right (hwords _)⟩

theorem move_colon (h : Named cs name) (hname : name.map tolower ∉ known) :
    move machine cs 58 = some ([.writeField], 22) := by
  obtain rfl | hword := h
  · rfl
  · exact (words_edges _ hword).2.2 hname

/-! ## The values -/

/-- From the state `v` behind the colon the value, and the first byte of
the line break, lead to `back`. -/
def Ends (v : Nat) : Bytes → List ClientAction → Nat → Prop
  | [], as, back => move machine v 13 = some (.startValue :: as, back)
  | b :: bs, as, back => ∃ c c', move machine v b = some ([.startValue], c) ∧
      walk machine c bs = some c' ∧ move machine c' 13 = some (as, back)

theorem move_value (hb : isLineChar b = true) :
    (isBlank b = false → move machine 22 b = some ([.startValue], 23)) ∧
      move machine 23 b = some ([], 23) := by
  constructor
  · intro hblank
    have hrow : machine 22 = ⟨[(0, 8), (14, 31), (33, 255)], [.startValue], 23⟩ ::
        [⟨blank, [.startValue], 22⟩, ⟨one 10, [.startValue, .writeValue], 20⟩,
          ⟨one 13, [.startValue, .writeValue], 24⟩] := rfl
    obtain ⟨hlf, hcr, hlt⟩ := toNat_isLineChar hb
    simp only [isBlank, Bool.or_eq_false_iff, beq_eq_false_iff_ne, ne_eq, ← UInt8.toNat_inj]
      at hblank
    obtain ⟨⟨⟨htab, hvt⟩, hff⟩, hspace⟩ := hblank
    have hrange : b.toNat ≤ 8 ∨ 14 ≤ b.toNat ∧ b.toNat ≤ 31 ∨ 33 ≤ b.toNat := by
      have hvalues : b.toNat ≠ 9 ∧ b.toNat ≠ 11 ∧ b.toNat ≠ 12 ∧ b.toNat ≠ 32 :=
        ⟨htab, hvt, hff, hspace⟩
      omega
    refine move_head hrow ?_
    simp [Edge.takes]
    omega
  · have hrow : machine 23 = go anyChar 23 :: [⟨one 10, [.writeValue], 20⟩,
        ⟨one 13, [.writeValue], 24⟩] := rfl
    exact move_head hrow (anyChar_takes rfl hb)

/-- In the reason phrase. -/
theorem move_reason (hb : isLineChar b = true) :
    move machine 18 b = some ([.mark], 19) ∧ move machine 19 b = some ([], 19) := by
  constructor
  · have hrow : machine 18 = ⟨[(0, 9), (11, 255)], [.mark], 19⟩ :: [] := rfl
    obtain ⟨hlf, hcr, hlt⟩ := toNat_isLineChar hb
    refine move_head hrow ?_
    simp [Edge.takes]
    omega
  · have hrow : machine 19 = go anyChar 19 :: [⟨one 10, [.reasonPhrase], 20⟩,
        ⟨one 13, [.reasonPhrase], 24⟩] := rfl
    exact move_head hrow (anyChar_takes rfl hb)

/-- Any value, of a header the grammar does not know. -/
theorem ends_value {value : Bytes} (hblank : ∀ b ∈ value.head?, isBlank b = false)
    (hvalue : ∀ b ∈ value, isLineChar b = true) : Ends 22 value [.writeValue] 24 := by
  cases value with
  | nil => rfl
  | cons b bs =>
      refine ⟨23, 23, (move_value (hvalue b (List.mem_cons_self ..))).1 (hblank b rfl), ?_, rfl⟩
      exact walk_loop fun b' hb' => (move_value (hvalue b' (List.mem_cons_of_mem _ hb'))).2

/-- The value of `connection` that `dump` writes. -/
theorem ends_connection (close : Bool) : ∃ back cs, Ends 35
    (if close then bytes "close" else bytes "keep-alive") [.writeValue] back ∧
      move machine back 10 = some ([], cs) ∧ LineStart cs := by
  cases close with
  | true => exact ⟨88, 43, ⟨96, 100, rfl, rfl, rfl⟩, rfl, .inr rfl⟩
  | false => exact ⟨24, 20, ⟨23, 23, rfl, rfl, rfl⟩, rfl, .inl rfl⟩

/-- The value of `content-length`. -/
theorem ends_decimal (n : Nat) : Ends 112 (decimal n) [.writeContentLen, .writeValue] 24 := by
  obtain ⟨b, bs, hcons⟩ := List.exists_cons_of_ne_nil (decimal_ne_nil n)
  have hrange : ∀ x ∈ b :: bs, 48 ≤ x ∧ x ≤ 57 := fun x hx => decimal_range (hcons ▸ hx)
  rw [hcons]
  refine ⟨119, 119, (move_digit b (hrange b (List.mem_cons_self ..))).2.2.1, ?_, rfl⟩
  exact walk_loop fun x hx => (move_digit x (hrange x (List.mem_cons_of_mem _ hx))).2.2.2

end HttpClient

/-- `atoi` stops at the blank behind the number. -/
theorem atoi_decimal {n : Nat} (h : n < 2 ^ 31) (rest : Bytes) :
    atoi (decimal n ++ 32 :: rest) = n := by
  obtain ⟨b, bs, hcons⟩ := List.exists_cons_of_ne_nil (decimal_ne_nil n)
  have hfirst : 48 ≤ b ∧ b ≤ 57 := by
    refine decimal_range (n := n) ?_
    rw [hcons]
    exact List.mem_cons_self ..
  obtain ⟨-, -, hspace, hminus, hplus, -⟩ := (decimal_digit b).1 hfirst
  have hsign : sign ((decimal n ++ 32 :: rest).dropWhile isspace) =
      (false, decimal n ++ 32 :: rest) := by
    rw [hcons, List.cons_append, List.dropWhile_cons_of_neg (by rw [hspace]; decide), sign,
      if_neg hminus, if_neg hplus]
  have hdigits : digits 10 (decimal n ++ 32 :: rest) =
      ((decimal n).map fun b => b.toNat - 48, 32 :: rest) := by
    refine digits_decimal_append (fun b w heq => ?_) fun b hb => decimal_range hb
    obtain rfl := (List.cons.inj heq).1
    decide
  rw [atoi, strtol, hsign]
  simp only [Bool.false_eq_true, if_false]
  rw [if_neg (by decide), hdigits]
  simp only [ofDigits_decimal, decimalValue_decimal]
  rw [min_eq_left (by omega), toInt32_eq h]

namespace HttpResponseParser

open HttpClient (Starts Writes LineStart Ends Named)

variable {buffer rest : Bytes} {p cs : Nat}

/-- The parser that is at position `p` comes to `p'`. -/
abbrev Reads (buffer : Bytes) (p cs : Nat) (u : HttpResponseParser) (p' cs' : Nat)
    (v : HttpResponseParser) : Prop :=
  Leads HttpClient.machine HttpClient.stops (act buffer) buffer p cs u p' cs' v

/-- With other members, at the same point of the grammar. -/
def marked (u : HttpResponseParser) (start length mark : Nat) : HttpResponseParser :=
  { u with parser := { u.parser with fieldStart := start, fieldLen := length, mark := mark } }

/-! ## The status line -/

theorem reads_version {version : Nat} (hversion : version = 0x10 ∨ version = 0x11)
    (h : buffer.drop p = bytes "HTTP/" ++ decimal (version / 16) ++ bytes "." ++
      decimal (version % 16) ++ 32 :: rest) (u : HttpResponseParser) :
    ∃ p', Reads buffer p 1 u p' 16 ⟨{ u.parser with mark := p }, u.error,
        { u.data with version := version }⟩ ∧ buffer.drop p' = rest := by
  have hwalk : ∀ minor ∈ [48, 49],
      walk HttpClient.machine 8 [84, 84, 80, 47, 49, 46, minor] = some 15 := by
    intro minor hminor
    obtain rfl | hminor := List.mem_cons.mp hminor
    · rfl
    · obtain rfl := List.mem_singleton.mp hminor
      rfl
  obtain ⟨minor, hminor, htext, heq⟩ : ∃ minor ∈ [48, 49],
      buffer.drop p = 72 :: ([84, 84, 80, 47, 49, 46, minor] ++ 32 :: rest) ∧
      ∀ u : HttpResponseParser, u.onResponseVersion (buffer.drop p) 8 =
        { u with data := { u.data with version := version } } := by
    rcases hversion with rfl | rfl
    · refine ⟨48, by simp, h, fun u => ?_⟩
      rw [h]
      rfl
    · refine ⟨49, by simp, h, fun u => ?_⟩
      rw [h]
      rfl
  have hmark : Reads buffer p 1 u (p + 1) 8 { u with parser := { u.parser with mark := p } } :=
    leads_move htext rfl rfl rfl
  have hrest : Reads buffer (p + 1) 8 { u with parser := { u.parser with mark := p } }
      (p + 1 + 7) 15 { u with parser := { u.parser with mark := p } } :=
    leads_walk (drop_succ htext) (hwalk minor hminor) _
  have hact : act buffer (p + 1 + 7) .httpVersion { u with parser := { u.parser with mark := p } } =
      .ok ⟨{ u.parser with mark := p }, u.error, { u.data with version := version }⟩ := by
    rw [act, notify]
    simp only
    rw [show p + 1 + 7 = p + 8 by omega, sub64_add (by decide), heq]
    rfl
  have hblank : Reads buffer (p + 1 + 7) 15 _ (p + 1 + 7 + 1) 16 _ :=
    leads_move (drop_add_length (drop_succ htext)) rfl rfl (perform_cons hact [])
  exact ⟨_, (hmark.trans hrest).trans hblank,
    drop_succ (drop_add_length (drop_succ htext))⟩

theorem reads_status {n : Nat} (hn : n < 2 ^ 31)
    (h : buffer.drop p = decimal n ++ 32 :: rest) (u : HttpResponseParser) :
    ∃ p', Reads buffer p 16 u p' 18 ⟨{ u.parser with mark := p }, u.error,
        { u.data with status := n }⟩ ∧ buffer.drop p' = rest := by
  have hdigit := HttpClient.move_digit
  have hact : act buffer (p + (decimal n).length) .statusCode
      { u with parser := { u.parser with mark := p } } =
        .ok ⟨{ u.parser with mark := p }, u.error, { u.data with status := n }⟩ := by
    rw [act, notify]
    simp only
    rw [h, atoi_decimal hn]
    rfl
  obtain ⟨b, bs, hcons⟩ := List.exists_cons_of_ne_nil (decimal_ne_nil n)
  have hrange : ∀ x ∈ b :: bs, 48 ≤ x ∧ x ≤ 57 := fun x hx => decimal_range (hcons ▸ hx)
  rw [hcons] at h hact
  have hmark : Reads buffer p 16 u (p + 1) 17 { u with parser := { u.parser with mark := p } } :=
    leads_move h (hdigit b (hrange b (List.mem_cons_self ..))).1 rfl rfl
  have hdigits : Reads buffer (p + 1) 17 { u with parser := { u.parser with mark := p } }
      (p + 1 + bs.length) 17 { u with parser := { u.parser with mark := p } } :=
    leads_walk (drop_succ h)
      (walk_loop fun x hx => (hdigit x (hrange x (List.mem_cons_of_mem _ hx))).2.1) _
  have hend := drop_add_length h
  rw [add_length_cons] at hact hend
  have hblank : Reads buffer (p + 1 + bs.length) 17 _ (p + 1 + bs.length + 1) 18 _ :=
    leads_move hend rfl rfl (perform_cons hact [])
  exact ⟨_, (hmark.trans hdigits).trans hblank, drop_succ hend⟩

theorem reads_reason {reason : Bytes} (hlt : buffer.length < 2 ^ 63) (hne : reason ≠ [])
    (hreason : ∀ b ∈ reason, HttpClient.isLineChar b = true)
    (h : buffer.drop p = reason ++ 13 :: 10 :: rest) (u : HttpResponseParser) :
    ∃ p', Reads buffer p 18 u p' 20 ⟨{ u.parser with mark := p }, u.error,
        { u.data with reason := reason }⟩ ∧ buffer.drop p' = rest := by
  have hact : act buffer (p + reason.length) .reasonPhrase
      { u with parser := { u.parser with mark := p } } =
        .ok ⟨{ u.parser with mark := p }, u.error, { u.data with reason := reason }⟩ := by
    rw [act, notify]
    simp only
    rw [str_drop hlt h]
    rfl
  obtain ⟨b, bs, rfl⟩ := List.exists_cons_of_ne_nil hne
  have hmark : Reads buffer p 18 u (p + 1) 19 { u with parser := { u.parser with mark := p } } :=
    leads_move h (HttpClient.move_reason (hreason b (List.mem_cons_self ..))).1 rfl rfl
  have hword : Reads buffer (p + 1) 19 { u with parser := { u.parser with mark := p } }
      (p + 1 + bs.length) 19 { u with parser := { u.parser with mark := p } } :=
    leads_walk (drop_succ h)
      (walk_loop fun x hx => (HttpClient.move_reason (hreason x (List.mem_cons_of_mem _ hx))).2) _
  have hend := drop_add_length h
  rw [add_length_cons] at hact hend
  have hcr : Reads buffer (p + 1 + bs.length) 19 _ (p + 1 + bs.length + 1) 24 _ :=
    leads_move hend rfl rfl (perform_cons hact [])
  have hlf : Reads buffer (p + 1 + bs.length + 1) 24
      ⟨{ u.parser with mark := p }, u.error, { u.data with reason := b :: bs }⟩
      (p + 1 + bs.length + 1 + 1) 20
      ⟨{ u.parser with mark := p }, u.error, { u.data with reason := b :: bs }⟩ :=
    leads_move (drop_succ hend) rfl rfl rfl
  exact ⟨_, ((hmark.trans hword).trans hcr).trans hlf, drop_succ (drop_succ hend)⟩

/-! ## A header -/

theorem act_writeField (u : HttpResponseParser) : act buffer p .writeField u =
    .ok { u with parser := { u.parser with fieldLen := sub64 p u.parser.fieldStart } } := by
  rw [act]
  simp only [notify, HttpClientParser.act]
  rfl

theorem act_writeValue {name value xs ys : Bytes} {u : HttpResponseParser}
    (hlt : buffer.length < 2 ^ 63) (hname : name ≠ [])
    (hfield : buffer.drop u.parser.fieldStart = name ++ xs)
    (hlen : u.parser.fieldLen = name.length)
    (hvalue : buffer.drop u.parser.mark = value ++ ys) :
    act buffer (u.parser.mark + value.length) .writeValue u =
      .ok { u with data := { u.data with headers := u.data.headers.set name value } } := by
  have hpos : name.length ≠ 0 := fun h => hname (List.length_eq_zero_iff.mp h)
  have hstr := str_drop hlt hfield
  have hle := congrArg List.length hfield
  rw [List.length_drop, List.length_append] at hle
  rw [sub64_add (by omega)] at hstr
  rw [act, notify, onResponseHttpField, hlen, if_neg hpos, hstr, str_drop hlt hvalue]
  rfl

/-- The end of a value, where the header is stored. -/
theorem perform_writes {name value xs ys : Bytes} {as : List ClientAction}
    {u : HttpResponseParser} (has : Writes as) (hlt : buffer.length < 2 ^ 63) (hname : name ≠ [])
    (hfield : buffer.drop u.parser.fieldStart = name ++ xs)
    (hlen : u.parser.fieldLen = name.length)
    (hvalue : buffer.drop u.parser.mark = value ++ ys) :
    ∃ parser, perform (act buffer (u.parser.mark + value.length)) as u =
        .ok ⟨parser, u.error, { u.data with headers := u.data.headers.set name value }⟩ ∧
      parser.chunked = u.parser.chunked := by
  obtain rfl | rfl := has
  · exact ⟨_, perform_cons (act_writeValue hlt hname hfield hlen hvalue) [], rfl⟩
  · obtain ⟨n, hn⟩ : ∃ n, n = toInt32 (strtol (buffer.drop u.parser.mark) 10) := ⟨_, rfl⟩
    have hfirst : act buffer (u.parser.mark + value.length) .writeContentLen u =
        .ok { u with parser := { u.parser with contentLen := n } } := by
      rw [hn]
      rfl
    have hsecond := act_writeValue (u := { u with parser := { u.parser with contentLen := n } })
      hlt hname hfield hlen hvalue
    exact ⟨_, (perform_cons hfirst _).trans (perform_cons hsecond []), rfl⟩

/-- A header: its name leads to the state `cs₂`, the colon to `v`, and the
value to `back`. -/
theorem reads_field {cs₁ cs₂ v back cs' : Nat} {b : UInt8} {bs value : Bytes}
    {as as' : List ClientAction} (hlt : buffer.length < 2 ^ 63)
    (hfirst : move HttpClient.machine cs b = some (as, cs₁)) (hstarts : Starts as)
    (hname : walk HttpClient.machine cs₁ bs = some cs₂)
    (hcolon : move HttpClient.machine cs₂ 58 = some ([.writeField], v))
    (hblank : move HttpClient.machine v 32 = some ([.startValue], v))
    (hvalue : Ends v value as' back) (hwrites : Writes as')
    (hline : move HttpClient.machine back 10 = some ([], cs'))
    (h : buffer.drop p = HttpRequest.dumpHeader (b :: bs, value) ++ rest)
    (u : HttpResponseParser) :
    ∃ p' parser, Reads buffer p cs u p' cs'
        ⟨parser, u.error, { u.data with headers := u.data.headers.set (b :: bs) value }⟩ ∧
      parser.chunked = u.parser.chunked ∧ buffer.drop p' = rest := by
  have hfield : buffer.drop p = (b :: bs) ++ 58 :: 32 :: (value ++ 13 :: 10 :: rest) := by
    rw [h, HttpRequest.dumpHeader]
    simp [HttpRequest.crlf, show bytes ": " = [58, 32] from rfl]
  obtain ⟨q, hq⟩ : ∃ q, q = p + (b :: bs).length := ⟨_, rfl⟩
  have hqtail : p + 1 + bs.length = q := by
    rw [hq, List.length_cons]
    omega
  have hcolonAt : buffer.drop q = 58 :: 32 :: (value ++ 13 :: 10 :: rest) :=
    hq ▸ drop_add_length hfield
  have hvalueAt := drop_succ (drop_succ hcolonAt)
  -- the name
  have hmark : Reads buffer p cs u (p + 1) cs₁ (u.marked p u.parser.fieldLen u.parser.mark) := by
    refine leads_move hfield hfirst ?_ ?_
    · obtain rfl | rfl := hstarts <;> rfl
    · obtain rfl | rfl := hstarts <;> rfl
  have hword : Reads buffer (p + 1) cs₁ (u.marked p u.parser.fieldLen u.parser.mark)
      (p + 1 + bs.length) cs₂ (u.marked p u.parser.fieldLen u.parser.mark) :=
    leads_walk (drop_succ hfield) hname _
  rw [hqtail] at hword
  have hfieldLen : act buffer q .writeField (u.marked p u.parser.fieldLen u.parser.mark) =
      .ok (u.marked p (b :: bs).length u.parser.mark) := by
    have hle := congrArg List.length hfield
    rw [List.length_drop, List.length_append] at hle
    rw [act_writeField]
    simp only [marked, hq]
    rw [sub64_add (by omega)]
  have hwritten : Reads buffer q cs₂ (u.marked p u.parser.fieldLen u.parser.mark) (q + 1) v
      (u.marked p (b :: bs).length u.parser.mark) :=
    leads_move hcolonAt hcolon rfl (perform_cons hfieldLen [])
  -- the blank, and the value
  have hspace : Reads buffer (q + 1) v (u.marked p (b :: bs).length u.parser.mark)
      (q + 1 + 1) v (u.marked p (b :: bs).length (q + 1)) :=
    leads_move (drop_succ hcolonAt) hblank rfl rfl
  have hhead := ((hmark.trans hword).trans hwritten).trans hspace
  obtain ⟨parser, hperform, hchunked⟩ : ∃ parser,
      perform (act buffer (q + 1 + 1 + value.length)) as'
          (u.marked p (b :: bs).length (q + 1 + 1)) =
        .ok ⟨parser, u.error, { u.data with headers := u.data.headers.set (b :: bs) value }⟩ ∧
      parser.chunked = u.parser.chunked :=
    perform_writes (u := u.marked p (b :: bs).length (q + 1 + 1)) hwrites hlt
      (List.cons_ne_nil b bs) hfield rfl hvalueAt
  have hstop : as'.any HttpClient.stops = false := by
    obtain rfl | rfl := hwrites <;> rfl
  cases value with
  | nil =>
      have hread : Reads buffer (q + 1 + 1) v (u.marked p (b :: bs).length (q + 1))
          (q + 1 + 1 + 1) back _ :=
        leads_move hvalueAt hvalue hstop (Eq.trans rfl hperform)
      have hlf : Reads buffer (q + 1 + 1 + 1) back _ (q + 1 + 1 + 1 + 1) cs'
          ⟨parser, u.error, { u.data with headers := u.data.headers.set (b :: bs) [] }⟩ :=
        leads_move (drop_succ hvalueAt) hline rfl rfl
      exact ⟨_, parser, (hhead.trans hread).trans hlf, hchunked, drop_succ (drop_succ hvalueAt)⟩
  | cons x xs =>
      obtain ⟨c, c', hbegin, hrest, hend⟩ := hvalue
      have hstart : Reads buffer (q + 1 + 1) v (u.marked p (b :: bs).length (q + 1))
          (q + 1 + 1 + 1) c (u.marked p (b :: bs).length (q + 1 + 1)) :=
        leads_move hvalueAt hbegin rfl rfl
      have hloop : Reads buffer (q + 1 + 1 + 1) c (u.marked p (b :: bs).length (q + 1 + 1))
          (q + 1 + 1 + 1 + xs.length) c' (u.marked p (b :: bs).length (q + 1 + 1)) :=
        leads_walk (drop_succ hvalueAt) hrest _
      have hvalueEnd := drop_add_length hvalueAt
      rw [add_length_cons] at hvalueEnd
      have hread : Reads buffer (q + 1 + 1 + 1 + xs.length) c'
          (u.marked p (b :: bs).length (q + 1 + 1)) (q + 1 + 1 + 1 + xs.length + 1) back
          ⟨parser, u.error, { u.data with headers := u.data.headers.set (b :: bs) (x :: xs) }⟩ := by
        refine leads_move hvalueEnd hend hstop ?_
        rw [← add_length_cons _ x]
        exact hperform
      have hlf : Reads buffer (q + 1 + 1 + 1 + xs.length + 1) back _
          (q + 1 + 1 + 1 + xs.length + 1 + 1) cs'
          ⟨parser, u.error, { u.data with headers := u.data.headers.set (b :: bs) (x :: xs) }⟩ :=
        leads_move (drop_succ hvalueEnd) hline rfl rfl
      exact ⟨_, parser, (((hhead.trans hstart).trans hloop).trans hread).trans hlf, hchunked,
        drop_succ (drop_succ hvalueEnd)⟩

/-- A header that the grammar does not know. -/
theorem reads_header {name value : Bytes} (hlt : buffer.length < 2 ^ 63)
    (hname : name ≠ [] ∧ ∀ b ∈ name, isTokenChar b = true)
    (hunknown : name.map tolower ∉ HttpClient.known)
    (hblank : ∀ b ∈ value.head?, HttpClient.isBlank b = false)
    (hvalue : ∀ b ∈ value, HttpClient.isLineChar b = true)
    (h : buffer.drop p = HttpRequest.dumpHeader (name, value) ++ rest) (u : HttpResponseParser) :
    ∃ p' parser, Reads buffer p 20 u p' 20
        ⟨parser, u.error, { u.data with headers := u.data.headers.set name value }⟩ ∧
      parser.chunked = u.parser.chunked ∧ buffer.drop p' = rest := by
  obtain ⟨b, bs, rfl⟩ := List.exists_cons_of_ne_nil hname.1
  obtain ⟨as, cs₁, hfirst, hstarts, hnamed⟩ :=
    HttpClient.move_first (.inl rfl) (hname.2 b (List.mem_cons_self ..))
  obtain ⟨cs₂, hwalk, hwhole⟩ :=
    HttpClient.walk_name hnamed fun b' hb' => hname.2 b' (List.mem_cons_of_mem _ hb')
  exact reads_field hlt hfirst hstarts hwalk (HttpClient.move_colon hwhole hunknown) rfl
    (HttpClient.ends_value hblank hvalue) (.inl rfl) rfl h u

/-- A header that can be sent and is none of the three. -/
def Plain (e : Bytes × Bytes) : Prop :=
  (e.1 ≠ [] ∧ ∀ b ∈ e.1, isTokenChar b = true) ∧ e.1.map tolower ∉ HttpClient.known ∧
    (∀ b ∈ e.2.head?, HttpClient.isBlank b = false) ∧
      ∀ b ∈ e.2, HttpClient.isLineChar b = true

/-- Such headers, one after the other. -/
theorem reads_headers (hlt : buffer.length < 2 ^ 63) : ∀ {fields : List (Bytes × Bytes)} {p : Nat}
    (u : HttpResponseParser), (∀ e ∈ fields, Plain e) →
    buffer.drop p = fields.flatMap HttpRequest.dumpHeader ++ rest →
    ∃ p' parser, Reads buffer p 20 u p' 20
        ⟨parser, u.error, { u.data with headers := u.data.headers.setAll fields }⟩ ∧
      parser.chunked = u.parser.chunked ∧ buffer.drop p' = rest
  | [], p, u, _, h => ⟨p, u.parser, rfl, rfl, h⟩
  | e :: fields, p, u, hfields, h => by
      obtain ⟨hname, hunknown, hblank, hvalue⟩ := hfields e (List.mem_cons_self ..)
      rw [List.flatMap_cons, List.append_assoc] at h
      obtain ⟨p', parser, hread, hchunked, hdrop⟩ :=
        reads_header hlt hname hunknown hblank hvalue h u
      obtain ⟨p'', parser', hrest, hchunked', hdrop'⟩ := reads_headers hlt
        ⟨parser, u.error, { u.data with headers := u.data.headers.set e.1 e.2 }⟩
        (fun e' he' => hfields e' (List.mem_cons_of_mem _ he')) hdrop
      exact ⟨p'', parser', hread.trans hrest, hchunked'.trans hchunked, hdrop'⟩

theorem reads_connection (hlt : buffer.length < 2 ^ 63) {close : Bool}
    (h : buffer.drop p = HttpRequest.dumpHeader (bytes "connection",
      if close then bytes "close" else bytes "keep-alive") ++ rest) (u : HttpResponseParser) :
    ∃ p' cs parser, Reads buffer p 20 u p' cs ⟨parser, u.error, { u.data with
        headers := u.data.headers.set (bytes "connection")
          (if close then bytes "close" else bytes "keep-alive") }⟩ ∧
      LineStart cs ∧ parser.chunked = u.parser.chunked ∧ buffer.drop p' = rest := by
  obtain ⟨back, cs, hvalue, hline, hstart⟩ := HttpClient.ends_connection close
  have hname : walk HttpClient.machine 25 (bytes "connection").tail = some 34 := rfl
  obtain ⟨p', parser, hread, hchunked, hdrop⟩ := reads_field hlt
    (rfl : move HttpClient.machine 20 99 = some ([.startField], 25)) (.inl rfl) hname rfl rfl
    hvalue (.inl rfl) hline h u
  exact ⟨p', cs, parser, hread, hstart, hchunked, hdrop⟩

theorem reads_contentLength (hlt : buffer.length < 2 ^ 63) {n : Nat} (hcs : LineStart cs)
    (h : buffer.drop p = HttpRequest.dumpHeader (bytes "content-length", decimal n) ++ rest)
    (u : HttpResponseParser) :
    ∃ p' parser, Reads buffer p cs u p' 20 ⟨parser, u.error, { u.data with
        headers := u.data.headers.set (bytes "content-length") (decimal n) }⟩ ∧
      parser.chunked = u.parser.chunked ∧ buffer.drop p' = rest := by
  obtain ⟨as, hfirst, hstarts⟩ : ∃ as, move HttpClient.machine cs 99 = some (as, 25) ∧
      Starts as := by
    obtain rfl | rfl := hcs
    · exact ⟨_, rfl, .inl rfl⟩
    · exact ⟨_, rfl, .inr rfl⟩
  have hname : walk HttpClient.machine 25 (bytes "content-length").tail = some 111 := rfl
  exact reads_field hlt hfirst hstarts hname rfl rfl (HttpClient.ends_decimal n) (.inr rfl) rfl h u

/-- The empty line. -/
theorem exec_end (hcs : LineStart cs) (h : buffer.drop p = HttpRequest.crlf ++ rest)
    (u : HttpResponseParser) :
    exec HttpClient.machine HttpClient.stops (act buffer) (buffer.drop p) p cs u =
      .ok ⟨false, 120, p + 1 + 1,
        { u with parser := { u.parser with bodyStart := p + 1 + 1 } }⟩ := by
  obtain ⟨as, hmove, hstop, hperform⟩ : ∃ as, move HttpClient.machine cs 13 = some (as, 3) ∧
      as.any HttpClient.stops = false ∧ perform (act buffer p) as u = .ok u := by
    obtain rfl | rfl := hcs
    · exact ⟨_, rfl, rfl, rfl⟩
    · exact ⟨_, rfl, rfl, rfl⟩
  have hcr : Reads buffer p cs u (p + 1) 3 u := leads_move h hmove hstop hperform
  exact Eq.trans hcr (exec_stop (drop_succ h) rfl rfl rfl)

/-! ## Which executions fail -/

/-- The positions that have been stored when `p` is reached. -/
structure Within (len p : Nat) (r : HttpClientParser) : Prop where
  mark : r.mark ≤ p ∧ r.mark < len
  fieldStart : r.fieldStart ≤ p ∧ r.fieldStart < len
  fieldLen : r.fieldLen ≤ len

theorem sub64_le {m n : Nat} (h : m ≤ n) (hn : n < 2 ^ 64) : sub64 n m = n - m := by
  obtain ⟨k, rfl⟩ := Nat.exists_eq_add_of_le h
  rw [sub64_add (by omega), Nat.add_sub_cancel_left]

theorem str_small {n : Nat} (start : Nat) (h : n < 2 ^ 63) : ∃ s, str buffer start n = .ok s := by
  refine ⟨(buffer.drop start).take n, ?_⟩
  rw [str, if_neg (Nat.not_le.mpr h)]

theorem Within.act {r : HttpClientParser} (h : Within buffer.length p r)
    (hlt : buffer.length < 2 ^ 63) (hp : p < buffer.length) (a : ClientAction) :
    Within buffer.length p (r.act buffer p a) := by
  obtain ⟨hmark, hstart, hlen⟩ := h
  cases a with
  | mark | startValue => exact ⟨⟨Nat.le_refl p, hp⟩, hstart, hlen⟩
  | startField => exact ⟨hmark, ⟨Nat.le_refl p, hp⟩, hlen⟩
  | writeField =>
      have hact : r.act buffer p .writeField = { r with fieldLen := sub64 p r.fieldStart } := rfl
      rw [hact, sub64_le hstart.1 (by omega)]
      exact ⟨hmark, hstart, (Nat.sub_le ..).trans (Nat.le_of_lt hp)⟩
  | _ => exact ⟨hmark, hstart, hlen⟩

/-- The strings that are taken out of the buffer are shorter than it. -/
theorem act_within (hlt : buffer.length < 2 ^ 63) (hp : p < buffer.length) (a : ClientAction)
    {u : HttpResponseParser} (h : Within buffer.length p u.parser) :
    ∃ v, act buffer p a u = .ok v ∧ Within buffer.length p v.parser := by
  obtain ⟨value, hvalue⟩ : ∃ s, str buffer u.parser.mark (sub64 p u.parser.mark) = .ok s := by
    refine str_small _ ?_
    rw [sub64_le h.mark.1 (by omega)]
    omega
  obtain ⟨v, hv⟩ : ∃ v, act buffer p a u = .ok v := by
    cases a with
    | writeValue =>
        by_cases hnil : u.parser.fieldLen = 0
        · rw [act, notify, onResponseHttpField, if_pos hnil]
          exact ⟨_, rfl⟩
        · obtain ⟨name, hname⟩ : ∃ s, str buffer u.parser.fieldStart u.parser.fieldLen = .ok s :=
            str_small _ (Nat.lt_of_le_of_lt h.fieldLen hlt)
          rw [act, notify, onResponseHttpField, if_neg hnil, hname, hvalue]
          exact ⟨_, rfl⟩
    | reasonPhrase =>
        rw [act, notify]
        simp only [hvalue]
        exact ⟨_, rfl⟩
    | _ => exact ⟨_, rfl⟩
  refine ⟨v, hv, ?_⟩
  rw [(HttpClient.act_spec hv).1]
  exact h.act hlt hp a

theorem perform_within (hlt : buffer.length < 2 ^ 63) (hp : p < buffer.length) :
    ∀ (as : List ClientAction) {u : HttpResponseParser}, Within buffer.length p u.parser →
      ∃ v, perform (act buffer p) as u = .ok v ∧ Within buffer.length p v.parser
  | [], u, h => ⟨u, rfl, h⟩
  | a :: as, u, h => by
      obtain ⟨v, hact, hv⟩ := act_within hlt hp a h
      obtain ⟨w, hrest, hw⟩ := perform_within hlt hp as hv
      exact ⟨w, (perform_cons hact as).trans hrest, hw⟩

/-- A run from any state, and what it is checked for. -/
theorem exec_within (hlt : buffer.length < 2 ^ 63) (hne : buffer ≠ []) (cs : Nat)
    (u : HttpResponseParser) :
    ∃ h, exec HttpClient.machine HttpClient.stops (act buffer) buffer 0 cs u.reset = .ok h ∧
      Checked { h.user.parser with cs := h.cs } buffer.length := by
  have hpos := List.length_pos_iff.mpr hne
  have hreset : Within buffer.length 0 u.reset.parser :=
    ⟨⟨Nat.le_refl 0, hpos⟩, ⟨Nat.le_refl 0, hpos⟩, Nat.zero_le _⟩
  have hstep : ∀ (cs p : Nat) (s : HttpResponseParser) (b : UInt8) (e : Edge ClientAction),
      buffer[p]? = some b → next HttpClient.machine cs b = some e →
      Within buffer.length p s.parser → ∃ s', perform (act buffer p) e.acts s = .ok s' ∧
        Within buffer.length (p + 1) s'.parser := by
    intro _ p s b e hb _ hs
    obtain ⟨hp, -⟩ := List.getElem?_eq_some_iff.mp hb
    obtain ⟨v, hperform, hmark, hstart, hlen⟩ := perform_within hlt hp e.acts hs
    exact ⟨v, hperform, ⟨Nat.le_succ_of_le hmark.1, hmark.2⟩,
      ⟨Nat.le_succ_of_le hstart.1, hstart.2⟩, hlen⟩
  obtain ⟨h, hexec, -, p', hmark, hstart, hlen⟩ :=
    exec_inv (I := fun _ p (s : HttpResponseParser) => Within buffer.length p s.parser)
      hstep List.drop_zero hreset
  exact ⟨h, hexec, hmark.2, hlen, hstart.2⟩

end HttpResponseParser

end Sylar
