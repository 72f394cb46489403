import Sylar.HttpClientParser

/-!
# The header Transfer-Encoding

When a header block has the line `Transfer-Encoding: chunked`, the
parser has set `chunked` at its end. Behind a line break the machine is
between two lines wherever it has been before (`after_line`), and in
there the case of a letter makes no difference (`move_tolower`).
-/

namespace Sylar

open Scanner

/-! ## The states of a header block -/

namespace HttpClient

/-- The states between the lines of a header block. -/
def InHeaders (cs : Nat) : Prop := cs = 3 ∨ 20 ≤ cs

instance (cs : Nat) : Decidable (InHeaders cs) := inferInstanceAs (Decidable (_ ∨ _))

theorem move_row (cs : Nat) : (∀ b, move machine cs b = none) ∨
    ∃ row ∈ states, row.1 = cs ∧ ∀ b, move machine cs b = move (fun _ => row.2) 0 b := by
  unfold move next machine
  split
  · rename_i row hrow
    exact .inr ⟨row, List.mem_of_find?_eq_some hrow, by simpa using List.find?_some hrow,
      fun _ => rfl⟩
  · exact .inl fun _ => rfl

/-- An edge between the lines stays there. -/
theorem target_inHeaders : ∀ row ∈ states, InHeaders row.1 → ∀ e ∈ row.2, InHeaders e.target := by
  decide +kernel

/-- In these rows a letter leads where its lower case does. -/
theorem row_letters : ∀ row ∈ states, InHeaders row.1 → ∀ n < 26,
    (move (fun _ => row.2) 0 (UInt8.ofNat (65 + n))).map Prod.snd =
      (move (fun _ => row.2) 0 (UInt8.ofNat (97 + n))).map Prod.snd := by
  decide +kernel

theorem inHeaders_move {cs : Nat} {b : UInt8} {e : List ClientAction × Nat} (h : InHeaders cs)
    (hmove : move machine cs b = some e) : InHeaders e.2 := by
  obtain hnone | ⟨row, hrow, rfl, heq⟩ := move_row cs
  · rw [hnone] at hmove
    cases hmove
  · rw [heq] at hmove
    obtain ⟨edge, hedge, rfl⟩ := Option.map_eq_some_iff.mp hmove
    exact target_inHeaders row hrow h edge (next_mem hedge).1

/-- There the case of a letter makes no difference. -/
theorem move_tolower {cs : Nat} (h : InHeaders cs) (b : UInt8) :
    (move machine cs b).map Prod.snd = (move machine cs (tolower b)).map Prod.snd := by
  have hcases : ∀ b : UInt8, tolower b = b ∨
      ∃ n < 26, b = UInt8.ofNat (65 + n) ∧ tolower b = UInt8.ofNat (97 + n) := by decide +kernel
  obtain hsame | ⟨n, hn, rfl, hlower⟩ := hcases b
  · rw [hsame]
  · obtain hnone | ⟨row, hrow, rfl, heq⟩ := move_row cs
    · rw [hnone, hnone]
    · rw [hlower, heq, heq]
      exact row_letters row hrow h n hn

theorem after_tolower : ∀ {bs : Bytes} {cs : Nat}, InHeaders cs →
    after machine cs bs = after machine cs (bs.map tolower)
  | [], _, _ => rfl
  | b :: bs, cs, h => by
      have hmove := move_tolower h b
      rw [List.map_cons, after, after]
      cases hb : move machine cs b with
      | none =>
          rw [hb] at hmove
          rw [Option.map_eq_none_iff.mp hmove.symm]
          rfl
      | some e =>
          rw [hb] at hmove
          obtain ⟨e', he', heq⟩ := Option.map_eq_some_iff.mp hmove.symm
          rw [he']
          show after machine e.2 bs = after machine e'.2 (bs.map tolower)
          rw [heq]
          exact after_tolower (inHeaders_move h hb)

/-- The states behind a carriage return, and behind a line break. -/
def afterCr : List Nat := [3, 19, 24, 37, 63, 71, 72, 80, 88, 89, 95, 114, 116, 118]

def afterCrlf : List Nat := [20, 36, 37, 43, 62, 63, 113, 114, 120, 121, 122, 123]

/-- A line that begins with `T`. -/
theorem after_line {cs cs' : Nat} {b : UInt8} (hb : tolower b = 116)
    (h : after machine cs [13, 10, b] = some cs') : cs' = 44 := by
  have hcr : ∀ row ∈ states, (move (fun _ => row.2) 0 13).all (·.2 ∈ afterCr) = true := by
    decide +kernel
  have hlf : ∀ cs ∈ afterCr, (move machine cs 10).all (·.2 ∈ afterCrlf) = true := by
    decide
  have hline : ∀ cs ∈ afterCrlf, ∀ b ∈ [84, 116], (move machine cs b).all (·.2 = 44) = true := by
    decide +kernel
  have hletter : ∀ b, tolower b = 116 → b ∈ [84, 116] := by decide +kernel
  obtain ⟨e, he, h⟩ := Option.bind_eq_some_iff.mp h
  obtain ⟨e', he', h⟩ := Option.bind_eq_some_iff.mp h
  obtain ⟨e'', he'', h⟩ := Option.bind_eq_some_iff.mp h
  have hcs : e.2 ∈ afterCr := by
    obtain hnone | ⟨row, hrow, -, heq⟩ := move_row cs
    · rw [hnone] at he
      cases he
    · rw [heq] at he
      have hall := hcr row hrow
      rw [he] at hall
      exact of_decide_eq_true hall
  have hcs' : e'.2 ∈ afterCrlf := by
    have hall := hlf _ hcs
    rw [he'] at hall
    exact of_decide_eq_true hall
  have hcs'' := hline _ hcs' b (hletter b hb)
  rw [he''] at hcs''
  rw [← Option.some.inj h]
  exact of_decide_eq_true hcs''

end HttpClient

/-! ## A line of the header block -/

/-- `Transfer-Encoding: chunked`, in any case and with any number of
blanks. -/
def ChunkedLine (line : Bytes) : Prop :=
  ∃ name blanks value, line = name ++ 58 :: (blanks ++ value) ∧
    name.map tolower = bytes "transfer-encoding" ∧ (∀ b ∈ blanks, b = 32) ∧
    value.map tolower = bytes "chunked"

/-- A header block with this line in it. -/
def HasChunkedLine (header : Bytes) : Prop :=
  ∃ pre line post, ChunkedLine line ∧
    header = pre ++ [13, 10] ++ line ++ 13 :: 10 :: post

namespace HttpClient

theorem after_blanks : ∀ {blanks : Bytes}, (∀ b ∈ blanks, b = 32) →
    after machine 61 blanks = some 61
  | [], _ => rfl
  | b :: bs, h => by
      have hblank : move machine 61 32 = some ([.startValue], 61) := by decide
      obtain rfl := h b (List.mem_cons_self ..)
      rw [after, hblank]
      exact after_blanks fun b' hb' => h b' (List.mem_cons_of_mem _ hb')

theorem after_chunkedLine {line : Bytes} (h : ChunkedLine line) {cs cs' : Nat}
    (hafter : after machine cs ([13, 10] ++ line) = some cs') : cs' = 87 := by
  obtain ⟨name, blanks, value, rfl, hname, hblanks, hvalue⟩ := h
  have hcolon : (move machine 60 58).map Prod.snd = some 61 := by decide
  have hrest : after machine 44 ((bytes "transfer-encoding").tail) = some 60 := by decide
  have hword : after machine 61 (bytes "chunked") = some 87 := by decide
  obtain ⟨t, name, rfl⟩ : ∃ t ts, name = t :: ts := by
    refine List.exists_cons_of_ne_nil fun hnil => ?_
    rw [hnil] at hname
    cases hname
  obtain ⟨ht, hname⟩ := List.cons.inj (show tolower t :: name.map tolower =
    116 :: (bytes "transfer-encoding").tail from hname)
  have hsplit : [13, 10] ++ ((t :: name) ++ 58 :: (blanks ++ value)) =
      [13, 10, t] ++ (name ++ (58 :: (blanks ++ value))) := rfl
  rw [hsplit, after_append] at hafter
  obtain ⟨cs₁, hline, hafter⟩ := Option.bind_eq_some_iff.mp hafter
  obtain rfl := after_line ht hline
  rw [after_append, after_tolower (by decide), hname, hrest] at hafter
  have hcolon' : after machine 60 (58 :: (blanks ++ value)) =
      after machine 61 (blanks ++ value) := by
    obtain ⟨e, he, heq⟩ := Option.map_eq_some_iff.mp hcolon
    rw [after, he]
    exact congrArg (after machine · (blanks ++ value)) heq
  have hvalue' : after machine 61 value = some 87 := by
    rw [after_tolower (by decide), hvalue, hword]
  change after machine 60 (58 :: (blanks ++ value)) = some cs' at hafter
  rw [hcolon', after_append, after_blanks hblanks] at hafter
  exact Option.some.inj (hafter.symm.trans hvalue')

example : after machine 19 (10 :: bytes "TRANSFER-encoding:  Chunked") = some 87 := by
  decide +kernel

/-- No callback assigns to the parser or to the body. -/
theorem notify_spec {buffer : Bytes} {p : Nat} {a : ClientAction} {r r' : HttpResponseParser}
    (h : r.notify buffer p a = .ok r') : r'.parser = r.parser ∧ r'.data.body = r.data.body := by
  have hsame (hok : Except.ok (ε := StdFault) r = .ok r') :
      r'.parser = r.parser ∧ r'.data.body = r.data.body := by
    obtain rfl := Except.ok.inj hok
    exact ⟨rfl, rfl⟩
  cases a with
  | writeValue =>
      simp only [HttpResponseParser.notify, HttpResponseParser.onResponseHttpField] at h
      split at h
      · exact hsame h
      · obtain ⟨x, -, h⟩ := bind_eq_ok.mp h
        obtain ⟨y, -, h⟩ := bind_eq_ok.mp h
        obtain rfl := Except.ok.inj h
        exact ⟨rfl, rfl⟩
  | reasonPhrase =>
      obtain ⟨x, -, h⟩ := bind_eq_ok.mp h
      obtain rfl := Except.ok.inj h
      exact ⟨rfl, rfl⟩
  | statusCode =>
      obtain rfl := Except.ok.inj h
      exact ⟨rfl, rfl⟩
  | httpVersion =>
      obtain rfl := Except.ok.inj h
      simp only [HttpResponseParser.onResponseVersion]
      split
      · exact ⟨rfl, rfl⟩
      · split <;> exact ⟨rfl, rfl⟩
  | mark => exact hsame h
  | startField => exact hsame h
  | writeField => exact hsame h
  | startValue => exact hsame h
  | writeContentLen => exact hsame h
  | writeConnectionClose => exact hsame h
  | chunkSize => exact hsame h
  | transChunked => exact hsame h
  | done => exact hsame h

theorem act_spec {buffer : Bytes} {p : Nat} {a : ClientAction} {r r' : HttpResponseParser}
    (h : HttpResponseParser.act buffer p a r = .ok r') :
    r'.parser = r.parser.act buffer p a ∧ r'.data.body = r.data.body := by
  obtain ⟨u, hu, h⟩ := bind_eq_ok.mp h
  obtain rfl := Except.ok.inj h
  obtain ⟨hparser, hbody⟩ := notify_spec hu
  exact ⟨congrArg (·.act buffer p a) hparser, hbody⟩

/-- Nothing takes `chunked` back. -/
theorem act_chunked {buffer : Bytes} (p : Nat) (a : ClientAction) (r r' : HttpResponseParser)
    (hr : r.parser.chunked = true) (h : HttpResponseParser.act buffer p a r = .ok r') :
    r'.parser.chunked = true := by
  rw [(act_spec h).1]
  cases a <;> simp only [HttpClientParser.act, hr]

/-- The line sets `chunked`. -/
theorem chunked_of_line {buffer : Bytes} {header extra : Bytes} (hline : HasChunkedLine header)
    {ref : Halt HttpResponseParser} {u : HttpResponseParser}
    (h : exec machine stops (HttpResponseParser.act buffer) (header ++ extra) 0 1 u = .ok ref)
    (hp : ref.p = header.length) : ref.user.parser.chunked = true := by
  obtain ⟨pre, line, post, hchunked, rfl⟩ := hline
  have hend : move machine 87 13 = some ([.writeValue], 71) ∧
      move machine 71 10 = some ([.transChunked], 20) := by
    exact ⟨rfl, rfl⟩
  have hsplit : pre ++ [13, 10] ++ line ++ 13 :: 10 :: post ++ extra =
      (pre ++ ([13, 10] ++ line)) ++ 13 :: 10 :: (post ++ extra) := by simp
  rw [hsplit] at h
  obtain ⟨cs, s, hafter, hexec⟩ := exec_split h (by rw [hp]; simp)
  rw [after_append] at hafter
  obtain ⟨c, -, hafter⟩ := Option.bind_eq_some_iff.mp hafter
  obtain rfl := after_chunkedLine hchunked hafter
  obtain ⟨s₁, -, hexec⟩ := exec_move hexec hend.1 rfl
  obtain ⟨s₂, hperform, hexec⟩ := exec_move hexec hend.2 rfl
  have hset : s₂.parser.chunked = true := by
    obtain ⟨v, hact, hnil⟩ := bind_eq_ok.mp hperform
    obtain rfl := Except.ok.inj hnil
    rw [(act_spec hact).1, HttpClientParser.act]
  exact exec_keeps (P := fun u => u.parser.chunked = true) act_chunked hset hexec

end HttpClient

end Sylar
