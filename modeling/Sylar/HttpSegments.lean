import Sylar.HttpSession

/-!
# Requests that arrive in pieces

`http_parser_execute` starts every call with `mark`, `field_start` and
`field_len` at 0, and `recvRequest` discards what has been parsed. A
token of the header block that is cut by the end of a read is therefore
seen from the cut on only.

`tokens` lists the tokens of a header block with the positions where
they are marked and used. As long as no read ends inside a token
(`Uncut`), the parser, fed block by block, computes what it computes
from the whole header block at once: its state is the same, and each
position it has marked is the same place, as long as it is used at all
(`Sim`, `simulates`). `Progress` says that of a parser between two
reads; `execute_block` and `execute_last` are one execution on it.
-/

namespace Sylar

open Scanner

/-! ## The machine -/

namespace Http11

variable {relaxed : Bool} {cs : Nat} {e : Edge HttpAction}

theorem mem_states (h : e ∈ machine relaxed cs) :
    ∃ row ∈ states relaxed, row.1 = cs ∧ e ∈ row.2 := by
  unfold machine at h
  split at h
  · rename_i row hrow
    exact ⟨row, List.mem_of_find?_eq_some hrow, by simpa using List.find?_some hrow, h⟩
  · cases h

/-- What the edges of the tables do. -/
structure StatesChecked (relaxed : Bool) : Prop where
  final : ∀ row ∈ states relaxed, ∀ e ∈ row.2, e.acts.any stops = true ↔ firstFinal ≤ e.target
  method : ∀ row ∈ states relaxed, ∀ e ∈ row.2, .requestMethod ∈ e.acts → e.on = [(32, 32)]
  value : ∀ row ∈ states relaxed, ∀ e ∈ row.2, .writeValue ∈ e.acts →
    row.1 = 15 ∧ e.acts = [.startValue, .writeValue] ∨ row.1 = 16 ∧ e.acts = [.writeValue]
  target : ∀ row ∈ states relaxed, ∀ e ∈ row.2, e.target = 15 ∨ e.target = 16 →
    e.target = 15 ∧ e.acts = [.writeField] ∨ row.1 = 15 ∧ e.acts = [.startValue] ∨
      e.target = 16 ∧ row.1 = 16 ∧ e.acts = []

theorem states_checked (relaxed : Bool) : StatesChecked relaxed := by
  cases relaxed <;> constructor <;> decide +kernel

/-- The final states are those a stop leads to. -/
theorem stops_iff_final (h : e ∈ machine relaxed cs) :
    e.acts.any stops = true ↔ firstFinal ≤ e.target := by
  obtain ⟨row, hrow, -, he⟩ := mem_states h
  exact (states_checked relaxed).final row hrow e he

/-- A method ends with a space. -/
theorem on_requestMethod (h : e ∈ machine relaxed cs) (hact : .requestMethod ∈ e.acts) :
    e.on = [(32, 32)] := by
  obtain ⟨row, hrow, -, he⟩ := mem_states h
  exact (states_checked relaxed).method row hrow e he hact

/-- A value is written in the states 15 and 16, behind its name. -/
theorem acts_writeValue (h : e ∈ machine relaxed cs) (hact : .writeValue ∈ e.acts) :
    cs = 15 ∧ e.acts = [.startValue, .writeValue] ∨ cs = 16 ∧ e.acts = [.writeValue] := by
  obtain ⟨row, hrow, rfl, he⟩ := mem_states h
  exact (states_checked relaxed).value row hrow e he hact

/-- These states are entered when the name has been written. -/
theorem acts_of_target (h : e ∈ machine relaxed cs) (ht : e.target = 15 ∨ e.target = 16) :
    e.target = 15 ∧ e.acts = [.writeField] ∨ cs = 15 ∧ e.acts = [.startValue] ∨
      e.target = 16 ∧ cs = 16 ∧ e.acts = [] := by
  obtain ⟨row, hrow, rfl, he⟩ := mem_states h
  exact (states_checked relaxed).target row hrow e he ht

end Http11

/-! ## The tokens of a header block -/

namespace HttpParser

/-- The token an action at position `p` uses: from its mark to `p`. A
header is one from the start of its name. -/
def token (p : Nat) (r : HttpParser) : HttpAction → List (Nat × Nat)
  | .writeValue => [(r.fieldStart, p)]
  | .requestMethod | .fragment | .httpVersion | .requestPath => [(r.mark, p)]
  | .queryString => [(r.queryStart.getD 0, p)]
  | _ => []

/-- The tokens the actions of one edge use. -/
def edgeTokens (p : Nat) : List HttpAction → HttpParser → List (Nat × Nat)
  | [], _ => []
  | a :: as, r => r.token p a ++ edgeTokens p as (r.act p a)

/-- The tokens of what is left of a header block at position `p`. -/
def tokensFrom (relaxed : Bool) : Bytes → Nat → Nat → HttpParser → List (Nat × Nat)
  | [], _, _, _ => []
  | b :: bs, p, cs, r =>
      match next (Http11.machine relaxed) cs b with
      | none => []
      | some e => edgeTokens p e.acts r ++
          if e.acts.any Http11.stops then []
          else tokensFrom relaxed bs (p + 1) e.target (e.acts.foldl (act p) r)

end HttpParser

def tokens (relaxed : Bool) (header : Bytes) : List (Nat × Nat) :=
  HttpParser.tokensFrom relaxed header 0 Http11.start (.init relaxed)

/-- No read that ends at `k` cuts one of the tokens. -/
def Uncut (k : Nat) (ts : List (Nat × Nat)) : Prop := ∀ t ∈ ts, ¬(t.1 < k ∧ k ≤ t.2)

instance (k : Nat) (ts : List (Nat × Nat)) : Decidable (Uncut k ts) :=
  inferInstanceAs (Decidable (∀ t ∈ ts, _))

theorem HttpParser.snd_of_mem_edgeTokens {p : Nat} {t : Nat × Nat} :
    ∀ {as : List HttpAction} {r : HttpParser}, t ∈ r.edgeTokens p as → t.2 = p
  | [], _, h => nomatch h
  | a :: as, r, h => by
      rcases List.mem_append.mp h with h | h
      · cases a with
        | writeValue | requestMethod | fragment | httpVersion | requestPath | queryString =>
            rw [List.mem_singleton.mp h]
        | mark | startField | writeField | startValue | requestUri | startQuery | done | xml |
          json => cases h
      · exact snd_of_mem_edgeTokens h

theorem HttpParser.snd_lt_of_mem_tokensFrom {relaxed : Bool} {t : Nat × Nat} :
    ∀ {bs : Bytes} {p cs : Nat} {r : HttpParser}, t ∈ r.tokensFrom relaxed bs p cs →
      t.2 < p + bs.length
  | [], _, _, _, h => nomatch h
  | b :: bs, p, cs, r, h => by
      rw [tokensFrom] at h
      rw [List.length_cons]
      split at h
      · cases h
      · rcases List.mem_append.mp h with h | h
        · rw [snd_of_mem_edgeTokens h]
          omega
        · split at h
          · cases h
          · have := snd_lt_of_mem_tokensFrom h
            omega

/-- Behind the header block there is nothing left to cut. -/
theorem uncut_of_le {relaxed : Bool} {header : Bytes} {k : Nat} (h : header.length ≤ k) :
    Uncut k (tokens relaxed header) := by
  intro t ht hk
  have := HttpParser.snd_lt_of_mem_tokensFrom ht
  omega

/-! ## What the callbacks look at -/

theorem sub64_shift {base m p : Nat} (hbase : base ≤ m) (hp : m ≤ p) :
    sub64 (p - base) (m - base) = sub64 p m := by
  unfold sub64
  congr 1
  omega

theorem sub64_le {m p : Nat} (hp : m ≤ p) : m + sub64 p m ≤ p := by
  have hmod : sub64 p m = (p - m) % 2 ^ 64 := by
    rw [sub64, show p + 2 ^ 64 - m = p - m + 2 ^ 64 by omega, Nat.add_mod_right]
  have hle : (p - m) % 2 ^ 64 ≤ p - m := Nat.mod_le ..
  omega

/-- `strncmp` looks at `n` bytes. -/
theorem strncmpEq_congr : ∀ {n : Nat} {a b c : Bytes}, a.take n = b.take n →
    strncmpEq a c n = strncmpEq b c n
  | 0, _, _, _, _ => rfl
  | n + 1, a, b, c, h => by
      have hhead : a.headD 0 = b.headD 0 := by
        cases a with
        | nil =>
            cases b with
            | nil => rfl
            | cons y ys => cases h
        | cons x xs =>
            cases b with
            | nil => cases h
            | cons y ys => exact (List.cons.inj h).1
      have htail : a.tail.take n = b.tail.take n := by
        cases a with
        | nil =>
            cases b with
            | nil => rfl
            | cons y ys => cases h
        | cons x xs =>
            cases b with
            | nil => cases h
            | cons y ys => exact (List.cons.inj h).2
      rw [strncmpEq, strncmpEq, hhead, strncmpEq_congr (c := c.tail) htail]

/-- Compared to a name without spaces it does not look behind a space. -/
theorem strncmpEq_space : ∀ {name a b : Bytes} {i : Nat}, 32 ∉ name → a[i]? = some 32 →
    a.take (i + 1) = b.take (i + 1) →
    strncmpEq name a name.length = strncmpEq name b name.length
  | [], _, _, _, _, _, _ => rfl
  | x :: name, [], b, i, _, hi, _ => by simp at hi
  | x :: name, y :: a, [], i, _, _, h => by cases h
  | x :: name, y :: a, z :: b, i, hname, hi, h => by
      rw [List.take_succ_cons, List.take_succ_cons] at h
      obtain ⟨rfl, htl⟩ := List.cons.inj h
      obtain ⟨hx, hname⟩ := not_or.mp (List.mem_cons.not.mp hname)
      cases i with
      | zero =>
          obtain rfl : y = 32 := by simpa using hi
          have hne : (x == 32) = false := beq_false_of_ne (Ne.symm hx)
          rw [List.length_cons, strncmpEq, strncmpEq]
          simp only [List.headD_cons, hne, Bool.false_and]
      | succ i =>
          have ih := strncmpEq_space hname (by simpa using hi) htl
          rw [List.length_cons, strncmpEq, strncmpEq]
          simp only [List.headD_cons, List.tail_cons, ih]

theorem charsToHttpMethod_space {a b : Bytes} {i : Nat} (hi : a[i]? = some 32)
    (h : a.take (i + 1) = b.take (i + 1)) : charsToHttpMethod a = charsToHttpMethod b := by
  have hnames : ∀ e ∈ httpMethodMap, 32 ∉ bytes e.2 := by decide
  have hfind : ∀ l : List (HttpMethod × String), (∀ e ∈ l, 32 ∉ bytes e.2) →
      l.find? (fun e => strncmpEq (bytes e.2) a (bytes e.2).length) =
        l.find? (fun e => strncmpEq (bytes e.2) b (bytes e.2).length) := by
    intro l
    induction l with
    | nil => intro _; rfl
    | cons e l ih =>
        intro hl
        have he := strncmpEq_space (hl e (List.mem_cons_self ..)) hi h
        have hrest := ih fun e' he' => hl e' (List.mem_cons_of_mem _ he')
        rw [List.find?_cons, List.find?_cons, he, hrest]
  rw [charsToHttpMethod, charsToHttpMethod, hfind _ hnames]

/-! ## A buffer with a piece of the header block -/

/-- The buffer `data` holds the bytes of `header` from `base` to `limit`. -/
structure Agree (header data : Bytes) (base limit : Nat) : Prop where
  le : limit ≤ header.length
  take : data.take (limit - base) = (header.drop base).take (limit - base)

section

variable {header data : Bytes} {base limit p : Nat} {r r' s : HttpRequestParser}
  {a : HttpAction}

theorem take_drop_take {l : Bytes} {i n m : Nat} (h : i + n ≤ m) :
    ((l.take m).drop i).take n = (l.drop i).take n := by
  rw [List.drop_take, List.take_take, Nat.min_eq_left (by omega)]

theorem Agree.slice (h : Agree header data base limit) {i n : Nat} (hi : base ≤ i)
    (hn : i + n ≤ limit) : (data.drop (i - base)).take n = (header.drop i).take n := by
  rw [← take_drop_take (m := limit - base) (by omega), h.take, take_drop_take (by omega),
    List.drop_drop, Nat.add_sub_cancel' hi]

theorem Agree.str_eq (h : Agree header data base limit) {i n : Nat} (hi : base ≤ i)
    (hn : i + n ≤ limit) : str data (i - base) n = str header i n := by
  rw [str, str, h.slice hi hn]

/-! ## Two parsers side by side -/

/-- `r` has parsed the header block up to `p`, and so has `s`, whose
buffer begins at `base`: what `r` has marked from there on, `s` has
marked at the same byte. -/
structure Sim (base p : Nat) (r s : HttpRequestParser) : Prop where
  relaxed : s.parser.uriRelaxed = r.parser.uriRelaxed
  error : s.error = r.error
  data : s.data = r.data
  mark_lt : r.parser.mark < p ∨ r.parser.mark = 0
  mark : base ≤ r.parser.mark → s.parser.mark = r.parser.mark - base
  field_lt : r.parser.fieldStart < p ∨ r.parser.fieldStart = 0
  field : base ≤ r.parser.fieldStart → s.parser.fieldStart = r.parser.fieldStart - base
  query : ∀ q, r.parser.queryStart = some q → q < p ∧
    ∃ q', s.parser.queryStart = some q' ∧ (base ≤ q → q' = q - base)

/-- The name of a header has been written. -/
def Written (base p : Nat) (r s : HttpRequestParser) : Prop :=
  base ≤ r.parser.fieldStart → s.parser.fieldLen = r.parser.fieldLen ∧
    r.parser.fieldStart + r.parser.fieldLen ≤ p

theorem Sim.mono (h : Sim base p r s) : Sim base (p + 1) r s where
  relaxed := h.relaxed
  error := h.error
  data := h.data
  mark_lt := h.mark_lt.imp_left Nat.lt_succ_of_lt
  mark := h.mark
  field_lt := h.field_lt.imp_left Nat.lt_succ_of_lt
  field := h.field
  query q hq := ⟨Nat.lt_succ_of_lt (h.query q hq).1, (h.query q hq).2⟩

/-- The start of a token that is not cut is in the buffer. -/
theorem Uncut.le {m : Nat} (h : Uncut base [(m, p)]) (hp : base ≤ p) : base ≤ m := by
  by_contra hlt
  exact h (m, p) (List.mem_singleton_self _) ⟨Nat.lt_of_not_le hlt, hp⟩

theorem Sim.withFieldLen (h : Sim base p r s) (n n' : Nat) :
    Sim base p { r with parser := { r.parser with fieldLen := n } }
      { s with parser := { s.parser with fieldLen := n' } } :=
  ⟨h.relaxed, h.error, h.data, h.mark_lt, h.mark, h.field_lt, h.field, h.query⟩

theorem Sim.registers (h : Sim base (p + 1) r s) (a : HttpAction) :
    Sim base (p + 1) { r with parser := r.parser.act p a }
      { s with parser := s.parser.act (p - base) a } := by
  cases a with
  | mark =>
      exact ⟨h.relaxed, h.error, h.data, .inl (Nat.lt_succ_self p), fun _ => rfl, h.field_lt, h.field,
        h.query⟩
  | startValue =>
      exact ⟨h.relaxed, h.error, h.data, .inl (Nat.lt_succ_self p), fun _ => rfl, h.field_lt, h.field,
        h.query⟩
  | startField =>
      exact ⟨h.relaxed, h.error, h.data, h.mark_lt, h.mark, .inl (Nat.lt_succ_self p), fun _ => rfl,
        h.query⟩
  | startQuery =>
      refine ⟨h.relaxed, h.error, h.data, h.mark_lt, h.mark, h.field_lt, h.field, ?_⟩
      intro q hq
      obtain rfl := Option.some.inj hq
      exact ⟨Nat.lt_succ_self p, p - base, rfl, fun _ => rfl⟩
  | writeField => exact h.withFieldLen _ _
  | writeValue => exact h
  | requestMethod => exact h
  | requestUri => exact h
  | fragment => exact h
  | queryString => exact h
  | httpVersion => exact h
  | requestPath => exact h
  | done => exact h
  | xml => exact h
  | json => exact h

theorem Sim.withData (h : Sim base p r s) (d : HttpRequest) :
    Sim base p { r with data := d } { s with data := d } :=
  ⟨h.relaxed, h.error, rfl, h.mark_lt, h.mark, h.field_lt, h.field, h.query⟩

theorem Sim.withError (h : Sim base p r s) (e : Nat) :
    Sim base p { r with error := e } { s with error := e, data := r.data } :=
  ⟨h.relaxed, rfl, rfl, h.mark_lt, h.mark, h.field_lt, h.field, h.query⟩

theorem Sim.mark_le (h : Sim base (p + 1) r s) : r.parser.mark ≤ p := by
  have := h.mark_lt
  omega

/-- The string from the mark to `p`. -/
theorem Sim.str_mark (h : Sim base (p + 1) r s) (hab : Agree header data base limit)
    (hp : p < limit) (hm : base ≤ r.parser.mark) :
    str data s.parser.mark (sub64 (p - base) s.parser.mark) =
      str header r.parser.mark (sub64 p r.parser.mark) := by
  have hle := h.mark_le
  have hlen := sub64_le hle
  rw [h.mark hm, sub64_shift hm hle, hab.str_eq hm (by omega)]

theorem Sim.requestMethod (h : Sim base (p + 1) r s) (hab : Agree header data base limit)
    (hp : p < limit) (hm : base ≤ r.parser.mark) (hspace : header[p]? = some 32) :
    Sim base (p + 1) (r.onRequestMethod (header.drop r.parser.mark))
      (s.onRequestMethod (data.drop s.parser.mark)) := by
  have hle := h.mark_le
  have hmethod : charsToHttpMethod (data.drop s.parser.mark) =
      charsToHttpMethod (header.drop r.parser.mark) := by
    refine (charsToHttpMethod_space (i := p - r.parser.mark) ?_ ?_).symm
    · rw [List.getElem?_drop, Nat.add_sub_cancel' hle, hspace]
    · rw [h.mark hm, hab.slice hm (by omega)]
  simp only [HttpRequestParser.onRequestMethod, hmethod, h.data]
  split
  · exact h.withError 1000
  · exact h.withData _

theorem Sim.httpVersion (h : Sim base (p + 1) r s) (hab : Agree header data base limit)
    (hp : p < limit) (hm : base ≤ r.parser.mark) :
    Sim base (p + 1)
      (r.onRequestVersion (header.drop r.parser.mark) (sub64 p r.parser.mark))
      (s.onRequestVersion (data.drop s.parser.mark) (sub64 (p - base) s.parser.mark)) := by
  have hle := h.mark_le
  have hlen := sub64_le hle
  have htake : (data.drop s.parser.mark).take (sub64 p r.parser.mark) =
      (header.drop r.parser.mark).take (sub64 p r.parser.mark) := by
    rw [h.mark hm, hab.slice hm (by omega)]
  have hcmp (c : Bytes) := strncmpEq_congr (c := c) htake
  have hshift : sub64 (p - base) s.parser.mark = sub64 p r.parser.mark := by
    rw [h.mark hm, sub64_shift hm hle]
  simp only [HttpRequestParser.onRequestVersion, hshift, hcmp, h.data]
  split
  · exact h.withData _
  · split
    · exact h.withData _
    · exact h.withError 1001

theorem Sim.httpField (h : Sim base (p + 1) r s) (hab : Agree header data base limit)
    (hp : p < limit) (hf : base ≤ r.parser.fieldStart) (hm : base ≤ r.parser.mark)
    (hw : Written base p r s) (hr : r.onRequestHttpField header p = .ok r') :
    ∃ s', s.onRequestHttpField data (p - base) = .ok s' ∧ Sim base (p + 1) r' s' := by
  obtain ⟨hlen, hle⟩ := hw hf
  unfold HttpRequestParser.onRequestHttpField at hr ⊢
  rw [hlen, h.field hf, hab.str_eq hf (by omega), h.str_mark hab hp hm, h.data]
  split at hr
  · obtain rfl := Except.ok.inj hr
    rename_i hzero
    exact ⟨s, if_pos hzero, h⟩
  · rename_i hzero
    obtain ⟨name, hname, hr⟩ := bind_eq_ok.mp hr
    obtain ⟨value, hvalue, hr⟩ := bind_eq_ok.mp hr
    obtain rfl := Except.ok.inj hr
    refine ⟨_, ?_, h.withData _⟩
    rw [if_neg hzero, hname, hvalue]
    rfl

/-- One callback. -/
theorem Sim.notify (h : Sim base (p + 1) r s) (hab : Agree header data base limit)
    (hbase : base ≤ p) (hp : p < limit) (hcut : Uncut base (r.parser.token p a))
    (hspace : a = .requestMethod → header[p]? = some 32)
    (hvalue : a = .writeValue → Written base p r s ∧
      (base ≤ r.parser.fieldStart → base ≤ r.parser.mark))
    (hr : r.notify header p a = .ok r') :
    ∃ s', s.notify data (p - base) a = .ok s' ∧ Sim base (p + 1) r' s' := by
  cases a with
  | writeValue =>
      obtain ⟨hw, hmark⟩ := hvalue rfl
      have hf := hcut.le hbase
      exact h.httpField hab hp hf (hmark hf) hw hr
  | requestMethod =>
      obtain rfl := Except.ok.inj hr
      exact ⟨_, rfl, h.requestMethod hab hp (hcut.le hbase) (hspace rfl)⟩
  | fragment =>
      obtain ⟨x, hx, hr⟩ := bind_eq_ok.mp hr
      obtain rfl := Except.ok.inj hr
      refine ⟨_, ?_, h.withData _⟩
      rw [HttpRequestParser.notify, h.str_mark hab hp (hcut.le hbase), hx, h.data]
      rfl
  | queryString =>
      cases hq : r.parser.queryStart with
      | none => simp [HttpRequestParser.notify, hq] at hr
      | some q =>
          obtain ⟨hlt, q', hq', heq⟩ := h.query q hq
          have hle : base ≤ q := by
            have := hcut.le hbase
            rwa [hq] at this
          obtain rfl := heq hle
          have hlen := sub64_le (Nat.le_of_lt_succ hlt)
          simp only [HttpRequestParser.notify, hq] at hr
          obtain ⟨x, hx, hr⟩ := bind_eq_ok.mp hr
          obtain rfl := Except.ok.inj hr
          refine ⟨_, ?_, h.withData _⟩
          simp only [HttpRequestParser.notify, hq']
          rw [sub64_shift hle (Nat.le_of_lt_succ hlt), hab.str_eq hle (by omega), hx, h.data]
          rfl
  | httpVersion =>
      obtain rfl := Except.ok.inj hr
      exact ⟨_, rfl, h.httpVersion hab hp (hcut.le hbase)⟩
  | requestPath =>
      obtain ⟨x, hx, hr⟩ := bind_eq_ok.mp hr
      obtain rfl := Except.ok.inj hr
      refine ⟨_, ?_, h.withData _⟩
      rw [HttpRequestParser.notify, h.str_mark hab hp (hcut.le hbase), hx, h.data]
      rfl
  | mark => exact ⟨s, rfl, Except.ok.inj hr ▸ h⟩
  | startField => exact ⟨s, rfl, Except.ok.inj hr ▸ h⟩
  | writeField => exact ⟨s, rfl, Except.ok.inj hr ▸ h⟩
  | startValue => exact ⟨s, rfl, Except.ok.inj hr ▸ h⟩
  | requestUri => exact ⟨s, rfl, Except.ok.inj hr ▸ h⟩
  | startQuery => exact ⟨s, rfl, Except.ok.inj hr ▸ h⟩
  | done => exact ⟨s, rfl, Except.ok.inj hr ▸ h⟩
  | xml => exact ⟨s, rfl, Except.ok.inj hr ▸ h⟩
  | json => exact ⟨s, rfl, Except.ok.inj hr ▸ h⟩

/-- No callback assigns to the parser or takes an error back. -/
theorem notify_spec {buffer : Bytes} (hr : r.notify buffer p a = .ok r') :
    r'.parser = r.parser ∧ (r.error ≠ 0 → r'.error ≠ 0) := by
  have hsame (hok : Except.ok (ε := StdFault) r = .ok r') :
      r'.parser = r.parser ∧ (r.error ≠ 0 → r'.error ≠ 0) := by
    obtain rfl := Except.ok.inj hok
    exact ⟨rfl, id⟩
  cases a with
  | writeValue =>
      simp only [HttpRequestParser.notify, HttpRequestParser.onRequestHttpField] at hr
      split at hr
      · exact hsame hr
      · obtain ⟨x, -, hr⟩ := bind_eq_ok.mp hr
        obtain ⟨y, -, hr⟩ := bind_eq_ok.mp hr
        obtain rfl := Except.ok.inj hr
        exact ⟨rfl, id⟩
  | requestMethod =>
      obtain rfl := Except.ok.inj hr
      simp only [HttpRequestParser.onRequestMethod]
      split
      · exact ⟨rfl, fun _ => Nat.succ_ne_zero _⟩
      · exact ⟨rfl, id⟩
  | httpVersion =>
      obtain rfl := Except.ok.inj hr
      simp only [HttpRequestParser.onRequestVersion]
      split
      · exact ⟨rfl, id⟩
      · split
        · exact ⟨rfl, id⟩
        · exact ⟨rfl, fun _ => Nat.succ_ne_zero _⟩
  | fragment =>
      obtain ⟨x, -, hr⟩ := bind_eq_ok.mp hr
      obtain rfl := Except.ok.inj hr
      exact ⟨rfl, id⟩
  | requestPath =>
      obtain ⟨x, -, hr⟩ := bind_eq_ok.mp hr
      obtain rfl := Except.ok.inj hr
      exact ⟨rfl, id⟩
  | queryString =>
      simp only [HttpRequestParser.notify] at hr
      split at hr
      · cases hr
      · obtain ⟨x, -, hr⟩ := bind_eq_ok.mp hr
        obtain rfl := Except.ok.inj hr
        exact ⟨rfl, id⟩
  | mark => exact hsame hr
  | startField => exact hsame hr
  | writeField => exact hsame hr
  | startValue => exact hsame hr
  | requestUri => exact hsame hr
  | startQuery => exact hsame hr
  | done => exact hsame hr
  | xml => exact hsame hr
  | json => exact hsame hr

theorem parser_act {buffer : Bytes} (hr : HttpRequestParser.act buffer p a r = .ok r') :
    r'.parser = r.parser.act p a := by
  obtain ⟨u, hu, hr⟩ := bind_eq_ok.mp hr
  obtain rfl := Except.ok.inj hr
  show u.parser.act p a = _
  rw [(notify_spec hu).1]

theorem parser_perform {buffer : Bytes} : ∀ {as : List HttpAction} {r r' : HttpRequestParser},
    perform (HttpRequestParser.act buffer p) as r = .ok r' →
    r'.parser = as.foldl (HttpParser.act p) r.parser
  | [], r, r', h => by rw [← Except.ok.inj h, List.foldl_nil]
  | a :: as, r, r', h => by
      obtain ⟨u, hu, h⟩ := bind_eq_ok.mp h
      rw [parser_perform h, parser_act hu, List.foldl_cons]

/-- One action. -/
theorem Sim.act (h : Sim base (p + 1) r s) (hab : Agree header data base limit)
    (hbase : base ≤ p) (hp : p < limit) (hcut : Uncut base (r.parser.token p a))
    (hspace : a = .requestMethod → header[p]? = some 32)
    (hvalue : a = .writeValue → Written base p r s ∧
      (base ≤ r.parser.fieldStart → base ≤ r.parser.mark))
    (hr : HttpRequestParser.act header p a r = .ok r') :
    ∃ s', HttpRequestParser.act data (p - base) a s = .ok s' ∧ Sim base (p + 1) r' s' := by
  obtain ⟨u, hu, hr⟩ := bind_eq_ok.mp hr
  obtain rfl := Except.ok.inj hr
  obtain ⟨v, hv, hsim⟩ := h.notify hab hbase hp hcut hspace hvalue hu
  refine ⟨_, ?_, hsim.registers a⟩
  rw [HttpRequestParser.act, hv]
  rfl

/-- The actions of an edge that writes no value. -/
theorem Sim.perform (hab : Agree header data base limit) (hbase : base ≤ p) (hp : p < limit) :
    ∀ {as : List HttpAction} {r r' s : HttpRequestParser}, Sim base (p + 1) r s →
    Uncut base (r.parser.edgeTokens p as) →
    (.requestMethod ∈ as → header[p]? = some 32) → .writeValue ∉ as →
    Scanner.perform (HttpRequestParser.act header p) as r = .ok r' →
    ∃ s', Scanner.perform (HttpRequestParser.act data (p - base)) as s = .ok s' ∧
      Sim base (p + 1) r' s'
  | [], r, r', s, h, _, _, _, hr => by
      obtain rfl := Except.ok.inj hr
      exact ⟨s, rfl, h⟩
  | a :: as, r, r', s, h, hcut, hspace, hvalue, hr => by
      obtain ⟨u, hu, hr⟩ := bind_eq_ok.mp hr
      obtain ⟨hne, hrest⟩ := not_or.mp (List.mem_cons.not.mp hvalue)
      obtain ⟨v, hv, hsim⟩ := h.act hab hbase hp
        (fun t ht => hcut t (List.mem_append_left _ ht))
        (fun ha => hspace (ha ▸ List.mem_cons_self ..)) (fun ha => absurd ha.symm hne) hu
      have hcut' : Uncut base (u.parser.edgeTokens p as) := by
        rw [parser_act hu]
        exact fun t ht => hcut t (List.mem_append_right _ ht)
      obtain ⟨w, hw, hsim'⟩ := hsim.perform hab hbase hp hcut'
        (fun ha => hspace (List.mem_cons_of_mem _ ha)) hrest hr
      refine ⟨w, ?_, hsim'⟩
      rw [Scanner.perform, hv]
      exact hw

/-- The two parsers before the bytes `bs`, in state `cs`. -/
structure Related (header : Bytes) (relaxed : Bool) (base : Nat) (bs : Bytes) (p cs : Nat)
    (r s : HttpRequestParser) : Prop where
  rest : bs = header.drop p
  sim : Sim base p r s
  written : cs = 15 ∨ cs = 16 → Written base p r s
  valued : cs = 16 → r.parser.fieldStart ≤ r.parser.mark
  within : ∀ t ∈ r.parser.tokensFrom relaxed bs p cs, t ∈ tokens relaxed header

theorem Written.mono (h : Written base p r s) : Written base (p + 1) r s := fun hf =>
  ⟨(h hf).1, Nat.le_succ_of_le (h hf).2⟩

/-- Behind an edge into the states 15 and 16 the name is written. -/
theorem Related.written_next {relaxed : Bool} {bs : Bytes} {cs : Nat} {e : Edge HttpAction}
    {u v : HttpRequestParser} (h : Related header relaxed base bs p cs r s)
    (he : e ∈ Http11.machine relaxed cs) (hbase : base ≤ p) (ht : e.target = 15 ∨ e.target = 16)
    (hu : u.parser = e.acts.foldl (HttpParser.act p) r.parser)
    (hv : v.parser = e.acts.foldl (HttpParser.act (p - base)) s.parser) :
    Written base (p + 1) u v ∧ (e.target = 16 → u.parser.fieldStart ≤ u.parser.mark) := by
  have hf : r.parser.fieldStart ≤ p := by
    have := h.sim.field_lt
    omega
  rcases Http11.acts_of_target he ht with ⟨htarget, hacts⟩ | ⟨hcs, hacts⟩ | ⟨htarget, hcs, hacts⟩
  · rw [hacts, List.foldl_cons, List.foldl_nil, HttpParser.act_writeField] at hu hv
    refine ⟨fun hle => ?_, fun h16 => ?_⟩
    · rw [hu] at hle ⊢
      rw [hv]
      have hle' : base ≤ r.parser.fieldStart := hle
      have := sub64_le hf
      show sub64 (p - base) s.parser.fieldStart = sub64 p r.parser.fieldStart ∧
        r.parser.fieldStart + sub64 p r.parser.fieldStart ≤ p + 1
      rw [h.sim.field hle', sub64_shift hle' hf]
      exact ⟨rfl, by omega⟩
    · rw [htarget] at h16
      cases h16
  · rw [hacts] at hu hv
    have hw := (h.written (.inl hcs)).mono
    refine ⟨fun hle => ?_, fun _ => ?_⟩
    · rw [hu, hv]
      rw [hu] at hle
      exact hw hle
    · rw [hu]
      exact hf
  · rw [hacts] at hu hv
    have hw := (h.written (.inr hcs)).mono
    refine ⟨fun hle => ?_, fun _ => ?_⟩
    · rw [hu, hv]
      rw [hu] at hle
      exact hw hle
    · rw [hu]
      exact h.valued hcs

/-- The edges on which a value is written. -/
theorem Related.perform_value {relaxed : Bool} {bs : Bytes} {cs : Nat} {e : Edge HttpAction}
    {u : HttpRequestParser} (h : Related header relaxed base bs p cs r s)
    (he : e ∈ Http11.machine relaxed cs) (hab : Agree header data base limit) (hbase : base ≤ p)
    (hp : p < limit) (hcut : Uncut base (r.parser.edgeTokens p e.acts))
    (hvalue : .writeValue ∈ e.acts)
    (hu : perform (HttpRequestParser.act header p) e.acts r = .ok u) :
    ∃ v, perform (HttpRequestParser.act data (p - base)) e.acts s = .ok v ∧
      Sim base (p + 1) u v := by
  have hf : r.parser.fieldStart ≤ p := by
    have := h.sim.field_lt
    omega
  rcases Http11.acts_writeValue he hvalue with ⟨hcs, hacts⟩ | ⟨hcs, hacts⟩
  · rw [hacts] at hu hcut ⊢
    obtain ⟨w, hw, hu⟩ := bind_eq_ok.mp hu
    obtain ⟨u', hu', hu⟩ := bind_eq_ok.mp hu
    obtain rfl := Except.ok.inj hu
    have hparser := parser_act hw
    obtain ⟨x, hx, hsim⟩ := h.sim.mono.act (a := .startValue) hab hbase hp
      (fun t ht => nomatch ht) (fun ha => nomatch ha) (fun ha => nomatch ha) hw
    have hwritten : Written base p w x := by
      rw [Written, hparser, parser_act hx]
      exact h.written (.inl hcs)
    have hmark : base ≤ w.parser.mark := by
      rw [hparser]
      exact hbase
    have hcut' : Uncut base (w.parser.token p .writeValue) := by
      rw [hparser]
      exact hcut
    obtain ⟨v, hv, hsim'⟩ := hsim.act (a := .writeValue) hab hbase hp hcut'
      (fun ha => nomatch ha) (fun _ => ⟨hwritten, fun _ => hmark⟩) hu'
    refine ⟨v, ?_, hsim'⟩
    rw [perform, hx]
    show perform _ [_] x = _
    rw [perform, hv]
    rfl
  · rw [hacts] at hu hcut ⊢
    obtain ⟨u', hu', hu⟩ := bind_eq_ok.mp hu
    obtain rfl := Except.ok.inj hu
    obtain ⟨v, hv, hsim⟩ := h.sim.mono.act (a := .writeValue) hab hbase hp hcut
      (fun ha => nomatch ha)
      (fun _ => ⟨h.written (.inr hcs), fun hle => hle.trans (h.valued hcs)⟩) hu'
    refine ⟨v, ?_, hsim⟩
    rw [perform, hv]
    rfl

/-- Both parsers take the same edge. -/
theorem simulates {relaxed : Bool} (hab : Agree header data base limit)
    (huncut : Uncut base (tokens relaxed header)) :
    Simulates (Http11.machine relaxed) Http11.stops (HttpRequestParser.act header)
      (HttpRequestParser.act data) base limit (Related header relaxed base)
      (fun r s => ∃ p, Sim base p r s) := by
  intro b bs p cs r s e u hbase hp h he hu
  obtain ⟨hmem, htakes⟩ := next_mem he
  have htokens : r.parser.tokensFrom relaxed (b :: bs) p cs = r.parser.edgeTokens p e.acts ++
      if e.acts.any Http11.stops then []
      else (e.acts.foldl (HttpParser.act p) r.parser).tokensFrom relaxed bs (p + 1) e.target := by
    rw [HttpParser.tokensFrom, he]
  have hwithin := h.within
  rw [htokens] at hwithin
  have hcut : Uncut base (r.parser.edgeTokens p e.acts) :=
    fun t ht => huncut t (hwithin t (List.mem_append_left _ ht))
  have hbyte : header[p]? = some b := by
    rw [← List.head?_drop, ← h.rest]
    rfl
  obtain ⟨v, hv, hsim⟩ : ∃ v, perform (HttpRequestParser.act data (p - base)) e.acts s = .ok v ∧
      Sim base (p + 1) u v := by
    by_cases hvalue : .writeValue ∈ e.acts
    · exact h.perform_value hmem hab hbase hp hcut hvalue hu
    · refine h.sim.mono.perform hab hbase hp hcut (fun hmethod => ?_) hvalue hu
      have hon := Http11.on_requestMethod hmem hmethod
      rw [Edge.takes, hon] at htakes
      have hb : b = 32 := by
        simp only [List.any_cons, List.any_nil, Bool.or_false, Bool.and_eq_true,
          decide_eq_true_eq] at htakes
        exact UInt8.toNat_inj.mp (show b.toNat = (32 : UInt8).toNat by
          show b.toNat = 32
          omega)
      rw [hbyte, hb]
  refine ⟨v, hv, fun hstop => ?_, fun _ => ⟨_, hsim⟩⟩
  have hup := parser_perform hu
  refine ⟨?_, hsim, fun ht => ?_, fun ht => ?_, ?_⟩
  · rw [← List.tail_drop, ← h.rest]
    rfl
  · exact (h.written_next hmem hbase ht hup (parser_perform hv)).1
  · exact (h.written_next hmem hbase (.inr ht) hup (parser_perform hv)).2 ht
  · rw [hstop] at hwithin
    rw [hup]
    exact fun t ht => hwithin t (List.mem_append_right _ ht)

theorem Sim.withCs (h : Sim base p r s) (cs : Nat) :
    Sim base p r { s with parser := { s.parser with cs := cs } } :=
  ⟨h.relaxed, h.error, h.data, h.mark_lt, h.mark, h.field_lt, h.field, h.query⟩

/-- At the end of a block, after which the positions count from there. -/
theorem Sim.rebase (h : Sim base p r s) (hp : 0 < p) : Sim p p r s.reset where
  relaxed := h.relaxed
  error := h.error
  data := h.data
  mark_lt := h.mark_lt
  mark hle := by
    have := h.mark_lt
    omega
  field_lt := h.field_lt
  field hle := by
    have := h.field_lt
    omega
  query q hq := by
    obtain ⟨hlt, q', hq', -⟩ := h.query q hq
    exact ⟨hlt, q', hq', fun hle => absurd hle (Nat.not_le_of_lt hlt)⟩

/-- At the start of a block no name of it has been written yet. -/
theorem Sim.written (h : Sim p p r s) (hp : 0 < p) : Written p p r s := by
  intro hle
  have := h.field_lt
  omega

end

/-! ## One read -/

/-- How a run over a whole header block ends. -/
structure Accepted (header : Bytes) (ref : Halt HttpRequestParser) : Prop where
  stopped : ref.running = false
  final : Http11.firstFinal ≤ ref.cs
  all : ref.p = header.length
  error : ref.user.error = 0

/-- `s` has been fed the first `pos` bytes of the header block, and the
run over all of it, which ends with `ref`, is where `s` is. -/
structure Progress (header : Bytes) (relaxed : Bool) (ref : Halt HttpRequestParser) (pos : Nat)
    (s : HttpRequestParser) : Prop where
  lt : pos < header.length
  uri : s.parser.uriRelaxed = relaxed
  running : s.parser.cs ≠ 0 ∧ s.parser.cs < Http11.firstFinal
  run : ∃ r, exec (Http11.machine relaxed) Http11.stops (HttpRequestParser.act header)
      (header.drop pos) pos s.parser.cs r = .ok ref ∧
    Related header relaxed pos (header.drop pos) pos s.parser.cs r s.reset

section

variable {header : Bytes} {relaxed : Bool} {ref : Halt HttpRequestParser} {pos : Nat}
  {s : HttpRequestParser}

theorem next_zero (b : UInt8) : next (Http11.machine relaxed) 0 b = none := by
  have hzero : ∀ relaxed, Http11.machine relaxed 0 = [] := by decide
  rw [next, hzero]
  rfl

theorem exec_running_cs {bs : Bytes} {p cs : Nat} {u : HttpRequestParser} {buffer : Bytes}
    {h : Halt HttpRequestParser} (hcs : cs < Http11.firstFinal)
    (hexec : exec (Http11.machine relaxed) Http11.stops (HttpRequestParser.act buffer) bs p cs u =
      .ok h) (hr : h.running = true) : h.cs < Http11.firstFinal := by
  refine exec_cs (Q := fun cs => cs < Http11.firstFinal) ?_ hcs hexec hr
  intro cs b e he hstop
  have hfinal := Http11.stops_iff_final (next_mem he).1
  rw [hstop] at hfinal
  exact Nat.lt_of_not_le fun hle => absurd (hfinal.mpr hle) Bool.false_ne_true

theorem act_error {buffer : Bytes} {p : Nat} {a : HttpAction} {r r' : HttpRequestParser}
    (herror : r.error ≠ 0) (h : HttpRequestParser.act buffer p a r = .ok r') : r'.error ≠ 0 := by
  obtain ⟨u, hu, h⟩ := bind_eq_ok.mp h
  obtain rfl := Except.ok.inj h
  exact (notify_spec hu).2 herror

theorem act_uri {buffer : Bytes} {p : Nat} {a : HttpAction} {r r' : HttpRequestParser}
    (huri : r.parser.uriRelaxed = relaxed) (h : HttpRequestParser.act buffer p a r = .ok r') :
    r'.parser.uriRelaxed = relaxed := by
  rw [parser_act h, HttpParser.act_uriRelaxed, huri]

/-- A block that ends inside the header block. -/
theorem Progress.execute_block (h : Progress header relaxed ref pos s)
    (href : Accepted header ref) (hcut : Uncut pos (tokens relaxed header)) {n : Nat} (hn : 0 < n)
    (hlt : pos + n < header.length) :
    ∃ s', s.execute ((header.drop pos).take n) = .ok (n, s') ∧ s'.hasError = false ∧
      s'.isFinished = false ∧ Progress header relaxed ref (pos + n) s' := by
  obtain ⟨r, hrun, hrel⟩ := h.run
  set xs := (header.drop pos).take n with hxs
  have hlen : xs.length = n := by
    rw [hxs, List.length_take, List.length_drop]
    omega
  have hsplit : header.drop pos = xs ++ header.drop (pos + n) := by
    rw [hxs, ← List.drop_drop, List.take_append_drop]
  have hab : Agree header xs pos (pos + n) := by
    refine ⟨by omega, ?_⟩
    rw [Nat.add_sub_cancel_left, hxs, List.take_take, Nat.min_self]
  rw [hsplit] at hrun hrel
  obtain ⟨cs', u, u', hexec', hexec, hrel'⟩ := exec_block (simulates hab hcut) (Nat.le_refl pos)
    (by omega) hrel hrun (by rw [href.all, hlen]; exact hlt)
  rw [hlen] at hexec' hexec hrel'
  rw [Nat.sub_self] at hexec'
  have hcs' : cs' < Http11.firstFinal := exec_running_cs h.running.2 hexec' rfl
  have hne : header.drop (pos + n) ≠ [] := List.ne_nil_of_length_pos (by rw [List.length_drop]; omega)
  have hzero : cs' ≠ 0 := by
    rintro rfl
    obtain ⟨b, bs, hbs⟩ := List.exists_cons_of_ne_nil hne
    rw [hbs, exec_error (next_zero b)] at hexec
    have hfinal := href.final
    rw [← Except.ok.inj hexec] at hfinal
    exact Nat.not_succ_le_zero _ hfinal
  have herror : u'.error = 0 := by
    rw [hrel'.sim.error]
    by_contra hu
    exact exec_keeps (P := fun r => r.error ≠ 0) (fun _ _ _ _ => act_error) hu hexec href.error
  have huri : u'.parser.uriRelaxed = relaxed :=
    exec_keeps (P := fun r => r.parser.uriRelaxed = relaxed) (fun _ _ _ _ => act_uri)
      (s := s.reset) h.uri hexec'
  have hhas : s.parser.hasError = false := beq_false_of_ne h.running.1
  have hxsne : xs ≠ [] := List.ne_nil_of_length_pos (by omega)
  have hsim := (hrel'.sim.withCs cs').rebase (by omega)
  refine ⟨{ u' with parser := { u'.parser with cs := cs' } }, ?_, ?_, ?_, hlt, huri, ⟨hzero, hcs'⟩,
    u, hexec, rfl, hsim, fun _ => hsim.written (by omega), hrel'.valued, hrel'.within⟩
  · rw [HttpRequestParser.execute, if_neg hxsne, h.uri, hexec']
    show Except.ok (0 + n, if s.parser.hasError then u' else _) = _
    rw [hhas, Nat.zero_add]
    rfl
  · simp [HttpRequestParser.hasError, HttpParser.hasError, herror, hzero]
  · simpa [HttpRequestParser.isFinished, HttpParser.isFinished] using hcs'

/-- The block with the end of the header block, and what is behind it. -/
theorem Progress.execute_last (h : Progress header relaxed ref pos s)
    (href : Accepted header ref) (hcut : Uncut pos (tokens relaxed header)) (extra : Bytes) :
    ∃ s', s.execute (header.drop pos ++ extra) = .ok (header.length - pos, s') ∧
      s'.hasError = false ∧ s'.isFinished = true ∧ s'.data = ref.user.data := by
  obtain ⟨r, hrun, hrel⟩ := h.run
  have hlt := h.lt
  have hab : Agree header (header.drop pos ++ extra) pos header.length := by
    refine ⟨Nat.le_refl _, ?_⟩
    rw [List.take_append_of_le_length (by rw [List.length_drop])]
  have hzero : ref.cs ≠ 0 := fun h0 => absurd (h0 ▸ href.final) (by decide)
  obtain ⟨u', hexec', q, hsim⟩ := exec_last (simulates hab hcut) extra (Nat.le_refl pos)
    (by rw [List.length_drop]; omega) hrel hrun href.stopped hzero
  rw [Nat.sub_self, href.all] at hexec'
  have hhas : s.parser.hasError = false := beq_false_of_ne h.running.1
  have hne : header.drop pos ++ extra ≠ [] :=
    List.ne_nil_of_length_pos (by rw [List.length_append, List.length_drop]; omega)
  refine ⟨{ u' with parser := { u'.parser with cs := ref.cs } }, ?_, ?_, ?_, hsim.data⟩
  · rw [HttpRequestParser.execute, if_neg hne, h.uri, hexec']
    show Except.ok (header.length - pos, if s.parser.hasError then u' else _) = _
    rw [hhas]
    rfl
  · simp [HttpRequestParser.hasError, HttpParser.hasError, hsim.error, href.error, hzero]
  · simpa [HttpRequestParser.isFinished, HttpParser.isFinished] using href.final

end

end Sylar
