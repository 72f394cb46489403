import Mathlib.Data.List.Find
import Sylar.HttpRequestText

/-!
# The method token

The callback for the method gets the address of the token and its length
and uses the address only: `CharsToHttpMethod` takes the name that the
bytes there begin with. So the tokens that pass for a method are its name
and everything longer, and the others are told apart (`recognised_iff`).
Nothing behind the token changes what has been stored: the run does not
fail, and the version that it reads is one of the two (`Past`).
-/

namespace Sylar

open Scanner

/-- `StringToHttpMethod(m)`. -/
def stringToHttpMethod (m : Bytes) : HttpMethod :=
  match httpMethodMap.find? fun e => bytes e.2 = cStr m with
  | some e => e.1
  | none => .INVALID_METHOD

/-- `Method` in the grammar. -/
structure MethodToken (m : Bytes) : Prop where
  length : 1 ≤ m.length ∧ m.length ≤ 20
  chars : ∀ b ∈ m, 65 ≤ b ∧ b ≤ 90 ∨ 48 ≤ b ∧ b ≤ 57

/-! ## Names as prefixes -/

section

variable {name m rest : Bytes}

theorem strncmpEq_isPrefix : ∀ {name b : Bytes}, 0 ∉ name →
    (strncmpEq name b name.length = true ↔ name <+: b)
  | [], b, _ => iff_of_true rfl b.nil_prefix
  | x :: name, [], h => by
      have hx : x ≠ 0 := fun heq => h (heq ▸ List.mem_cons_self ..)
      rw [List.length_cons, strncmpEq]
      simp [hx]
  | x :: name, y :: b, h => by
      obtain ⟨hx, hname⟩ := not_or.mp (List.mem_cons.not.mp h)
      have hzero : (x == 0) = false := beq_false_of_ne (Ne.symm hx)
      rw [List.length_cons, strncmpEq, List.cons_prefix_cons, ← strncmpEq_isPrefix hname]
      simp only [List.headD_cons, List.tail_cons, hzero, Bool.false_or, Bool.and_eq_true,
        beq_iff_eq]

/-- A name without blanks does not reach behind the token. -/
theorem prefix_token (hname : 32 ∉ name) : name <+: m ++ 32 :: rest ↔ name <+: m := by
  refine ⟨fun h => ?_, fun h => h.trans (List.prefix_append ..)⟩
  obtain hlt | hle := Nat.lt_or_ge m.length name.length
  rotate_left
  · exact List.prefix_of_prefix_length_le h (List.prefix_append ..) hle
  · have hlong : m ++ [32] <+: m ++ 32 :: rest := ⟨rest, by simp⟩
    have hin : m ++ [32] <+: name :=
      List.prefix_of_prefix_length_le hlong h (by rw [List.length_append]; exact hlt)
    exact absurd (hin.subset (by simp)) hname

/-- What the table has. -/
theorem method_names : ∀ e ∈ httpMethodMap,
    e.1 ≠ .INVALID_METHOD ∧ 0 ∉ bytes e.2 ∧ 32 ∉ bytes e.2 := by decide

theorem method_apart : ∀ e ∈ httpMethodMap, ∀ e' ∈ httpMethodMap,
    bytes e.2 <+: bytes e'.2 → bytes e.2 = bytes e'.2 := by decide

theorem starts_iff {e : HttpMethod × String} (he : e ∈ httpMethodMap) :
    strncmpEq (bytes e.2) (m ++ 32 :: rest) (bytes e.2).length = true ↔ bytes e.2 <+: m := by
  obtain ⟨-, hzero, hblank⟩ := method_names e he
  rw [strncmpEq_isPrefix hzero, prefix_token hblank]

/-- A method that a token begins with is found. -/
theorem charsToHttpMethod_found {e : HttpMethod × String} (he : e ∈ httpMethodMap)
    (h : bytes e.2 <+: m) : charsToHttpMethod (m ++ 32 :: rest) ≠ .INVALID_METHOD := by
  rw [charsToHttpMethod]
  split
  · rename_i e' hfind
    exact (method_names e' (List.mem_of_find?_eq_some hfind)).1
  · rename_i hnone
    exact absurd ((starts_iff he).mpr h) (List.find?_eq_none.mp hnone e he)

/-- Both agree on a token that is not longer than a name it begins with. -/
theorem charsToHttpMethod_string (hm : 0 ∉ m)
    (h : ∀ e ∈ httpMethodMap, bytes e.2 <+: m → bytes e.2 = m) :
    charsToHttpMethod (m ++ 32 :: rest) = stringToHttpMethod m := by
  have hfind : httpMethodMap.find? (fun e =>
      strncmpEq (bytes e.2) (m ++ 32 :: rest) (bytes e.2).length) =
      httpMethodMap.find? fun e => bytes e.2 = cStr m := by
    refine List.find?_congr fun e he => ?_
    rw [Bool.eq_iff_iff, starts_iff he, cStr_self hm, decide_eq_true_eq]
    exact ⟨h e he, fun heq => heq ▸ List.prefix_refl _⟩
  cases hs : httpMethodMap.find? fun e => bytes e.2 = cStr m with
  | none => rw [charsToHttpMethod, stringToHttpMethod, hfind, hs]
  | some e => rw [charsToHttpMethod, stringToHttpMethod, hfind, hs]

theorem stringToHttpMethod_valid (hm : 0 ∉ m) :
    stringToHttpMethod m ≠ .INVALID_METHOD ↔ ∃ e ∈ httpMethodMap, bytes e.2 = m := by
  rw [stringToHttpMethod, cStr_self hm]
  split
  · rename_i e hfind
    have hmem := List.mem_of_find?_eq_some hfind
    exact iff_of_true (method_names e hmem).1 ⟨e, hmem, by simpa using List.find?_some hfind⟩
  · rename_i hnone
    refine iff_of_false (fun h => h rfl) ?_
    rintro ⟨e, he, heq⟩
    exact List.find?_eq_none.mp hnone e he (decide_eq_true heq)

theorem MethodToken.no_zero (h : MethodToken m) : 0 ∉ m := fun hmem =>
  absurd (h.chars 0 hmem) (by decide)

end

/-! ## The token -/

namespace Http11

/-- The state behind that many bytes of a method and one more. -/
def methodState (n : Nat) : Nat := if n = 0 then 2 else 174 + n

/-- A byte of a method. -/
def isMethodChar (b : UInt8) : Bool := 65 ≤ b && b ≤ 90 || 48 ≤ b && b ≤ 57

theorem isMethodChar_takes : ∀ b, isMethodChar b = true →
    (go methodChar 0).takes b = true ∧ (go (one 32) 0).takes b = false := by decide +kernel

variable (relaxed : Bool)

theorem method_first {b : UInt8} (h : isMethodChar b = true) :
    move (machine relaxed) 1 b = some ([.mark], 2) := by
  have hrow : machine relaxed 1 = ⟨methodChar, [.mark], 2⟩ :: _ := rfl
  exact move_head hrow (isMethodChar_takes b h).1

theorem method_next {n : Nat} (hn : n < 19) {b : UInt8} (h : isMethodChar b = true) :
    move (machine relaxed) (methodState n) b = some ([], methodState (n + 1)) := by
  obtain ⟨htake, hskip⟩ := isMethodChar_takes b h
  have hrow : machine relaxed (methodState n) =
      [⟨one 32, [.requestMethod], 3⟩, go methodChar (methodState (n + 1))] := by
    interval_cases n <;> rfl
  exact move_second hrow hskip htake

theorem method_end {n : Nat} (hn : n < 20) :
    move (machine relaxed) (methodState n) 32 = some ([.requestMethod], 3) := by
  have hrow : ∃ row, machine relaxed (methodState n) = ⟨one 32, [.requestMethod], 3⟩ :: row := by
    interval_cases n <;> exact ⟨_, rfl⟩
  obtain ⟨row, hrow⟩ := hrow
  exact move_head hrow rfl

theorem method_walk : ∀ {bs : Bytes} {n : Nat}, (∀ b ∈ bs, isMethodChar b = true) →
    n + bs.length < 20 →
    walk (machine relaxed) (methodState n) bs = some (methodState (n + bs.length))
  | [], _, _, _ => rfl
  | b :: bs, n, h, hn => by
      rw [List.length_cons] at hn
      rw [walk_cons (method_next relaxed (by omega) (h b (List.mem_cons_self ..))),
        method_walk (fun b' hb' => h b' (List.mem_cons_of_mem _ hb')) (by omega), List.length_cons,
        show n + 1 + bs.length = n + (bs.length + 1) by omega]

end Http11

namespace HttpRequestParser

variable {relaxed : Bool} {buffer m rest : Bytes} {u : HttpRequestParser}

theorem act_requestMethod (buffer : Bytes) (p : Nat) (u : HttpRequestParser) :
    act buffer p .requestMethod u = .ok (u.onRequestMethod (buffer.drop u.parser.mark)) := by
  rw [act, notify]
  show Except.ok _ = Except.ok _
  rw [onRequestMethod]
  dsimp only
  split <;> rfl

/-- The callback gets all that is left of the buffer. -/
theorem reads_token (hm : MethodToken m) (h : buffer = m ++ 32 :: rest) (u : HttpRequestParser) :
    ∃ parser, parser = { u.parser with mark := 0 } ∧
      Reads relaxed buffer 0 1 u (m.length + 1) 3
        ({ u with parser := parser }.onRequestMethod buffer) := by
  obtain ⟨b, bs, rfl⟩ := List.exists_cons_of_length_pos hm.length.1
  have hchars : ∀ c ∈ b :: bs, Http11.isMethodChar c = true := by
    intro c hc
    have hrange := hm.chars c hc
    simpa [Http11.isMethodChar] using hrange
  have hlength := hm.length.2
  rw [List.length_cons] at hlength
  have hmark := reads_move (p := 0) (u := u) h
    (Http11.method_first relaxed (hchars b (List.mem_cons_self ..))) rfl rfl
  have hdrop : buffer.drop 1 = bs ++ 32 :: rest := drop_succ (p := 0) h
  have hwalk : walk (Http11.machine relaxed) 2 bs = some (Http11.methodState (0 + bs.length)) :=
    @Http11.method_walk relaxed bs 0 (fun c hc => hchars c (List.mem_cons_of_mem _ hc)) (by omega)
  have hword := reads_walk hdrop hwalk { u with parser := { u.parser with mark := 0 } }
  have hspace := reads_move (drop_add_length hdrop)
    (Http11.method_end relaxed (n := 0 + bs.length) (by omega)) rfl
    (u := { u with parser := { u.parser with mark := 0 } })
    (v := { u with parser := { u.parser with mark := 0 } }.onRequestMethod buffer)
    (perform_cons (act_requestMethod ..) [])
  refine ⟨_, rfl, ?_⟩
  rw [List.length_cons, Nat.add_comm bs.length 1]
  exact (hmark.trans hword).trans hspace

end HttpRequestParser

/-! ## Behind the token -/

namespace Http11

def inToken (cs : Nat) : Bool := cs = 1 || cs = 2 || 175 ≤ cs && cs ≤ 193

def inQuery (cs : Nat) : Bool := 30 ≤ cs && cs ≤ 32

def inVersion (cs : Nat) : Bool := 5 ≤ cs && cs ≤ 12

/-- What `http_number` lets through. -/
def versions : List Bytes := [bytes "HTTP/1.0", bytes "HTTP/1.1"]

/-- A query has a start where it is used, if `known` says whether there is
one in front of the actions. -/
def queryKnown : Bool → List HttpAction → Bool
  | _, [] => true
  | _, .startQuery :: as => queryKnown true as
  | known, .queryString :: as => known && queryKnown known as
  | known, _ :: as => queryKnown known as

/-- What the edges of the tables do. -/
structure EdgesChecked (relaxed : Bool) : Prop where
  plain : ∀ row ∈ states relaxed, inToken row.1 = false → inVersion row.1 = false →
    ∀ e ∈ row.2, .requestMethod ∉ e.acts ∧ .httpVersion ∉ e.acts ∧
      queryKnown (inQuery row.1) e.acts = true ∧ inToken e.target = false
  query : ∀ row ∈ states relaxed, ∀ e ∈ row.2, inQuery e.target = true →
    (inQuery row.1 || .startQuery ∈ e.acts) = true
  mark : ∀ row ∈ states relaxed, inVersion row.1 = false → ∀ e ∈ row.2,
    inVersion e.target = true → e.on = one 72 ∧ e.acts = [.mark] ∧ e.target = 5
  version : ∀ row ∈ states relaxed, inVersion row.1 = true → ∀ e ∈ row.2,
    row.1 = 12 ∧ e.acts = [.httpVersion] ∧ (e.target = 13 ∨ e.target = 17) ∨
      row.1 < 12 ∧ e.acts = [] ∧ e.target = row.1 + 1
  versionByte : ∀ row ∈ states relaxed, inVersion row.1 = true → row.1 < 12 →
    ∀ e ∈ row.2, ∀ b, e.takes b = true → ∃ v ∈ versions, v[row.1 - 4]? = some b

theorem edges_checked (relaxed : Bool) : EdgesChecked relaxed := by
  cases relaxed <;> constructor <;> decide +kernel

variable {relaxed : Bool} {cs : Nat} {e : Edge HttpAction}

/-- The edges that do not read a version. -/
theorem edges_plain (h : e ∈ machine relaxed cs) (htoken : inToken cs = false)
    (hversion : inVersion cs = false) :
    .requestMethod ∉ e.acts ∧ .httpVersion ∉ e.acts ∧ queryKnown (inQuery cs) e.acts = true ∧
      inToken e.target = false := by
  obtain ⟨row, hrow, rfl, he⟩ := mem_states h
  exact (edges_checked relaxed).plain row hrow htoken hversion e he

/-- A query that is read on has begun. -/
theorem edges_query (h : e ∈ machine relaxed cs) (htarget : inQuery e.target = true) :
    (inQuery cs || .startQuery ∈ e.acts) = true := by
  obtain ⟨row, hrow, rfl, he⟩ := mem_states h
  exact (edges_checked relaxed).query row hrow e he htarget

/-- A version begins with its mark. -/
theorem edges_mark (h : e ∈ machine relaxed cs) (hversion : inVersion cs = false)
    (htarget : inVersion e.target = true) : e = ⟨one 72, [.mark], 5⟩ := by
  obtain ⟨row, hrow, rfl, he⟩ := mem_states h
  obtain ⟨hon, hact, hcs⟩ := (edges_checked relaxed).mark row hrow hversion e he htarget
  obtain ⟨on, acts, target⟩ := e
  exact congr (congr (congrArg Edge.mk hon) hact) hcs

/-- The other edges of a version. -/
theorem edges_version (h : e ∈ machine relaxed cs) (hversion : inVersion cs = true) :
    cs = 12 ∧ e.acts = [.httpVersion] ∧ (e.target = 13 ∨ e.target = 17) ∨
      cs < 12 ∧ e.acts = [] ∧ e.target = cs + 1 ∧
        ∀ b, e.takes b = true → ∃ v ∈ versions, v[cs - 4]? = some b := by
  obtain ⟨row, hrow, rfl, he⟩ := mem_states h
  have hchecked := edges_checked relaxed
  refine (hchecked.version row hrow hversion e he).imp_right fun h => ?_
  exact ⟨h.1, h.2.1, h.2.2, hchecked.versionByte row hrow hversion h.1 e he⟩

end Http11

/-- The positions lie behind the beginning; `known` says whether a query
has begun. -/
structure HttpParser.Behind (known : Bool) (p : Nat) (r : HttpParser) : Prop where
  mark : r.mark ≤ p
  field : r.fieldStart ≤ p
  length : r.fieldLen ≤ p
  query : known = true → ∃ start, r.queryStart = some start ∧ start ≤ p

theorem HttpParser.Behind.le {known : Bool} {p q : Nat} {r : HttpParser} (h : r.Behind known p)
    (hle : p ≤ q) : r.Behind known q where
  mark := Nat.le_trans h.mark hle
  field := Nat.le_trans h.field hle
  length := Nat.le_trans h.length hle
  query hknown := by
    obtain ⟨start, hstart, hp⟩ := h.query hknown
    exact ⟨start, hstart, Nat.le_trans hp hle⟩

theorem sub64_of_le {m p : Nat} (hp : p < 2 ^ 63) (h : m ≤ p) : sub64 p m = p - m := by
  obtain ⟨n, rfl⟩ := Nat.exists_eq_add_of_le h
  rw [sub64_add (by omega), Nat.add_sub_cancel_left]

theorem HttpParser.Behind.act {known : Bool} {p : Nat} {r : HttpParser} (hp : p < 2 ^ 63)
    (h : r.Behind known p) (a : HttpAction) :
    (r.act p a).Behind (known || a = .startQuery) p := by
  have hsame : a ≠ .startQuery → (known || decide (a = .startQuery)) = true → known = true := by
    intro hne hor
    simpa [hne] using hor
  cases a with
  | mark | startValue =>
      exact ⟨Nat.le_refl p, h.field, h.length, fun hor => h.query (hsame nofun hor)⟩
  | startField => exact ⟨h.mark, Nat.le_refl p, h.length, fun hor => h.query (hsame nofun hor)⟩
  | writeField =>
      rw [act_writeField]
      refine ⟨h.mark, h.field, ?_, fun hor => h.query (hsame nofun hor)⟩
      rw [sub64_of_le hp h.field]
      exact Nat.sub_le ..
  | startQuery => exact ⟨h.mark, h.field, h.length, fun _ => ⟨p, rfl, Nat.le_refl p⟩⟩
  | writeValue | requestMethod | requestUri | fragment | queryString | httpVersion | requestPath
  | done | xml | json =>
      exact ⟨h.mark, h.field, h.length, fun hor => h.query (hsame nofun hor)⟩

namespace HttpRequestParser

open Http11

/-- The error and the method are these, the positions behind the
beginning. -/
structure Sound (error : Nat) (method : HttpMethod) (known : Bool) (p : Nat)
    (u : HttpRequestParser) : Prop where
  error : u.error = error
  method : u.data.method = method
  behind : u.parser.Behind known p

/-- The parser behind the token of its method. -/
structure Past (buffer : Bytes) (error : Nat) (method : HttpMethod) (cs p : Nat)
    (u : HttpRequestParser) : Prop where
  sound : Sound error method (inQuery cs) p u
  token : inToken cs = false
  version : inVersion cs = true → p = u.parser.mark + (cs - 4) ∧
    ∃ v ∈ versions, (buffer.drop u.parser.mark).take (cs - 4) = v.take (cs - 4)

section

variable {relaxed : Bool} {buffer m rest : Bytes} {u : HttpRequestParser} {error : Nat}
  {method : HttpMethod} {known : Bool} {p cs : Nat} {a : HttpAction}

theorem str_ok {start length : Nat} (hlength : length < 2 ^ 63) :
    str buffer start length = .ok ((buffer.drop start).take length) :=
  if_neg (Nat.not_le.mpr hlength)

theorem str_sub {m : Nat} (hp : p < 2 ^ 63) (h : m ≤ p) :
    str buffer m (sub64 p m) = .ok ((buffer.drop m).take (p - m)) := by
  rw [sub64_of_le hp h, str_ok (by omega)]

/-- A callback does not fail, and leaves the error and the method alone. -/
theorem notify_ok (hp : p < 2 ^ 63) (h : u.parser.Behind known p)
    (ha : a ≠ .requestMethod ∧ a ≠ .httpVersion) (hquery : a = .queryString → known = true) :
    ∃ v, notify buffer p u a = .ok v ∧ v.parser = u.parser ∧ v.error = u.error ∧
      v.data.method = u.data.method := by
  cases a with
  | requestMethod => exact absurd rfl ha.1
  | httpVersion => exact absurd rfl ha.2
  | mark | startField | writeField | startValue | requestUri | startQuery | done | xml | json =>
      exact ⟨u, rfl, rfl, rfl, rfl⟩
  | writeValue =>
      have hlength := h.length
      rw [notify, onRequestHttpField]
      split
      · exact ⟨u, rfl, rfl, rfl, rfl⟩
      · rw [str_ok (by omega), str_sub hp h.mark]
        exact ⟨_, rfl, rfl, rfl, rfl⟩
  | fragment | requestPath =>
      rw [notify, str_sub hp h.mark]
      exact ⟨_, rfl, rfl, rfl, rfl⟩
  | queryString =>
      obtain ⟨start, hstart, hle⟩ := h.query (hquery rfl)
      rw [notify, hstart]
      dsimp only
      rw [str_sub hp hle]
      exact ⟨_, rfl, rfl, rfl, rfl⟩

theorem Sound.act_ok (hp : p < 2 ^ 63) (h : Sound error method known p u)
    (ha : a ≠ .requestMethod ∧ a ≠ .httpVersion) (hquery : a = .queryString → known = true) :
    ∃ v, act buffer p a u = .ok v ∧ Sound error method (known || a = .startQuery) p v := by
  obtain ⟨v, hv, hparser, herror, hmethod⟩ := notify_ok hp h.behind ha hquery
  refine ⟨{ v with parser := v.parser.act p a }, ?_, herror.trans h.error,
    hmethod.trans h.method, ?_⟩
  · rw [act, hv]
    rfl
  · rw [hparser]
    exact h.behind.act hp a

theorem Sound.perform_ok (hp : p < 2 ^ 63) : ∀ {as : List HttpAction} {known : Bool}
    {u : HttpRequestParser}, Sound error method known p u → .requestMethod ∉ as →
    .httpVersion ∉ as → queryKnown known as = true →
    ∃ v, perform (act buffer p) as u = .ok v ∧ Sound error method (known || .startQuery ∈ as) p v
  | [], known, u, h, _, _, _ => ⟨u, rfl, by simpa using h⟩
  | a :: as, known, u, h, hmethod, hversion, hquery => by
      obtain ⟨hmethod₁, hmethod⟩ := not_or.mp (List.mem_cons.not.mp hmethod)
      obtain ⟨hversion₁, hversion⟩ := not_or.mp (List.mem_cons.not.mp hversion)
      have hrest : (a = .queryString → known = true) ∧
          queryKnown (known || a = .startQuery) as = true := by
        cases a with
        | queryString => simpa [queryKnown] using hquery
        | startQuery => simpa [queryKnown] using hquery
        | _ => simpa [queryKnown] using hquery
      obtain ⟨v, hv, hsound⟩ := h.act_ok hp ⟨Ne.symm hmethod₁, Ne.symm hversion₁⟩ hrest.1
      obtain ⟨w, hw, hdone⟩ := hsound.perform_ok hp hmethod hversion hrest.2
      refine ⟨w, (perform_cons hv as).trans hw, ?_⟩
      have hknown : (known || decide (a = .startQuery) || decide (.startQuery ∈ as)) =
          (known || decide (HttpAction.startQuery ∈ a :: as)) := by
        rw [Bool.or_assoc, ← Bool.decide_or]
        simp [eq_comm]
      rwa [hknown] at hdone

theorem lt_of_getElem {b : UInt8} (hlt : buffer.length < 2 ^ 63) (hb : buffer[p]? = some b) :
    p < 2 ^ 63 := Nat.lt_trans (List.getElem?_eq_some_iff.mp hb).1 hlt

theorem take_next {m n : Nat} {b : UInt8} (hb : buffer[m + n]? = some b) :
    (buffer.drop m).take (n + 1) = (buffer.drop m).take n ++ [b] := by
  rw [List.take_add_one, List.getElem?_drop, hb, Option.toList_some]

/-- The versions differ in their last byte. -/
theorem versions_agree {n : Nat} (hn : n < 8) : ∀ v ∈ versions, ∀ v' ∈ versions,
    v.take n = v'.take n := by
  have hall : ∀ n < 8, ∀ v ∈ versions, ∀ v' ∈ versions, v.take n = v'.take n := by decide
  exact hall n hn

/-- The version is one of the two. -/
theorem onRequestVersion_ok {at_ v : Bytes} (hv : v ∈ versions) (h : at_.take 8 = v.take 8)
    (u : HttpRequestParser) : ∃ version, u.onRequestVersion at_ 8 =
      { u with data := { u.data with version := version } } := by
  rw [onRequestVersion, strncmpEq_congr h, strncmpEq_congr h]
  obtain rfl | hv := List.mem_cons.mp hv
  · exact ⟨_, rfl⟩
  · obtain rfl := List.mem_singleton.mp hv
    exact ⟨_, rfl⟩

/-- A byte of the version. -/
theorem Past.step_version {b : UInt8} {e : Edge HttpAction} (hp : p < 2 ^ 63)
    (hb : buffer[p]? = some b) (he : e ∈ machine relaxed cs) (htakes : e.takes b = true)
    (h : Past buffer error method cs p u) (hversion : inVersion cs = true) :
    ∃ v, perform (act buffer p) e.acts u = .ok v ∧ Past buffer error method e.target (p + 1) v := by
  obtain ⟨hpos, v, hv, htext⟩ := h.version hversion
  have hrange : 5 ≤ cs ∧ cs ≤ 12 := by simpa [inVersion] using hversion
  have hbehind := h.sound.behind.le (Nat.le_succ p)
  have hquery : inQuery cs = false := by
    simp only [inQuery, Bool.and_eq_false_iff, decide_eq_false_iff_not]
    omega
  rw [hquery] at hbehind
  obtain ⟨rfl, hacts, htarget⟩ | ⟨hlast, hacts, htarget, hbyte⟩ := edges_version he hversion
  · obtain ⟨version, hdone⟩ := onRequestVersion_ok hv htext u
    have hsub : sub64 p u.parser.mark = 8 := by
      rw [sub64_of_le hp (by omega)]
      omega
    have hact : act buffer p .httpVersion u =
        .ok { u with data := { u.data with version := version } } := by
      rw [act, notify, hsub, hdone]
      rfl
    have hout : inQuery e.target = false ∧ inToken e.target = false ∧
        inVersion e.target = false := by
      obtain htarget | htarget := htarget <;> rw [htarget] <;> exact ⟨rfl, rfl, rfl⟩
    rw [hacts]
    refine ⟨_, perform_cons hact [], ⟨h.sound.error, h.sound.method, ?_⟩, hout.2.1,
      fun hin => absurd (hin.symm.trans hout.2.2) (by decide)⟩
    rw [hout.1]
    exact hbehind
  · rw [hacts, htarget]
    have hout : inQuery (cs + 1) = false ∧ inToken (cs + 1) = false := by
      simp only [inQuery, inToken, Bool.and_eq_false_iff, Bool.or_eq_false_iff,
        decide_eq_false_iff_not]
      omega
    refine ⟨u, rfl, ⟨h.sound.error, h.sound.method, by rw [hout.1]; exact hbehind⟩, hout.2,
      fun _ => ⟨by omega, ?_⟩⟩
    obtain ⟨v', hv', hnext⟩ := hbyte b htakes
    refine ⟨v', hv', ?_⟩
    have hagree : v.take (cs - 4) = v'.take (cs - 4) :=
      versions_agree (by omega) v hv v' hv'
    rw [show cs + 1 - 4 = cs - 4 + 1 by omega, take_next (by rwa [← hpos]), htext, hagree,
      List.take_add_one, hnext, Option.toList_some]

/-- **Nothing behind the token fails**, or changes what it has set. -/
theorem Past.step (hlt : buffer.length < 2 ^ 63) {b : UInt8} {e : Edge HttpAction}
    (hb : buffer[p]? = some b) (he : next (machine relaxed) cs b = some e)
    (h : Past buffer error method cs p u) :
    ∃ v, perform (act buffer p) e.acts u = .ok v ∧ Past buffer error method e.target (p + 1) v := by
  have hp := lt_of_getElem hlt hb
  obtain ⟨hmem, htakes⟩ := next_mem he
  by_cases hversion : inVersion cs = true
  · exact h.step_version hp hb hmem htakes hversion
  have hplain := Bool.eq_false_iff.mpr hversion
  obtain ⟨hmethod, hnone, hknown, htoken⟩ := edges_plain hmem h.token hplain
  by_cases hmark : inVersion e.target = true
  · obtain rfl := edges_mark hmem hplain hmark
    have hbehind := (h.sound.behind.act hp .mark).le (Nat.le_succ p)
    have hb72 : b = 72 := by
      have hall : ∀ b, Edge.takes ⟨one 72, [HttpAction.mark], 5⟩ b = true → b = 72 := by
        decide +kernel
      exact hall b htakes
    refine ⟨{ u with parser := { u.parser with mark := p } }, rfl,
      ⟨h.sound.error, h.sound.method, hbehind.mark, hbehind.field, hbehind.length,
        fun hno => absurd hno Bool.false_ne_true⟩, rfl,
      fun _ => ⟨rfl, bytes "HTTP/1.0", List.mem_cons_self .., ?_⟩⟩
    have htake := take_next (m := p) (n := 0) hb
    rw [hb72] at htake
    exact htake
  · obtain ⟨v, hv, hsound⟩ := h.sound.perform_ok hp hmethod hnone hknown
    refine ⟨v, hv, ⟨hsound.error, hsound.method, ?_⟩, htoken, fun hin => absurd hin hmark⟩
    have hnext := hsound.behind.le (Nat.le_succ p)
    exact ⟨hnext.mark, hnext.field, hnext.length, fun hq => hnext.query (edges_query hmem hq)⟩

/-- **What a request line says of its method**, whatever comes behind. -/
theorem execute_token (hlt : buffer.length < 2 ^ 63) (hm : MethodToken m)
    (h : buffer = m ++ 32 :: rest) :
    ∃ n r, (new relaxed).execute buffer = .ok (n, r) ∧
      r.error = (if charsToHttpMethod buffer = .INVALID_METHOD then 1000 else 0) ∧
      (charsToHttpMethod buffer ≠ .INVALID_METHOD →
        r.data.method = charsToHttpMethod buffer) := by
  obtain ⟨parser, hparser, hreads⟩ := reads_token hm h (new relaxed).reset
  set u := ({ (new relaxed).reset with parser := parser }).onRequestMethod buffer with hu
  have herror : u.error = if charsToHttpMethod buffer = .INVALID_METHOD then 1000 else 0 := by
    rw [hu, onRequestMethod]
    dsimp only
    split <;> rfl
  have hmethod : charsToHttpMethod buffer ≠ .INVALID_METHOD →
      u.data.method = charsToHttpMethod buffer := by
    intro hvalid
    rw [hu, onRequestMethod]
    dsimp only
    rw [if_neg hvalid]
  have hposition : u.parser = parser := by
    rw [hu, onRequestMethod]
    dsimp only
    split <;> rfl
  have hpast : Past buffer u.error u.data.method 3 (m.length + 1) u := by
    refine ⟨⟨rfl, rfl, ?_⟩, rfl, fun hno => absurd hno Bool.false_ne_true⟩
    rw [hposition, hparser]
    exact ⟨Nat.zero_le _, Nat.zero_le _, Nat.zero_le _, fun hno => absurd hno Bool.false_ne_true⟩
  obtain ⟨r, hr, cs, p, hdone⟩ := @exec_inv _ _ _ (machine relaxed) stops _ _ _
    (fun cs p u b e hb he hu => Past.step hlt hb he hu) _ _ _ _ rfl hpast
  have hne : buffer ≠ [] := by
    rw [h]
    exact List.append_ne_nil_of_right_ne_nil _ (List.cons_ne_nil _ _)
  refine ⟨r.p, { r.user with parser := { r.user.parser with cs := r.cs } }, ?_,
    hdone.sound.error.trans herror, fun hvalid => hdone.sound.method.trans (hmethod hvalid)⟩
  rw [execute, if_neg hne]
  exact congrArg (· >>= _) (Eq.trans hreads hr)

end

/-- The method is recognised: exact names are stored, everything else is
the error 1000, and the two functions agree. -/
structure Recognised (relaxed : Bool) (m rest : Bytes) : Prop where
  agree : charsToHttpMethod (m ++ 32 :: rest) = stringToHttpMethod m
  parses : ∃ n r, (new relaxed).execute (m ++ 32 :: rest) = .ok (n, r) ∧
    ((∀ e ∈ httpMethodMap, bytes e.2 ≠ m) → r.error = 1000) ∧
    ((∃ e ∈ httpMethodMap, bytes e.2 = m) →
      r.error = 0 ∧ r.data.method = stringToHttpMethod m)

/-- **When a method is recognised**: no name of the table is a proper
prefix of the token. -/
theorem recognised_iff (relaxed : Bool) (m rest : Bytes) (hm : MethodToken m)
    (hlt : (m ++ 32 :: rest).length < 2 ^ 63) :
    Recognised relaxed m rest ↔ ∀ e ∈ httpMethodMap, bytes e.2 <+: m → bytes e.2 = m := by
  obtain ⟨n, r, hrun, herror, hmethod⟩ := @execute_token relaxed _ m rest hlt hm rfl
  constructor
  · rintro ⟨-, n', r', hrun', hunknown, -⟩ e he hprefix
    obtain ⟨-, rfl⟩ := Prod.mk.inj (Except.ok.inj (hrun.symm.trans hrun'))
    by_contra hne
    have hfound : charsToHttpMethod (m ++ 32 :: rest) ≠ .INVALID_METHOD :=
      charsToHttpMethod_found he hprefix
    rw [if_neg hfound] at herror
    refine absurd (hunknown fun e' he' heq => hne ?_) (by rw [herror]; decide)
    rw [← heq] at hprefix ⊢
    exact method_apart e he e' he' hprefix
  · intro h
    have hagree : charsToHttpMethod (m ++ 32 :: rest) = stringToHttpMethod m :=
      charsToHttpMethod_string hm.no_zero h
    have hvalid := stringToHttpMethod_valid hm.no_zero
    rw [hagree] at herror hmethod
    refine ⟨hagree, n, r, hrun, fun hnone => ?_, fun hname => ?_⟩
    · rw [herror, if_pos]
      by_contra hne
      obtain ⟨e, he, heq⟩ := hvalid.mp hne
      exact hnone e he heq
    · have hne := hvalid.mpr hname
      exact ⟨herror.trans (if_neg hne), hmethod hne⟩

/-- `POS` is the beginning of a name, and no method. -/
theorem recognised_iff_short : Recognised false (bytes "POS") (bytes "T / HTTP/1.1") :=
  (recognised_iff false (bytes "POS") (bytes "T / HTTP/1.1") ⟨by decide, by decide +kernel⟩
    (Nat.lt_of_le_of_lt (show _ ≤ 16 by decide) (by omega))).mpr (by decide)

/-- `GETS` passes for `GET`. -/
theorem not_recognised : ¬∀ (relaxed : Bool) (m rest : Bytes), MethodToken m →
    (m ++ 32 :: rest).length < 2 ^ 63 → Recognised relaxed m rest := by
  intro h
  have hagree := (h false (bytes "GETS") (bytes "/ HTTP/1.1") ⟨by decide, by decide +kernel⟩
    (Nat.lt_of_le_of_lt (show _ ≤ 16 by decide) (by omega))).agree
  exact absurd hagree (by decide)

end HttpRequestParser

end Sylar
