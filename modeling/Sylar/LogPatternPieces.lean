import Sylar.LogPattern

/-!
# Patterns of pieces

A pattern is written from literals and items, and `init` finds the pieces
again (`parse_write`).

An escape is not such a piece: the second percent sign of a pair is read
once more and starts an item, so a pattern of text and pairs comes out as
it should just when there is no pair in it (`unescapes_iff`).
-/

namespace Sylar

namespace LogFormatter

/-! ## Literals and items -/

/-- The names that there are. -/
inductive ItemName where
  | m | p | r | c | t | n | d | f | l | T | F
deriving Repr, DecidableEq

namespace ItemName

def letter : ItemName → UInt8
  | m => 109
  | p => 112
  | r => 114
  | c => 99
  | t => 116
  | n => 110
  | d => 100
  | f => 102
  | l => 108
  | T => 84
  | F => 70

/-- The item with a format. -/
def item (fmt : Bytes) : ItemName → FormatItem
  | m => .message
  | p => .level
  | r => .elapse
  | c => .name
  | t => .threadId
  | n => .newLine
  | d => .newDateTime fmt
  | f => .filename
  | l => .line
  | T => .tab
  | F => .fiberId

theorem isalpha_letter (x : ItemName) : isalpha x.letter = true := by
  cases x <;> rfl

theorem isName_letter (x : ItemName) : isName x.letter = true := by
  rw [isName, isalpha_letter, Bool.true_or]

theorem makeItem_letter (x : ItemName) (fmt : Bytes) :
    makeItem ⟨[x.letter], fmt, 1⟩ = x.item fmt := by
  cases x <;> rfl

end ItemName

inductive Piece where
  | literal (s : Bytes)
  | plain (name : ItemName)
  | braced (name : ItemName) (fmt : Bytes)
deriving Repr, DecidableEq

namespace Piece

def text : Piece → Bytes
  | literal s => s
  | plain x => [37, x.letter]
  | braced x fmt => 37 :: x.letter :: 123 :: (fmt ++ [125])

def tokens : Piece → List Token
  | literal s => s.map .text
  | plain x => [.item [x.letter] none]
  | braced x fmt => [.item [x.letter] (some fmt)]

def entry : Piece → Entry
  | literal s => ⟨s, [], 0⟩
  | plain x => ⟨[x.letter], [], 1⟩
  | braced x fmt => ⟨[x.letter], fmt, 1⟩

def item : Piece → FormatItem
  | literal s => .string s
  | plain x => x.item []
  | braced x fmt => x.item fmt

def Ok : Piece → Prop
  | literal s => s ≠ [] ∧ 37 ∉ s
  | plain _ => True
  | braced _ fmt => 125 ∉ fmt

/-- The second may follow the first: no text behind text, nor text behind a
name that would be a part of the item. -/
def Fits : Piece → Piece → Prop
  | literal _, literal _ => False
  | plain _, literal s => ∀ b ∈ s.head?, isalpha b = false ∧ b ≠ 123 ∧ b ≠ 125
  | _, _ => True

theorem makeItem_entry (p : Piece) : makeItem p.entry = p.item := by
  cases p with
  | literal s => rfl
  | plain x => exact x.makeItem_letter []
  | braced x fmt => exact x.makeItem_letter fmt

end Piece

def write (ps : List Piece) : Bytes := ps.flatMap Piece.text

theorem lexFrom_literal {s : Bytes} (hs : 37 ∉ s) (r : Bytes) :
    lexFrom 0 (s ++ r) = s.map .text ++ lexFrom 0 r := by
  induction s with
  | nil => rfl
  | cons b s ih =>
      obtain ⟨hb, hs⟩ := List.ne_and_not_mem_of_not_mem_cons hs
      rw [List.cons_append, lexFrom, if_pos hb.symm, ih hs, List.map_cons, List.cons_append]

/-- What a `%` with a letter behind it is read as. -/
theorem lexFrom_item (x : ItemName) {s : Bytes} {fmt : Option Bytes}
    (h : Behind (x.letter :: s) (some ([x.letter], fmt))) :
    lexFrom 0 (37 :: x.letter :: s) =
      .item [x.letter] fmt :: lexFrom (width [x.letter] fmt) (x.letter :: s) := by
  have hpercent : x.letter ≠ 37 := by cases x <;> decide
  rw [lexFrom, if_neg (by simp), List.head?_cons, if_neg (by simpa using hpercent), h.itemAt_eq]

/-- Behind a name without braces no byte of the next piece belongs to the
item. -/
theorem head_write {x : ItemName} {ps : List Piece} (hok : ∀ p ∈ ps, p.Ok)
    (hfits : (.plain x :: ps).IsChain Piece.Fits) :
    ∀ b ∈ (write ps).head?, isName b = false ∧ b ≠ 123 := by
  intro b hb
  cases ps with
  | nil => cases hb
  | cons p ps =>
      have hp := (List.isChain_cons_cons.mp hfits).1
      rw [write, List.flatMap_cons] at hb
      cases p with
      | literal s =>
          rw [Piece.text, List.head?_append_of_ne_nil _ (hok _ (List.mem_cons_self ..)).1] at hb
          obtain ⟨halpha, hopen, hclose⟩ := hp b hb
          exact ⟨by simp [isName, halpha, hclose], hopen⟩
      | plain _ | braced _ _ =>
          obtain rfl := Option.some.inj hb
          decide

theorem lex_write {ps : List Piece} (hok : ∀ p ∈ ps, p.Ok) (hfits : ps.IsChain Piece.Fits) :
    lexFrom 0 (write ps) = ps.flatMap Piece.tokens := by
  induction ps with
  | nil => rfl
  | cons p ps ih =>
      obtain ⟨hp, hps⟩ := List.forall_mem_cons.mp hok
      have hrest := ih hps hfits.tail
      rw [List.flatMap_cons, ← hrest, write, List.flatMap_cons, ← write]
      cases p with
      | literal s => exact lexFrom_literal hp.2 _
      | plain x =>
          have hbehind : Behind (x.letter :: write ps) (some ([x.letter], none)) :=
            .plain (v := [x.letter]) (by simpa using x.isName_letter) (head_write hps hfits)
          exact (lexFrom_item x hbehind).trans (congrArg _ (lexFrom_drop 1 _))
      | braced x fmt =>
          have hbehind : Behind (x.letter :: 123 :: (fmt ++ 125 :: write ps))
              (some ([x.letter], some fmt)) :=
            .braced (v := [x.letter]) (by simpa using x.isName_letter) hp
          have htext : (Piece.braced x fmt).text ++ write ps =
              37 :: x.letter :: 123 :: (fmt ++ 125 :: write ps) := by
            simp [Piece.text]
          have hdrop : (x.letter :: 123 :: (fmt ++ 125 :: write ps)).drop
              (width [x.letter] (some fmt)) = write ps := by
            have hwidth : width [x.letter] (some fmt) = fmt.length + 1 + 1 + 1 := by
              rw [width, List.length_singleton]
              omega
            rw [hwidth]
            simp
          rw [htext, lexFrom_item x hbehind, lexFrom_drop, hdrop]
          rfl

theorem entries_text (s nstr : Bytes) (ts : List Token) :
    entries nstr (s.map .text ++ ts) = entries (nstr ++ s) ts := by
  induction s generalizing nstr with
  | nil => rw [List.append_nil, List.map_nil, List.nil_append]
  | cons b s ih =>
      rw [List.map_cons, List.cons_append, entries, ih, List.append_assoc, List.singleton_append]

theorem entries_tokens {ps : List Piece} (hok : ∀ p ∈ ps, p.Ok)
    (hfits : ps.IsChain Piece.Fits) :
    entries [] (ps.flatMap Piece.tokens) = ps.map Piece.entry := by
  suffices ∀ nstr : Bytes, (nstr ≠ [] → ∀ s ∈ ps.head?, ∀ t, s ≠ Piece.literal t) →
      entries nstr (ps.flatMap Piece.tokens) = flushed nstr ++ ps.map Piece.entry by
    simpa [flushed] using this [] (fun h => absurd rfl h)
  induction ps with
  | nil =>
      intro nstr _
      exact (List.append_nil _).symm
  | cons p ps ih =>
      intro nstr hnstr
      obtain ⟨hp, hps⟩ := List.forall_mem_cons.mp hok
      have hrest := ih hps hfits.tail
      rw [List.flatMap_cons]
      cases p with
      | literal s =>
          have hnil : nstr = [] := by
            by_contra hne
            exact hnstr hne _ (List.head?_cons ..) s rfl
          have hnext : ∀ q ∈ ps.head?, ∀ t, q ≠ Piece.literal t := by
            rintro q hq t rfl
            obtain ⟨ps', rfl⟩ := List.head?_eq_some_iff.mp hq
            exact (List.isChain_cons_cons.mp hfits).1
          rw [hnil, Piece.tokens, entries_text, List.nil_append, hrest s fun _ => hnext]
          simp [flushed, hp.1, Piece.entry]
      | plain x | braced x fmt =>
          simp only [Piece.tokens, List.cons_append, List.nil_append, entries]
          rw [hrest [] fun h => absurd rfl h]
          rfl

/-- **Parsing inverts writing.** -/
theorem parse_write {ps : List Piece} (hok : ∀ p ∈ ps, p.Ok) (hfits : ps.IsChain Piece.Fits) :
    (scan (write ps)).vec = ps.map Piece.entry ∧
      (new (write ps)).items = ps.map Piece.item := by
  have hvec : (scan (write ps)).vec = ps.map Piece.entry := by
    rw [(scan_eq _).1, lex, lex_write hok hfits, entries_tokens hok hfits]
  refine ⟨hvec, ?_⟩
  rw [new, init, hvec, List.nil_append, List.map_map]
  exact List.map_congr_left fun p _ => p.makeItem_entry

theorem parse_write_format : (scan (write [.braced .d (bytes "%H:%M"), .literal (bytes "abc"),
      .plain .m, .literal (bytes " at "), .plain .f])).vec =
      [⟨bytes "d", bytes "%H:%M", 1⟩, ⟨bytes "abc", [], 0⟩, ⟨bytes "m", [], 1⟩,
        ⟨bytes " at ", [], 0⟩, ⟨bytes "f", [], 1⟩] ∧
    (new (write [.braced .d (bytes "%H:%M"), .literal (bytes "abc"), .plain .m,
      .literal (bytes " at "), .plain .f])).items =
      [.dateTime (bytes "%H:%M"), .string (bytes "abc"), .message, .string (bytes " at "),
        .filename] := by
  have hok : ∀ p ∈ [Piece.braced .d (bytes "%H:%M"), .literal (bytes "abc"), .plain .m,
      .literal (bytes " at "), .plain .f], p.Ok := by
    simp only [List.forall_mem_cons, Piece.Ok, List.not_mem_nil, IsEmpty.forall_iff, implies_true]
    decide
  have hfits : [Piece.braced .d (bytes "%H:%M"), .literal (bytes "abc"), .plain .m,
      .literal (bytes " at "), .plain .f].IsChain Piece.Fits := by
    simp only [List.isChain_cons_cons, Piece.Fits, true_and]
    refine ⟨fun b hb => ?_, .singleton _⟩
    obtain rfl : 32 = b := Option.some.inj hb
    decide
  obtain ⟨hvec, hitems⟩ := parse_write hok hfits
  exact ⟨hvec.trans (by decide), hitems.trans (by decide)⟩

/-! ## Percent signs in pairs -/

/-- Every `%` of the pattern is one of a pair; `t` has one for each pair. -/
inductive Escaped : Bytes → Bytes → Prop
  | nil : Escaped [] []
  | text {b : UInt8} {p t : Bytes} (hb : b ≠ 37) (h : Escaped p t) : Escaped (b :: p) (b :: t)
  | pair {p t : Bytes} (h : Escaped p t) : Escaped (37 :: 37 :: p) (37 :: t)

/-- The pattern gives literals only, which together are `t`. -/
def Unescapes (p t : Bytes) : Prop :=
  ∃ ls : List Bytes, (scan p).vec = ls.map (fun s => ⟨s, [], 0⟩) ∧
    (new p).items = ls.map .string ∧ ls.flatten = t ∧ (scan p).out = []

theorem Escaped.eq_of_not_mem {p t : Bytes} (h : Escaped p t) (hp : 37 ∉ p) : t = p := by
  induction h with
  | nil => rfl
  | text hb h ih => rw [ih (List.not_mem_of_not_mem_cons hp)]
  | pair h ih => exact absurd (List.mem_cons_self ..) hp

/-- The last of several percent signs starts an item. -/
theorem not_mem_of_text : ∀ {p : Bytes}, (∀ x ∈ lexFrom 0 p, ∃ b, x = .text b) → 37 ∉ p
  | [], _ => List.not_mem_nil
  | b :: s, h => by
      rw [lexFrom] at h
      split at h
      · rename_i hb
        have hs := not_mem_of_text (List.forall_mem_cons.mp h).2
        exact List.not_mem_cons_of_ne_of_not_mem hb.symm hs
      split at h
      · rename_i hhead
        have hs := not_mem_of_text (List.forall_mem_cons.mp h).2
        exact absurd (List.mem_of_head? hhead) hs
      · split at h <;> obtain ⟨c, hc⟩ := (List.forall_mem_cons.mp h).1 <;> cases hc

theorem mem_entries_of_item {name : Bytes} {fmt : Option Bytes} {ts : List Token}
    (h : .item name fmt ∈ ts) (nstr : Bytes) : ⟨name, fmt.getD [], 1⟩ ∈ entries nstr ts := by
  induction ts generalizing nstr with
  | nil => cases h
  | cons t ts ih =>
      rcases List.mem_cons.mp h with rfl | hts
      · exact List.mem_append_right _ (List.mem_cons_self ..)
      · cases t with
        | text b => exact ih hts (nstr ++ [b])
        | item _ _ => exact List.mem_append_right _ (List.mem_cons_of_mem _ (ih hts []))
        | broken => exact List.mem_cons_of_mem _ (ih hts nstr)

theorem unescapes_of_not_mem {p : Bytes} (hp : 37 ∉ p) : Unescapes p p := by
  have hlex : lex p = p.map .text := by
    have h := lexFrom_literal hp []
    rwa [List.append_nil, lexFrom, List.append_nil] at h
  obtain ⟨hvec, hout⟩ := scan_eq p
  have hentries := entries_text p [] []
  rw [List.append_nil, ← hlex, List.nil_append, entries] at hentries
  rw [hentries] at hvec
  have hnone : (scan p).out = [] := hout.mpr (by simp [hlex])
  refine ⟨if p = [] then [] else [p], ?_, ?_, ?_, hnone⟩
  · rw [hvec, flushed]
    split <;> rfl
  · rw [new, init, hvec, flushed]
    split <;> rfl
  · split
    · rename_i hnil
      rw [hnil, List.flatten_nil]
    · exact List.flatten_singleton

/-- **Pairs of percent signs.** They come out as single ones only where
there are none. -/
theorem unescapes_iff {p t : Bytes} (h : Escaped p t) : Unescapes p t ↔ 37 ∉ p := by
  constructor
  · rintro ⟨ls, hvec, -, -, hout⟩
    obtain ⟨hscan, hbroken⟩ := scan_eq p
    refine not_mem_of_text fun x hx => ?_
    cases x with
    | text b => exact ⟨b, rfl⟩
    | broken => exact absurd hx (hbroken.mp hout)
    | item name fmt =>
        have hmem := mem_entries_of_item hx []
        change _ ∈ entries [] (lex p) at hmem
        rw [← hscan, hvec] at hmem
        obtain ⟨s, -, hs⟩ := List.mem_map.mp hmem
        cases congrArg Entry.type hs
  · intro hp
    rw [h.eq_of_not_mem hp]
    exact unescapes_of_not_mem hp

theorem unescapes_iff_percent : Unescapes (bytes "100%%") (bytes "100%") ↔ 37 ∉ bytes "100%%" :=
  unescapes_iff (.text (by decide) (.text (by decide) (.text (by decide) (.pair .nil))))

/-- A pair is a literal and an item without a name. -/
theorem pair_not_unescaped : ¬∀ p t : Bytes, Escaped p t → Unescapes p t := by
  intro hall
  obtain ⟨ls, hvec, -⟩ := hall [37, 37] [37] (.pair .nil)
  have hmem : (⟨[], [], 1⟩ : Entry) ∈ (scan [37, 37]).vec := by decide
  rw [hvec] at hmem
  obtain ⟨s, -, hs⟩ := List.mem_map.mp hmem
  cases congrArg Entry.type hs

end LogFormatter

end Sylar
