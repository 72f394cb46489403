import Mathlib.Data.List.TakeWhile
import Sylar.HttpMessage

/-!
# Log patterns

`LogFormatter` in `log.cc`. `init` goes through the pattern with an index,
collects the text between the items in `nstr` and the entries in `vec`,
and makes an item of each entry.

The loops are compared with a reading of the pattern from the left,
`lex`, that has no indices (`scan_eq`).
-/

namespace Sylar

/-- The classes of items. Those that do not use their format do not keep
it. -/
inductive FormatItem where
  | message
  | level
  | elapse
  | name
  | threadId
  | newLine
  | dateTime (format : Bytes)
  | filename
  | line
  | tab
  | fiberId
  | string (string : Bytes)
deriving Repr, DecidableEq

namespace FormatItem

/-- The constructor of `DateTimeFormatItem`. -/
def newDateTime (format : Bytes) : FormatItem :=
  .dateTime (if format = [] then bytes "%Y-%m-%d %H:%M:%S" else format)

end FormatItem

structure LogFormatter where
  pattern : Bytes
  items : List FormatItem
  error : Bool
deriving Repr, DecidableEq

namespace LogFormatter

/-- In the C locale. -/
def isalpha (b : UInt8) : Bool := (65 ≤ b && b ≤ 90) || (97 ≤ b && b ≤ 122)

/-- A tuple of `vec`: a text (`type` 0) or an item with its format (1). -/
structure Entry where
  str : Bytes
  fmt : Bytes
  type : Nat
deriving Repr, DecidableEq

def formatItems : List (Bytes × (Bytes → FormatItem)) :=
  [(bytes "m", fun _ => .message), (bytes "p", fun _ => .level), (bytes "r", fun _ => .elapse),
    (bytes "c", fun _ => .name), (bytes "t", fun _ => .threadId), (bytes "n", fun _ => .newLine),
    (bytes "d", .newDateTime), (bytes "f", fun _ => .filename), (bytes "l", fun _ => .line),
    (bytes "T", fun _ => .tab), (bytes "F", fun _ => .fiberId)]

/-- The body of the loop over `vec`. -/
def makeItem (e : Entry) : FormatItem :=
  if e.type = 0 then .string e.str
  else
    match formatItems.lookup e.str with
    | none => .string (bytes "<<error_format %" ++ e.str ++ bytes ">>")
    | some new => new e.fmt

/-- The variables of the inner loop. -/
structure ItemScan where
  n : Nat
  fmtStatus : Nat
  fmtBegin : Nat
  str : Bytes
  fmt : Bytes
deriving Repr, DecidableEq

/-- The inner loop, from the `%` at `i`. -/
def itemLoop (pattern : Bytes) (i : Nat) : Nat → ItemScan → ItemScan
  | 0, s => s
  | fuel + 1, s =>
      match pattern[s.n]? with
      | none => s
      | some c =>
          if s.fmtStatus = 0 ∧ ¬isalpha c ∧ c ≠ 123 ∧ c ≠ 125 then
            { s with str := (pattern.drop (i + 1)).take (s.n - i - 1) }
          else if s.fmtStatus = 0 ∧ c = 123 then
            itemLoop pattern i fuel { s with
              n := s.n + 1, fmtStatus := 1, fmtBegin := s.n
              str := (pattern.drop (i + 1)).take (s.n - i - 1) }
          else if s.fmtStatus = 1 ∧ c = 125 then
            { s with
              n := s.n + 1, fmtStatus := 0
              fmt := (pattern.drop (s.fmtBegin + 1)).take (s.n - s.fmtBegin - 1) }
          else
            itemLoop pattern i fuel { s with
              n := s.n + 1
              str := if s.n + 1 = pattern.length ∧ s.str = [] then pattern.drop (i + 1)
                else s.str }

/-- The variables of the outer loop, and what is printed. -/
structure Scan where
  nstr : Bytes
  vec : List Entry
  out : Bytes
deriving Repr, DecidableEq

namespace Scan

def flush (s : Scan) : Scan :=
  if s.nstr = [] then s else { s with nstr := [], vec := s.vec ++ [⟨s.nstr, [], 0⟩] }

def push (s : Scan) (e : Entry) : Scan := { s with vec := s.vec ++ [e] }

def append (s : Scan) (c : UInt8) : Scan := { s with nstr := s.nstr ++ [c] }

/-- The branch for `fmt_status == 1`; it does not look at `nstr`. -/
def fail (s : Scan) (pattern : Bytes) (i : Nat) (fmt : Bytes) : Scan :=
  { s with
    vec := s.vec ++ [⟨bytes "<<pattern_error>>", fmt, 0⟩]
    out := s.out ++ bytes "pattern parse error:" ++ pattern ++ bytes "-" ++ pattern.drop i ++ [10] }

end Scan

def scanLoop (pattern : Bytes) : Nat → Nat → Scan → Scan
  | 0, _, s => s
  | fuel + 1, i, s =>
      match pattern[i]? with
      | none => s
      | some c =>
          if c ≠ 37 then scanLoop pattern fuel (i + 1) (s.append c)
          else if pattern[i + 1]? = some 37 then scanLoop pattern fuel (i + 1) (s.append 37)
          else
            let r := itemLoop pattern i pattern.length ⟨i + 1, 0, 0, [], []⟩
            if r.fmtStatus = 0 then
              -- `i = n - 1`, and `++i` of the loop
              scanLoop pattern fuel r.n (s.flush.push ⟨r.str, r.fmt, 1⟩)
            else if r.fmtStatus = 1 then
              scanLoop pattern fuel (i + 1) (s.fail pattern i r.fmt)
            else scanLoop pattern fuel (i + 1) s

def scan (pattern : Bytes) : Scan := (scanLoop pattern pattern.length 0 ⟨[], [], []⟩).flush

def init (f : LogFormatter) : LogFormatter :=
  { f with items := f.items ++ (scan f.pattern).vec.map makeItem }

def new (pattern : Bytes) : LogFormatter := init ⟨pattern, [], false⟩

def isError (f : LogFormatter) : Bool := f.error

/-! ## Reading the pattern from the left -/

inductive Token where
  | text (b : UInt8)
  | item (name : Bytes) (fmt : Option Bytes)
  /-- an item whose `{` is not closed; what is behind its `%` is read
  again -/
  | broken
deriving Repr, DecidableEq

/-- A closing brace is taken for a part of the name. -/
def isName (b : UInt8) : Bool := isalpha b || b == 125

/-- The name and the format behind a `%`. -/
def itemAt (s : Bytes) : Option (Bytes × Option Bytes) :=
  match s.dropWhile isName with
  | [] => some (s.takeWhile isName, none)
  | b :: r =>
      if b = 123 then
        if 125 ∈ r then some (s.takeWhile isName, some (r.takeWhile (· ≠ 125))) else none
      else some (s.takeWhile isName, none)

def width (name : Bytes) : Option Bytes → Nat
  | none => name.length
  | some fmt => name.length + fmt.length + 2

/-- The first argument says how many bytes belong to the last token. -/
def lexFrom : Nat → Bytes → List Token
  | _, [] => []
  | k + 1, _ :: s => lexFrom k s
  | 0, b :: s =>
      if b ≠ 37 then .text b :: lexFrom 0 s
      else if s.head? = some 37 then .text 37 :: lexFrom 0 s
      else
        match itemAt s with
        | some (name, fmt) => .item name fmt :: lexFrom (width name fmt) s
        | none => .broken :: lexFrom 0 s

def lex (pattern : Bytes) : List Token := lexFrom 0 pattern

def flushed (nstr : Bytes) : List Entry := if nstr = [] then [] else [⟨nstr, [], 0⟩]

/-- The entries for the tokens, with the text that is pending. -/
def entries : Bytes → List Token → List Entry
  | nstr, [] => flushed nstr
  | nstr, .text b :: ts => entries (nstr ++ [b]) ts
  | nstr, .item name fmt :: ts => flushed nstr ++ ⟨name, fmt.getD [], 1⟩ :: entries [] ts
  | nstr, .broken :: ts => ⟨bytes "<<pattern_error>>", [], 0⟩ :: entries nstr ts

theorem lexFrom_drop (k : Nat) (s : Bytes) : lexFrom k s = lexFrom 0 (s.drop k) := by
  induction s generalizing k with
  | nil => simp [lexFrom]
  | cons b s ih =>
      cases k with
      | zero => rfl
      | succ k => rw [lexFrom, ih, List.drop_succ_cons]

/-- What stands behind a `%`: the name, and a format in braces, or a brace
that is not closed. -/
inductive Behind : Bytes → Option (Bytes × Option Bytes) → Prop
  | plain {v r : Bytes} (hv : ∀ b ∈ v, isName b = true)
      (hr : ∀ b ∈ r.head?, isName b = false ∧ b ≠ 123) : Behind (v ++ r) (some (v, none))
  | braced {v f r : Bytes} (hv : ∀ b ∈ v, isName b = true) (hf : 125 ∉ f) :
      Behind (v ++ 123 :: (f ++ 125 :: r)) (some (v, some f))
  | unclosed {v r : Bytes} (hv : ∀ b ∈ v, isName b = true) (hr : 125 ∉ r) :
      Behind (v ++ 123 :: r) none

theorem takeWhile_name {v r : Bytes} (hv : ∀ b ∈ v, isName b = true)
    (hr : ∀ b ∈ r.head?, isName b = false) :
    (v ++ r).takeWhile isName = v ∧ (v ++ r).dropWhile isName = r := by
  rw [List.takeWhile_append_of_pos hv, List.dropWhile_append_of_pos hv]
  cases r with
  | nil => simp
  | cons b r =>
      have hb : isName b = false := hr b (List.head?_cons ..)
      simp [hb]

theorem Behind.itemAt_eq {s : Bytes} {o : Option (Bytes × Option Bytes)} (h : Behind s o) :
    itemAt s = o := by
  cases h with
  | @plain v r hv hr =>
      obtain ⟨htake, hdrop⟩ := takeWhile_name hv fun b hb => (hr b hb).1
      rw [itemAt, htake, hdrop]
      cases r with
      | nil => rfl
      | cons b r => exact if_neg (hr b (List.head?_cons ..)).2
  | @braced v f r hv hf =>
      obtain ⟨htake, hdrop⟩ := takeWhile_name (r := 123 :: (f ++ 125 :: r)) hv (by simp; decide)
      have hfmt : (f ++ 125 :: r).takeWhile (· ≠ 125) = f := by
        rw [List.takeWhile_append_of_pos (by simpa using fun b hb (h : b = 125) => hf (h ▸ hb))]
        simp
      simp only [itemAt, htake, hdrop, if_true, hfmt]
      simp
  | @unclosed v r hv hr =>
      obtain ⟨htake, hdrop⟩ := takeWhile_name (r := 123 :: r) hv (by simp; decide)
      simp only [itemAt, hdrop, if_true, hr, if_false]

theorem behind_itemAt (s : Bytes) : Behind s (itemAt s) := by
  suffices ∃ o, Behind s o by
    obtain ⟨o, h⟩ := this
    rwa [h.itemAt_eq]
  have hv : ∀ b ∈ s.takeWhile isName, isName b = true := fun _ hb => List.mem_takeWhile_imp hb
  have hsplit : s.takeWhile isName ++ s.dropWhile isName = s := List.takeWhile_append_dropWhile
  have hstop := List.head?_dropWhile_not isName s
  rw [← hsplit]
  cases hr : s.dropWhile isName with
  | nil => exact ⟨_, .plain hv (by simp)⟩
  | cons b r =>
      by_cases hb : b = 123
      · subst hb
        by_cases hclose : 125 ∈ r
        · obtain ⟨f, r', rfl, hf⟩ := List.eq_append_cons_of_mem hclose
          exact ⟨_, .braced hv hf⟩
        · exact ⟨_, .unclosed hv hclose⟩
      · rw [hr, List.head?_cons] at hstop
        refine ⟨_, .plain hv ?_⟩
        intro c hc
        obtain rfl := Option.some.inj hc
        exact ⟨by simpa using hstop, hb⟩

/-! ## The inner loop -/

variable {pattern : Bytes} {i n : Nat}

theorem getElem?_of_drop {c : UInt8} {r : Bytes} (h : pattern.drop n = c :: r) :
    pattern[n]? = some c ∧ pattern.drop (n + 1) = r := by
  constructor
  · rw [← List.head?_drop, h, List.head?_cons]
  · rw [← List.tail_drop, h, List.tail_cons]

theorem length_of_drop {v : Bytes} (h : pattern.drop n = v) (hn : n ≤ pattern.length) :
    pattern.length = n + v.length := by
  rw [← h, List.length_drop]
  omega

/-- The state while the name is read. The text is set by the last byte of
the pattern. -/
def inName (pattern : Bytes) (i n : Nat) : ItemScan :=
  ⟨n, 0, 0, if pattern.drop n = [] then pattern.drop (i + 1) else [], []⟩

theorem itemLoop_name {v r : Bytes} (hv : ∀ b ∈ v, isName b = true) (fuel : Nat) :
    ∀ {n : Nat}, n ≤ pattern.length → pattern.drop n = v ++ r →
      itemLoop pattern i (fuel + v.length) (inName pattern i n) =
        itemLoop pattern i fuel (inName pattern i (n + v.length)) := by
  induction v with
  | nil =>
      intro n _ _
      rfl
  | cons c v ih =>
      intro n hn h
      obtain ⟨hc, hv⟩ := List.forall_mem_cons.mp hv
      obtain ⟨hget, hdrop⟩ := getElem?_of_drop (List.cons_append .. ▸ h)
      have hlength : pattern.length = n + (c :: v ++ r).length := length_of_drop h hn
      have hne : pattern.drop n ≠ [] := by simp [h]
      have hlast : n + 1 = pattern.length ↔ pattern.drop (n + 1) = [] := by
        rw [hdrop, hlength, List.cons_append, List.length_cons, ← List.length_eq_zero_iff]
        omega
      have hbrace : c ≠ 123 := by
        rintro rfl
        cases hc
      have hname : ¬(¬isalpha c = true ∧ c ≠ 123 ∧ c ≠ 125) := by
        rintro ⟨halpha, -, hclose⟩
        simp [isName, halpha, hclose] at hc
      rw [List.length_cons, ← Nat.add_assoc, itemLoop]
      simp only [inName, hget, hne, if_false, hname, hbrace, and_false, and_true, zero_ne_one,
        false_and, hlast]
      rw [show n + (v.length + 1) = n + 1 + v.length by omega]
      exact ih hv (by rw [hlength]; simp) hdrop

/-- The name ends with the pattern, or with a byte that is taken for text. -/
theorem itemLoop_end {r : Bytes} (hr : ∀ b ∈ r.head?, isName b = false ∧ b ≠ 123)
    (hi : i < n) (hn : n ≤ pattern.length) (h : pattern.drop n = r) (fuel : Nat) :
    itemLoop pattern i (fuel + 1) (inName pattern i n) =
      ⟨n, 0, 0, (pattern.drop (i + 1)).take (n - i - 1), []⟩ := by
  rw [itemLoop]
  cases r with
  | nil =>
      have hlength := length_of_drop h hn
      have hget : pattern[n]? = none := List.getElem?_eq_none hlength.le
      have hall : (pattern.drop (i + 1)).take (n - i - 1) = pattern.drop (i + 1) := by
        refine List.take_of_length_le ?_
        rw [List.length_drop, hlength, List.length_nil]
        omega
      simp only [inName, hget, h, if_true, hall]
  | cons c r =>
      obtain ⟨hget, -⟩ := getElem?_of_drop h
      obtain ⟨hc, hbrace⟩ := hr c (List.head?_cons ..)
      obtain ⟨halpha, hclose⟩ : isalpha c = false ∧ c ≠ 125 := by simpa [isName] using hc
      simp [inName, hget, halpha, hbrace, hclose]

theorem itemLoop_brace {r : Bytes} (h : pattern.drop n = 123 :: r) (fuel : Nat) :
    itemLoop pattern i (fuel + 1) (inName pattern i n) =
      itemLoop pattern i fuel
        ⟨n + 1, 1, n, (pattern.drop (i + 1)).take (n - i - 1), []⟩ := by
  obtain ⟨hget, -⟩ := getElem?_of_drop h
  rw [itemLoop]
  simp [inName, hget]

variable {b : Nat} {str : Bytes}

theorem itemLoop_closed {f r : Bytes} (hf : 125 ∉ f) (fuel : Nat) :
    ∀ {n : Nat}, pattern.drop n = f ++ 125 :: r →
      itemLoop pattern i (fuel + f.length + 1) ⟨n, 1, b, str, []⟩ =
        ⟨n + f.length + 1, 0, b, str, (pattern.drop (b + 1)).take (n + f.length - b - 1)⟩ := by
  induction f with
  | nil =>
      intro n h
      obtain ⟨hget, -⟩ := getElem?_of_drop h
      rw [itemLoop]
      simp [hget]
  | cons c f ih =>
      intro n h
      obtain ⟨hc, hf⟩ := List.ne_and_not_mem_of_not_mem_cons hf
      obtain ⟨hget, hdrop⟩ := getElem?_of_drop (List.cons_append .. ▸ h)
      have hlast : n + 1 ≠ pattern.length := by
        intro hlast
        rw [hlast, List.drop_length] at hdrop
        simp at hdrop
      rw [itemLoop]
      simp only [hget, one_ne_zero, false_and, if_false, hc.symm, and_false, hlast]
      rw [List.length_cons, show n + (f.length + 1) = n + 1 + f.length by omega]
      exact ih hf hdrop

theorem itemLoop_open (fuel : Nat) : ∀ {n : Nat} {str : Bytes}, 125 ∉ pattern.drop n →
    (itemLoop pattern i fuel ⟨n, 1, b, str, []⟩).fmtStatus = 1 ∧
      (itemLoop pattern i fuel ⟨n, 1, b, str, []⟩).fmt = [] := by
  induction fuel with
  | zero =>
      intro n str _
      exact ⟨rfl, rfl⟩
  | succ fuel ih =>
      intro n str h
      rw [itemLoop]
      cases hdrop : pattern.drop n with
      | nil =>
          have hget : pattern[n]? = none := List.getElem?_eq_none (List.drop_eq_nil_iff.mp hdrop)
          simp only [hget]
          exact ⟨trivial, trivial⟩
      | cons c r =>
          obtain ⟨hget, hrest⟩ := getElem?_of_drop hdrop
          rw [hdrop] at h
          obtain ⟨hc, hr⟩ := List.ne_and_not_mem_of_not_mem_cons h
          simp only [hget, one_ne_zero, false_and, if_false, hc.symm, and_false]
          exact ih (hrest.symm ▸ hr)

theorem inName_start : inName pattern i (i + 1) = ⟨i + 1, 0, 0, [], []⟩ := by
  rw [inName]
  split
  · rename_i hnil
    rw [hnil]
  · rfl

/-- The inner loop up to the end of the name. -/
theorem itemLoop_start (hi : i < pattern.length) {v r : Bytes} (hv : ∀ b ∈ v, isName b = true)
    (h : pattern.drop (i + 1) = v ++ r) :
    itemLoop pattern i pattern.length ⟨i + 1, 0, 0, [], []⟩ =
        itemLoop pattern i (i + r.length + 1) (inName pattern i (i + 1 + v.length)) ∧
      pattern.drop (i + 1 + v.length) = r ∧ i + 1 + v.length ≤ pattern.length ∧
      (pattern.drop (i + 1)).take (i + 1 + v.length - i - 1) = v := by
  have hlength := length_of_drop h hi
  rw [List.length_append] at hlength
  refine ⟨?_, ?_, by omega, ?_⟩
  · rw [← inName_start, ← itemLoop_name hv _ hi h]
    exact congrArg (itemLoop pattern i · _) (by omega)
  · rw [← List.drop_drop, h, List.drop_left]
  · rw [h, show i + 1 + v.length - i - 1 = v.length by omega, List.take_left]

/-- How the inner loop ends. -/
def ItemScan.Ends (i : Nat) (s : ItemScan) : Option (Bytes × Option Bytes) → Prop
  | some (name, fmt) => ∃ start, s = ⟨i + 1 + width name fmt, 0, start, name, fmt.getD []⟩
  | none => s.fmtStatus = 1 ∧ s.fmt = []

/-- The inner loop reads what stands behind the `%`. -/
theorem itemLoop_spec (hi : i < pattern.length) {s : Bytes} (hs : pattern.drop (i + 1) = s)
    {o : Option (Bytes × Option Bytes)} (h : Behind s o) :
    (itemLoop pattern i pattern.length ⟨i + 1, 0, 0, [], []⟩).Ends i o := by
  cases h with
  | @plain v r hv hr =>
      obtain ⟨hloop, hdrop, hle, htake⟩ := itemLoop_start hi hv hs
      rw [itemLoop_end hr (by omega) hle hdrop, htake] at hloop
      exact ⟨0, hloop⟩
  | @braced v f r hv hf =>
      obtain ⟨hloop, hdrop, hle, htake⟩ := itemLoop_start hi hv hs
      obtain ⟨-, hbehind⟩ := getElem?_of_drop hdrop
      have hfuel : i + (123 :: (f ++ 125 :: r)).length = i + 1 + r.length + f.length + 1 := by
        simp
        omega
      refine ⟨i + 1 + v.length, ?_⟩
      rw [hloop, itemLoop_brace hdrop, htake, hfuel, itemLoop_closed hf _ hbehind, hbehind,
        show i + 1 + v.length + 1 + f.length - (i + 1 + v.length) - 1 = f.length by omega,
        List.take_left]
      simp only [width, Option.getD_some, ItemScan.mk.injEq, and_true]
      omega
  | @unclosed v r hv hr =>
      obtain ⟨hloop, hdrop, hle, htake⟩ := itemLoop_start hi hv hs
      obtain ⟨-, hbehind⟩ := getElem?_of_drop hdrop
      rw [hloop, itemLoop_brace hdrop]
      exact itemLoop_open _ (hbehind.symm ▸ hr)

/-! ## The outer loop -/

@[simp] theorem Scan.flush_nstr (s : Scan) : s.flush.nstr = [] := by
  rw [flush]
  split
  · assumption
  · rfl

@[simp] theorem Scan.flush_vec (s : Scan) : s.flush.vec = s.vec ++ flushed s.nstr := by
  rw [flush, flushed]
  split
  · rw [List.append_nil]
  · rfl

@[simp] theorem Scan.flush_out (s : Scan) : s.flush.out = s.out := by
  rw [flush]
  split <;> rfl

/-- From every index the loop does what the tokens of the rest say. -/
theorem scanLoop_spec (fuel : Nat) : ∀ {i : Nat} {s : Scan}, pattern.length ≤ i + fuel →
    (scanLoop pattern fuel i s).flush.vec =
        s.vec ++ entries s.nstr (lexFrom 0 (pattern.drop i)) ∧
      ((scanLoop pattern fuel i s).out = [] ↔
        s.out = [] ∧ Token.broken ∉ lexFrom 0 (pattern.drop i)) := by
  induction fuel with
  | zero =>
      intro i s hi
      rw [List.drop_eq_nil_of_le (Nat.add_zero i ▸ hi)]
      simp [scanLoop, lexFrom, entries]
  | succ fuel ih =>
      intro i s hi
      rw [scanLoop]
      cases hdrop : pattern.drop i with
      | nil =>
          have hget : pattern[i]? = none := List.getElem?_eq_none (List.drop_eq_nil_iff.mp hdrop)
          simp [hget, lexFrom, entries]
      | cons c r =>
          obtain ⟨hget, hrest⟩ := getElem?_of_drop hdrop
          have hlt : i < pattern.length := (List.getElem?_eq_some_iff.mp hget).1
          have hnext : pattern[i + 1]? = r.head? := by rw [← hrest, List.head?_drop]
          rw [lexFrom]
          simp only [hget, hnext]
          split
          · obtain ⟨hvec, hout⟩ := ih (i := i + 1) (s := s.append c) (by omega)
            rw [hvec, hout, hrest]
            simp [entries, Scan.append]
          split
          · obtain ⟨hvec, hout⟩ := ih (i := i + 1) (s := s.append 37) (by omega)
            rw [hvec, hout, hrest]
            simp [entries, Scan.append]
          have hends := itemLoop_spec hlt hrest (behind_itemAt r)
          cases hitem : itemAt r with
          | some x =>
              obtain ⟨name, fmt⟩ := x
              rw [hitem] at hends
              obtain ⟨start, hloop⟩ := hends
              rw [hloop]
              obtain ⟨hvec, hout⟩ := ih (i := i + 1 + width name fmt)
                (s := s.flush.push ⟨name, fmt.getD [], 1⟩) (by omega)
              simp only [if_true, hvec, hout, lexFrom_drop (width name fmt) r]
              rw [← List.drop_drop, hrest]
              simp [entries, Scan.push]
          | none =>
              rw [hitem] at hends
              obtain ⟨hstatus, hfmt⟩ := hends
              obtain ⟨hvec, hout⟩ := ih (i := i + 1) (s := s.fail pattern i []) (by omega)
              simp only [hstatus, hfmt, one_ne_zero, if_false, if_true]
              rw [hvec, hout, hrest]
              simp [entries, Scan.fail, bytes]

/-- **The scan.** The entries are those of the tokens, and something is
printed just when an item is broken. -/
theorem scan_eq (pattern : Bytes) : (scan pattern).vec = entries [] (lex pattern) ∧
    ((scan pattern).out = [] ↔ Token.broken ∉ lex pattern) := by
  obtain ⟨hvec, hout⟩ := @scanLoop_spec pattern pattern.length 0 ⟨[], [], []⟩ (Nat.zero_add _).ge
  rw [scan, hvec, Scan.flush_out, hout]
  simp [lex]

end LogFormatter

end Sylar
