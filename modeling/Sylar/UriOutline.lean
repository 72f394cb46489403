import Sylar.Lib.Outline
import Sylar.Uri
import Sylar.UriParts
import Sylar.UriRecognise

/-!
# The URI machine in outline

What the actions do depends on less than the states tell: whether a name
may still be an IPv4 address, or how far an escape or a host in brackets
has got, makes no difference to them. The outline has one state for each
part of a URI. It has every edge of the machine (`outline_folds`), and
more, so it does not say what is accepted; but on an accepted text
`finish`, which runs it, is what `create` does (`create_eq_finish`).
-/

namespace Sylar

open Scanner

namespace UriMachine

/-- With the `%` of an escape. -/
def escaped (on : List (Nat × Nat)) : List (Nat × Nat) := on ++ one 37

/-- The scheme, a path, the query and the fragment. -/
def outerOutline : List (Nat × List (Edge UriAction)) :=
  [(451, [go (escaped firstChar) 452, go (one 35) 453, go (one 47) 458, go (one 63) 456,
      ⟨alpha, [.marku], 508⟩]),
    (452, [go (escaped segmentNc) 452, go (one 35) 453, go (one 47) 455, go (one 63) 456]),
    (453, [⟨escaped queryChar, [.marku], 454⟩]),
    (454, [go (escaped queryChar) 454]),
    (455, [go (escaped pathChar) 455, go (one 35) 453, go (one 63) 456]),
    (456, [⟨escaped queryChar, [.marku], 457⟩, ⟨one 35, [.marku, .saveQuery], 453⟩]),
    (457, [go (escaped queryChar) 457, ⟨one 35, [.saveQuery], 453⟩]),
    (458, [go (escaped pchar) 455, go (one 35) 453, go (one 47) 459, go (one 63) 456]),
    (508, [go (escaped afterScheme) 452, go (one 35) 453, go schemeChar 508, go (one 47) 455,
      ⟨one 58, [.saveScheme], 509⟩, go (one 63) 456]),
    (509, [go (escaped pchar) 455, go (one 35) 453, go (one 47) 510, go (one 63) 456]),
    (510, [go (escaped pchar) 455, go (one 35) 453, go (one 47) 511, go (one 63) 456]),
    (513, [go (escaped pathChar) 513, ⟨one 35, [.savePath], 453⟩, ⟨one 63, [.savePath], 456⟩])]

/-- An authority: 459 to 489 as long as there may be a userinfo, 33 in it
when it has a `:`, 469 to 462 behind it, 38 in a host in brackets. -/
def authorityOutline : List (Nat × List (Edge UriAction)) :=
  [(459, ends [.markh, .saveHost] ++ [⟨escaped regName, [.markh], 467⟩, ⟨one 2, [.markh], 470⟩,
      ⟨one 58, [.markh, .saveHost], 468⟩, ⟨one 64, [.markh, .saveUserinfo], 469⟩,
      ⟨one 91, [.markh], 38⟩]),
    (467, ends [.saveHost] ++ [go (escaped regName) 467, go (one 2) 470,
      ⟨one 58, [.saveHost], 468⟩, ⟨one 64, [.saveUserinfo], 469⟩]),
    (468, ends [.markh, .savePort] ++ [go (escaped userinfoNoDigit) 33, ⟨digit, [.markh], 489⟩,
      ⟨one 64, [.saveUserinfo], 469⟩]),
    (489, ends [.savePort] ++ [go (escaped userinfoNoDigit) 33, go digit 489,
      ⟨one 64, [.saveUserinfo], 469⟩]),
    (33, [go (escaped userinfoChar) 33, ⟨one 64, [.saveUserinfo], 469⟩]),
    (469, ends [.markh, .saveHost] ++ [⟨escaped regName ++ one 2, [.markh], 470⟩,
      ⟨one 58, [.markh, .saveHost], 461⟩, ⟨one 91, [.markh], 38⟩]),
    (470, ends [.saveHost] ++ [go (escaped regName ++ one 2) 470, ⟨one 58, [.saveHost], 461⟩]),
    (461, ends [.markh, .savePort] ++ [⟨digit, [.markh], 462⟩]),
    (462, ends [.savePort] ++ [go digit 462]),
    (38, [go (userinfoChar ++ one 2) 38, go (one 93) 470])]

def outline : Table UriAction :=
  tableOf (outerOutline ++ authorityOutline ++ authorityOutline.map behindScheme)

/-- The state of the outline, without a scheme. -/
def folded (cs : Nat) : Nat :=
  if cs ≤ 2 then 454
  else if cs ≤ 4 then 452
  else if cs ≤ 6 then 455
  else if cs ≤ 8 then 457
  else if cs ≤ 30 ∨ cs = 36 ∨ cs = 37 then 470
  else if cs ≤ 32 then 467
  else if cs ≤ 35 then 33
  else if cs ≤ 228 then 38
  else if cs = 460 ∨ 463 ≤ cs ∧ cs ≤ 466 ∨ 470 ≤ cs ∧ cs ≤ 488 then 470
  else if cs = 467 ∨ 490 ≤ cs ∧ cs ≤ 507 then 467
  else cs

/-- The state of the outline for a state of the machine. -/
def outlined (cs : Nat) : Nat :=
  if cs ≤ 228 ∨ 451 ≤ cs ∧ cs ≤ 510 then folded cs
  else if cs = 243 ∨ cs = 244 ∨ cs = 513 then 513
  else if cs ≤ 242 then absolute (folded (cs - 220))
  else if cs ≤ 450 then absolute (folded (cs - 222))
  else if cs ≤ 512 then absolute (folded (cs - 52))
  else absolute (folded (cs - 53))

/-- The edges of the machine are those of the outline. -/
theorem foldsRows_states : foldsRows outline outlined states = true := by
  decide +kernel

theorem outline_folds : Folds machine outline outlined := folds_of_rows foldsRows_states

theorem eofActs_outlined_final : ∀ n < 110, eofActs (outlined (451 + n)) = eofActs (451 + n) := by
  decide +kernel

/-- The end of the input is the same in the outline. -/
theorem eofActs_outlined {cs : Nat} (h : firstFinal ≤ cs) :
    eofActs (outlined cs) = eofActs cs := by
  rcases Nat.lt_or_ge cs 561 with hlt | hge
  · obtain ⟨n, rfl⟩ := Nat.exists_eq_add_of_le (show 451 ≤ cs from h)
    exact eofActs_outlined_final n (by omega)
  · have hfolded : folded (cs - 53) = cs - 53 := by
      rw [folded, if_neg (by omega), if_neg (by omega), if_neg (by omega), if_neg (by omega),
        if_neg (by omega), if_neg (by omega), if_neg (by omega), if_neg (by omega),
        if_neg (by omega), if_neg (by omega)]
    have hsame : outlined cs = cs := by
      rw [outlined, if_neg (by omega), if_neg (by omega), if_neg (by omega), if_neg (by omega),
        if_neg (by omega), hfolded, absolute, if_neg (by omega), if_neg (by omega),
        if_neg (by omega), if_neg (by omega), if_neg (by omega)]
      omega
    rw [hsame]

end UriMachine

namespace Uri

open UriMachine

/-- The rest of `create` in the outline, from position `p` on: the actions
for the bytes to come and for the end. -/
def finish (buffer : Bytes) : Bytes → Nat → Nat → Scan → Except UriFault (Option Uri)
  | [], p, cs, s => perform (act buffer p) (eofActs cs) s >>= fun s => .ok (some s.uri)
  | b :: bs, p, cs, s =>
      match move outline cs b with
      | none => .ok none
      | some (as, cs') => perform (act buffer p) as s >>= finish buffer bs (p + 1) cs'

variable {buffer : Bytes}

theorem finish_move {b : UInt8} {bs : Bytes} {p cs cs' : Nat} {s : Scan} {as : List UriAction}
    (h : move outline cs b = some (as, cs')) :
    finish buffer (b :: bs) p cs s =
      perform (act buffer p) as s >>= finish buffer bs (p + 1) cs' := by
  rw [finish, h]

/-- Bytes that a state stays in do nothing. -/
theorem finish_loop {cs : Nat} : ∀ {xs ys : Bytes} {p : Nat} {s : Scan},
    (∀ b ∈ xs, move outline cs b = some ([], cs)) →
    finish buffer (xs ++ ys) p cs s = finish buffer ys (p + xs.length) cs s
  | [], _, _, _, _ => rfl
  | b :: xs, ys, p, s, h => by
      obtain ⟨hb, hxs⟩ := List.forall_mem_cons.mp h
      rw [List.cons_append, finish_move hb, add_length_cons, ← finish_loop hxs]
      rfl

theorem finish_loop_nil {cs p : Nat} {xs : Bytes} {s : Scan}
    (h : ∀ b ∈ xs, move outline cs b = some ([], cs)) :
    finish buffer xs p cs s = finish buffer [] (p + xs.length) cs s := by
  have happend : finish buffer (xs ++ []) p cs s = finish buffer [] (p + xs.length) cs s :=
    finish_loop h
  rwa [List.append_nil] at happend

/-- Bytes that only lead from one state of `Q` to another do nothing
either. -/
theorem finish_within (buffer ys : Bytes) (s : Scan) {Q : List Nat} {among : UInt8 → Bool}
    (hstep : ∀ cs ∈ Q, ∀ b, among b = true → ∃ cs' ∈ Q, move outline cs b = some ([], cs')) :
    ∀ {xs : Bytes} {p cs : Nat}, (∀ b ∈ xs, among b = true) → cs ∈ Q →
      ∃ cs' ∈ Q, finish buffer (xs ++ ys) p cs s = finish buffer ys (p + xs.length) cs' s
  | [], p, cs, _, hcs => ⟨cs, hcs, rfl⟩
  | b :: xs, p, cs, h, hcs => by
      obtain ⟨hb, hxs⟩ := List.forall_mem_cons.mp h
      obtain ⟨cs₁, hcs₁, hmove⟩ := hstep cs hcs b hb
      obtain ⟨cs', hcs', hfinish⟩ := finish_within buffer ys s hstep (p := p + 1) hxs hcs₁
      refine ⟨cs', hcs', ?_⟩
      rw [List.cons_append, finish_move hmove, add_length_cons, ← hfinish]
      rfl

theorem exec_finish : ∀ {bs : Bytes} {p cs cs' : Nat} {s : Scan},
    after machine cs bs = some cs' → firstFinal ≤ cs' →
    (exec machine (fun _ => false) (act buffer) bs p cs s >>= fun r =>
      (if r.running then perform (act buffer r.p) (eofActs r.cs) r.user >>= fun s =>
        .ok { r with user := s }
      else .ok r) >>= fun r => .ok (r.cs, some r.user.uri)) =
    finish buffer bs p (outlined cs) s >>= fun u => .ok (cs', u)
  | [], p, cs, cs', s, hafter, hfinal => by
      obtain rfl := Option.some.inj hafter
      rw [exec, finish, eofActs_outlined hfinal]
      show (perform (act buffer p) (eofActs cs) s >>= _) >>= _ = _
      cases perform (act buffer p) (eofActs cs) s <;> rfl
  | b :: bs, p, cs, cs', s, hafter, hfinal => by
      rw [after] at hafter
      obtain ⟨⟨as, q⟩, hmove, hafter⟩ := Option.bind_eq_some_iff.mp hafter
      obtain ⟨e, he, heq⟩ := Option.map_eq_some_iff.mp hmove
      obtain ⟨rfl, rfl⟩ := Prod.mk.inj heq
      rw [exec_cons he, finish_move (outline_folds cs b _ _ hmove)]
      cases perform (act buffer p) e.acts s with
      | error f => rfl
      | ok s' =>
          have hrest := exec_finish (p := p + 1) (s := s') hafter hfinal
          have hany : e.acts.any (fun _ => false) = false := by simp
          show ((if e.acts.any (fun _ => false) then _ else _) >>= _) = _
          rw [hany, if_neg Bool.false_ne_true]
          exact hrest

theorem create_eq (s : Bytes) :
    create s = (scan s >>= fun r => .ok (r.cs, some r.user.uri)) >>= fun x =>
      .ok (if firstFinal ≤ x.1 then x.2 else none) := by
  rw [create]
  cases scan s with
  | error f => rfl
  | ok r =>
      show (if r.cs = 0 then _ else if r.cs ≥ firstFinal then _ else _) =
        Except.ok (if firstFinal ≤ r.cs then some r.user.uri else none)
      by_cases h0 : r.cs = 0
      · rw [if_pos h0, if_neg (by rw [h0]; decide)]
        rfl
      · rw [if_neg h0]
        split <;> rfl

/-- On an accepted text `create` is the run of the outline. -/
theorem create_eq_finish {s : Bytes} (h : Is .uriReference s) :
    create s = finish s s 0 start ⟨none, new⟩ := by
  obtain ⟨cs, hafter, hfinal⟩ := (UriGrammar.accepts_iff s).mpr h
  have hfinal' : firstFinal ≤ cs := of_decide_eq_true hfinal
  have hscan : (scan s >>= fun r => Except.ok (r.cs, some r.user.uri)) =
      finish s s 0 start ⟨none, new⟩ >>= fun u => .ok (cs, u) := by
    rw [scan, bind_assoc]
    exact exec_finish hafter hfinal'
  rw [create_eq, hscan]
  cases finish s s 0 start ⟨none, new⟩ with
  | error f => rfl
  | ok u =>
      show Except.ok (if firstFinal ≤ cs then u else none) = _
      rw [if_pos hfinal']

/-- Where a run ends that has not met a byte without an edge. -/
theorem after_of_exec : ∀ {bs : Bytes} {p cs : Nat} {s : Scan} {r : Halt Scan},
    exec machine (fun _ => false) (act buffer) bs p cs s = .ok r → r.cs ≠ 0 →
    after machine cs bs = some r.cs ∧ r.running = true
  | [], p, cs, s, r, h, _ => by
      obtain rfl := Except.ok.inj h
      exact ⟨rfl, rfl⟩
  | b :: bs, p, cs, s, r, h, hcs => by
      cases he : next machine cs b with
      | none =>
          rw [exec_error he] at h
          obtain rfl := Except.ok.inj h
          exact absurd rfl hcs
      | some e =>
          rw [exec_cons he] at h
          obtain ⟨s', -, h⟩ := bind_eq_ok.mp h
          have hany : e.acts.any (fun _ => false) = false := by simp
          rw [hany, if_neg Bool.false_ne_true] at h
          rw [after, move, he]
          exact after_of_exec h hcs

/-- What `create` accepts is a reference of the grammar. -/
theorem is_of_create {s : Bytes} {u : Uri} (h : create s = .ok (some u)) :
    Is .uriReference s := by
  rw [create_eq] at h
  obtain ⟨x, hx, h⟩ := bind_eq_ok.mp h
  obtain ⟨r, hscan, hr⟩ := bind_eq_ok.mp hx
  obtain rfl := Except.ok.inj hr
  rw [scan] at hscan
  obtain ⟨r', hexec, hr'⟩ := bind_eq_ok.mp hscan
  have hcs : r.cs = r'.cs := by
    split at hr'
    · obtain ⟨s', -, hr'⟩ := bind_eq_ok.mp hr'
      rw [← Except.ok.inj hr']
    · rw [← Except.ok.inj hr']
  have hfinal : firstFinal ≤ r.cs := by
    by_contra hnot
    rw [if_neg hnot] at h
    cases h
  have h0 : r'.cs ≠ 0 := fun h0 => absurd hfinal (by rw [hcs, h0]; decide)
  exact (UriGrammar.accepts_iff s).mp
    ⟨r'.cs, (after_of_exec hexec h0).1, decide_eq_true (hcs ▸ hfinal)⟩

end Uri

end Sylar
