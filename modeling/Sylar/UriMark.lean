import Sylar.UriRun

/-!
# The mark

Whether `Create` can go on depends on the mark alone: `moveMark` is what
an action does to it, and `markScan` the run. A mark is never behind the
byte read. It may be missing, but an edge that needs it where it may be
missing does what is done at the end of the input in the same state, and
so the text up to there is a reference whose own run fails
(`markScan_fault`). That leaves one shape: a scheme and an authority with
`:` and no digits, when the path ends (`create_ok_iff`).
-/

namespace Sylar

open Scanner Grammar

namespace Uri

open UriMachine

/-- `std::string(mark, fpc - mark)`, and `mark` is null. -/
def spend (p : Nat) : Option Nat → Except UriFault (Option Nat)
  | none => .error .nullMark
  | some m => if m ≤ p then .ok none else .error .lengthError

/-- What an action does to the mark. -/
def moveMark (p : Nat) (a : UriAction) (m : Option Nat) : Except UriFault (Option Nat) :=
  match a with
  | .marku => .ok (some p)
  | .markh => .ok (some p)
  | .savePort => if m.isSome then .ok none else .error .nullMark
  | .saveUserinfo => if m.isSome then spend p m else .ok none
  | .saveHost => if m.isSome then (spend p m).map fun _ => m else .ok none
  | .saveScheme => spend p m
  | .savePath => spend p m
  | .saveQuery => spend p m
  | .saveFragment => spend p m

theorem act_mark (buffer : Bytes) (p : Nat) (a : UriAction) (s : Scan) :
    (act buffer p a s).map (·.mark) = moveMark p a s.mark := by
  obtain ⟨mark, uri⟩ := s
  cases mark with
  | none => cases a <;> rfl
  | some m =>
      have hport : (act buffer p .savePort ⟨some m, uri⟩).map (·.mark) = .ok none := by
        rw [act]
        split <;> rfl
      by_cases hm : m ≤ p
      · have hmarked : marked buffer p (some m) = .ok ((buffer.drop m).take (p - m)) := if_pos hm
        have hspend : spend p (some m) = .ok none := if_pos hm
        cases a with
        | savePort => exact hport
        | marku | markh => rfl
        | _ => rw [act, moveMark, hmarked, hspend]; rfl
      · have hmarked : marked buffer p (some m) = .error .lengthError := if_neg hm
        have hspend : spend p (some m) = .error .lengthError := if_neg hm
        cases a with
        | savePort => exact hport
        | marku | markh => rfl
        | _ => rw [act, moveMark, hmarked, hspend]; rfl

/-- `create` as far as the mark goes. -/
def markScan : Bytes → Nat → Nat → Option Nat → Except UriFault (Option Nat)
  | [], p, cs, m => perform (moveMark p) (eofActs cs) m
  | b :: bs, p, cs, m =>
      match move machine cs b with
      | none => .ok m
      | some (as, cs') => perform (moveMark p) as m >>= markScan bs (p + 1) cs'

theorem markScan_move {b : UInt8} {bs : Bytes} {p cs cs' : Nat} {m : Option Nat}
    {as : List UriAction} (h : move machine cs b = some (as, cs')) :
    markScan (b :: bs) p cs m = perform (moveMark p) as m >>= markScan bs (p + 1) cs' := by
  rw [markScan, h]

theorem perform_mark (buffer : Bytes) {p : Nat} {as : List UriAction} {s : Scan} :
    (perform (act buffer p) as s).map (·.mark) = perform (moveMark p) as s.mark :=
  perform_map (act_mark buffer p)

theorem exec_markScan {buffer : Bytes} : ∀ {bs : Bytes} {p cs : Nat} {s : Scan},
    (exec machine (fun _ => false) (act buffer) bs p cs s >>= fun r =>
      if r.running then perform (act buffer r.p) (eofActs r.cs) r.user >>= fun s =>
        .ok { r with user := s }
      else .ok r).map (·.user.mark) = markScan bs p cs s.mark
  | [], p, cs, s => by
      rw [exec, markScan, ← perform_mark buffer]
      show (perform (act buffer p) (eofActs cs) s >>= _).map _ = _
      cases perform (act buffer p) (eofActs cs) s <;> rfl
  | b :: bs, p, cs, s => by
      cases he : next machine cs b with
      | none => rw [exec_error he, markScan, move, he]; rfl
      | some e =>
          have hmove : move machine cs b = some (e.acts, e.target) := by rw [move, he]; rfl
          rw [exec_cons he, markScan_move hmove, ← perform_mark buffer]
          cases perform (act buffer p) e.acts s with
          | error f => rfl
          | ok s' =>
              have hany : e.acts.any (fun _ => false) = false := by simp
              show Except.map _ ((if e.acts.any (fun _ => false) then _ else _) >>= _) = _
              rw [hany, if_neg Bool.false_ne_true]
              exact exec_markScan

/-- `create` fails just when the run of the mark does. -/
theorem create_error_iff {s : Bytes} {f : UriFault} :
    create s = .error f ↔ markScan s 0 start none = .error f := by
  have hscan : (scan s).map (·.user.mark) = markScan s 0 start none := exec_markScan
  rw [create_eq, ← hscan]
  cases scan s with
  | error f' =>
      show Except.error f' = Except.error f ↔ Except.error f' = Except.error f
      rw [Except.error.injEq, Except.error.injEq]
  | ok r => exact iff_of_false (by rintro ⟨⟩) (by rintro ⟨⟩)

/-! ## Where the mark is set -/

/-- The states of the outline in which it is. -/
def markedStates : List Nat :=
  [508, 454, 457] ++ [467, 468, 489, 33, 470, 462, 38] ++
    [467, 468, 489, 33, 470, 462, 38].map absolute

def MarkedIn (cs : Nat) : Bool := decide (outlined cs ∈ markedStates)

/-- The mark is not behind the byte read. -/
def AtMost (p : Nat) (m : Option Nat) : Prop := ∀ k, m = some k → k ≤ p

/-- What holds in a state, at a position. -/
def MarkInv (cs p : Nat) (m : Option Nat) : Prop :=
  (MarkedIn cs = true → m.isSome = true) ∧ AtMost p m

theorem atMost_none {p : Nat} : AtMost p none := by rintro k ⟨⟩

theorem atMost_self {p : Nat} : AtMost p (some p) := by
  rintro k ⟨⟩
  exact Nat.le_refl p

theorem AtMost.succ {p : Nat} {m : Option Nat} (h : AtMost p m) : AtMost (p + 1) m :=
  fun k hk => Nat.le_succ_of_le (h k hk)

theorem spend_of_atMost {p : Nat} {m : Option Nat} (h : AtMost p m) (hsome : m.isSome = true) :
    spend p m = .ok none := by
  obtain ⟨k, rfl⟩ := Option.isSome_iff_exists.mp hsome
  exact if_pos (h k rfl)

/-- Whether the mark is set behind an action; none when it needs the mark
and that may be missing. -/
def settleOne (a : UriAction) (known : Bool) : Option Bool :=
  match a with
  | .marku => some true
  | .markh => some true
  | .saveUserinfo => some false
  | .saveHost => some known
  | _ => if known then some false else none

def settle : List UriAction → Bool → Option Bool
  | [], known => some known
  | a :: as, known => (settleOne a known).bind (settle as)

theorem moveMark_settle {p : Nat} {a : UriAction} {known known' : Bool} {m : Option Nat}
    (h : settleOne a known = some known') (hknown : known = true → m.isSome = true)
    (hm : AtMost p m) :
    ∃ m', moveMark p a m = .ok m' ∧ (known' = true → m'.isSome = true) := by
  have hneeds (h : (if known then some false else none) = some known') :
      m.isSome = true ∧ known' = false := by
    cases known with
    | false => cases h
    | true => exact ⟨hknown rfl, (Option.some.inj h).symm⟩
  have hspend (h : (if known then some false else none) = some known') :
      ∃ m', spend p m = .ok m' ∧ (known' = true → m'.isSome = true) := by
    obtain ⟨hsome, rfl⟩ := hneeds h
    exact ⟨none, spend_of_atMost hm hsome, by rintro ⟨⟩⟩
  cases a with
  | marku | markh => exact ⟨some p, rfl, fun _ => rfl⟩
  | saveUserinfo =>
      obtain rfl := Option.some.inj h
      refine ⟨none, ?_, by rintro ⟨⟩⟩
      rw [moveMark]
      split
      · rename_i hsome
        exact spend_of_atMost hm hsome
      · rfl
  | saveHost =>
      obtain rfl := Option.some.inj h
      refine ⟨m, ?_, hknown⟩
      rw [moveMark]
      split
      · rename_i hsome
        rw [spend_of_atMost hm hsome]
        rfl
      · rename_i hnone
        rw [Option.not_isSome_iff_eq_none.mp hnone]
  | savePort =>
      obtain ⟨hsome, rfl⟩ := hneeds h
      exact ⟨none, if_pos hsome, by rintro ⟨⟩⟩
  | _ => exact hspend h

theorem moveMark_atMost {p : Nat} {a : UriAction} {m m' : Option Nat} (hm : AtMost p m)
    (h : moveMark p a m = .ok m') : AtMost p m' := by
  have hspend {m' : Option Nat} (h : spend p m = .ok m') : AtMost p m' := by
    cases m with
    | none => cases h
    | some k =>
        rw [spend_of_atMost hm rfl] at h
        rw [← Except.ok.inj h]
        exact atMost_none
  unfold moveMark at h
  cases a with
  | marku | markh =>
      rw [← Except.ok.inj h]
      exact atMost_self
  | savePort =>
      simp only at h
      split at h
      · rw [← Except.ok.inj h]
        exact atMost_none
      · cases h
  | saveUserinfo =>
      simp only at h
      split at h
      · exact hspend h
      · rw [← Except.ok.inj h]
        exact atMost_none
  | saveHost =>
      simp only at h
      split at h
      · cases hs : spend p m with
        | error f =>
            rw [hs] at h
            cases h
        | ok m₁ =>
            rw [hs] at h
            rw [← Except.ok.inj h]
            exact hm
      · rw [← Except.ok.inj h]
        exact atMost_none
  | _ => exact hspend h

theorem perform_atMost {p : Nat} : ∀ {as : List UriAction} {m m' : Option Nat}, AtMost p m →
    perform (moveMark p) as m = .ok m' → AtMost p m'
  | [], _, _, hm, h => Except.ok.inj h ▸ hm
  | a :: as, m, m', hm, h => by
      obtain ⟨m₁, hone, h⟩ := bind_eq_ok.mp h
      exact perform_atMost (moveMark_atMost hm hone) h

theorem perform_settle {p : Nat} : ∀ {as : List UriAction} {known known' : Bool} {m : Option Nat},
    settle as known = some known' → (known = true → m.isSome = true) → AtMost p m →
    ∃ m', perform (moveMark p) as m = .ok m' ∧ (known' = true → m'.isSome = true)
  | [], known, known', m, h, hknown, hm => by
      obtain rfl := Option.some.inj h
      exact ⟨m, rfl, hknown⟩
  | a :: as, known, known', m, h, hknown, hm => by
      obtain ⟨known₁, hone, hrest⟩ := Option.bind_eq_some_iff.mp h
      obtain ⟨m₁, hmove, hknown₁⟩ := moveMark_settle hone hknown hm
      obtain ⟨m', hperform, hknown'⟩ :=
        perform_settle hrest hknown₁ (moveMark_atMost hm hmove)
      exact ⟨m', by rw [perform, hmove]; exact hperform, hknown'⟩

/-! ## The edges -/

/-- An edge keeps what is known of the mark, or does what the end of the
input does there and is for `?` or `#`. -/
def checkEdge (cs : Nat) (e : Edge UriAction) : Bool :=
  match settle e.acts (MarkedIn cs) with
  | some known => !MarkedIn e.target || known
  | none => decide (eofActs cs = e.acts ∧ firstFinal ≤ cs ∧ (e.on = one 63 ∨ e.on = one 35)) &&
      !MarkedIn e.target

theorem checkEdge_states : (states.all fun r => r.2.all (checkEdge r.1)) = true := by
  decide +kernel

/-- `?` and `#` lead to the query and the fragment. -/
theorem delimiter_states : (states.all fun r => r.2.all fun e =>
    !(e.takes 63 || e.takes 35) || decide (e.target ∈ [453, 454, 456, 457])) = true := by
  decide +kernel

theorem eofActs_nil {cs : Nat} (h : cs < firstFinal) : eofActs cs = [] := by
  have hlt : cs < 451 := h
  rw [eofActs, if_neg (by omega), if_neg (by omega), if_neg (by omega), if_neg (by omega),
    if_neg (by omega), if_neg (by omega), if_neg (by omega), if_neg (by omega),
    if_neg (by omega), if_neg (by omega), if_neg (by omega), if_neg (by omega),
    if_neg (by omega)]

theorem MarkInv.succ {cs p : Nat} {m : Option Nat}
    (hmarked : MarkedIn cs = true → m.isSome = true) (h : AtMost p m) : MarkInv cs (p + 1) m :=
  ⟨hmarked, h.succ⟩

/-- What an edge leads to; or it fails, and then the end of the input fails
in its state. -/
theorem edge_fault {cs cs' p : Nat} {b : UInt8} {as : List UriAction} {m : Option Nat}
    (hmove : move machine cs b = some (as, cs')) (hinv : MarkInv cs p m) :
    (∀ m', perform (moveMark p) as m = .ok m' → MarkInv cs' (p + 1) m') ∧
    ∀ f, perform (moveMark p) as m = .error f →
      eofActs cs = as ∧ firstFinal ≤ cs ∧ (b = 63 ∨ b = 35) := by
  obtain ⟨es, e, hrow, he, htakes, rfl, rfl⟩ := move_row hmove
  have hedge : checkEdge cs e = true :=
    List.all_eq_true.mp (List.all_eq_true.mp checkEdge_states (cs, es) hrow) e he
  rw [checkEdge] at hedge
  split at hedge
  · rename_i known hsettle
    obtain ⟨m', hok, hknown⟩ := perform_settle hsettle hinv.1 hinv.2
    refine ⟨fun m₁ hm₁ => ?_, fun f hf => ?_⟩
    · obtain rfl := Except.ok.inj (hok.symm.trans hm₁)
      refine MarkInv.succ (fun htarget => hknown ?_) (perform_atMost hinv.2 hok)
      rwa [htarget] at hedge
    · cases hok.symm.trans hf
  · obtain ⟨hdec, htarget⟩ := Bool.and_eq_true_iff.mp hedge
    obtain ⟨heof, hfinal, hon⟩ := of_decide_eq_true hdec
    refine ⟨fun m₁ hm₁ => MarkInv.succ (fun h => ?_) (perform_atMost hinv.2 hm₁),
      fun _ _ => ⟨heof, hfinal, ?_⟩⟩
    · rw [h] at htarget
      cases htarget
    · have hone {n : Nat} (hn : e.on = one n) : b.toNat = n := by
        rw [Edge.takes, hn] at htakes
        simp only [one, List.any_cons, List.any_nil, Bool.or_false, Bool.and_eq_true,
          decide_eq_true_eq] at htakes
        omega
      rcases hon with hon | hon
      · exact .inl (UInt8.toNat_inj.mp (hone hon))
      · exact .inr (UInt8.toNat_inj.mp (hone hon))

/-- Nothing follows, or `?` or `#` and any text. -/
def EndsPath (rest : Bytes) : Prop := rest = [] ∨ ∃ b r, rest = b :: r ∧ (b = 63 ∨ b = 35)

/-- A run that fails has come to the end of an accepted text whose own run
fails. -/
theorem markScan_fault {f : UriFault} : ∀ {bs : Bytes} {p cs : Nat} {m : Option Nat},
    MarkInv cs p m → markScan bs p cs m = .error f →
    ∃ w rest cs', bs = w ++ rest ∧ EndsPath rest ∧ after machine cs w = some cs' ∧
      firstFinal ≤ cs' ∧ markScan w p cs m = .error f
  | [], p, cs, m, _, h => by
      refine ⟨[], [], cs, rfl, .inl rfl, rfl, ?_, h⟩
      by_contra hlt
      rw [markScan, eofActs_nil (Nat.lt_of_not_le hlt)] at h
      cases h
  | b :: bs, p, cs, m, hinv, h => by
      cases hmove : move machine cs b with
      | none =>
          rw [markScan, hmove] at h
          cases h
      | some e =>
          obtain ⟨as, cs'⟩ := e
          obtain ⟨hok, herror⟩ := edge_fault hmove hinv
          rw [markScan_move hmove] at h
          cases hperform : perform (moveMark p) as m with
          | error f' =>
              rw [hperform] at h
              obtain ⟨heof, hfinal, hb⟩ := herror f' hperform
              refine ⟨[], b :: bs, cs, rfl, .inr ⟨b, bs, rfl, hb⟩, rfl, hfinal, ?_⟩
              rw [markScan, heof, hperform]
              exact h
          | ok m' =>
              rw [hperform] at h
              obtain ⟨w, rest, cs₁, rfl, hrest, hafter, hfinal, hw⟩ :=
                markScan_fault (hok m' hperform) h
              refine ⟨b :: w, rest, cs₁, rfl, hrest, ?_, hfinal, ?_⟩
              · rw [after, hmove]
                exact hafter
              · rw [markScan_move hmove, hperform]
                exact hw

/-! ## Where it is read -/

/-- The action evaluates `std::string(mark, fpc - mark)` or `atoi(mark)`. -/
def evaluates (p : Nat) (mark : Option Nat) : UriAction → Bool
  | .marku => false
  | .markh => false
  | .savePort => decide (mark ≠ some p)
  | .saveUserinfo => mark.isSome
  | .saveHost => mark.isSome
  | .saveScheme => true
  | .savePath => true
  | .saveQuery => true
  | .saveFragment => true

/-- Where it is evaluated, and the mark. -/
structure Evaluation where
  p : Nat
  mark : Option Nat
deriving Repr, DecidableEq

/-- The mark is not null and not behind `p`. -/
def Evaluation.Defined (e : Evaluation) : Prop := ∃ m ≤ e.p, e.mark = some m

/-- What the actions evaluate, as far as they get. -/
def evaluated (buffer : Bytes) (p : Nat) : List UriAction → Scan → List Evaluation
  | [], _ => []
  | a :: as, s => (if evaluates p s.mark a then [⟨p, s.mark⟩] else []) ++
      match act buffer p a s with
      | .ok s => evaluated buffer p as s
      | .error _ => []

/-- What is evaluated from position `p` on, at the bytes to come and at the
end. -/
def evaluations (buffer : Bytes) : Bytes → Nat → Nat → Scan → List Evaluation
  | [], p, cs, s => evaluated buffer p (eofActs cs) s
  | b :: bs, p, cs, s =>
      match move machine cs b with
      | none => []
      | some (as, cs') => evaluated buffer p as s ++
          match perform (act buffer p) as s with
          | .ok s => evaluations buffer bs (p + 1) cs' s
          | .error _ => []

variable {buffer : Bytes} {p : Nat} {s : Scan}

theorem act_ok_iff (hm : AtMost p s.mark) (a : UriAction) :
    (∃ s', act buffer p a s = .ok s') ↔
      (evaluates p s.mark a = true → (Evaluation.mk p s.mark).Defined) := by
  obtain ⟨mark, uri⟩ := s
  cases mark with
  | none =>
      have hundefined : ¬(Evaluation.mk p none).Defined := by
        rintro ⟨m, -, hm⟩
        cases hm
      cases a with
      | marku | markh | saveUserinfo | saveHost => exact iff_of_true ⟨_, rfl⟩ (by rintro ⟨⟩)
      | savePort =>
          refine iff_of_false ?_ fun h => hundefined (h rfl)
          rintro ⟨s', h⟩
          cases h
      | saveScheme | savePath | saveQuery | saveFragment =>
          refine iff_of_false ?_ fun h => hundefined (h rfl)
          rintro ⟨s', h⟩
          cases h
  | some m =>
      have hle : m ≤ p := hm m rfl
      have hmarked : marked buffer p (some m) = .ok ((buffer.drop m).take (p - m)) := if_pos hle
      refine iff_of_true ?_ fun _ => ⟨m, hle, rfl⟩
      cases a with
      | marku | markh => exact ⟨_, rfl⟩
      | savePort =>
          rw [act]
          split <;> exact ⟨_, rfl⟩
      | _ => exact ⟨_, by rw [act, hmarked]; rfl⟩

theorem act_atMost {s' : Scan} {a : UriAction} (hm : AtMost p s.mark)
    (h : act buffer p a s = .ok s') : AtMost p s'.mark := by
  refine moveMark_atMost hm (a := a) ?_
  rw [← act_mark buffer, h]
  rfl

theorem evaluated_iff : ∀ {as : List UriAction} {s : Scan}, AtMost p s.mark →
    ((∀ e ∈ evaluated buffer p as s, e.Defined) ↔ ∃ s', perform (act buffer p) as s = .ok s')
  | [], s, _ => iff_of_true (by rintro e ⟨⟩) ⟨s, rfl⟩
  | a :: as, s, hm => by
      have hact : (∃ s', act buffer p a s = .ok s') ↔
          (evaluates p s.mark a = true → (Evaluation.mk p s.mark).Defined) := act_ok_iff hm a
      rw [evaluated, perform, List.forall_mem_append]
      have hhead : (∀ e ∈ (if evaluates p s.mark a then [⟨p, s.mark⟩] else []),
          Evaluation.Defined e) ↔
            (evaluates p s.mark a = true → (Evaluation.mk p s.mark).Defined) := by
        split
        · rename_i h
          simp [h]
        · rename_i h
          simp [h]
      rw [hhead, ← hact]
      cases ha : act buffer p a s with
      | error f => exact iff_of_false (by rintro ⟨⟨s', ⟨⟩⟩, -⟩) (by rintro ⟨s', ⟨⟩⟩)
      | ok s₁ => exact (and_iff_right ⟨s₁, rfl⟩).trans (evaluated_iff (act_atMost hm ha))

/-- All that is evaluated is defined just when the run of the mark goes on
to the end. -/
theorem evaluations_iff : ∀ {bs : Bytes} {p cs : Nat} {s : Scan}, AtMost p s.mark →
    ((∀ e ∈ evaluations buffer bs p cs s, e.Defined) ↔ ∃ m, markScan bs p cs s.mark = .ok m)
  | [], p, cs, s, hm => by
      rw [evaluations, evaluated_iff hm, markScan, ← perform_mark buffer]
      cases perform (act buffer p) (eofActs cs) s with
      | error f => exact iff_of_false (by rintro ⟨s', ⟨⟩⟩) (by rintro ⟨m, ⟨⟩⟩)
      | ok s' => exact iff_of_true ⟨s', rfl⟩ ⟨s'.mark, rfl⟩
  | b :: bs, p, cs, s, hm => by
      rw [evaluations]
      cases hmove : move machine cs b with
      | none =>
          rw [markScan, hmove]
          exact iff_of_true (by rintro e ⟨⟩) ⟨s.mark, rfl⟩
      | some e =>
          obtain ⟨as, cs'⟩ := e
          rw [markScan_move hmove, ← perform_mark buffer]
          show (∀ e ∈ _ ++ _, _) ↔ _
          rw [List.forall_mem_append, evaluated_iff hm]
          cases hperform : perform (act buffer p) as s with
          | error f => exact iff_of_false (by rintro ⟨⟨s', ⟨⟩⟩, -⟩) (by rintro ⟨m, ⟨⟩⟩)
          | ok s' =>
              have hmark : perform (moveMark p) as s.mark = .ok s'.mark := by
                rw [← perform_mark buffer, hperform]
                rfl
              exact (and_iff_right ⟨s', rfl⟩).trans
                (evaluations_iff (perform_atMost hm hmark).succ)

/-! ## The fault -/

theorem delimiter_target {cs cs' : Nat} {b : UInt8} {as : List UriAction}
    (hmove : move machine cs b = some (as, cs')) (hb : b = 63 ∨ b = 35) :
    cs' ∈ [453, 454, 456, 457] := by
  obtain ⟨es, e, hrow, he, htakes, rfl, rfl⟩ := move_row hmove
  have hedge := List.all_eq_true.mp (List.all_eq_true.mp delimiter_states (cs, es) hrow) e he
  have htaken : (e.takes 63 || e.takes 35) = true := by
    rcases hb with rfl | rfl
    · rw [htakes, Bool.true_or]
    · rw [htakes, Bool.or_true]
  rw [htaken] at hedge
  exact of_decide_eq_true hedge

/-- A run that fails up to `?` or `#` has failed before the end. -/
theorem markScan_delimiter {f : UriFault} {b : UInt8} {r : Bytes} (hb : b = 63 ∨ b = 35) :
    ∀ {w : Bytes} {p cs : Nat} {m : Option Nat}, MarkInv cs p m →
      markScan (w ++ [b]) p cs m = .error f → markScan (w ++ b :: r) p cs m = .error f
  | [], p, cs, m, hinv, h => by
      have heof : ∀ cs ∈ [453, 454, 456, 457],
          (settle (eofActs cs) (MarkedIn cs)).isSome = true := by decide
      rw [List.nil_append] at h ⊢
      cases hmove : move machine cs b with
      | none =>
          rw [markScan, hmove] at h
          cases h
      | some e =>
          obtain ⟨as, cs'⟩ := e
          rw [markScan_move hmove] at h ⊢
          cases hperform : perform (moveMark p) as m with
          | error f' =>
              rw [hperform] at h
              exact h
          | ok m' =>
              rw [hperform] at h
              obtain ⟨known, hknown⟩ :=
                Option.isSome_iff_exists.mp (heof cs' (delimiter_target hmove hb))
              obtain ⟨hmarked, hle⟩ := (edge_fault hmove hinv).1 m' hperform
              obtain ⟨m'', hend, -⟩ := perform_settle hknown hmarked hle
              cases hend.symm.trans h
  | c :: w, p, cs, m, hinv, h => by
      rw [List.cons_append] at h ⊢
      cases hmove : move machine cs c with
      | none =>
          rw [markScan, hmove] at h
          cases h
      | some e =>
          obtain ⟨as, cs'⟩ := e
          rw [markScan_move hmove] at h ⊢
          cases hperform : perform (moveMark p) as m with
          | error f' =>
              rw [hperform] at h
              exact h
          | ok m' =>
              rw [hperform] at h
              exact markScan_delimiter hb ((edge_fault hmove hinv).1 m' hperform) h

theorem markInv_start : MarkInv start 0 none := ⟨by decide, atMost_none⟩

/-- The text begins with a scheme and an authority with an empty port, and
there the path ends. -/
def EmptyPort (s : Bytes) : Prop :=
  ∃ (P : UriParts) (rest : Bytes), P.Valid ∧ P.Absolute ∧ P.port = some [] ∧ P.query = none ∧
    P.fragment = none ∧ EndsPath rest ∧ s = P.text ++ rest

theorem emptyPort_of_error {s : Bytes} {f : UriFault} (h : create s = .error f) : EmptyPort s := by
  obtain ⟨w, rest, cs', rfl, hrest, hafter, hfinal, hw⟩ :=
    markScan_fault markInv_start (create_error_iff.mp h)
  obtain ⟨P, hP, rfl⟩ := UriGrammar.derives_iff.mp
    ((UriGrammar.accepts_iff w).mp ⟨cs', hafter, decide_eq_true hfinal⟩)
  have hcreate := (create_text hP).symm.trans (create_error_iff.mpr hw)
  rw [UriParts.outcome] at hcreate
  split at hcreate
  · rename_i hfault
    obtain ⟨scheme, authority, path, query, fragment⟩ := P
    -- the query and the fragment belong to the rest
    refine ⟨⟨scheme, authority, path, none, none⟩,
      delimited 63 query ++ delimited 35 fragment ++ rest,
      ⟨hP.scheme, hP.authority, hP.path, by rintro q ⟨⟩, by rintro f ⟨⟩⟩, hfault.1, hfault.2, rfl,
      rfl, ?_, ?_⟩
    · cases query with
      | some q => exact .inr ⟨63, _, rfl, .inl rfl⟩
      | none =>
          cases fragment with
          | some f => exact .inr ⟨35, _, rfl, .inr rfl⟩
          | none => exact hrest
    · simp [UriParts.text, delimited]
  · cases hcreate

theorem error_of_emptyPort {s : Bytes} (h : EmptyPort s) : ∃ f, create s = .error f := by
  obtain ⟨⟨scheme, authority, path, query, fragment⟩, rest, hP, habs, hport, hquery, hfragment,
    hrest, rfl⟩ := h
  obtain rfl : query = none := hquery
  obtain rfl : fragment = none := hfragment
  refine ⟨.nullMark, create_error_iff.mpr ?_⟩
  have hfault (query fragment : Option Bytes) (hq : ∀ q, query = some q → Is .query q)
      (hf : ∀ f, fragment = some f → Is .fragment f) :
      markScan (UriParts.text ⟨scheme, authority, path, query, fragment⟩) 0 start none =
        .error .nullMark := by
    have hvalid : UriParts.Valid ⟨scheme, authority, path, query, fragment⟩ :=
      ⟨hP.scheme, hP.authority, hP.path, hq, hf⟩
    refine create_error_iff.mp ?_
    rw [create_text hvalid, UriParts.outcome]
    exact if_pos ⟨habs, hport⟩
  have hempty : Is .query [] ∧ Is .fragment [] :=
    ⟨is_of_derivedBy (by decide), is_of_derivedBy (by decide)⟩
  rcases hrest with rfl | ⟨b, r, rfl, hb⟩
  · rw [List.append_nil]
    exact hfault none none (by rintro q ⟨⟩) (by rintro f ⟨⟩)
  · refine markScan_delimiter hb markInv_start ?_
    rcases hb with rfl | rfl
    · have hsome := hfault (some []) none (by rintro q ⟨⟩; exact hempty.1) (by rintro f ⟨⟩)
      rw [← hsome]
      simp [UriParts.text, delimited]
    · have hsome := hfault none (some []) (by rintro q ⟨⟩) (by rintro f ⟨⟩; exact hempty.2)
      rw [← hsome]
      simp [UriParts.text, delimited]

theorem returns_iff (s : Bytes) : (∃ r, create s = .ok r) ↔ ¬EmptyPort s := by
  constructor
  · rintro ⟨r, hr⟩ h
    obtain ⟨f, hf⟩ := error_of_emptyPort h
    cases hr.symm.trans hf
  · intro h
    cases hr : create s with
    | ok r => exact ⟨r, rfl⟩
    | error f => exact absurd (emptyPort_of_error hr) h

/-- `Create` returns, and the mark is set and not behind `p` wherever it is
evaluated, unless a port without digits has taken the mark away that the
path needs. -/
theorem create_ok_iff (s : Bytes) : ((∃ r, create s = .ok r) ↔ ¬EmptyPort s) ∧
    ((∀ e ∈ evaluations s s 0 start ⟨none, new⟩, e.Defined) ↔ ¬EmptyPort s) := by
  refine ⟨returns_iff s, ?_⟩
  rw [evaluations_iff atMost_none, ← returns_iff s]
  constructor
  · rintro ⟨m, hm⟩
    cases hr : create s with
    | ok r => exact ⟨r, rfl⟩
    | error f => cases hm.symm.trans (create_error_iff.mp hr)
  · rintro ⟨r, hr⟩
    cases hm : markScan s 0 start none with
    | ok m => exact ⟨m, rfl⟩
    | error f => cases hr.symm.trans (create_error_iff.mpr hm)

/-- `http://h:` -/
theorem not_create_ok : ¬∃ r, create (bytes "http://h:") = .ok r := by
  have hfault : create (bytes "http://h:") = .error .nullMark :=
    create_error_iff.mpr (by decide)
  rintro ⟨r, hr⟩
  cases hr.symm.trans hfault

end Uri

end Sylar
