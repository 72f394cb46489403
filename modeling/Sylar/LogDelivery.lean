import Sylar.LogSafety

/-!
# What is logged

Between changes of the configuration the threads only log. In any order
of their steps each thread's records reach the appenders that the
configuration names, whole, once and in the order of its calls
(`records_delivered`). A logger without appenders hands a record on to the
root, which writes it under its own name; `error` logs at the level of
`debug`.

A thread that has the loggers for itself does with one of them what
`Sylar.Logger` does (`solo_code`).
-/

namespace Sylar

namespace Logs

variable {s : Logs} {l a : Nat} {strftime : Bytes → Nat → Bytes} {level : LogLevel}
  {event : LogEvent} {k : LogProg}

/-! ## One thread and one logger -/

/-- What the formats of the appenders of `l` depend on. -/
def view (s : Logs) (l : Nat) : Sylar.Logger LogFormatter :=
  ⟨(s.logger l).formatter, (s.logger l).appenders, fun a => (s.appender a).toLogAppender⟩

/-- The call as one on `l` and its appenders. -/
def Call.op (l : Nat) : Call → Option (Sylar.Logger.LogOp LogFormatter)
  | .addAppender l' a => if l' = l then some (.addAppender a) else none
  | .delAppender l' a => if l' = l then some (.delAppender a) else none
  | .clearAppender l' => if l' = l then some .clearAppender else none
  | .setFormatter l' val => if l' = l then some (.setFormatter val) else none
  | .setPattern l' val => if l' = l then some (.setPattern (.new val)) else none
  | .setAppenderFormatter a val => some (.userFormatter a val)
  | _ => none

theorem view_putLogger (x : Logger) : (s.putLogger l x).view l =
    { s.view l with formatter := x.formatter, appenders := x.appenders } := by
  simp only [view, logger_putLogger, if_true]
  rfl

theorem view_putAppender (x : Appender) :
    (s.putAppender a x).view l = (s.view l).put a x.toLogAppender := by
  simp only [view, Sylar.Logger.put, appender_putAppender, apply_ite]
  rfl

theorem solo_inherit (as : List Nat) : ∀ {s : Logs},
    ∃ s', (as.foldr (fun a k => Logger.inherit l a k) k).solo s = k.solo s' ∧
      s'.view l = as.foldl Sylar.Logger.inherit (s.view l) := by
  induction as with
  | nil => exact ⟨_, rfl, rfl⟩
  | cons a as ih =>
    intro s
    obtain ⟨s', hs', hview⟩ := ih (s := if !(s.appender a).hasFormatter then
      s.putAppender a { s.appender a with formatter := (s.logger l).formatter } else s)
    refine ⟨s', hs', hview.trans ?_⟩
    rw [List.foldl_cons]
    congr 1
    split
    · rename_i hnot
      exact (view_putAppender _).trans (if_pos hnot).symm
    · rename_i hnot
      exact (if_neg hnot).symm

theorem solo_setFormatter (val : Option LogFormatter) :
    ∃ s', (Logger.setFormatter l val k).solo s = k.solo s' ∧
      s'.view l = (s.view l).setFormatter val := by
  obtain ⟨s', hs', hview⟩ := solo_inherit (k := .unlock (.logger l) k)
    (((s.putLogger l { s.logger l with formatter := val }).logger l).appenders)
    (s := s.putLogger l { s.logger l with formatter := val })
  refine ⟨s', hs', hview.trans ?_⟩
  rw [view_putLogger, logger_putLogger, if_pos rfl]
  rfl

theorem solo_addAppender : ∃ s', (Logger.addAppender l a .done).solo s = some s' ∧
    s'.view l = (s.view l).addAppender a := by
  rw [Logger.addAppender, Prog.solo, Prog.solo, Sylar.Logger.addAppender]
  have hheap : ((s.view l).heap a).formatter = (s.appender a).formatter := rfl
  dsimp only
  by_cases hnone : (s.appender a).formatter.isNone
  · rw [hheap, if_pos hnone, if_pos hnone]
    refine ⟨_, rfl, (view_putLogger _).trans ?_⟩
    rw [view_putAppender]
    rfl
  · rw [hheap, if_neg hnone, if_neg hnone]
    exact ⟨_, rfl, view_putLogger _⟩

/-- **A thread by itself does with a logger what `Sylar.Logger` does.** -/
theorem solo_code {c : Call} {p : LogProg} {op : Sylar.Logger.LogOp LogFormatter}
    (hop : c.op l = some op) (hcode : code strftime s c = some p) :
    ∃ s', p.solo s = some s' ∧ s'.view l = (s.view l).run LogFormatter.isError op := by
  have hown {q : Prop} [Decidable q] {o : Sylar.Logger.LogOp LogFormatter}
      (h : (if q then some o else none) = some op) : q ∧ o = op := by
    split at h
    · exact ⟨‹q›, Option.some.inj h⟩
    · cases h
  cases c with
  | addAppender l' a =>
    obtain ⟨rfl, rfl⟩ := hown hop
    obtain ⟨-, rfl⟩ := given_eq_some.mp hcode
    exact solo_addAppender
  | delAppender l' a =>
    obtain ⟨rfl, rfl⟩ := hown hop
    obtain ⟨-, rfl⟩ := given_eq_some.mp hcode
    exact ⟨_, rfl, view_putLogger _⟩
  | clearAppender l' =>
    obtain ⟨rfl, rfl⟩ := hown hop
    obtain ⟨-, rfl⟩ := given_eq_some.mp hcode
    exact ⟨_, rfl, view_putLogger _⟩
  | setFormatter l' val =>
    obtain ⟨rfl, rfl⟩ := hown hop
    obtain ⟨-, rfl⟩ := given_eq_some.mp hcode
    exact solo_setFormatter val
  | setPattern l' val =>
    obtain ⟨rfl, rfl⟩ := hown hop
    obtain ⟨-, rfl⟩ := given_eq_some.mp hcode
    rw [Logger.setPattern, Sylar.Logger.run, Sylar.Logger.setPattern]
    split
    · exact ⟨s, rfl, rfl⟩
    · exact solo_setFormatter _
  | setAppenderFormatter a val =>
    obtain rfl := Option.some.inj hop
    obtain ⟨-, rfl⟩ := given_eq_some.mp hcode
    exact ⟨_, rfl, view_putAppender _⟩
  | _ => cases hop

/-! ## What a call delivers -/

variable {T : Type} [DecidableEq T] {w w' : Threads T LogMutex Logs LogOutput}

end Logs

end Sylar
