import Sylar.LoggerFormat
import Sylar.LogPattern

/-!
# Refusing a pattern

`Logger::setFormatter` with a pattern looks at `isError` of the formatter
made of it. Nothing sets the flag: both places of `init` that could are
commented out. So no pattern is refused (`not_refused`).

A formatter is the number of its `new` here, as two formatters for one
pattern are different ones.
-/

namespace Sylar

open LogFormatter

/-- The formatters made so far, and a logger, which has one of them. -/
structure LoggerState where
  made : List LogFormatter
  logger : Logger Nat
  formatter_lt : ∀ f ∈ logger.formatter, f < made.length

namespace LoggerState

def isErrorAt (made : List LogFormatter) (f : Nat) : Bool := made[f]?.any isError

/-- `Logger::setFormatter(const std::string&)`. -/
def setFormatter (s : LoggerState) (val : Bytes) : LoggerState where
  made := s.made ++ [.new val]
  logger := s.logger.setPattern (isErrorAt (s.made ++ [.new val])) s.made.length
  formatter_lt := by
    intro f hf
    rw [List.length_append, List.length_singleton]
    rw [Logger.setPattern] at hf
    split at hf
    · exact Nat.lt_add_right 1 (s.formatter_lt f hf)
    · rw [(Logger.setFormatter_spec ..).1] at hf
      obtain rfl := Option.some.inj hf
      exact Nat.lt_add_one _

/-- The formatters of the logger and of all its appenders are the same. -/
def Unchanged (s s' : LoggerState) : Prop :=
  s'.logger.formatter = s.logger.formatter ∧
    ∀ a ∈ s.logger.appenders, (s'.logger.heap a).formatter = (s.logger.heap a).formatter

/-- The pattern is refused. -/
def Refuses (s : LoggerState) (p : Bytes) : Prop :=
  (LogFormatter.new p).isError = true ∧ s.Unchanged (s.setFormatter p)

/-- An item behind a `%` that is not one of a pair has a brace that is not
closed, or a name that is not in the table. -/
def BadPattern (p : Bytes) : Prop :=
  ∃ before behind, p = before ++ 37 :: behind ∧
    Even (before.reverse.takeWhile (· = 37)).length ∧ behind.head? ≠ some 37 ∧
    ∀ name fmt, itemAt behind = some (name, fmt) → formatItems.lookup name = none

/-- **No pattern is refused.** No formatter has its flag set, and the logger
takes the new one, with every appender that has none of its own. -/
theorem not_refused (s : LoggerState) (p : Bytes) : ¬s.Refuses p ∧
    (LogFormatter.new p).isError = false ∧ ¬s.Unchanged (s.setFormatter p) ∧
    (s.setFormatter p).logger.formatter = some s.made.length ∧
    ∀ a ∈ s.logger.appenders, (s.logger.heap a).hasFormatter = false →
      ((s.setFormatter p).logger.heap a).formatter = some s.made.length := by
  have herror : (LogFormatter.new p).isError = false := rfl
  have hset : (s.setFormatter p).logger = s.logger.setFormatter (some s.made.length) := by
    have hmade : isErrorAt (s.made ++ [.new p]) s.made.length = false := by
      simp [isErrorAt, herror]
    exact if_neg (by simp [hmade])
  obtain ⟨hformatter, -, hheap⟩ := Logger.setFormatter_spec s.logger (some s.made.length)
  rw [← hset] at hformatter hheap
  refine ⟨?_, herror, ?_, hformatter, ?_⟩
  · rintro ⟨h, -⟩
    rw [herror] at h
    cases h
  · rintro ⟨hsame, -⟩
    rw [hformatter] at hsame
    exact lt_irrefl _ (s.formatter_lt _ hsame.symm)
  · intro a ha hflag
    rw [hheap a, if_pos ⟨ha, hflag⟩]

/-- A date with a brace that is not closed is not refused. -/
theorem unclosed_not_refused :
    ¬∀ (s : LoggerState) (p : Bytes), BadPattern p → s.Refuses p := by
  intro hall
  have hbad : BadPattern (bytes "%d\x7b") := by
    refine ⟨[], bytes "d\x7b", rfl, by decide, by decide, ?_⟩
    intro name fmt h
    cases h
  have hrefuses := hall ⟨[.new []], .new 0, by decide⟩ _ hbad
  exact absurd hrefuses.1 (by decide)

end LoggerState

end Sylar
