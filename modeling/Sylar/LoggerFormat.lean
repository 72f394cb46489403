import Mathlib.Tactic.Common
import Sylar.Lib.System

/-!
# The formats of a logger's appenders

`Logger::addAppender`, `delAppender`, `clearAppender` and `setFormatter`
and `LogAppender::setFormatter` in `log.cc`. An appender is the number
of its `new`, a formatter a value of `F`.

`addAppender` hands its format on through `LogAppender::setFormatter`,
which takes it for the appender's own: from then on the appender no
longer follows the logger. Nor does one that comes back with the format
the logger had when it was deleted (`follows_iff`).
-/

namespace Sylar

structure LogAppender (F : Type) where
  formatter : Option F
  hasFormatter : Bool
deriving Repr, DecidableEq

/-- A logger and all the appenders there are. -/
structure Logger (F : Type) where
  formatter : Option F
  appenders : List Nat
  heap : Nat → LogAppender F

namespace LogAppender

variable {F : Type}

/-- What the constructors leave. -/
def new : LogAppender F := ⟨none, false⟩

def setFormatter (_ : LogAppender F) (val : Option F) : LogAppender F := ⟨val, val.isSome⟩

end LogAppender

namespace Logger

variable {F : Type}

/-- `dflt` is the formatter for the pattern in the constructor. -/
def new (dflt : F) : Logger F := ⟨some dflt, [], fun _ => .new⟩

def put (w : Logger F) (a : Nat) (x : LogAppender F) : Logger F :=
  { w with heap := fun b => if b = a then x else w.heap b }

def addAppender (w : Logger F) (a : Nat) : Logger F :=
  let w := if (w.heap a).formatter.isNone then w.put a ((w.heap a).setFormatter w.formatter) else w
  { w with appenders := w.appenders ++ [a] }

def delAppender (w : Logger F) (a : Nat) : Logger F := { w with appenders := w.appenders.erase a }

def clearAppender (w : Logger F) : Logger F := { w with appenders := [] }

/-- The body of the loop over `m_appenders`. -/
def inherit (w : Logger F) (a : Nat) : Logger F :=
  if !(w.heap a).hasFormatter then w.put a { w.heap a with formatter := w.formatter } else w

def setFormatter (w : Logger F) (val : Option F) : Logger F :=
  w.appenders.foldl inherit { w with formatter := val }

/-- `setFormatter` with a pattern, of which `val` has been made. -/
def setPattern (isError : F → Bool) (w : Logger F) (val : F) : Logger F :=
  if isError val then w else w.setFormatter (some val)

inductive LogOp (F : Type) where
  | addAppender (a : Nat)
  | delAppender (a : Nat)
  | clearAppender
  | setFormatter (val : Option F)
  | setPattern (val : F)
  /-- the user calls `LogAppender::setFormatter` -/
  | userFormatter (a : Nat) (val : Option F)
deriving Repr, DecidableEq

def run (isError : F → Bool) (w : Logger F) : LogOp F → Logger F
  | .addAppender a => w.addAppender a
  | .delAppender a => w.delAppender a
  | .clearAppender => w.clearAppender
  | .setFormatter val => w.setFormatter val
  | .setPattern val => w.setPattern isError val
  | .userFormatter a val => w.put a ((w.heap a).setFormatter val)

/-! ## What the operations do -/

variable {w : Logger F} {a b : Nat} {val : Option F}

@[simp] theorem put_formatter (x : LogAppender F) : (w.put a x).formatter = w.formatter := rfl

@[simp] theorem put_appenders (x : LogAppender F) : (w.put a x).appenders = w.appenders := rfl

@[simp] theorem heap_put_self (x : LogAppender F) : (w.put a x).heap a = x := if_pos rfl

theorem heap_put_ne (x : LogAppender F) (h : b ≠ a) : (w.put a x).heap b = w.heap b := if_neg h

/-- The loop gives the format to the appenders without a flag. -/
theorem foldl_inherit : ∀ (l : List Nat) (w : Logger F),
    (l.foldl inherit w).formatter = w.formatter ∧ (l.foldl inherit w).appenders = w.appenders ∧
    ∀ b, (l.foldl inherit w).heap b =
      if b ∈ l ∧ (w.heap b).hasFormatter = false then ⟨w.formatter, false⟩ else w.heap b
  | [], w => ⟨rfl, rfl, fun b => by simp⟩
  | a :: l, w => by
      have hone : (w.inherit a).formatter = w.formatter ∧ (w.inherit a).appenders = w.appenders ∧
          ∀ b, (w.inherit a).heap b =
            if b = a ∧ (w.heap b).hasFormatter = false then ⟨w.formatter, false⟩ else w.heap b := by
        rw [inherit]
        cases hflag : (w.heap a).hasFormatter with
        | true =>
            refine ⟨rfl, rfl, fun b => (if_neg ?_).symm⟩
            rintro ⟨rfl, hb⟩
            rw [hflag] at hb
            cases hb
        | false =>
            refine ⟨rfl, rfl, fun b => ?_⟩
            by_cases hb : b = a
            · subst hb
              simp [hflag]
            · simp [hb, heap_put_ne]
      obtain ⟨hformatter, happenders, hheap⟩ := foldl_inherit l (w.inherit a)
      rw [List.foldl_cons]
      refine ⟨hformatter.trans hone.1, happenders.trans hone.2.1, fun b => ?_⟩
      rw [hheap b, hone.2.2 b, hone.1]
      by_cases hb : b = a
      · subst hb
        cases hflag : (w.heap b).hasFormatter <;> simp [hflag]
      · simp [hb]

theorem setFormatter_spec (w : Logger F) (val : Option F) :
    (w.setFormatter val).formatter = val ∧ (w.setFormatter val).appenders = w.appenders ∧
    ∀ b, (w.setFormatter val).heap b =
      if b ∈ w.appenders ∧ (w.heap b).hasFormatter = false then ⟨val, false⟩ else w.heap b :=
  foldl_inherit w.appenders { w with formatter := val }

/-- The logger and what the user has done: which appenders have ever been
given a formatter, and the one each has been given last. -/
structure History (F : Type) where
  logger : Logger F
  userSet : Nat → Bool
  own : Nat → Option F

namespace History

def step (isError : F → Bool) (h : History F) (op : LogOp F) : History F where
  logger := h.logger.run isError op
  userSet := match op with
    | .userFormatter a (some _) => fun b => b = a || h.userSet b
    | _ => h.userSet
  own := match op with
    | .userFormatter a val => fun b => if b = a then val else h.own b
    | _ => h.own

def system (isError : F → Bool) : System (History F) (LogOp F) where
  init h := ∃ dflt, h = ⟨.new dflt, fun _ => false, fun _ => none⟩
  step h op := some (h.step isError op)

/-- Appenders without a formatter of their own have the logger's, the
others have theirs. -/
structure Follows (h : History F) : Prop where
  inherited : ∀ a ∈ h.logger.appenders, h.userSet a = false →
    (h.logger.heap a).formatter = h.logger.formatter
  kept : ∀ a f, h.own a = some f → (h.logger.heap a).formatter = some f

/-- The format may change: it does not, or no appender takes what it has
inherited for its own. -/
def MayChange (h : History F) (val : Option F) : Prop :=
  val = h.logger.formatter ∨
    ∀ a ∈ h.logger.appenders, h.userSet a = false → (h.logger.heap a).hasFormatter = false

/-- Whether an operation leaves the appenders with the format they should
have. -/
def Keeps (isError : F → Bool) (h : History F) : LogOp F → Prop
  | .addAppender a => h.userSet a = true ∨ (h.logger.heap a).formatter = none ∨
      (h.logger.heap a).formatter = h.logger.formatter
  | .setFormatter val => h.MayChange val
  | .setPattern val => isError val = true ∨ h.MayChange (some val)
  | .userFormatter a none =>
      a ∈ h.logger.appenders → h.userSet a = true ∨ h.logger.formatter = none
  | _ => True

/-! ## What the appenders keep -/

variable {h h' : History F} {isError : F → Bool} {op : LogOp F}

/-- What the user has given an appender last is its formatter, with the
flag. -/
def Owned (h : History F) : Prop := ∀ a f, h.own a = some f → h.logger.heap a = ⟨some f, true⟩

theorem Owned.setFormatter (howned : h.Owned) (val : Option F) :
    { h with logger := h.logger.setFormatter val }.Owned := by
  intro a f hown
  rw [(setFormatter_spec h.logger val).2.2 a, howned a f hown]
  simp

theorem Owned.step (howned : h.Owned) (op : LogOp F) : (h.step isError op).Owned := by
  cases op with
  | addAppender a =>
      intro b f hown
      have hb := howned b f hown
      simp only [History.step, run, Logger.addAppender]
      split
      · rename_i hnone
        have hne : b ≠ a := by
          rintro rfl
          rw [hb] at hnone
          cases hnone
        exact (heap_put_ne _ hne).trans hb
      · exact hb
  | delAppender a | clearAppender => exact howned
  | setFormatter val => exact howned.setFormatter val
  | setPattern val =>
      simp only [History.step, run, Logger.setPattern]
      split
      · exact howned
      · exact howned.setFormatter (some val)
  | userFormatter a val =>
      intro b f hown
      simp only [History.step] at hown
      by_cases hb : b = a
      · subst hb
        rw [if_pos rfl] at hown
        rw [hown]
        exact heap_put_self _
      · rw [if_neg hb] at hown
        exact (heap_put_ne _ hb).trans (howned b f hown)

theorem Owned.follows_of (howned : h.Owned) : h.Follows ↔ ∀ a ∈ h.logger.appenders,
    h.userSet a = false → (h.logger.heap a).formatter = h.logger.formatter := by
  refine ⟨fun hfollows => hfollows.inherited, fun hinherited => ⟨hinherited, fun a f hown => ?_⟩⟩
  rw [howned a f hown]

theorem mayChange_iff (hfollows : h.Follows) (val : Option F) :
    (∀ a ∈ h.logger.appenders, h.userSet a = false →
      ((h.logger.setFormatter val).heap a).formatter = val) ↔ h.MayChange val := by
  have hheap := (setFormatter_spec h.logger val).2.2
  constructor
  · intro hall
    by_cases hsame : val = h.logger.formatter
    · exact .inl hsame
    · refine .inr fun a ha hset => ?_
      by_contra hflag
      have hnew := hall a ha hset
      rw [hheap a, if_neg fun hand => hflag hand.2, hfollows.inherited a ha hset] at hnew
      exact hsame hnew.symm
  · rintro (rfl | hflags) a ha hset
    · rw [hheap a]
      split
      · rfl
      · exact hfollows.inherited a ha hset
    · rw [hheap a, if_pos ⟨ha, hflags a ha hset⟩]

/-- An operation leaves the appenders with their formats exactly under
`Keeps`. -/
theorem follows_step_iff (howned : h.Owned) (hfollows : h.Follows) (op : LogOp F) :
    (h.step isError op).Follows ↔ h.Keeps isError op := by
  rw [(howned.step op).follows_of]
  have hold := hfollows.inherited
  cases op with
  | addAppender a =>
      simp only [Keeps, History.step, run, Logger.addAppender]
      split
      · rename_i hnone
        refine ⟨fun _ => .inr (.inl (Option.isNone_iff_eq_none.mp hnone)), fun _ b hb hset => ?_⟩
        by_cases hba : b = a
        · subst hba
          exact congrArg LogAppender.formatter (heap_put_self _)
        · obtain hb | hb := List.mem_append.mp hb
          · exact (congrArg LogAppender.formatter (heap_put_ne _ hba)).trans (hold b hb hset)
          · exact absurd (List.mem_singleton.mp hb) hba
      · rename_i hsome
        rw [Option.isNone_iff_eq_none] at hsome
        constructor
        · intro hall
          cases hset : h.userSet a with
          | true => exact .inl rfl
          | false => exact .inr (.inr (hall a (by simp) hset))
        · intro hkeeps b hb hset
          obtain hb | hb := List.mem_append.mp hb
          · exact hold b hb hset
          · obtain rfl := List.mem_singleton.mp hb
            exact (hkeeps.resolve_left (by simp [hset])).resolve_left hsome
  | delAppender a => exact ⟨fun _ => trivial, fun _ b hb => hold b (List.mem_of_mem_erase hb)⟩
  | clearAppender => exact ⟨fun _ => trivial, fun _ b hb => nomatch hb⟩
  | setFormatter val =>
      rw [Keeps, ← mayChange_iff hfollows val]
      simp only [History.step, run, (setFormatter_spec h.logger val).1,
        (setFormatter_spec h.logger val).2.1]
  | setPattern val =>
      simp only [Keeps, History.step, run, Logger.setPattern]
      split
      · rename_i herror
        exact ⟨fun _ => .inl herror, fun _ => hold⟩
      · rename_i herror
        rw [← mayChange_iff hfollows, or_iff_right herror,
          (setFormatter_spec h.logger (some val)).1, (setFormatter_spec h.logger (some val)).2.1]
  | userFormatter a val =>
      cases val with
      | some f =>
          refine ⟨fun _ => trivial, fun _ b hb hset => ?_⟩
          simp only [History.step, Bool.or_eq_false_iff, decide_eq_false_iff_not] at hset
          exact (congrArg LogAppender.formatter (heap_put_ne _ hset.1)).trans (hold b hb hset.2)
      | none =>
          have hself : ((h.logger.put a ((h.logger.heap a).setFormatter none)).heap a).formatter =
              none := congrArg LogAppender.formatter (heap_put_self _)
          constructor
          · intro hall ha
            cases hset : h.userSet a with
            | true => exact .inl rfl
            | false => exact .inr ((hall a ha hset).symm.trans hself)
          · intro hkeeps b hb hset
            by_cases hba : b = a
            · subst hba
              have hnot : ¬h.userSet b = true := fun hset' => nomatch hset'.symm.trans hset
              exact hself.trans ((hkeeps hb).resolve_left hnot).symm
            · exact (congrArg LogAppender.formatter (heap_put_ne _ hba)).trans (hold b hb hset)

theorem init_owned (hinit : (system isError).init h) : h.Owned ∧ h.Follows := by
  obtain ⟨dflt, rfl⟩ := hinit
  refine ⟨?_, ⟨?_, ?_⟩⟩
  · intro _ _ hown
    cases hown
  · intro _ ha
    cases ha
  · intro _ _ hown
    cases hown

/-- **The appenders have the formats they should have all along a run**
exactly if every operation meets `Keeps`. -/
theorem follows_iff {ops : List (LogOp F)} (hinit : (system isError).init h) :
    (system isError).Along Follows h ops ↔ (system isError).Permits (Keeps isError) h ops := by
  obtain ⟨howned, hfollows⟩ := init_owned hinit
  refine System.along_iff (I := Owned) ?_ (fun h op => ⟨_, rfl⟩) ?_ howned hfollows
  · intro h op h' howned hstep
    obtain rfl := Option.some.inj hstep
    exact howned.step op
  · intro h op h' howned hfollows hstep
    obtain rfl := Option.some.inj hstep
    exact follows_step_iff howned hfollows op

/-- A user's formatter survives a change of the logger's; an appender
that has been without a formatter for long gets the new one. -/
theorem follows_iff_own : (system fun _ : Nat => false).Along Follows
    ⟨.new 0, fun _ => false, fun _ => none⟩
    [.userFormatter 1 (some 7), .addAppender 1, .setFormatter (some 3), .addAppender 2] := by
  refine (follows_iff ⟨0, rfl⟩).mpr ?_
  refine ⟨trivial, fun h₁ hstep => ?_⟩
  obtain rfl := Option.some.inj hstep
  refine ⟨.inl rfl, fun h₂ hstep => ?_⟩
  obtain rfl := Option.some.inj hstep
  refine ⟨.inr (by decide), fun h₃ hstep => ?_⟩
  obtain rfl := Option.some.inj hstep
  exact ⟨.inr (.inl rfl), fun _ _ => trivial⟩

/-- An appender that has its format from the logger does not follow it. -/
theorem inherited_not_followed : ¬∀ (h : History Nat) (ops : List (LogOp Nat)),
    (system fun _ => false).init h → (system fun _ => false).Along Follows h ops := by
  intro hall
  have hrun := hall _ [.addAppender 1, .setFormatter (some 3)] ⟨0, rfl⟩
  have hlast := ((hrun.2 _ rfl).2 _ rfl).inherited 1 (by decide) rfl
  exact absurd hlast (by decide)

end History

end Logger

end Sylar
