import Sylar.LogSystem

/-!
# The locks of the loggers

Two rules keep the threads out of each other's way. A logger is locked
before the root, and a logger before an appender (`rank`). Only who has a
lock changes what it protects, and nobody takes a format away that an
appender has (`discipline`). Every method keeps to them (`safe_code`).

So logging never gets stuck (`never_stuck`), and there is one logger for a
name, whoever asks for it first (`loggers_by_name`).
-/

namespace Sylar

namespace Logs

/-! ## The rules -/

/-- What holds while nobody sets a format to null. -/
structure Good (s : Logs) : Prop where
  formatter : ∀ l < s.loggers, (s.logger l).formatter ≠ none
  attached : ∀ l < s.loggers, ∀ a ∈ (s.logger l).appenders,
    a < s.appenders ∧ (s.appender a).formatter ≠ none
  chain : ∀ l < s.loggers, ∀ r, (s.logger l).root = some r → r = 0 ∧ l ≠ 0
  rooted : s.managed.lookup (bytes "root") = some 0
  managed : ∀ name l, s.managed.lookup name = some l → l < s.loggers ∧
    (s.logger l).name = name ∧ (l ≠ 0 → (s.logger l).root = some 0)

/-- What nobody undoes. -/
structure Rely (s s' : Logs) : Prop where
  good : s.Good → s'.Good
  loggers : s.loggers ≤ s'.loggers
  appenders : s.appenders ≤ s'.appenders
  logger : ∀ l < s.loggers,
    (s'.logger l).name = (s.logger l).name ∧ (s'.logger l).root = (s.logger l).root
  appender : ∀ a < s.appenders, (s.appender a).formatter ≠ none → (s'.appender a).formatter ≠ none
  managed : ∀ name l, s.managed.lookup name = some l → s'.managed.lookup name = some l

/-- What is behind the lock is as it was. -/
def Same : LogMutex → Logs → Logs → Prop
  | .manager, s, s' => s'.managed = s.managed
  | .logger l, s, s' => l < s.loggers → (s'.logger l).appenders = (s.logger l).appenders ∧
      (s'.logger l).formatter = (s.logger l).formatter
  | .appender a, s, s' => a < s.appenders →
      (s'.appender a).toLogAppender = (s.appender a).toLogAppender ∧
      (s'.appender a).target = (s.appender a).target

/-- A logger is locked before the root, and either before an appender. -/
def rank : LogMutex → Nat
  | .manager => 0
  | .logger l => if l = 0 then 2 else 1
  | .appender _ => 3

theorem rank_logger_lt (l : Nat) : rank (.logger l) < 3 := by
  simp only [rank]
  split <;> omega

/-- `getLogger` has returned the logger of the name. -/
def Told (s : Logs) : LogOutput → Prop
  | .gotLogger name l => s.managed.lookup name = some l
  | _ => True

theorem Rely.refl (s : Logs) : Rely s s :=
  ⟨id, le_rfl, le_rfl, fun _ _ => ⟨rfl, rfl⟩, fun _ _ => id, fun _ _ => id⟩

theorem Rely.trans {s t u : Logs} (h : Rely s t) (h' : Rely t u) : Rely s u where
  good := h'.good ∘ h.good
  loggers := h.loggers.trans h'.loggers
  appenders := h.appenders.trans h'.appenders
  logger l hl := by
    obtain ⟨hname, hroot⟩ := h'.logger l (hl.trans_le h.loggers)
    exact ⟨hname.trans (h.logger l hl).1, hroot.trans (h.logger l hl).2⟩
  appender a ha := h'.appender a (ha.trans_le h.appenders) ∘ h.appender a ha
  managed name l := h'.managed name l ∘ h.managed name l

theorem Same.trans {m : LogMutex} {s t u : Logs} (h : Rely s t) (hs : Same m s t)
    (ht : Same m t u) : Same m s u := by
  cases m with
  | manager => exact Eq.trans ht hs
  | logger l =>
    intro hl
    obtain ⟨happ, hfmt⟩ := ht (hl.trans_le h.loggers)
    exact ⟨happ.trans (hs hl).1, hfmt.trans (hs hl).2⟩
  | appender a =>
    intro ha
    obtain ⟨happ, htarget⟩ := ht (ha.trans_le h.appenders)
    exact ⟨happ.trans (hs ha).1, htarget.trans (hs ha).2⟩

theorem Same.refl (m : LogMutex) (s : Logs) : Same m s s := by
  cases m with
  | manager => exact rfl
  | logger l => exact fun _ => ⟨rfl, rfl⟩
  | appender a => exact fun _ => ⟨rfl, rfl⟩

def discipline : Discipline LogMutex Logs LogOutput where
  rank := rank
  top := 3
  rank_le m := by
    cases m with
    | manager => exact Nat.zero_le 3
    | logger l => exact (rank_logger_lt l).le
    | appender a => exact Nat.le_refl 3
  Rely := Rely
  rely_refl := Rely.refl
  rely_trans := Rely.trans
  Same := Same
  same_refl := Same.refl
  same_trans := Same.trans
  Good := Good
  good_of_rely h := h.good
  Told := Told
  told_of_rely {s t o} h htold := by
    cases o with
    | gotLogger name l => exact h.managed name l htold
    | _ => trivial

/-! ## What the changes keep -/

variable {s s' : Logs} {l a : Nat} {m : LogMutex}

theorem logger_putLogger (x : Logger) (l' : Nat) :
    (s.putLogger l x).logger l' = if l' = l then x else s.logger l' :=
  Function.update_apply ..

theorem appender_putAppender (x : Appender) (a' : Nat) :
    (s.putAppender a x).appender a' = if a' = a then x else s.appender a' :=
  Function.update_apply ..

theorem rely_putAppender {x : Appender}
    (hx : (s.appender a).formatter ≠ none → x.formatter ≠ none) : Rely s (s.putAppender a x) := by
  have hkeep (a' : Nat) (ha' : (s.appender a').formatter ≠ none) :
      ((s.putAppender a x).appender a').formatter ≠ none := by
    rw [appender_putAppender]
    split
    · rename_i h
      exact hx (h ▸ ha')
    · exact ha'
  exact
    { good := fun h => { h with
        attached := fun l hl a' ha' => (h.attached l hl a' ha').imp_right (hkeep a') }
      loggers := le_rfl
      appenders := le_rfl
      logger := fun _ _ => ⟨rfl, rfl⟩
      appender := fun a' _ => hkeep a'
      managed := fun _ _ => id }

theorem same_putAppender {x : Appender} (hm : m ≠ .appender a) : Same m s (s.putAppender a x) := by
  cases m with
  | manager => exact rfl
  | logger l => exact fun _ => ⟨rfl, rfl⟩
  | appender a' =>
    intro _
    rw [appender_putAppender, if_neg fun h => hm (congrArg _ h)]
    exact ⟨rfl, rfl⟩

theorem rely_putLogger {x : Logger} (hname : x.name = (s.logger l).name)
    (hroot : x.root = (s.logger l).root)
    (hfmt : (s.logger l).formatter ≠ none → x.formatter ≠ none)
    (happ : ∀ a ∈ x.appenders, a ∈ (s.logger l).appenders ∨
      a < s.appenders ∧ (s.appender a).formatter ≠ none) : Rely s (s.putLogger l x) := by
  have hkeep (l' : Nat) : ((s.putLogger l x).logger l').name = (s.logger l').name ∧
      ((s.putLogger l x).logger l').root = (s.logger l').root := by
    rw [logger_putLogger]
    split
    · rename_i h
      exact ⟨h ▸ hname, h ▸ hroot⟩
    · exact ⟨rfl, rfl⟩
  refine ⟨fun h => ⟨fun l' hl' => ?_, fun l' hl' a ha => ?_, fun l' hl' r hr => ?_, h.rooted,
    fun name l' hl' => ?_⟩, le_rfl, le_rfl, fun l' _ => hkeep l', fun _ _ => id, fun _ _ => id⟩
  · rw [logger_putLogger]
    split
    · rename_i heq
      exact hfmt (heq ▸ h.formatter l' hl')
    · exact h.formatter l' hl'
  · rw [logger_putLogger] at ha
    split at ha
    · rename_i heq
      exact (happ a ha).elim (h.attached l (heq ▸ hl') a) id
    · exact h.attached l' hl' a ha
  · rw [(hkeep l').2] at hr
    exact h.chain l' hl' r hr
  · rw [(hkeep l').1, (hkeep l').2]
    exact h.managed name l' hl'

theorem same_putLogger {x : Logger} (hm : m ≠ .logger l) : Same m s (s.putLogger l x) := by
  cases m with
  | manager => exact rfl
  | appender a => exact fun _ => ⟨rfl, rfl⟩
  | logger l' =>
    intro _
    rw [logger_putLogger, if_neg fun h => hm (congrArg _ h)]
    exact ⟨rfl, rfl⟩

/-- A new logger has no appenders; one that is managed has a name of its own
and the root behind it. -/
theorem rely_newLogger {x : Logger} {managed : List (Bytes × Nat)} (hg : s.Good)
    (hfmt : x.formatter ≠ none) (happ : x.appenders = [])
    (hmanaged : managed = s.managed ∧ x.root = none ∨
      managed = (x.name, s.loggers) :: s.managed ∧ s.managed.lookup x.name = none ∧
        x.root = some 0) : Rely s { s.newLogger x with managed := managed } := by
  have hself : (s.newLogger x).logger s.loggers = x := Function.update_self ..
  have hother (l : Nat) (hl : l < s.loggers) : (s.newLogger x).logger l = s.logger l :=
    Function.update_of_ne hl.ne _ _
  have hpos : 0 < s.loggers := (hg.managed _ _ hg.rooted).1
  have hlookup (name : Bytes) (l : Nat) (hl : s.managed.lookup name = some l) :
      managed.lookup name = some l := by
    obtain ⟨rfl, -⟩ | ⟨rfl, hnone, -⟩ := hmanaged
    · exact hl
    · rw [List.lookup_cons]
      split
      · rename_i heq
        rw [eq_of_beq heq, hnone] at hl
        cases hl
      · exact hl
  have hcases {l : Nat} (hl : l < s.loggers + 1) : l < s.loggers ∨ l = s.loggers := by omega
  refine ⟨fun h => ⟨fun l hl => ?_, fun l hl a ha => ?_, fun l hl r hr => ?_, hlookup _ _ h.rooted,
    fun name l hl => ?_⟩, Nat.le_succ _, le_rfl, fun l hl => ?_, fun _ _ => id, hlookup⟩
  · show ((s.newLogger x).logger l).formatter ≠ none
    obtain hl | rfl := hcases hl
    · rw [hother l hl]
      exact h.formatter l hl
    · rw [hself]
      exact hfmt
  · change a ∈ ((s.newLogger x).logger l).appenders at ha
    obtain hl | rfl := hcases hl
    · rw [hother l hl] at ha
      exact h.attached l hl a ha
    · rw [hself, happ] at ha
      cases ha
  · change ((s.newLogger x).logger l).root = some r at hr
    obtain hl | rfl := hcases hl
    · rw [hother l hl] at hr
      exact h.chain l hl r hr
    · rw [hself] at hr
      obtain ⟨-, hroot⟩ | ⟨-, -, hroot⟩ := hmanaged
      · cases hr.symm.trans hroot
      · exact ⟨Option.some.inj (hr.symm.trans hroot), hpos.ne'⟩
  · show l < s.loggers + 1 ∧ ((s.newLogger x).logger l).name = name ∧
      (l ≠ 0 → ((s.newLogger x).logger l).root = some 0)
    have hold (hl : s.managed.lookup name = some l) := by
      have hl' := h.managed name l hl
      rw [← hother l hl'.1] at hl'
      exact And.intro (Nat.lt_succ_of_lt hl'.1) hl'.2
    obtain ⟨rfl, -⟩ | ⟨rfl, -, hroot⟩ := hmanaged
    · exact hold hl
    · change ((x.name, s.loggers) :: s.managed).lookup name = some l at hl
      rw [List.lookup_cons] at hl
      split at hl
      · rename_i heq
        obtain rfl := Option.some.inj hl
        rw [hself]
        exact ⟨Nat.lt_succ_self _, (eq_of_beq heq).symm, fun _ => hroot⟩
      · exact hold hl
  · show ((s.newLogger x).logger l).name = _ ∧ ((s.newLogger x).logger l).root = _
    rw [hother l hl]
    exact ⟨rfl, rfl⟩

theorem rely_newAppender (target : LogTarget) (memory : Int) :
    Rely s (s.newAppender target memory) := by
  have hother (a : Nat) (ha : a < s.appenders) :
      (s.newAppender target memory).appender a = s.appender a :=
    Function.update_of_ne ha.ne _ _
  have hkeep (a : Nat) (ha : a < s.appenders) (hf : (s.appender a).formatter ≠ none) :
      ((s.newAppender target memory).appender a).formatter ≠ none := by
    rw [hother a ha]
    exact hf
  exact
    { good := fun h => { h with
        attached := fun l hl a ha => by
          obtain ⟨hlt, hf⟩ := h.attached l hl a ha
          exact ⟨Nat.lt_succ_of_lt hlt, hkeep a hlt hf⟩ }
      loggers := le_rfl
      appenders := Nat.le_succ _
      logger := fun _ _ => ⟨rfl, rfl⟩
      appender := hkeep
      managed := fun _ _ => id }

theorem same_newLogger {x : Logger} {managed : List (Bytes × Nat)}
    (hm : m = .manager → managed = s.managed) :
    Same m s { s.newLogger x with managed := managed } := by
  cases m with
  | manager => exact hm rfl
  | appender a => exact fun _ => ⟨rfl, rfl⟩
  | logger l =>
    intro hl
    show ((s.newLogger x).logger l).appenders = _ ∧ ((s.newLogger x).logger l).formatter = _
    rw [show (s.newLogger x).logger l = s.logger l from Function.update_of_ne hl.ne _ _]
    exact ⟨rfl, rfl⟩

theorem same_newAppender (target : LogTarget) (memory : Int) :
    Same m s (s.newAppender target memory) := by
  cases m with
  | manager => exact rfl
  | logger l => exact fun _ => ⟨rfl, rfl⟩
  | appender a =>
    intro ha
    rw [show (s.newAppender target memory).appender a = s.appender a from
      Function.update_of_ne ha.ne _ _]
    exact ⟨rfl, rfl⟩

/-! ## The methods keep to the rules -/

variable {held : List LogMutex} {k : LogProg} {strftime : Bytes → Nat → Bytes} {level : LogLevel}
  {event : LogEvent}

theorem write_some (hf : (s.appender a).formatter ≠ none) :
    ∃ os, write strftime a l level event s = some os ∧ ∀ o ∈ os, Told s o := by
  obtain ⟨f, hf⟩ := Option.ne_none_iff_exists'.mp hf
  rw [write, hf]
  split
  · refine ⟨_, rfl, fun o ho => ?_⟩
    split at ho
    · rw [List.mem_singleton.mp ho]
      trivial
    · rw [List.mem_singleton.mp ho]
      trivial
    · cases ho
  · exact ⟨[], rfl, List.forall_mem_nil _⟩

theorem safe_logAppender (hf : a < s.appenders ∧ (s.appender a).formatter ≠ none)
    (hheld : ∀ m ∈ held, rank m < 3) (hk : ∀ s', Rely s s' → discipline.Safe k held s') :
    discipline.Safe (LogAppender.log strftime a l level event k) held s := by
  refine ⟨hheld, fun s₁ h₁ s₂ h₂ => ?_⟩
  have hrely : Rely s s₂ := h₁.1.trans h₂.1
  obtain ⟨os, hos, htold⟩ := write_some (hrely.appender a hf.1 hf.2)
  exact ⟨os, hos, htold, .unlock fun s₃ h₃ => hk s₃ (hrely.trans h₃)⟩

theorem safe_setAppenderFormatter {val : Option LogFormatter} (hval : val ≠ none)
    (ha : a < s.appenders) (hheld : ∀ m ∈ held, rank m < 3)
    (hk : ∀ s', Rely s s' → (s'.appender a).formatter ≠ none → discipline.Safe k held s') :
    discipline.Safe (LogAppender.setFormatter a val k) held s := by
  refine .critical hheld fun s₁ h₁ => ⟨_, rfl, rely_putAppender fun _ => hval,
    fun m hm => same_putAppender hm, fun s₂ h₂ => ?_⟩
  have hrely : Rely s₁ s₂ := .trans (rely_putAppender fun _ => hval) h₂
  refine hk s₂ (h₁.1.trans hrely) (h₂.appender a (ha.trans_le h₁.1.appenders) ?_)
  rw [appender_putAppender, if_pos rfl]
  exact hval

/-- An appender may be locked behind a logger. -/
theorem rank_lt_appender (hheld : ∀ m ∈ held, rank m < rank (.logger l)) :
    ∀ m ∈ LogMutex.logger l :: held, rank m < 3 :=
  List.forall_mem_cons.mpr
    ⟨rank_logger_lt l, fun m hm => (hheld m hm).trans (rank_logger_lt l)⟩

theorem safe_log (fuel : Nat) : ∀ {l : Nat} {s : Logs} {held : List LogMutex} {k : LogProg},
    s.Good → l < s.loggers → (if l = 0 then 1 else 2) ≤ fuel →
      (∀ m ∈ held, rank m < rank (.logger l)) → (∀ s', Rely s s' → discipline.Safe k held s') →
      discipline.Safe (Logger.log strftime fuel l level event k) held s := by
  induction fuel with
  | zero =>
    intro l s held k _ _ hfuel
    split at hfuel <;> omega
  | succ fuel ih =>
    intro l s held k hg hl hfuel hheld hk s₁ h₁
    dsimp only
    split
    · refine ⟨hheld, fun s₂ h₂ s₃ h₃ => ?_⟩
      have hrely : Rely s s₃ := h₁.1.trans (h₂.1.trans h₃.1)
      have hg₃ := hrely.good hg
      have hl₃ := hl.trans_le hrely.loggers
      have hk₃ (s₄ : Logs) (h₄ : Rely s₃ s₄) : discipline.Safe k held s₄ := hk s₄ (hrely.trans h₄)
      dsimp only
      split
      · -- no appenders: the root, which is the last
        rename_i r _ hr
        obtain ⟨rfl, hl0⟩ := hg₃.chain l hl₃ r hr
        rw [if_neg hl0] at hfuel
        refine ih hg₃ (hg₃.managed _ _ hg₃.rooted).1 (by simpa using Nat.le_of_succ_le_succ hfuel)
          (List.forall_mem_cons.mpr ?_) fun s₄ h₄ => .unlock fun s₅ h₅ => hk₃ s₅ (h₄.trans h₅)
        have hrank : rank (.logger l) < rank (.logger 0) := by simp [rank, hl0]
        exact ⟨hrank, fun m hm => (hheld m hm).trans hrank⟩
      · exact .unlock hk₃
      · refine .foldr (P := fun t => ∀ a ∈ (s₃.logger l).appenders,
          a < t.appenders ∧ (t.appender a).formatter ≠ none) (fun t t' ht h a ha => ?_) _
          (hg₃.attached l hl₃) (fun a ha t k ht hk => ?_) fun s₄ h₄ => .unlock fun s₅ h₅ =>
            hk₃ s₅ (h₄.trans h₅)
        · exact ⟨(ht a ha).1.trans_le h.appenders, h.appender a (ht a ha).1 (ht a ha).2⟩
        · exact safe_logAppender (ht a ha) (rank_lt_appender hheld) hk
    · exact hk s₁ h₁.1

theorem safe_inherit (hg : s.Good) (hl : l < s.loggers) (hheld : ∀ m ∈ held, rank m < 3)
    (hk : ∀ s', Rely s s' → discipline.Safe k held s') :
    discipline.Safe (Logger.inherit l a k) held s := by
  refine .critical hheld fun s₁ h₁ => ?_
  have hfmt := (h₁.1.good hg).formatter l (hl.trans_le h₁.1.loggers)
  by_cases hhas : (s₁.appender a).hasFormatter
  · refine ⟨s₁, by simp [hhas], .refl s₁, fun m _ => .refl m s₁, fun s₂ h₂ => ?_⟩
    exact hk s₂ (h₁.1.trans h₂)
  · refine ⟨_, by simp [hhas]; rfl, rely_putAppender fun _ => hfmt,
      fun m hm => same_putAppender hm, fun s₂ h₂ => ?_⟩
    exact hk s₂ (h₁.1.trans ((rely_putAppender fun _ => hfmt).trans h₂))

/-- A change of a logger behind its lock. -/
theorem safe_putLogger {x : Logs → Logger}
    (hname : ∀ s, (x s).name = (s.logger l).name) (hroot : ∀ s, (x s).root = (s.logger l).root)
    (hfmt : ∀ s, (s.logger l).formatter ≠ none → (x s).formatter ≠ none)
    (happ : ∀ s', Rely s s' → ∀ b ∈ (x s').appenders, b ∈ (s'.logger l).appenders ∨
      b < s'.appenders ∧ (s'.appender b).formatter ≠ none)
    (hheld : LogMutex.logger l ∈ held) (hk : ∀ s', Rely s s' → discipline.Safe k held s') :
    discipline.Safe (.act (fun s => some (s.putLogger l (x s))) k) held s := by
  intro s₁ h₁
  have hrely := rely_putLogger (hname s₁) (hroot s₁) (hfmt s₁) (happ s₁ h₁.1)
  exact ⟨_, rfl, hrely, fun m hm => same_putLogger fun h => hm (h ▸ hheld),
    hk _ (h₁.1.trans hrely)⟩

theorem safe_setFormatter {val : Option LogFormatter} (hval : val ≠ none) (hg : s.Good)
    (hl : l < s.loggers) (hheld : ∀ m ∈ held, rank m < rank (.logger l))
    (hk : ∀ s', Rely s s' → discipline.Safe k held s') :
    discipline.Safe (Logger.setFormatter l val k) held s := by
  refine ⟨hheld, fun s₁ h₁ => safe_putLogger (fun _ => rfl)
    (fun _ => rfl) (fun _ _ => hval) (fun _ _ _ => .inl) List.mem_cons_self fun s₂ h₂ s₃ h₃ => ?_⟩
  have hrely : Rely s s₃ := h₁.1.trans (h₂.trans h₃.1)
  refine .foldr (P := fun t => t.Good ∧ l < t.loggers) (fun t t' ht h => ?_) _
    ⟨hrely.good hg, hl.trans_le hrely.loggers⟩ (fun b _ t k ht hk => ?_) fun s₄ h₄ =>
      .unlock fun s₅ h₅ => hk s₅ (hrely.trans (h₄.trans h₅))
  · exact ⟨h.good ht.1, ht.2.trans_le h.loggers⟩
  · exact safe_inherit ht.1 ht.2 (rank_lt_appender hheld) hk

theorem safe_addAppender (hg : s.Good) (hl : l < s.loggers) (ha : a < s.appenders)
    (hheld : ∀ m ∈ held, rank m < rank (.logger l))
    (hk : ∀ s', Rely s s' → discipline.Safe k held s') :
    discipline.Safe (Logger.addAppender l a k) held s := by
  refine ⟨hheld, fun s₁ h₁ s₂ h₂ => ?_⟩
  have hrely : Rely s s₂ := h₁.1.trans h₂.1
  have hpush (s₃ : Logs) (h₃ : Rely s₂ s₃) (hf : (s₃.appender a).formatter ≠ none) :
      discipline.Safe (.act (fun s => some (s.putLogger l { s.logger l with
        appenders := (s.logger l).appenders ++ [a] })) (.unlock (.logger l) k))
        (.logger l :: held) s₃ := by
    have ha₃ := ha.trans_le (hrely.trans h₃).appenders
    refine safe_putLogger (fun _ => rfl) (fun _ => rfl)
      (fun _ => id) (fun s₄ h₄ b hb => ?_) List.mem_cons_self fun s₄ h₄ => .unlock fun s₅ h₅ =>
        hk s₅ (hrely.trans (h₃.trans (h₄.trans h₅)))
    obtain hb | hb := List.mem_append.mp hb
    · exact .inl hb
    · rw [List.mem_singleton.mp hb]
      exact .inr ⟨ha₃.trans_le h₄.appenders, h₄.appender a ha₃ hf⟩
  dsimp only
  split
  · exact safe_setAppenderFormatter ((hrely.good hg).formatter l (hl.trans_le hrely.loggers))
      (ha.trans_le hrely.appenders) (rank_lt_appender hheld) hpush
  · rename_i hsome
    exact hpush s₂ (.refl s₂) fun hnone => hsome (by rw [hnone]; rfl)

theorem safe_getLogger {name : Bytes} (hg : s.Good) (hk : ∀ s', discipline.Safe k [] s') :
    discipline.Safe (LoggerManager.getLogger name k) [] s := by
  refine ⟨List.forall_mem_nil _, fun s₁ h₁ s₂ h₂ => ?_⟩
  dsimp only
  split
  · rename_i l hl
    refine fun s₃ h₃ => ⟨_, rfl, fun o ho => ?_, .unlock fun s₄ _ => hk s₄⟩
    rw [List.mem_singleton.mp ho]
    exact h₃.1.managed name l hl
  · rename_i hnone
    intro s₃ h₃
    -- nobody has made one since: the lock is held
    have hnone₃ : s₃.managed.lookup name = none := by
      rw [show s₃.managed = s₂.managed from h₃.2 .manager List.mem_cons_self]
      exact hnone
    have hg₃ := (h₁.1.trans (h₂.1.trans h₃.1)).good hg
    have hrely := rely_newLogger (x := { Logger.new name with root := some 0 }) hg₃
      (Option.some_ne_none _) rfl (.inr ⟨rfl, hnone₃, rfl⟩)
    refine ⟨_, rfl, hrely, fun m hm => same_newLogger fun h => ?_, fun s₄ h₄ => ?_⟩
    · exact absurd (h ▸ List.mem_cons_self) hm
    · have hlookup := h₄.1.managed name s₃.loggers List.lookup_cons_self
      refine ⟨_, congrArg (Option.map _) hlookup, fun o ho => ?_, .unlock fun s₅ _ => hk s₅⟩
      rw [List.mem_singleton.mp ho]
      exact hlookup

/-- `setLevel` takes no lock: the locks do not protect the level. -/
theorem safe_setLevel {val : LogLevel} (hk : ∀ s', discipline.Safe k held s') :
    discipline.Safe (Logger.setLevel l val k) held s := by
  intro s₁ h₁
  refine ⟨_, rfl, rely_putLogger rfl rfl id fun _ => .inl, fun m _ => ?_, hk _⟩
  by_cases hm : m = .logger l
  · subst hm
    intro _
    rw [logger_putLogger, if_pos rfl]
    exact ⟨rfl, rfl⟩
  · exact same_putLogger hm

theorem safe_setAppenderLevel {val : LogLevel} (hk : ∀ s', discipline.Safe k held s') :
    discipline.Safe (LogAppender.setLevel a val k) held s := by
  intro s₁ h₁
  refine ⟨_, rfl, rely_putAppender id, fun m _ => ?_, hk _⟩
  by_cases hm : m = .appender a
  · subst hm
    intro _
    rw [appender_putAppender, if_pos rfl]
    exact ⟨rfl, rfl⟩
  · exact same_putAppender hm

theorem safe_reopen {opens : Bool} (hheld : ∀ m ∈ held, rank m < 3)
    (hk : ∀ s', discipline.Safe k held s') :
    discipline.Safe (FileLogAppender.reopen a opens k) held s := by
  refine ⟨hheld, fun s₁ h₁ s₂ h₂ => ⟨_, rfl, rely_putAppender id, fun m hm =>
    same_putAppender (List.ne_of_not_mem_cons hm), fun s₃ h₃ => ⟨_, rfl, fun o ho => ?_,
      .unlock fun s₄ _ => hk s₄⟩⟩⟩
  split at ho
  · rw [List.mem_singleton.mp ho]
    trivial
  · cases ho

/-- Nobody sets a format to null. -/
def NonNull (_ : Logs) : Call → Prop
  | .setFormatter _ val => val ≠ none
  | .setAppenderFormatter _ val => val ≠ none
  | _ => True

theorem given_eq_some {q : Prop} [Decidable q] {prog p : LogProg} :
    given q prog = some p ↔ q ∧ prog = p := by
  rw [given]
  split
  · simp [*]
  · simp [*]

theorem safe_code {c : Call} {p : LogProg} (hg : s.Good) (hok : NonNull s c)
    (hcode : code strftime s c = some p) : discipline.Safe p [] s := by
  have hdone (s' : Logs) : discipline.Safe .done [] s' := rfl
  have hheld {n : Nat} : ∀ m ∈ ([] : List LogMutex), rank m < n := List.forall_mem_nil _
  have hlog {l : Nat} {level : LogLevel} {event : LogEvent} {s' : Logs} (hg : s'.Good)
      (hl : l < s'.loggers) :
      discipline.Safe (Logger.log strftime 2 l level event .done) [] s' :=
    safe_log 2 hg hl (by split <;> omega) hheld fun s'' _ => hdone s''
  cases c with
  | newLogger name =>
    obtain rfl := Option.some.inj hcode
    intro s₁ h₁
    exact ⟨_, rfl, rely_newLogger (h₁.1.good hg) (Option.some_ne_none _) rfl (.inl ⟨rfl, rfl⟩),
      fun m _ => same_newLogger fun _ => rfl, rfl⟩
  | newStdoutLogAppender memory =>
    obtain rfl := Option.some.inj hcode
    intro s₁ h₁
    exact ⟨_, rfl, rely_newAppender _ _, fun m _ => same_newAppender _ _, rfl⟩
  | newFileLogAppender filename memory =>
    obtain rfl := Option.some.inj hcode
    intro s₁ h₁
    exact ⟨_, rfl, rely_newAppender _ _, fun m _ => same_newAppender _ _, rfl⟩
  | getLogger name =>
    obtain rfl := Option.some.inj hcode
    exact safe_getLogger hg hdone
  | log l level event | debug l event | info l event | warn l event | error l event
  | fatal l event =>
    obtain ⟨hl, rfl⟩ := given_eq_some.mp hcode
    exact hlog hg hl
  | logLevel l level event =>
    obtain ⟨hl, rfl⟩ := given_eq_some.mp hcode
    intro s₁ h₁
    dsimp only
    split
    · exact hlog (h₁.1.good hg) (hl.trans_le h₁.1.loggers)
    · rfl
  | addAppender l a =>
    obtain ⟨⟨hl, ha⟩, rfl⟩ := given_eq_some.mp hcode
    exact safe_addAppender hg hl ha hheld fun s' _ => hdone s'
  | delAppender l a =>
    obtain ⟨hl, rfl⟩ := given_eq_some.mp hcode
    exact ⟨hheld, fun s₁ h₁ => safe_putLogger (fun _ => rfl) (fun _ => rfl) (fun _ => id)
      (fun s' _ b hb => .inl (List.mem_of_mem_erase hb)) List.mem_cons_self
      fun s' _ => .unlock fun s'' _ => hdone s''⟩
  | clearAppender l =>
    obtain ⟨hl, rfl⟩ := given_eq_some.mp hcode
    exact ⟨hheld, fun s₁ h₁ => safe_putLogger (fun _ => rfl) (fun _ => rfl) (fun _ => id)
      (fun s' _ => List.forall_mem_nil _) List.mem_cons_self
      fun s' _ => .unlock fun s'' _ => hdone s''⟩
  | setLevel l val =>
    obtain ⟨hl, rfl⟩ := given_eq_some.mp hcode
    exact safe_setLevel hdone
  | setFormatter l val =>
    obtain ⟨hl, rfl⟩ := given_eq_some.mp hcode
    exact safe_setFormatter hok hg hl hheld fun s' _ => hdone s'
  | setPattern l val =>
    obtain ⟨hl, rfl⟩ := given_eq_some.mp hcode
    rw [Logger.setPattern]
    split
    · exact hdone s
    · exact safe_setFormatter (Option.some_ne_none _) hg hl hheld fun s' _ => hdone s'
  | setAppenderLevel a val =>
    obtain ⟨ha, rfl⟩ := given_eq_some.mp hcode
    exact safe_setAppenderLevel hdone
  | setAppenderFormatter a val =>
    obtain ⟨ha, rfl⟩ := given_eq_some.mp hcode
    exact safe_setAppenderFormatter hok ha hheld fun s' _ _ => hdone s'
  | reopen a opens =>
    obtain ⟨ha, rfl⟩ := given_eq_some.mp hcode
    exact safe_reopen hheld hdone

theorem good_start (memory : Int) : (start memory).Good where
  formatter l hl := by
    obtain rfl : l = 0 := Nat.lt_one_iff.mp hl
    exact Option.some_ne_none _
  attached l hl a ha := by
    obtain rfl : l = 0 := Nat.lt_one_iff.mp hl
    obtain rfl : a = 0 := List.mem_singleton.mp ha
    exact ⟨Nat.zero_lt_one, Option.some_ne_none _⟩
  chain l hl r hr := by
    obtain rfl : l = 0 := Nat.lt_one_iff.mp hl
    cases hr
  rooted := List.lookup_cons_self
  managed name l hl := by
    change [(bytes "root", 0)].lookup name = some l at hl
    rw [List.lookup_cons] at hl
    split at hl
    · rename_i heq
      obtain rfl := Option.some.inj hl
      exact ⟨Nat.zero_lt_one, (eq_of_beq heq).symm, fun h => absurd rfl h⟩
    · cases hl

/-! ## Runs -/

variable {T : Type} [DecidableEq T] {w : Threads T LogMutex Logs LogOutput}

theorem reachable_inv
    (h : (system strftime T).ReachableBy (Threads.Calls NonNull) w) : w.Inv discipline :=
  Threads.reachableBy_inv (fun s hs => by
    obtain ⟨memory, rfl⟩ := hs
    exact good_start memory) (fun _ _ _ hg hok hcode => safe_code hg hok hcode) h

/-- **Logging never gets stuck.** Whatever the threads call, in any order of
their steps, while nobody sets a format to null: no thread comes to
undefined behaviour, one of them can always go on, each call returns, and
no lock is held when all have returned. -/
theorem never_stuck [Finite T]
    (h : (system strftime T).ReachableBy (Threads.Calls NonNull) w) :
    (∀ t, w.prog t ≠ .done → (∃ w', w.run t = some w') ∨ w.Waits t) ∧
      ((∃ t, w.prog t ≠ .done) → ∃ t w', w.run t = some w') ∧
      ((∀ t, w.prog t = .done) → ∀ m, w.holder m = none) ∧
      Acc (fun w' w : Threads T LogMutex Logs LogOutput => ∃ t, w.run t = some w') w := by
  have hinv := reachable_inv h
  refine ⟨fun t ht => hinv.runs_or_waits ht, ?_, hinv.free, Threads.wellFounded_run.apply w⟩
  rintro ⟨t, ht⟩
  exact hinv.progress ht

/-- Two threads and the root. -/
def atStart : Threads Bool LogMutex Logs LogOutput :=
  ⟨start 0, fun _ => .done, fun _ => none, []⟩

theorem reachable_atStart {es : List (ThreadEvent Bool Call)}
    (hok : ∀ e ∈ es, ∀ v : Threads Bool LogMutex Logs LogOutput, Threads.Calls NonNull v e)
    {w : Threads Bool LogMutex Logs LogOutput}
    (hw : (system strftime Bool).replay atStart es = some w) :
    (system strftime Bool).ReachableBy (Threads.Calls NonNull) w :=
  System.replay_reachableBy (.init ⟨⟨0, rfl⟩, fun _ => rfl, fun _ => rfl, rfl⟩) hok hw

/-- One thread has the root, the other is to take it. -/
theorem never_stuck_waits : ∃ w, (system (fun _ _ => []) Bool).replay atStart
      [.call false (.clearAppender 0), .run false, .call true (.clearAppender 0)] = some w ∧
    w.Waits true ∧ ∃ t w', w.run t = some w' := by
  obtain ⟨w, hw, hwaits⟩ : ∃ w, (system (fun _ _ => []) Bool).replay atStart
      [.call false (.clearAppender 0), .run false, .call true (.clearAppender 0)] = some w ∧
      w.Waits true :=
    ⟨_, rfl, .logger 0, _, false, rfl, rfl⟩
  have hreach := reachable_atStart (by simp [Threads.Calls, NonNull]) hw
  refine ⟨w, hw, hwaits, (never_stuck hreach).2.1 ⟨true, fun hdone => ?_⟩⟩
  obtain ⟨l, k, u, hp, -⟩ := hwaits
  cases hp.symm.trans hdone

/-- **One logger for a name.** Whoever calls `getLogger` and when, the same
name gives the same logger and another name another; it bears the name,
and behind it is the root, which is the logger of `root`. -/
theorem loggers_by_name (h : (system strftime T).ReachableBy (Threads.Calls NonNull) w) {t t' : T}
    {name name' : Bytes} {l l' : Nat} (hl : (t, .gotLogger name l) ∈ w.out)
    (hl' : (t', .gotLogger name' l') ∈ w.out) :
    (name = name' ↔ l = l') ∧ (w.state.logger l).name = name ∧
      (name = bytes "root" ↔ l = 0) ∧ (l ≠ 0 → (w.state.logger l).root = some 0) := by
  have hinv := reachable_inv h
  have htold : w.state.managed.lookup name = some l := hinv.told _ hl
  have htold' : w.state.managed.lookup name' = some l' := hinv.told _ hl'
  obtain ⟨-, hname, hroot⟩ := hinv.good.managed name l htold
  obtain ⟨-, hname', -⟩ := hinv.good.managed name' l' htold'
  obtain ⟨-, hrooted, -⟩ := hinv.good.managed _ _ hinv.good.rooted
  refine ⟨⟨fun heq => ?_, fun heq => ?_⟩, hname, ⟨fun heq => ?_, fun heq => ?_⟩, hroot⟩
  · subst heq
    exact Option.some.inj (htold.symm.trans htold')
  · subst heq
    exact hname.symm.trans hname'
  · subst heq
    exact Option.some.inj (htold.symm.trans hinv.good.rooted)
  · subst heq
    exact hname.symm.trans hrooted

/-- Two threads ask for the same logger; the first makes it. -/
theorem loggers_by_name_twice : ∃ w, (system (fun _ _ => []) Bool).replay atStart
      ([.call false (.getLogger [115]), .call true (.getLogger [115])] ++
        List.replicate 5 (.run false) ++ List.replicate 4 (.run true)) = some w ∧
    w.out = [(false, .gotLogger [115] 1), (true, .gotLogger [115] 1)] ∧
    (w.state.logger 1).name = [115] ∧ (w.state.logger 1).root = some 0 := by
  obtain ⟨w, hw, hout⟩ : ∃ w, (system (fun _ _ => []) Bool).replay atStart
      ([.call false (.getLogger [115]), .call true (.getLogger [115])] ++
        List.replicate 5 (.run false) ++ List.replicate 4 (.run true)) = some w ∧
      w.out = [(false, .gotLogger [115] 1), (true, .gotLogger [115] 1)] :=
    ⟨_, rfl, rfl⟩
  have hreach := reachable_atStart (by simp [Threads.Calls, NonNull]) hw
  have hfirst : (false, .gotLogger [115] 1) ∈ w.out := hout ▸ List.mem_cons_self
  have hsecond : (true, .gotLogger [115] 1) ∈ w.out :=
    hout ▸ List.mem_cons_of_mem _ List.mem_cons_self
  obtain ⟨-, hname, -, hroot⟩ := loggers_by_name hreach hfirst hsecond
  exact ⟨w, hw, hout, hname, hroot (Nat.one_ne_zero)⟩

end Logs

end Sylar
