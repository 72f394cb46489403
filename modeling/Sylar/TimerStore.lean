import Sylar.Timer

/-!
# The timer set stays ordered

`Stored out m`: the set is strictly ordered by the keys its elements
have now, and a timer is armed (`m_cb` set) exactly when it is in the
set or in `out`, the timers a critical section has taken out and not
dealt with yet. Between critical sections `out` is empty.

A key is only assigned to a timer in `out` (`Stored.put`), so no key
changes inside the set; erasing moves a timer to `out`, inserting and
disarming take it off. Every critical section is a sequence of these
moves, and `cancel` finds its timer because an armed timer is in the
set (`Stored.find_eq`).
-/

namespace Sylar

/-! ## The comparator -/

theorem before_iff {next : Nat → Nat} {a b : Nat} :
    Before next a b ↔ next a < next b ∨ next a = next b ∧ a < b := by
  simp only [Before, comparator]
  split
  · rename_i h
    simp only [h, true_or]
  · split
    · rename_i h
      simp only [Bool.false_eq_true, false_iff]
      omega
    · simp only [decide_eq_true_eq]
      omega

instance (next : Nat → Nat) : IsStrictTotalOrder Nat (Before next) where
  trichotomous a b := by
    rw [before_iff, before_iff]
    omega
  irrefl a := by
    rw [before_iff]
    omega
  trans a b c := by
    rw [before_iff, before_iff, before_iff]
    omega

namespace TimerManager

variable {C : Type} {m m' : TimerManager C} {a b : Nat} {t : Timer C} {out : List Nat}

/-! ## Assigning to a timer -/

theorem heap_put_self (m : TimerManager C) (a : Nat) (t : Timer C) :
    (m.put a t).heap a = some t := if_pos rfl

theorem heap_put_ne (m : TimerManager C) (t : Timer C) (h : b ≠ a) :
    (m.put a t).heap b = m.heap b := if_neg h

@[simp] theorem timers_put (m : TimerManager C) (a : Nat) (t : Timer C) :
    (m.put a t).timers = m.timers := rfl

theorem next_eq (h : m.heap a = some t) : m.next a = t.next := by
  rw [next, h]
  rfl

theorem next_put_self (m : TimerManager C) (a : Nat) (t : Timer C) :
    (m.put a t).next a = t.next := next_eq (heap_put_self m a t)

theorem next_put_ne (m : TimerManager C) (t : Timer C) (h : b ≠ a) :
    (m.put a t).next b = m.next b := by
  rw [next, heap_put_ne m t h]
  rfl

/-- Dropping the callback changes no key. -/
theorem next_put_cb (h : m.heap a = some t) (cb : Option (Callback C)) :
    (m.put a { t with cb := cb }).next = m.next := by
  funext b
  by_cases hb : b = a
  · subst hb
    rw [next_put_self, next_eq h]
  · exact next_put_ne m _ hb

/-! ## The invariant -/

structure Stored (out : List Nat) (m : TimerManager C) : Prop where
  sorted : m.timers.Pairwise (Before m.next)
  alive : ∀ a, a ∈ m.timers ∨ a ∈ out → ∃ t, m.heap a = some t
  armed : ∀ a t, m.heap a = some t → (t.cb.isSome ↔ a ∈ m.timers ∨ a ∈ out)
  outside : ∀ a ∈ out, a ∉ m.timers
  out_nodup : out.Nodup

theorem new_stored (now : Nat) : Stored [] (new now : TimerManager C) where
  sorted := List.Pairwise.nil
  alive a ha := by simp [new] at ha
  armed a t h := by simp [new] at h
  outside a ha := by simp at ha
  out_nodup := List.nodup_nil

theorem Stored.nodup (h : Stored out m) : m.timers.Nodup := OrderedSet.nodup h.sorted

theorem Stored.mem_of_armed (h : Stored [] m) (ht : m.heap a = some t) (hcb : t.cb.isSome) :
    a ∈ m.timers := by
  rcases (h.armed a t ht).mp hcb with hmem | hout
  · exact hmem
  · cases hout

/-- Keys outside the set do not matter to its order. -/
theorem sorted_put (h : m.timers.Pairwise (Before m.next)) (hout : a ∉ m.timers) :
    m.timers.Pairwise (Before (m.put a t).next) := by
  refine h.imp_of_mem ?_
  intro b c hb hc hbc
  have hb' : b ≠ a := fun heq => hout (heq ▸ hb)
  have hc' : c ≠ a := fun heq => hout (heq ▸ hc)
  rw [before_iff] at hbc ⊢
  rwa [next_put_ne m t hb', next_put_ne m t hc']

/-- A timer outside the set may be assigned to as long as it stays
armed. -/
theorem Stored.put (h : Stored out m) (hout : a ∈ out) (hcb : t.cb.isSome) :
    Stored out (m.put a t) where
  sorted := sorted_put h.sorted (h.outside a hout)
  alive b hb := by
    by_cases hba : b = a
    · exact ⟨t, by rw [hba, heap_put_self]⟩
    · rw [heap_put_ne m t hba]
      exact h.alive b hb
  armed b t' ht' := by
    by_cases hba : b = a
    · subst hba
      rw [heap_put_self] at ht'
      obtain rfl := Option.some.inj ht'
      exact ⟨fun _ => .inr hout, fun _ => hcb⟩
    · rw [heap_put_ne m t hba] at ht'
      exact h.armed b t' ht'
  outside := h.outside
  out_nodup := h.out_nodup

/-- An allocation. -/
theorem Stored.alloc (h : Stored [] m) (hfree : m.heap a = none) (hcb : t.cb.isSome) :
    Stored [a] (m.put a t) := by
  have hout : a ∉ m.timers := by
    intro hmem
    obtain ⟨t', ht'⟩ := h.alive a (.inl hmem)
    rw [hfree] at ht'
    cases ht'
  refine ⟨sorted_put h.sorted hout, ?_, ?_, ?_, by simp⟩
  · intro b hb
    by_cases hba : b = a
    · exact ⟨t, by rw [hba, heap_put_self]⟩
    · rw [heap_put_ne m t hba]
      exact h.alive b (hb.imp_right fun hb => absurd (List.mem_singleton.mp hb) hba)
  · intro b t' ht'
    by_cases hba : b = a
    · subst hba
      rw [heap_put_self] at ht'
      obtain rfl := Option.some.inj ht'
      exact ⟨fun _ => .inr (List.mem_singleton_self b), fun _ => hcb⟩
    · rw [heap_put_ne m t hba] at ht'
      simp only [timers_put, List.mem_singleton, hba, or_false]
      simpa using h.armed b t' ht'
  · intro b hb
    rw [List.mem_singleton.mp hb]
    exact hout

/-- A timer in the set is found. -/
theorem Stored.find_eq (h : Stored out m) (hmem : a ∈ m.timers) :
    m.find a = some (m.timers.idxOf a) := OrderedSet.find_eq h.sorted hmem

theorem mem_erase (h : Stored out m) :
    b ∈ (m.erase (m.timers.idxOf a)).timers ↔ b ≠ a ∧ b ∈ m.timers := by
  show b ∈ m.timers.eraseIdx _ ↔ _
  rw [List.eraseIdx_idxOf_eq_erase, h.nodup.mem_erase_iff]

theorem Stored.erase (h : Stored out m) (hmem : a ∈ m.timers) :
    Stored (a :: out) (m.erase (m.timers.idxOf a)) where
  sorted := h.sorted.sublist (List.eraseIdx_sublist ..)
  alive b hb := by
    refine h.alive b ?_
    rcases hb with hb | hb
    · exact .inl ((mem_erase h).mp hb).2
    · rcases List.mem_cons.mp hb with rfl | hb
      · exact .inl hmem
      · exact .inr hb
  armed b t ht := by
    rw [h.armed b t ht, mem_erase h, List.mem_cons]
    by_cases hba : b = a
    · simp [hba, hmem]
    · simp [hba]
  outside b hb := by
    rw [mem_erase h]
    rintro ⟨hba, hb'⟩
    exact h.outside b ((List.mem_cons.mp hb).resolve_left hba) hb'
  out_nodup := List.nodup_cons.mpr ⟨fun hout => h.outside a hout hmem, h.out_nodup⟩

theorem mem_insert : b ∈ (m.insert a).timers ↔ b = a ∨ b ∈ m.timers := OrderedSet.mem_insert

theorem Stored.insert (h : Stored (a :: out) m) : Stored out (m.insert a) where
  sorted := OrderedSet.pairwise_insert h.sorted
  alive b hb := by
    refine h.alive b ?_
    rcases hb with hb | hb
    · rcases mem_insert.mp hb with rfl | hb
      · exact .inr (List.mem_cons_self ..)
      · exact .inl hb
    · exact .inr (List.mem_cons_of_mem _ hb)
  armed b t ht := by
    rw [h.armed b t ht, mem_insert, List.mem_cons]
    tauto
  outside b hb := by
    have hne : b ≠ a := by
      rintro rfl
      exact (List.nodup_cons.mp h.out_nodup).1 hb
    rw [mem_insert]
    rintro (hba | hmem)
    · exact hne hba
    · exact h.outside b (List.mem_cons_of_mem _ hb) hmem
  out_nodup := (List.nodup_cons.mp h.out_nodup).2

theorem heap_addTimerLocked (m : TimerManager C) (a : Nat) :
    (m.addTimerLocked a).2.heap = m.heap := by
  simp only [addTimerLocked]
  split <;> rfl

theorem timers_addTimerLocked (m : TimerManager C) (a : Nat) :
    (m.addTimerLocked a).2.timers = (m.insert a).timers := by
  simp only [addTimerLocked]
  split <;> rfl

theorem Stored.addTimerLocked (h : Stored (a :: out) m) : Stored out (m.addTimerLocked a).2 := by
  have hins := h.insert
  simp only [TimerManager.addTimerLocked]
  split
  · exact ⟨hins.sorted, hins.alive, hins.armed, hins.outside, hins.out_nodup⟩
  · exact hins

/-- A timer taken out for good loses its callback. -/
theorem Stored.disarm (h : Stored (a :: out) m) (ht : m.heap a = some t) :
    Stored out (m.put a { t with cb := none }) where
  sorted := by
    rw [next_put_cb ht]
    exact h.sorted
  alive b hb := by
    by_cases hba : b = a
    · exact ⟨_, by rw [hba, heap_put_self]⟩
    · rw [heap_put_ne m _ hba]
      exact h.alive b (hb.imp_right (List.mem_cons_of_mem _))
  armed b t' ht' := by
    by_cases hba : b = a
    · subst hba
      rw [heap_put_self] at ht'
      obtain rfl := Option.some.inj ht'
      have hnot : ¬(b ∈ m.timers ∨ b ∈ out) := by
        rintro (hmem | hout)
        · exact h.outside b (List.mem_cons_self ..) hmem
        · exact (List.nodup_cons.mp h.out_nodup).1 hout
      simpa using hnot
    · rw [heap_put_ne m _ hba] at ht'
      rw [h.armed b t' ht', List.mem_cons, timers_put]
      simp [hba]
  outside b hb := h.outside b (List.mem_cons_of_mem _ hb)
  out_nodup := (List.nodup_cons.mp h.out_nodup).2

/-! ## The critical sections -/

/-- `cancel` of an armed timer takes it out of the set; it never erases
`end()`. -/
theorem Stored.cancel_eq (h : Stored [] m) (ht : m.heap a = some t) :
    m.cancel a = .ok (if t.cb.isSome
      then (true, (m.erase (m.timers.idxOf a)).put a { t with cb := none }) else (false, m)) := by
  simp only [cancel, ht]
  split
  · rename_i hcb
    have hfind : (m.put a { t with cb := none }).find a = some (m.timers.idxOf a) := by
      rw [find, next_put_cb ht]
      exact h.find_eq (h.mem_of_armed ht hcb)
    rw [hfind]
    rfl
  · rfl

theorem Stored.refresh_eq (h : Stored [] m) (ht : m.heap a = some t) (now : Nat) :
    m.refresh a now = .ok (if t.cb.isSome
      then (true, (((m.erase (m.timers.idxOf a)).put a
        { t with next := add64 now t.ms }).insert a))
      else (false, m)) := by
  simp only [refresh, ht]
  by_cases hcb : t.cb.isSome
  · rw [if_neg (by simp [Option.isSome_iff_ne_none.mp hcb]), if_pos hcb, h.find_eq (h.mem_of_armed ht hcb)]
  · rw [if_pos (by simpa using hcb), if_neg hcb]

theorem Stored.reset_eq (h : Stored [] m) (ht : m.heap a = some t) {ms seen now : Nat}
    {fromNow : Bool} (hchange : ¬(ms = seen ∧ fromNow = false)) :
    m.reset a ms fromNow seen now = .ok (if t.cb.isSome
      then (true, ((m.erase (m.timers.idxOf a)).put a { t with
        ms := ms
        next := add64 (if fromNow then now else sub64 t.next t.ms) ms }).addTimerLocked a)
      else (false, false, m)) := by
  simp only [reset, if_neg hchange, ht]
  by_cases hcb : t.cb.isSome
  · rw [if_neg (by simp [Option.isSome_iff_ne_none.mp hcb]), if_pos hcb, h.find_eq (h.mem_of_armed ht hcb)]
  · rw [if_pos (by simpa using hcb), if_neg hcb]

theorem Stored.rearm {now : Nat} : ∀ {out : List Nat} {m : TimerManager C}, Stored out m →
    Stored [] (rearm now out m).2
  | [], _, h => h
  | a :: rest, m, h => by
      obtain ⟨t, ht⟩ := h.alive a (.inr (List.mem_cons_self ..))
      have hcb : t.cb.isSome := (h.armed a t ht).mpr (.inr (List.mem_cons_self ..))
      simp only [TimerManager.rearm, ht]
      split
      · have hput := h.put (t := { t with next := add64 now t.ms }) (List.mem_cons_self ..) hcb
        exact hput.insert.rearm
      · exact (h.disarm ht).rearm

/-- Taking the first timers out of the set. -/
theorem Stored.takeOut (h : Stored [] m) (n prev : Nat) :
    Stored (m.timers.take n)
      { m with timers := m.timers.drop n, previouseTime := prev } where
  sorted := h.sorted.sublist (List.drop_sublist ..)
  alive b hb := by
    refine h.alive b (.inl ?_)
    rcases hb with hb | hb
    · exact List.mem_of_mem_drop hb
    · exact List.mem_of_mem_take hb
  armed b t ht := by
    have hmem : b ∈ m.timers ↔ b ∈ m.timers.take n ∨ b ∈ m.timers.drop n := by
      rw [← List.mem_append, List.take_append_drop]
    rw [h.armed b t ht, hmem]
    simp only [List.not_mem_nil, or_false]
    tauto
  outside b hb hb' := List.disjoint_take_drop h.nodup (Nat.le_refl n) hb hb'
  out_nodup := h.nodup.sublist (List.take_sublist ..)

/-- Without a rollover only timers that are due are among the expired. -/
theorem next_le_of_expired {now probe : Nat}
    (ha : a ∈ m.timers.take (m.expiredCount now probe)) (hprobe : m.heap probe = none)
    (hs : Stored [] m) : m.next a ≤ now := by
  rw [expiredCount, List.take_add, List.mem_append] at ha
  rcases ha with ha | ha
  · have hne : a ≠ probe := by
      rintro rfl
      obtain ⟨t, ht⟩ := hs.alive a (.inl (List.mem_of_mem_take ha))
      rw [hprobe] at ht
      cases ht
    have hless := before_iff.mp (OrderedSet.of_mem_take_lowerBound _ ha)
    simp only [if_neg hne, if_true] at hless
    omega
  · set l := m.timers.drop (OrderedSet.lowerBound
      (Before fun b => if b = probe then now else m.next b) probe m.timers)
    have hpre : (l.takeWhile fun b => m.next b == now) <+: l := List.takeWhile_prefix _
    rw [← List.prefix_iff_eq_take.mp hpre] at ha
    have heq : (m.next a == now) = true :=
      List.mem_takeWhile_imp (p := fun b => m.next b == now) ha
    exact Nat.le_of_eq (beq_iff_eq.mp heq)

theorem listExpiredCb_cons {first : Nat} {rest : List Nat} (hl : m.timers = first :: rest)
    (now probe : Nat) : m.listExpiredCb now probe =
      if !(m.detectClockRollover now).1 && m.next first > now then
        ([], { m with previouseTime := now })
      else
        let it := if (m.detectClockRollover now).1 then m.timers.length
          else m.expiredCount now probe
        rearm now (m.timers.take it)
          { m with timers := m.timers.drop it, previouseTime := now } := by
  unfold TimerManager.listExpiredCb
  split
  · rename_i hnil
    rw [hl] at hnil
    cases hnil
  · rename_i hl'
    obtain ⟨rfl, rfl⟩ := List.cons.inj (hl.symm.trans hl')
    rfl

/-- `listExpiredCb` finds nothing to do, or takes out the first timers
and deals with each; without a rollover these were due. -/
theorem listExpiredCb_cases (hs : Stored [] m) {now probe : Nat} (hprobe : m.heap probe = none) :
    (m.listExpiredCb now probe).2 = m ∨
      (m.listExpiredCb now probe).2 = { m with previouseTime := now } ∨
      ∃ n, (m.listExpiredCb now probe).2 = (rearm now (m.timers.take n)
          { m with timers := m.timers.drop n, previouseTime := now }).2 ∧
        ((m.detectClockRollover now).1 = false → ∀ a ∈ m.timers.take n, m.next a ≤ now) := by
  obtain hl | ⟨first, rest, hl⟩ : m.timers = [] ∨ ∃ first rest, m.timers = first :: rest := by
    cases m.timers with
    | nil => exact .inl rfl
    | cons first rest => exact .inr ⟨first, rest, rfl⟩
  · left
    rw [TimerManager.listExpiredCb, hl]
  · right
    rw [listExpiredCb_cons hl]
    cases hroll : (m.detectClockRollover now).1 with
    | true => exact .inr ⟨m.timers.length, rfl, fun h => nomatch h⟩
    | false =>
        by_cases hfirst : m.next first > now
        · left
          simp [hfirst]
        · right
          refine ⟨m.expiredCount now probe, ?_, fun _ a ha => next_le_of_expired ha hprobe hs⟩
          simp [hfirst]

theorem Stored.listExpiredCb (h : Stored [] m) {now probe : Nat} (hprobe : m.heap probe = none) :
    Stored [] (m.listExpiredCb now probe).2 := by
  rcases listExpiredCb_cases h hprobe with heq | heq | ⟨n, heq, -⟩
  · rw [heq]
    exact h
  · rw [heq]
    exact ⟨h.sorted, h.alive, h.armed, h.outside, h.out_nodup⟩
  · rw [heq]
    exact (h.takeOut ..).rearm

theorem getNextTimer_eq (m : TimerManager C) (now : Nat) :
    (m.getNextTimer now).2 = { m with tickled := false } := by
  unfold getNextTimer
  cases m.timers <;> rfl

theorem Stored.release (h : Stored [] m) (hout : a ∉ m.timers) :
    Stored [] { m with heap := fun b => if b = a then none else m.heap b } := by
  have hne : ∀ b ∈ m.timers, b ≠ a := fun b hb heq => hout (heq ▸ hb)
  refine ⟨?_, ?_, ?_, h.outside, h.out_nodup⟩
  · refine h.sorted.imp_of_mem ?_
    intro b c hb hc hbc
    rw [before_iff] at hbc ⊢
    simpa only [next, if_neg (hne b hb), if_neg (hne c hc)] using hbc
  · intro b hb
    have hb' : b ∈ m.timers := hb.resolve_right List.not_mem_nil
    obtain ⟨t, ht⟩ := h.alive b hb
    exact ⟨t, by simp only [if_neg (hne b hb'), ht]⟩
  · intro b t ht
    by_cases hba : b = a
    · simp [hba] at ht
    · simp only [if_neg hba] at ht
      exact h.armed b t ht

/-! ## Runs -/

/-- What a critical section does to an ordered set. -/
inductive Move (m : TimerManager C) : Op C → Bool → TimerManager C → Prop
  | addTimer {addr ms : Nat} {cb : Callback C} {recurring : Bool} {now : Nat} :
      m.heap addr = none →
      Move m (.addTimer addr ms cb recurring now)
        (m.addTimer addr ms (some cb) recurring now).1
        (m.addTimer addr ms (some cb) recurring now).2
  | cancel {a : Nat} {t : Timer C} : m.heap a = some t → a ∈ m.timers →
      Move m (.cancel a) false ((m.erase (m.timers.idxOf a)).put a { t with cb := none })
  | refresh {a now : Nat} {t : Timer C} : m.heap a = some t → a ∈ m.timers → t.cb.isSome →
      Move m (.refresh a now) false
        (((m.erase (m.timers.idxOf a)).put a { t with next := add64 now t.ms }).insert a)
  | reset {a ms seen now : Nat} {fromNow front : Bool} {t : Timer C} {m' : TimerManager C} :
      m.heap a = some t → a ∈ m.timers → t.cb.isSome →
      ((m.erase (m.timers.idxOf a)).put a { t with
        ms := ms
        next := add64 (if fromNow then now else sub64 t.next t.ms) ms }).addTimerLocked a =
          (front, m') →
      Move m (.reset a ms fromNow seen now) front m'
  | idle {op : Op C} : (∀ now, op ≠ .getNextTimer now) → Move m op false m
  | getNextTimer {now : Nat} : Move m (.getNextTimer now) false { m with tickled := false }
  | listExpiredCb {now probe : Nat} : m.heap probe = none →
      Move m (.listExpiredCb now probe) false (m.listExpiredCb now probe).2
  | release {a : Nat} : a ∉ m.timers →
      Move m (.release a) false { m with heap := fun b => if b = a then none else m.heap b }

theorem run_move (h : Stored [] m) {op : Op C} {front : Bool}
    (hrun : m.run op = some (front, m')) : Move m op front m' := by
  cases op with
  | addTimer addr ms cb recurring now =>
      simp only [run, Option.ite_none_right_eq_some, Option.some.injEq] at hrun
      obtain ⟨hfree, hrun⟩ := hrun
      have hmove : Move m (.addTimer addr ms cb recurring now) _ _ := .addTimer hfree
      rwa [hrun] at hmove
  | cancel a =>
      cases ht : m.heap a with
      | none => simp [run, cancel, ht, Except.toOption] at hrun
      | some t =>
          rw [run, h.cancel_eq ht] at hrun
          simp only [Except.toOption, Option.map_some, Option.some.injEq, Prod.mk.injEq] at hrun
          obtain ⟨rfl, rfl⟩ := hrun
          split
          · rename_i hcb
            exact .cancel ht (h.mem_of_armed ht hcb)
          · exact .idle (by rintro _ ⟨⟩)
  | refresh a now =>
      cases ht : m.heap a with
      | none => simp [run, refresh, ht, Except.toOption] at hrun
      | some t =>
          rw [run, h.refresh_eq ht] at hrun
          simp only [Except.toOption, Option.map_some, Option.some.injEq, Prod.mk.injEq] at hrun
          obtain ⟨rfl, rfl⟩ := hrun
          split
          · rename_i hcb
            exact .refresh ht (h.mem_of_armed ht hcb) hcb
          · exact .idle (by rintro _ ⟨⟩)
  | reset a ms fromNow seen now =>
      by_cases hsame : ms = seen ∧ fromNow = false
      · simp only [run, reset, if_pos hsame, Except.toOption, Option.map_some,
          Option.some.injEq, Prod.mk.injEq] at hrun
        obtain ⟨rfl, rfl⟩ := hrun
        exact .idle (by rintro _ ⟨⟩)
      · cases ht : m.heap a with
        | none => simp [run, reset, hsame, ht, Except.toOption] at hrun
        | some t =>
            rw [run, h.reset_eq ht hsame] at hrun
            simp only [Except.toOption, Option.map_some, Option.some.injEq] at hrun
            split at hrun
            · rename_i hcb
              exact .reset ht (h.mem_of_armed ht hcb) hcb hrun
            · obtain ⟨rfl, rfl⟩ := Prod.mk.inj hrun
              exact .idle (by rintro _ ⟨⟩)
  | getNextTimer now =>
      simp only [run, getNextTimer_eq, Option.some.injEq, Prod.mk.injEq] at hrun
      obtain ⟨rfl, rfl⟩ := hrun
      exact .getNextTimer
  | listExpiredCb now probe =>
      simp only [run, Option.ite_none_right_eq_some, Option.some.injEq, Prod.mk.injEq] at hrun
      obtain ⟨hprobe, rfl, rfl⟩ := hrun
      exact .listExpiredCb hprobe
  | release a =>
      simp only [run, Option.ite_none_left_eq_some, Option.some.injEq, Prod.mk.injEq] at hrun
      obtain ⟨hout, rfl, rfl⟩ := hrun
      exact .release hout

/-- Every critical section keeps the set ordered. -/
theorem Move.stored {op : Op C} {front : Bool} (hmove : Move m op front m')
    (h : Stored [] m) : Stored [] m' := by
  cases hmove with
  | addTimer hfree => exact (h.alloc hfree rfl).addTimerLocked
  | cancel ht hmem => exact (h.erase hmem).disarm ht
  | @refresh a now t ht hmem hcb =>
      have hput := (h.erase hmem).put (t := { t with next := add64 now t.ms })
        (List.mem_cons_self ..) hcb
      exact hput.insert
  | @reset a ms seen now fromNow front t m' ht hmem hcb hadd =>
      have hput := (h.erase hmem).put (t := { t with
        ms := ms
        next := add64 (if fromNow then now else sub64 t.next t.ms) ms })
        (List.mem_cons_self ..) hcb
      obtain rfl : _ = m' := congrArg Prod.snd hadd
      exact hput.addTimerLocked
  | idle _ => exact h
  | getNextTimer => exact ⟨h.sorted, h.alive, h.armed, h.outside, h.out_nodup⟩
  | listExpiredCb hprobe => exact h.listExpiredCb hprobe
  | release hout => exact h.release hout

theorem reachable_stored (h : (system C).Reachable m) : Stored [] m := by
  refine h.invariant (P := Stored []) ?_ ?_
  · rintro m ⟨now, rfl⟩
    exact new_stored now
  · intro m op m' hm _ hstep
    obtain ⟨⟨front, m''⟩, hrun, rfl⟩ := Option.map_eq_some_iff.mp hstep
    exact (run_move hm hrun).stored hm

/-- **The timer set stays ordered and holds the armed timers**, so
`cancel` always finds what it erases. -/
theorem timers_ordered (h : (system C).Reachable m) :
    m.timers.Pairwise (fun a b => comparator m.next (some a) (some b) = true) ∧
      m.timers.Nodup ∧ (∀ a ∈ m.timers, ∃ t, m.heap a = some t) ∧
      (∀ a t, m.heap a = some t → (a ∈ m.timers ↔ t.cb ≠ none)) ∧
      (∀ a t, m.heap a = some t → t.cb ≠ none →
        (m.put a { t with cb := none }).find a ≠ none) ∧
      (∀ a t, m.heap a = some t → m.cancel a ≠ .error .eraseEnd) := by
  have hs := reachable_stored h
  refine ⟨hs.sorted, hs.nodup, fun a ha => hs.alive a (.inl ha), ?_, ?_, ?_⟩
  · intro a t ht
    have harmed := hs.armed a t ht
    rw [Option.isSome_iff_ne_none] at harmed
    rw [harmed]
    simp
  · intro a t ht hcb
    have hmem := hs.mem_of_armed ht (Option.isSome_iff_ne_none.mpr hcb)
    have hfind : (m.put a { t with cb := none }).find a = some (m.timers.idxOf a) := by
      rw [find, next_put_cb ht]
      exact hs.find_eq hmem
    rw [hfind]
    exact Option.some_ne_none _
  · intro a t ht hend
    rw [hs.cancel_eq ht] at hend
    cases hend

/-- A recurring timer that has expired once and a later one-shot timer:
two in the set, and cancelling either is safe. -/
theorem timers_ordered_expired :
    ∃ m, (system Unit).Reachable m ∧ m.timers = [2, 1] ∧ m.timers.Nodup ∧
      m.cancel 1 ≠ .error .eraseEnd := by
  have hrun : (system Unit).replay (new 0)
      [.addTimer 1 10 (.fn ()) true 0, .addTimer 2 12 (.fn ()) false 1, .listExpiredCb 10 3] =
      some (((new 0).addTimer 1 10 (some (.fn ())) true 0).2.addTimer 2 12 (some (.fn ())) false 1
        |>.2.listExpiredCb 10 3).2 := rfl
  have hinit : (system Unit).Reachable (new 0) := .init ⟨0, rfl⟩
  have hr := System.replay_reachable hinit hrun
  obtain ⟨-, hnodup, -, -, -, hcancel⟩ := timers_ordered hr
  exact ⟨_, hr, by decide, hnodup, hcancel 1 ⟨true, 10, 20, some (.fn ())⟩ rfl⟩

end TimerManager

end Sylar
