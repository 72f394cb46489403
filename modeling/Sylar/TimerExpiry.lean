import Sylar.TimerStore

/-!
# What listExpiredCb collects

`lower_bound` of a timer that is due now stops at its address among the
timers of that instant; the scan behind it takes in the others. Together
they cut the set right behind the last timer that is due, wherever the
address lies (`take_expiredCount`). The loop then deals with each timer
once, since no address occurs twice (`heap_rearm_mem`, `mem_timers_rearm`).
-/

namespace Sylar

namespace OrderedSet

variable {α : Type*} {r : α → α → Prop}

theorem drop_length_takeWhile (p : α → Bool) (l : List α) :
    l.drop (l.takeWhile p).length = l.dropWhile p := by
  induction l with
  | nil => rfl
  | cons x xs ih =>
      by_cases hpx : p x = true
      · rw [List.takeWhile_cons_of_pos hpx, List.dropWhile_cons_of_pos hpx]
        exact ih
      · rw [List.takeWhile_cons_of_neg hpx, List.dropWhile_cons_of_neg hpx]
        rfl

/-- Behind the place where a downward closed test fails it fails. -/
theorem not_of_mem_dropWhile {p : α → Bool} {a : α} {l : List α} (hl : l.Pairwise r)
    (hp : ∀ x ∈ l, ∀ y ∈ l, r x y → p y = true → p x = true) (ha : a ∈ l.dropWhile p) :
    p a = false := by
  induction l with
  | nil => cases ha
  | cons x xs ih =>
      obtain ⟨hx, hxs⟩ := List.pairwise_cons.mp hl
      by_cases hpx : p x = true
      · rw [List.dropWhile_cons_of_pos hpx] at ha
        exact ih hxs (fun y hy z hz => hp y (List.mem_cons_of_mem _ hy) z
          (List.mem_cons_of_mem _ hz)) ha
      · rw [List.dropWhile_cons_of_neg hpx] at ha
        by_contra hpa
        rw [Bool.not_eq_false] at hpa
        rcases List.mem_cons.mp ha with rfl | hmem
        · exact hpx hpa
        · exact hpx (hp x (List.mem_cons_self ..) a ha (hx a hmem) hpa)

end OrderedSet

namespace TimerManager

variable {C : Type} {m : TimerManager C} {a b now : Nat} {t : Timer C} {out : List Nat}

/-! ## The cut -/

theorem next_le_of_before (h : Before m.next a b) : m.next a ≤ m.next b := by
  rw [before_iff] at h
  omega

/-- Behind the cut no timer is due. -/
theorem lt_next_of_mem_drop (hs : Stored [] m) {probe : Nat} (hprobe : m.heap probe = none)
    (ha : a ∈ m.timers.drop (m.expiredCount now probe)) : now < m.next a := by
  have hne : ∀ b ∈ m.timers, b ≠ probe := by
    rintro b hb rfl
    obtain ⟨t, ht⟩ := hs.alive b (.inl hb)
    rw [hprobe] at ht
    cases ht
  set key := fun b => if b = probe then now else m.next b with hkey
  set before := fun b => decide (Before key b probe) with hbefore
  have hbefore_iff : ∀ b ∈ m.timers, before b = true ↔
      m.next b < now ∨ m.next b = now ∧ b < probe := by
    intro b hb
    simp only [hbefore, hkey, decide_eq_true_eq, before_iff, if_neg (hne b hb), if_true]
  -- the timers behind `lower_bound`
  set behind := m.timers.dropWhile before with hbehind
  have hsub : behind.Sublist m.timers := List.dropWhile_sublist _
  have hdrop : m.timers.drop (OrderedSet.lowerBound (Before key) probe m.timers) = behind :=
    OrderedSet.drop_length_takeWhile before m.timers
  have hlow : ∀ b ∈ behind, now ≤ m.next b := by
    intro b hb
    have hmem := hsub.subset hb
    have hfalse : before b = false := by
      refine OrderedSet.not_of_mem_dropWhile hs.sorted ?_ hb
      intro x hx y hy hxy hby
      rw [hbefore_iff x hx]
      rw [hbefore_iff y hy] at hby
      rw [before_iff] at hxy
      omega
    by_contra hlt
    have htrue := (hbefore_iff b hmem).mpr (.inl (Nat.lt_of_not_le hlt))
    rw [hfalse] at htrue
    cases htrue
  -- the timers behind the scan
  rw [expiredCount, ← List.drop_drop, hdrop, OrderedSet.drop_length_takeWhile] at ha
  have hbeq : (m.next a == now) = false := by
    refine OrderedSet.not_of_mem_dropWhile (p := fun b => m.next b == now)
      (hs.sorted.sublist hsub) ?_ ha
    intro x hx y hy hxy hy'
    have hle := next_le_of_before hxy
    have hge := hlow x hx
    rw [beq_iff_eq] at hy' ⊢
    omega
  have hge := hlow a ((List.dropWhile_sublist _).subset ha)
  have hneq : m.next a ≠ now := by simpa using hbeq
  omega

/-- The cut is behind the timers that are due. -/
theorem take_expiredCount (hs : Stored [] m) {probe : Nat} (hprobe : m.heap probe = none) :
    m.timers.take (m.expiredCount now probe) = m.timers.filter fun a => m.next a ≤ now := by
  set n := m.expiredCount now probe
  have hsplit : m.timers.filter (fun a => m.next a ≤ now) =
      (m.timers.take n ++ m.timers.drop n).filter fun a => m.next a ≤ now := by
    rw [List.take_append_drop]
  have htake : (m.timers.take n).filter (fun a => m.next a ≤ now) = m.timers.take n := by
    refine List.filter_eq_self.mpr fun a ha => ?_
    exact decide_eq_true (next_le_of_expired ha hprobe hs)
  have hdrop : (m.timers.drop n).filter (fun a => m.next a ≤ now) = [] := by
    refine List.filter_eq_nil_iff.mpr fun a ha => ?_
    have hlt := lt_next_of_mem_drop hs hprobe ha
    simpa using hlt
  rw [hsplit, List.filter_append, htake, hdrop, List.append_nil]

/-! ## The loop -/

/-- A timer that has been dealt with. -/
def rearmed (now : Nat) (t : Timer C) : Timer C :=
  if t.recurring then { t with next := add64 now t.ms } else { t with cb := none }

/-- One turn of the loop. -/
theorem rearm_cons (now : Nat) (ht : m.heap a = some t) (rest : List Nat) :
    ∃ m', rearm now (a :: rest) m = (t.cb :: (rearm now rest m').1, (rearm now rest m').2) ∧
      m'.heap a = some (rearmed now t) ∧ (∀ b, b ≠ a → m'.heap b = m.heap b) ∧
      ∀ b, b ∈ m'.timers ↔ b ∈ m.timers ∨ b = a ∧ t.recurring = true := by
  refine ⟨if t.recurring then (m.put a { t with next := add64 now t.ms }).insert a
    else m.put a { t with cb := none }, ?_, ?_, ?_, ?_⟩
  · rw [rearm, ht]
  · rw [rearmed]
    split
    · exact heap_put_self ..
    · exact heap_put_self ..
  · intro b hb
    split
    · exact heap_put_ne m _ hb
    · exact heap_put_ne m _ hb
  · intro b
    split
    · rename_i hrec
      rw [mem_insert, timers_put]
      tauto
    · rename_i hrec
      rw [timers_put]
      tauto

/-- The callbacks, in the order of the timers. -/
theorem rearm_fst (now : Nat) (hnodup : out.Nodup) (halive : ∀ a ∈ out, ∃ t, m.heap a = some t) :
    (rearm now out m).1 = out.map fun a => (m.heap a).bind Timer.cb := by
  induction out generalizing m with
  | nil => rfl
  | cons a rest ih =>
      obtain ⟨hnot, hrest⟩ := List.nodup_cons.mp hnodup
      obtain ⟨t, ht⟩ := halive a (List.mem_cons_self ..)
      obtain ⟨m', hloop, -, hheap, -⟩ := rearm_cons now ht rest
      have hsame : ∀ b ∈ rest, m'.heap b = m.heap b := by
        intro b hb
        exact hheap b fun heq => hnot (heq ▸ hb)
      have halive' : ∀ b ∈ rest, ∃ t, m'.heap b = some t := by
        intro b hb
        rw [hsame b hb]
        exact halive b (List.mem_cons_of_mem _ hb)
      rw [hloop]
      show t.cb :: (rearm now rest m').1 = _
      rw [ih hrest halive', List.map_cons, ht]
      congr 1
      refine List.map_congr_left fun b hb => ?_
      rw [hsame b hb]

/-- The other timers are left alone. -/
theorem heap_rearm_of_not_mem (halive : ∀ a ∈ out, ∃ t, m.heap a = some t) (hb : b ∉ out) :
    (rearm now out m).2.heap b = m.heap b := by
  induction out generalizing m with
  | nil => rfl
  | cons a rest ih =>
      obtain ⟨hne, hrest⟩ := not_or.mp (List.mem_cons.not.mp hb)
      obtain ⟨t, ht⟩ := halive a (List.mem_cons_self ..)
      obtain ⟨m', hloop, hself, hheap, -⟩ := rearm_cons now ht rest
      have halive' : ∀ c ∈ rest, ∃ t, m'.heap c = some t := by
        intro c hc
        by_cases hca : c = a
        · exact ⟨_, hca ▸ hself⟩
        · rw [hheap c hca]
          exact halive c (List.mem_cons_of_mem _ hc)
      rw [hloop]
      exact (ih halive' hrest).trans (hheap b hne)

/-- Each of the others is dealt with. -/
theorem heap_rearm_of_mem (hnodup : out.Nodup) (halive : ∀ a ∈ out, ∃ t, m.heap a = some t)
    (hb : b ∈ out) (ht : m.heap b = some t) :
    (rearm now out m).2.heap b = some (rearmed now t) := by
  induction out generalizing m with
  | nil => cases hb
  | cons a rest ih =>
      obtain ⟨hnot, hrest⟩ := List.nodup_cons.mp hnodup
      obtain ⟨u, hu⟩ := halive a (List.mem_cons_self ..)
      obtain ⟨m', hloop, hself, hheap, -⟩ := rearm_cons now hu rest
      have halive' : ∀ c ∈ rest, ∃ t, m'.heap c = some t := by
        intro c hc
        rw [hheap c fun heq => hnot (heq ▸ hc)]
        exact halive c (List.mem_cons_of_mem _ hc)
      rw [hloop]
      rcases List.mem_cons.mp hb with rfl | hmem
      · rw [hu] at ht
        obtain rfl := Option.some.inj ht
        exact (heap_rearm_of_not_mem halive' hnot).trans hself
      · refine ih hrest halive' hmem ?_
        rw [hheap b fun heq => hnot (heq ▸ hmem)]
        exact ht

/-- The recurring ones are in the set again. -/
theorem mem_timers_rearm (hnodup : out.Nodup) (halive : ∀ a ∈ out, ∃ t, m.heap a = some t) :
    b ∈ (rearm now out m).2.timers ↔
      b ∈ m.timers ∨ b ∈ out ∧ ∃ t, m.heap b = some t ∧ t.recurring = true := by
  induction out generalizing m with
  | nil => simp [rearm]
  | cons a rest ih =>
      obtain ⟨hnot, hrest⟩ := List.nodup_cons.mp hnodup
      obtain ⟨t, ht⟩ := halive a (List.mem_cons_self ..)
      obtain ⟨m', hloop, -, hheap, hmem⟩ := rearm_cons now ht rest
      have hsame : ∀ c ∈ rest, m'.heap c = m.heap c := by
        intro c hc
        exact hheap c fun heq => hnot (heq ▸ hc)
      have halive' : ∀ c ∈ rest, ∃ t, m'.heap c = some t := by
        intro c hc
        rw [hsame c hc]
        exact halive c (List.mem_cons_of_mem _ hc)
      have hrec : (b ∈ rest ∧ ∃ t, m'.heap b = some t ∧ t.recurring = true) ↔
          b ∈ rest ∧ ∃ t, m.heap b = some t ∧ t.recurring = true := by
        constructor
        · rintro ⟨hb, h⟩
          exact ⟨hb, hsame b hb ▸ h⟩
        · rintro ⟨hb, h⟩
          exact ⟨hb, (hsame b hb).symm ▸ h⟩
      have hself : (b = a ∧ t.recurring = true) ↔
          b = a ∧ ∃ t, m.heap b = some t ∧ t.recurring = true := by
        constructor
        · rintro ⟨rfl, h⟩
          exact ⟨rfl, t, ht, h⟩
        · rintro ⟨rfl, u, hu, h⟩
          rw [ht] at hu
          obtain rfl := Option.some.inj hu
          exact ⟨rfl, h⟩
      rw [hloop, ih hrest halive', hmem, hrec, hself, List.mem_cons, or_assoc, ← or_and_right]

/-! ## The function -/

/-- The timers `expired` have been dealt with at time `now`, and their
callbacks are `cbs`. -/
structure Dealt (now : Nat) (expired : List Nat) (m m' : TimerManager C)
    (cbs : List (Option (Callback C))) : Prop where
  cbs_eq : cbs = expired.map fun a => (m.heap a).bind Timer.cb
  callable : ∀ cb ∈ cbs, cb ≠ none
  once : expired.Nodup
  order : expired.Pairwise fun a b => m.next a ≤ m.next b
  oneShot : ∀ a ∈ expired, ∀ t, m.heap a = some t → t.recurring = false →
    a ∉ m'.timers ∧ m'.heap a = some { t with cb := none }
  recurring : ∀ a ∈ expired, ∀ t, m.heap a = some t → t.recurring = true →
    a ∈ m'.timers ∧ m'.heap a = some { t with next := now + t.ms }
  others : ∀ a, a ∉ expired → m'.heap a = m.heap a ∧ (a ∈ m'.timers ↔ a ∈ m.timers)
  later : ∀ a ∈ m'.timers, ∃ t, m'.heap a = some t ∧
    (now < t.next ∨ t.recurring = true ∧ t.ms = 0)

theorem Stored.nodup_take (hs : Stored [] m) (n : Nat) : (m.timers.take n).Nodup :=
  hs.nodup.sublist (List.take_sublist ..)

theorem Stored.alive_take (hs : Stored [] m) (n : Nat) :
    ∀ a ∈ m.timers.take n, ∃ t, m.heap a = some t :=
  fun a ha => hs.alive a (.inl (List.mem_of_mem_take ha))

/-- The first `n` timers, with no timer due behind them. -/
theorem dealt_take (hs : Stored [] m) (n prev : Nat)
    (hms : ∀ a ∈ m.timers, ∀ t, m.heap a = some t → now + t.ms < 2 ^ 64)
    (hlater : ∀ a ∈ m.timers.drop n, now < m.next a) :
    Dealt now (m.timers.take n) m
      (rearm now (m.timers.take n)
        { m with timers := m.timers.drop n, previouseTime := prev }).2
      (rearm now (m.timers.take n)
        { m with timers := m.timers.drop n, previouseTime := prev }).1 := by
  set m₀ : TimerManager C := { m with timers := m.timers.drop n, previouseTime := prev }
  have hnodup := hs.nodup_take n
  have hmem : ∀ a ∈ m.timers.take n, a ∈ m.timers := fun a => List.mem_of_mem_take
  have hdisj : ∀ a ∈ m.timers.take n, a ∉ m.timers.drop n :=
    fun a ha hb => List.disjoint_take_drop hs.nodup (Nat.le_refl n) ha hb
  have halive : ∀ a ∈ m.timers.take n, ∃ t, m₀.heap a = some t :=
    hs.alive_take n
  have hfst := rearm_fst now hnodup halive
  have hrec : ∀ a ∈ m.timers.take n, ∀ t, m.heap a = some t → t.recurring = true →
      (rearm now (m.timers.take n) m₀).2.heap a = some { t with next := now + t.ms } := by
    intro a ha t ht hr
    rw [heap_rearm_of_mem hnodup halive ha ht, rearmed, if_pos hr,
      add64_eq (hms a (hmem a ha) t ht)]
  refine ⟨hfst, ?_, hnodup, ?_, ?_, ?_, ?_, ?_⟩
  · rw [hfst]
    intro cb hcb hnone
    obtain ⟨a, ha, rfl⟩ := List.mem_map.mp hcb
    obtain ⟨t, ht⟩ := halive a ha
    have harmed := (hs.armed a t ht).mpr (.inl (hmem a ha))
    rw [ht] at hnone
    rw [show t.cb = none from hnone] at harmed
    cases harmed
  · exact (hs.sorted.sublist (List.take_sublist ..)).imp next_le_of_before
  · intro a ha t ht hr
    refine ⟨?_, ?_⟩
    · rw [mem_timers_rearm hnodup halive]
      rintro (hdrop | ⟨-, u, hu, hr'⟩)
      · exact hdisj a ha hdrop
      · obtain rfl := Option.some.inj (ht.symm.trans hu)
        rw [hr] at hr'
        cases hr'
    · rw [heap_rearm_of_mem hnodup halive ha ht, rearmed, if_neg (by simp [hr])]
  · intro a ha t ht hr
    exact ⟨(mem_timers_rearm hnodup halive).mpr (.inr ⟨ha, t, ht, hr⟩), hrec a ha t ht hr⟩
  · intro a ha
    refine ⟨heap_rearm_of_not_mem halive ha, ?_⟩
    rw [mem_timers_rearm hnodup halive]
    have hsplit : a ∈ m.timers ↔ a ∈ m.timers.take n ∨ a ∈ m.timers.drop n := by
      rw [← List.mem_append, List.take_append_drop]
    rw [hsplit]
    simp only [ha, false_and, or_false, false_or]
    exact Iff.rfl
  · intro a ha
    rcases (mem_timers_rearm hnodup halive).mp ha with hdrop | ⟨htake, t, ht, hr⟩
    · obtain ⟨t, ht⟩ := hs.alive a (.inl (List.mem_of_mem_drop hdrop))
      have hout : a ∉ m.timers.take n := fun htake => hdisj a htake hdrop
      refine ⟨t, (heap_rearm_of_not_mem halive hout).trans ht, .inl ?_⟩
      rw [← next_eq ht]
      exact hlater a hdrop
    · refine ⟨_, hrec a htake t ht hr, ?_⟩
      by_cases hzero : t.ms = 0
      · exact .inr ⟨hr, hzero⟩
      · left
        show now < now + t.ms
        omega

/-- The timers that `listExpiredCb` takes for expired. -/
def expired (m : TimerManager C) (now : Nat) : List Nat :=
  if (m.detectClockRollover now).1 then m.timers else m.timers.filter fun a => m.next a ≤ now

theorem filter_due_nil (hlater : ∀ a ∈ m.timers, now < m.next a) :
    m.timers.filter (fun a => m.next a ≤ now) = [] := by
  refine List.filter_eq_nil_iff.mpr fun a ha => ?_
  have hlt := hlater a ha
  simpa using hlt

/-- They are the first ones of the set, and the loop runs over them. -/
theorem listExpiredCb_eq (now : Nat) (hs : Stored [] m) {probe : Nat}
    (hprobe : m.heap probe = none) :
    ∃ n prev, m.timers.take n = m.expired now ∧
      (∀ a ∈ m.timers.drop n, now < m.next a) ∧
      m.listExpiredCb now probe = rearm now (m.timers.take n)
        { m with timers := m.timers.drop n, previouseTime := prev } := by
  cases htimers : m.timers with
  | nil =>
      refine ⟨0, m.previouseTime, ?_, by simp, ?_⟩
      · rw [expired, htimers]
        split <;> rfl
      · rw [TimerManager.listExpiredCb, htimers]
        show ([], m) = ([], { m with timers := [], previouseTime := m.previouseTime })
        rw [← htimers]
  | cons first rest =>
      rw [listExpiredCb_cons htimers, ← htimers, expired]
      cases hroll : (m.detectClockRollover now).1 with
      | true => exact ⟨m.timers.length, now, List.take_length, by simp, rfl⟩
      | false =>
          by_cases hfirst : m.next first > now
          · have hlater : ∀ a ∈ m.timers, now < m.next a := by
              intro a ha
              have hsorted := hs.sorted
              rw [htimers] at ha hsorted
              rcases List.mem_cons.mp ha with rfl | ha
              · exact hfirst
              · exact Nat.lt_of_lt_of_le hfirst
                  (next_le_of_before ((List.pairwise_cons.mp hsorted).1 a ha))
            refine ⟨0, now, (filter_due_nil hlater).symm, hlater, ?_⟩
            rw [if_pos (by simp [hfirst])]
            rfl
          · refine ⟨_, now, take_expiredCount hs hprobe,
              fun a ha => lt_next_of_mem_drop hs hprobe ha, ?_⟩
            rw [if_neg (by simp [hfirst])]
            rfl

/-- **`listExpiredCb` is exact**: it deals with the timers that are due,
and with all of them when the clock has been set back. -/
theorem listExpiredCb_exact (h : (system C).Reachable m) {probe : Nat}
    (hprobe : m.heap probe = none)
    (hms : ∀ a ∈ m.timers, ∀ t, m.heap a = some t → now + t.ms < 2 ^ 64) :
    ((m.detectClockRollover now).1 = false →
      Dealt now (m.timers.filter fun a => m.next a ≤ now) m (m.listExpiredCb now probe).2
        (m.listExpiredCb now probe).1) ∧
    ((m.detectClockRollover now).1 = true →
      Dealt now m.timers m (m.listExpiredCb now probe).2 (m.listExpiredCb now probe).1) := by
  have hs := reachable_stored h
  obtain ⟨n, prev, htake, hlater, hloop⟩ := listExpiredCb_eq now hs hprobe
  have hdealt := dealt_take hs n prev hms hlater
  rw [← hloop, htake, expired] at hdealt
  constructor
  · intro hroll
    rwa [hroll, if_neg Bool.false_ne_true] at hdealt
  · intro hroll
    rwa [hroll, if_pos rfl] at hdealt

/-- Two timers are due now, with the address of the dummy between theirs;
and two that are due in over an hour, when the clock is set back. -/
theorem listExpiredCb_exact_ties :
    (∃ m : TimerManager Nat, (system Nat).Reachable m ∧ m.timers = [1, 5, 9] ∧
      (m.listExpiredCb 10 3).1 = [some (.fn 7), some (.fn 8)] ∧
      (m.listExpiredCb 10 3).2.timers = [1, 9] ∧
      (m.listExpiredCb 10 3).2.heap 5 = some ⟨false, 10, 10, none⟩) ∧
    ∃ m : TimerManager Nat, (system Nat).Reachable m ∧ m.timers = [1, 5] ∧
      (∀ a ∈ m.timers, m.next a = 4000010) ∧
      (m.listExpiredCb 10 3).1 = [some (.fn 7), some (.fn 8)] ∧
      (m.listExpiredCb 10 3).2.timers = [1] ∧
      (m.listExpiredCb 10 3).2.heap 1 = some ⟨true, 10, 20, some (.fn 7)⟩ := by
  constructor
  · have hinit : (system Nat).Reachable (new 0) := .init ⟨0, rfl⟩
    have hr := hinit.next (e := .addTimer 1 10 (.fn 7) true 0) rfl
      |>.next (e := .addTimer 5 10 (.fn 8) false 0) rfl
      |>.next (e := .addTimer 9 30 (.fn 9) false 0) rfl
    refine ⟨_, hr, rfl, ?_⟩
    obtain ⟨hdealt, -⟩ := @listExpiredCb_exact Nat _ 10 hr 3 rfl (by
      intro a ha t ht
      rcases List.mem_cons.mp ha with rfl | ha
      · obtain rfl := Option.some.inj ht
        decide
      · rcases List.mem_cons.mp ha with rfl | ha
        · obtain rfl := Option.some.inj ht
          decide
        · obtain rfl := List.mem_singleton.mp ha
          obtain rfl := Option.some.inj ht
          decide)
    have hnow := hdealt rfl
    exact ⟨hnow.cbs_eq, rfl, (hnow.oneShot 5 (by decide) _ rfl rfl).2⟩
  · have hinit : (system Nat).Reachable (new 4000000) := .init ⟨4000000, rfl⟩
    have hr := hinit.next (e := .addTimer 1 10 (.fn 7) true 4000000) rfl
      |>.next (e := .addTimer 5 10 (.fn 8) false 4000000) rfl
    refine ⟨_, hr, rfl, by decide, ?_⟩
    obtain ⟨-, hdealt⟩ := @listExpiredCb_exact Nat _ 10 hr 3 rfl (by
      intro a ha t ht
      rcases List.mem_cons.mp ha with rfl | ha
      · obtain rfl := Option.some.inj ht
        decide
      · obtain rfl := List.mem_singleton.mp ha
        obtain rfl := Option.some.inj ht
        decide)
    have hback := hdealt rfl
    exact ⟨hback.cbs_eq, rfl, (hback.recurring 1 (by decide) _ rfl rfl).2⟩

end TimerManager

end Sylar
