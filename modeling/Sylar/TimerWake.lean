import Sylar.TimerStore
import Mathlib.Algebra.Order.Monoid.Unbundled.WithTop
import Mathlib.Data.List.MinMax

/-!
# No timer wake-up is lost

The poller sleeps as long as `getNextTimer` told it to. A timer that
enters the set before the smallest key of that moment must wake it,
and only `addTimer` looks for that: it sets `m_tickled` and calls
`onTimerInsertedAtFront`. `refresh` and the re-insertion of recurring
timers in `listExpiredCb` do not.

They need not. A timer's start `m_next - m_ms` is never later than the
clock (`Timely.started`), so `refresh`, which restarts it now, can only
move its key up; and a recurring timer is re-inserted after its old key
has passed. The invariant `Timely` says both: with `m_tickled` clear,
no key is below the smallest one at the last `getNextTimer`.

The clock never goes back. Functions that read it before they take the
lock may use any earlier reading.
-/

namespace Sylar

namespace TimerManager

variable {C : Type} {m m' : TimerManager C} {a b : Nat} {t : Timer C} {out : List Nat}

/-- The smallest `m_next` in the set. -/
def minNext (m : TimerManager C) : WithTop Nat := (m.timers.map m.next).minimum

/-- What the clock may show to a critical section at time `clock`. -/
def Op.ReadsAt (clock : Nat) : Op C → Prop
  | .addTimer _ _ _ _ now => now ≤ clock
  | .refresh _ now => now = clock
  | .reset _ _ _ _ now => now = clock
  | .getNextTimer now => now = clock
  | .listExpiredCb now _ => now ≤ clock
  | .cancel _ => True
  | .release _ => True

/-- `now + ms` does not overflow and no clock rollback is detected. -/
def Op.Plain (m : TimerManager C) : Op C → Prop
  | .addTimer _ ms _ _ now => now + ms < 2 ^ 64
  | .refresh a now => ∀ t, m.heap a = some t → now + t.ms < 2 ^ 64
  | .reset _ ms _ _ now => now + ms < 2 ^ 64
  | .listExpiredCb now _ => (m.detectClockRollover now).1 = false ∧
      ∀ a t, m.heap a = some t → now + t.ms < 2 ^ 64
  | .getNextTimer _ => True
  | .cancel _ => True
  | .release _ => True

/-- The manager next to the time, the smallest key the last
`getNextTimer` saw, and whether an insertion since then goes on to call
`onTimerInsertedAtFront`. -/
structure Watched (C : Type) where
  manager : TimerManager C
  clock : Nat
  lastMin : WithTop Nat
  committed : Bool

inductive Watched.Event (C : Type) where
  | tick (now : Nat)
  | run (op : Op C)

namespace Watched

/-- What is known after a critical section: `getNextTimer` starts the
watch anew. -/
def observe (w : Watched C) (front : Bool) (m : TimerManager C) : Op C → Watched C
  | .getNextTimer _ =>
      { w with manager := m, lastMin := w.manager.minNext, committed := false }
  | _ => { w with manager := m, committed := w.committed || front }

/-- Critical sections in any order while the time goes on. -/
def system (C : Type) : System (Watched C) (Event C) where
  init w := w.manager = new w.clock ∧ w.lastMin = ⊤ ∧ w.committed = false
  step w
    | .tick now => if w.clock ≤ now then some { w with clock := now } else none
    | .run op => (w.manager.run op).map fun r => w.observe r.1 r.2 op

/-- The runs in question: the clock is read as it is, without overflow
or rollback. -/
def Regular (w : Watched C) : Event C → Prop
  | .tick _ => True
  | .run op => op.ReadsAt w.clock ∧ op.Plain w.manager

end Watched

/-! ## The invariant -/

structure Timely (clock : Nat) (lastMin : WithTop Nat) (m : TimerManager C) : Prop where
  started : ∀ a t, a ∈ m.timers → m.heap a = some t →
    t.ms ≤ t.next ∧ t.next ≤ clock + t.ms ∧ t.next < 2 ^ 64
  waking : m.tickled = true ∨ ∀ a ∈ m.timers, lastMin ≤ (m.next a : WithTop Nat)

variable {clock now : Nat} {lastMin : WithTop Nat}

theorem natCast_le {a b : Nat} (h : a ≤ b) : (a : WithTop Nat) ≤ (b : WithTop Nat) :=
  WithTop.coe_le_coe.mpr h

theorem Timely.tick (h : Timely clock lastMin m) (hle : clock ≤ now) : Timely now lastMin m where
  started a t ha ht := by
    have := h.started a t ha ht
    omega
  waking := h.waking

/-- Fewer timers in the set. -/
theorem Timely.subset (h : Timely clock lastMin m) (hheap : m'.heap = m.heap)
    (htick : m'.tickled = m.tickled) (hsub : ∀ a ∈ m'.timers, a ∈ m.timers) :
    Timely clock lastMin m' where
  started a t ha ht := h.started a t (hsub a ha) (hheap ▸ ht)
  waking := by
    rw [htick]
    refine h.waking.imp id fun hmin a ha => ?_
    rw [next, hheap]
    exact hmin a (hsub a ha)

theorem Timely.put (h : Timely clock lastMin m) (hout : a ∉ m.timers) :
    Timely clock lastMin (m.put a t) where
  started b t' hb ht' := by
    have hba : b ≠ a := fun heq => hout (heq ▸ hb)
    rw [heap_put_ne m t hba] at ht'
    exact h.started b t' hb ht'
  waking := by
    refine h.waking.imp id fun hmin b hb => ?_
    have hba : b ≠ a := fun heq => hout (heq ▸ hb)
    rw [next_put_ne m t hba]
    exact hmin b hb

/-- An insertion that bypasses the check for the front needs a key that
is not below `lastMin`. -/
theorem Timely.insert (h : Timely clock lastMin m) (ht : m.heap a = some t)
    (hstart : t.ms ≤ t.next ∧ t.next ≤ clock + t.ms ∧ t.next < 2 ^ 64)
    (hmin : m.tickled = true ∨ lastMin ≤ (t.next : WithTop Nat)) :
    Timely clock lastMin (m.insert a) where
  started b t' hb ht' := by
    rcases mem_insert.mp hb with rfl | hb
    · obtain rfl : t' = t := Option.some.inj (ht'.symm.trans ht)
      exact hstart
    · exact h.started b t' hb ht'
  waking := by
    rcases h.waking with htick | hall
    · exact .inl htick
    · refine hmin.imp id fun hmin b hb => ?_
      rcases mem_insert.mp hb with rfl | hb
      · show lastMin ≤ (m.next b : WithTop Nat)
        rw [next_eq ht]
        exact hmin
      · exact hall b hb

/-- `addTimer` inserts any key: below `lastMin` it is the front, and
then the poller is told. -/
theorem Timely.addTimerLocked (h : Timely clock lastMin m) (hs : Stored (a :: out) m)
    (ht : m.heap a = some t)
    (hstart : t.ms ≤ t.next ∧ t.next ≤ clock + t.ms ∧ t.next < 2 ^ 64) :
    Timely clock lastMin (m.addTimerLocked a).2 := by
  simp only [TimerManager.addTimerLocked]
  split
  · exact ⟨fun b t' hb ht' => by
      rcases mem_insert.mp hb with rfl | hb
      · obtain rfl : t' = t := Option.some.inj (ht'.symm.trans ht)
        exact hstart
      · exact h.started b t' hb ht', .inl rfl⟩
  · rename_i hfront
    refine h.insert ht hstart ?_
    rcases h.waking with htick | hall
    · exact .inl htick
    by_cases htick : m.tickled = true
    · exact .inl htick
    right
    -- not in front, so an old timer is, and its key is not above the new one
    have hnot : (m.insert a).timers.head? ≠ some a := by
      intro hhead
      apply hfront
      rw [hhead]
      simpa [TimerManager.insert] using htick
    have hhead : (m.insert a).timers.head? = m.timers.head? :=
      (OrderedSet.head_insert (r := Before m.next) a m.timers).resolve_left hnot
    cases hl : (m.insert a).timers with
    | nil =>
        have : a ∈ (m.insert a).timers := mem_insert.mpr (.inl rfl)
        rw [hl] at this
        cases this
    | cons f rest =>
        have hfa : f ≠ a := by
          rintro rfl
          exact hnot (by rw [hl]; rfl)
        have hf : f ∈ m.timers := by
          rw [hl, List.head?_cons] at hhead
          exact List.mem_of_head? hhead.symm
        have ha : a ∈ rest := by
          have : a ∈ (m.insert a).timers := mem_insert.mpr (.inl rfl)
          rw [hl] at this
          exact (List.mem_cons.mp this).resolve_left fun heq => hfa heq.symm
        have hsorted : (f :: rest).Pairwise (Before m.next) := hl ▸ hs.insert.sorted
        have hbefore := before_iff.mp ((List.pairwise_cons.mp hsorted).1 a ha)
        rw [next_eq ht] at hbefore
        calc lastMin ≤ (m.next f : WithTop Nat) := hall f hf
          _ ≤ (t.next : WithTop Nat) := natCast_le (by omega)

/-! ## The critical sections -/

/-- Expired timers that go back into the set get a key that is not
below the one they had. -/
theorem Timely.rearm (hnow : now ≤ clock) : ∀ {out : List Nat} {m : TimerManager C},
    Timely clock lastMin m → Stored out m →
    (∀ a t, m.heap a = some t → now + t.ms < 2 ^ 64) →
    (∀ a ∈ out, m.next a ≤ now ∧ (m.tickled = true ∨ lastMin ≤ (m.next a : WithTop Nat))) →
    Timely clock lastMin (rearm now out m).2
  | [], _, h, _, _, _ => h
  | a :: rest, m, h, hs, hfits, hdue => by
      obtain ⟨t, ht⟩ := hs.alive a (.inr (List.mem_cons_self ..))
      have hcb : t.cb.isSome := (hs.armed a t ht).mpr (.inr (List.mem_cons_self ..))
      have hout : a ∉ m.timers := hs.outside a (List.mem_cons_self ..)
      have hrest : ∀ b ∈ rest, b ≠ a := by
        rintro b hb rfl
        exact (List.nodup_cons.mp hs.out_nodup).1 hb
      have hfit := hfits a t ht
      obtain ⟨hle, hmin⟩ := hdue a (List.mem_cons_self ..)
      rw [next_eq ht] at hle hmin
      simp only [TimerManager.rearm, ht]
      split
      · set t' : Timer C := { t with next := add64 now t.ms }
        have ht' : (m.put a t').heap a = some t' := heap_put_self m a t'
        have hnext : t'.next = now + t.ms := add64_eq hfit
        have hins := (h.put (t := t') hout).insert ht'
          (by
            show t.ms ≤ t'.next ∧ t'.next ≤ clock + t.ms ∧ t'.next < 2 ^ 64
            omega)
          (hmin.imp id fun hmin => hmin.trans (natCast_le (by omega)))
        have hput : Stored (a :: rest) (m.put a t') := hs.put (List.mem_cons_self ..) hcb
        refine hins.rearm hnow hput.insert ?_ ?_
        · intro b u hb
          by_cases hba : b = a
          · subst hba
            obtain rfl := Option.some.inj (hb.symm.trans ht')
            exact hfit
          · exact hfits b u ((heap_put_ne m t' hba).symm.trans hb)
        · intro b hb
          have hb' := hdue b (List.mem_cons_of_mem _ hb)
          rwa [← next_put_ne m t' (hrest b hb)] at hb'
      · set t' : Timer C := { t with cb := none }
        refine (h.put (t := t') hout).rearm hnow (hs.disarm ht) ?_ ?_
        · intro b u hb
          by_cases hba : b = a
          · subst hba
            obtain rfl := Option.some.inj (hb.symm.trans (heap_put_self m b t'))
            exact hfit
          · exact hfits b u ((heap_put_ne m t' hba).symm.trans hb)
        · intro b hb
          have hb' := hdue b (List.mem_cons_of_mem _ hb)
          rwa [← next_put_ne m t' (hrest b hb)] at hb'

theorem Timely.listExpiredCb (h : Timely clock lastMin m) (hs : Stored [] m) {probe : Nat}
    (hprobe : m.heap probe = none) (hnow : now ≤ clock)
    (hroll : (m.detectClockRollover now).1 = false)
    (hfits : ∀ a t, m.heap a = some t → now + t.ms < 2 ^ 64) :
    Timely clock lastMin (m.listExpiredCb now probe).2 := by
  rcases listExpiredCb_cases hs hprobe with heq | heq | ⟨n, heq, hdue⟩
  · rw [heq]
    exact h
  · rw [heq]
    exact h.subset rfl rfl fun _ ha => ha
  · rw [heq]
    refine Timely.rearm hnow (h.subset rfl rfl fun _ ha => List.mem_of_mem_drop ha)
      (hs.takeOut n now) hfits ?_
    intro a ha
    exact ⟨hdue hroll a ha, h.waking.imp id fun hall => hall a (List.mem_of_mem_take ha)⟩

/-- A timer that leaves the set and comes back with a start that is not
later than the clock. -/
theorem Timely.erase (h : Timely clock lastMin m) (hs : Stored [] m) :
    Timely clock lastMin (m.erase (m.timers.idxOf a)) ∧
      a ∉ (m.erase (m.timers.idxOf a)).timers := by
  refine ⟨h.subset rfl rfl fun b hb => ((mem_erase hs).mp hb).2, fun hmem => ?_⟩
  exact ((mem_erase hs).mp hmem).1 rfl

theorem Timely.refresh (h : Timely clock lastMin m) (hs : Stored [] m) (ht : m.heap a = some t)
    (hmem : a ∈ m.timers) (hfit : clock + t.ms < 2 ^ 64) :
    Timely clock lastMin
      (((m.erase (m.timers.idxOf a)).put a { t with next := add64 clock t.ms }).insert a) := by
  obtain ⟨herase, hout⟩ := h.erase (a := a) hs
  obtain ⟨-, hstart, -⟩ := h.started a t hmem ht
  set t' : Timer C := { t with next := add64 clock t.ms }
  have hnext : t'.next = clock + t.ms := add64_eq hfit
  refine (herase.put (t := t') hout).insert (heap_put_self _ a t') ?_ ?_
  · show t.ms ≤ t'.next ∧ t'.next ≤ clock + t.ms ∧ t'.next < 2 ^ 64
    omega
  · refine h.waking.imp id fun hall => (hall a hmem).trans ?_
    rw [next_eq ht]
    exact natCast_le (by omega)

theorem Timely.reset (h : Timely clock lastMin m) (hs : Stored [] m) (ht : m.heap a = some t)
    (hmem : a ∈ m.timers) (hcb : t.cb.isSome) {ms : Nat} {fromNow : Bool}
    (hfit : clock + ms < 2 ^ 64) :
    Timely clock lastMin (((m.erase (m.timers.idxOf a)).put a { t with
      ms := ms
      next := add64 (if fromNow then clock else sub64 t.next t.ms) ms }).addTimerLocked a).2 := by
  obtain ⟨herase, hout⟩ := h.erase (a := a) hs
  obtain ⟨hle, hstart, hlt⟩ := h.started a t hmem ht
  have hfrom : (if fromNow then clock else sub64 t.next t.ms) ≤ clock := by
    rw [sub64_eq hle hlt]
    split <;> omega
  set start := if fromNow then clock else sub64 t.next t.ms
  set t' : Timer C := { t with ms := ms, next := add64 start ms }
  have hnext : t'.next = start + ms := add64_eq (by omega)
  have hput : Stored [a] ((m.erase (m.timers.idxOf a)).put a t') :=
    (hs.erase hmem).put (List.mem_cons_self ..) hcb
  refine (herase.put (t := t') hout).addTimerLocked hput (heap_put_self _ a t') ?_
  show ms ≤ t'.next ∧ t'.next ≤ clock + ms ∧ t'.next < 2 ^ 64
  omega

theorem Timely.addTimer (h : Timely clock lastMin m) (hs : Stored [] m) (hfree : m.heap a = none)
    {ms : Nat} {cb : Callback C} {recurring : Bool} (hnow : now ≤ clock)
    (hfit : now + ms < 2 ^ 64) :
    Timely clock lastMin (m.addTimer a ms (some cb) recurring now).2 := by
  have hout : a ∉ m.timers := by
    intro hmem
    obtain ⟨t, ht⟩ := hs.alive a (.inl hmem)
    rw [hfree] at ht
    cases ht
  set t' : Timer C := ⟨recurring, ms, add64 now ms, some cb⟩
  have hnext : t'.next = now + ms := add64_eq hfit
  have hput : Stored [a] (m.put a t') := hs.alloc hfree rfl
  refine (h.put (t := t') hout).addTimerLocked hput (heap_put_self m a t') ?_
  show ms ≤ t'.next ∧ t'.next ≤ clock + ms ∧ t'.next < 2 ^ 64
  omega

theorem minNext_le (ha : a ∈ m.timers) : m.minNext ≤ (m.next a : WithTop Nat) :=
  List.minimum_le_of_mem' (List.mem_map_of_mem ha)

/-- `m_tickled` is set exactly when a call of `onTimerInsertedAtFront`
is on its way. -/
theorem rearm_tickled : ∀ (out : List Nat) (m : TimerManager C),
    (rearm now out m).2.tickled = m.tickled
  | [], _ => rfl
  | a :: rest, m => by
      simp only [rearm]
      cases m.heap a with
      | none => exact rearm_tickled rest m
      | some t =>
          simp only
          rw [rearm_tickled rest]
          split <;> rfl

theorem addTimerLocked_tickled (m : TimerManager C) (a : Nat) :
    (m.addTimerLocked a).2.tickled = (m.tickled || (m.addTimerLocked a).1) := by
  simp only [addTimerLocked]
  split
  · rename_i hfront
    rw [hfront, Bool.or_true]
  · rename_i hfront
    rw [Bool.eq_false_iff.mpr hfront, Bool.or_false]
    rfl

theorem Move.tickled {op : Op C} {front : Bool} (hmove : Move m op front m')
    (hs : Stored [] m) (hop : ∀ now, op ≠ .getNextTimer now) :
    m'.tickled = (m.tickled || front) := by
  cases hmove with
  | addTimer hfree => exact addTimerLocked_tickled ..
  | cancel ht hmem => exact (Bool.or_false _).symm
  | refresh ht hmem hcb => exact (Bool.or_false _).symm
  | reset ht hmem hcb hadd =>
      obtain rfl : _ = m' := congrArg Prod.snd hadd
      obtain rfl : _ = front := congrArg Prod.fst hadd
      exact addTimerLocked_tickled ..
  | idle _ => exact (Bool.or_false _).symm
  | getNextTimer => exact absurd rfl (hop _)
  | @listExpiredCb now probe hprobe =>
      rw [Bool.or_false]
      rcases listExpiredCb_cases hs hprobe with heq | heq | ⟨n, heq, -⟩
      · rw [heq]
      · rw [heq]
      · rw [heq, rearm_tickled]
  | release _ => exact (Bool.or_false _).symm

/-! ## Runs -/

namespace Watched

structure Inv (w : Watched C) : Prop where
  stored : Stored [] w.manager
  timely : Timely w.clock w.lastMin w.manager
  committed : w.committed = w.manager.tickled

theorem observe_eq {w : Watched C} {op : Op C} (hop : ∀ now, op ≠ .getNextTimer now)
    (front : Bool) (m : TimerManager C) :
    w.observe front m op = { w with manager := m, committed := w.committed || front } := by
  cases op with
  | getNextTimer now => exact absurd rfl (hop now)
  | addTimer addr ms cb recurring now => rfl
  | cancel a => rfl
  | refresh a now => rfl
  | reset a ms fromNow seen now => rfl
  | listExpiredCb now probe => rfl
  | release a => rfl

theorem Inv.run {w : Watched C} (h : w.Inv) {op : Op C} {front : Bool} {m' : TimerManager C}
    (hreads : op.ReadsAt w.clock) (hplain : op.Plain w.manager)
    (hmove : Move w.manager op front m') : (w.observe front m' op).Inv := by
  have hstored := hmove.stored h.stored
  by_cases hget : ∃ now, op = .getNextTimer now
  · obtain ⟨now, rfl⟩ := hget
    cases hmove with
    | idle hop => exact absurd rfl (hop now)
    | getNextTimer =>
        refine ⟨hstored, ⟨h.timely.started, .inr fun a ha => minNext_le ha⟩, rfl⟩
  · have hop : ∀ now, op ≠ .getNextTimer now := fun now heq => hget ⟨now, heq⟩
    rw [observe_eq hop]
    refine ⟨hstored, ?_, by rw [h.committed]; exact (hmove.tickled h.stored hop).symm⟩
    show Timely w.clock w.lastMin m'
    cases hmove with
    | addTimer hfree => exact h.timely.addTimer h.stored hfree hreads hplain
    | cancel ht hmem =>
        obtain ⟨herase, hout⟩ := h.timely.erase h.stored
        exact herase.put hout
    | refresh ht hmem hcb =>
        obtain rfl : _ = w.clock := hreads
        exact h.timely.refresh h.stored ht hmem (hplain _ ht)
    | reset ht hmem hcb hadd =>
        obtain rfl : _ = w.clock := hreads
        obtain rfl : _ = m' := congrArg Prod.snd hadd
        exact h.timely.reset h.stored ht hmem hcb hplain
    | idle _ => exact h.timely
    | getNextTimer => exact absurd rfl (hop _)
    | listExpiredCb hprobe =>
        exact h.timely.listExpiredCb h.stored hprobe hreads hplain.1 hplain.2
    | @release a hout =>
        refine ⟨fun b t hb ht => ?_, h.timely.waking.imp id fun hall b hb => ?_⟩
        · have hne : b ≠ a := fun heq => hout (heq ▸ hb)
          simp only [if_neg hne] at ht
          exact h.timely.started b t hb ht
        · have hne : b ≠ a := fun heq => hout (heq ▸ hb)
          simp only [next, if_neg hne]
          exact hall b hb

theorem reachable_inv {w : Watched C} (h : (system C).ReachableBy Regular w) : w.Inv := by
  refine h.invariant (P := Inv) ?_ ?_
  · rintro w ⟨hm, hmin, hcom⟩
    have hnil : w.manager.timers = [] := by rw [hm]; rfl
    refine ⟨hm ▸ new_stored w.clock, ⟨?_, .inr ?_⟩, by rw [hcom, hm]; rfl⟩
    · intro a t ha
      simp [hnil] at ha
    · intro a ha
      simp [hnil] at ha
  · intro w e w' hw hok hstep
    cases e with
    | tick now =>
        simp only [system, Option.ite_none_right_eq_some, Option.some.injEq] at hstep
        obtain ⟨hle, rfl⟩ := hstep
        exact ⟨hw.stored, hw.timely.tick hle, hw.committed⟩
    | run op =>
        obtain ⟨⟨front, m'⟩, hrun, rfl⟩ := Option.map_eq_some_iff.mp hstep
        exact hw.run hok.1 hok.2 (run_move hw.stored hrun)

/-- **No timer wake-up is lost**: when a timer is due earlier than the
poller knew at its last `getNextTimer`, `m_tickled` is set, and the
insertion that set it since then goes on to wake the poller. -/
theorem wakeup_not_lost {w : Watched C} (h : (system C).ReachableBy Regular w)
    (hmin : w.manager.minNext < w.lastMin) :
    w.manager.tickled = true ∧ w.committed = true := by
  have hw := reachable_inv h
  have htick : w.manager.tickled = true := by
    rcases hw.timely.waking with htick | hall
    · exact htick
    · refine absurd hmin (not_lt.mpr (List.le_minimum_of_forall_le ?_))
      intro n hn
      obtain ⟨a, ha, rfl⟩ := List.mem_map.mp hn
      exact hall a ha
  exact ⟨htick, hw.committed.trans htick⟩

/-- A timer due at 5, added after the poller was told 10. -/
theorem wakeup_not_lost_earlier :
    ∃ w, (system Unit).ReachableBy Regular w ∧ w.manager.minNext = (5 : Nat) ∧
      w.lastMin = (10 : Nat) ∧ w.manager.tickled = true ∧ w.committed = true := by
  have hinit : (system Unit).ReachableBy Regular ⟨new 0, 0, ⊤, false⟩ := .init ⟨rfl, rfl, rfl⟩
  have hfirst := hinit.step (e := .run (.addTimer 1 10 (.fn ()) false 0))
    (by simp [Regular, Op.ReadsAt, Op.Plain]) rfl
  have hget := hfirst.step (e := .run (.getNextTimer 0))
    (by simp [Regular, Op.ReadsAt, Op.Plain, observe]) rfl
  have hsecond := hget.step (e := .run (.addTimer 2 5 (.fn ()) false 0))
    (by simp [Regular, Op.ReadsAt, Op.Plain, observe]) rfl
  exact ⟨_, hsecond, by decide, by decide, wakeup_not_lost hsecond (by decide)⟩

end Watched

end TimerManager

end Sylar
