import Sylar.EventRegistration

/-!
# The table of the IOManager grows

`m_fdContexts` under its own lock. `addEvent` looks at the size under
the read lock and, when the table is too small, resizes it under the
write lock: two critical sections, between which other threads run.
Afterwards it works on the context it has found. `delEvent`,
`cancelEvent` and `cancelAll` look their context up the same way; `idle`
has a pointer to it in the entry of `epoll_wait`.

The table holds addresses. `contexts` has every `FdContext` ever made,
at its address, so that an operation of the `Registry` on an address is
the critical section of that context's mutex. `lookup` is what
`m_fdContexts` says about a descriptor.

As long as no resize makes the table smaller, the address of a context
is its descriptor and all of them can be looked up (`Whole`).
-/

namespace Sylar

namespace IOManager

def Op.fd : Op → Int
  | .addEvent _ fd _ _ _ => fd
  | .delEvent fd _ _ => fd
  | .cancelEvent fd _ _ => fd
  | .cancelAll fd _ => fd
  | .dispatch fd _ _ => fd

/-- The operation on the context at an address. -/
def Op.onAddr (addr : Nat) : Op → Op
  | .addEvent caller _ event cb ctl => .addEvent caller addr event cb ctl
  | .delEvent _ event ctl => .delEvent addr event ctl
  | .cancelEvent _ event ctl => .cancelEvent addr event ctl
  | .cancelAll _ ctl => .cancelAll addr ctl
  | .dispatch _ ev ctl => .dispatch addr ev ctl

def Op.isAddEvent : Op → Bool
  | .addEvent .. => true
  | _ => false

/-- What a thread is doing. -/
inductive Call where
  | none
  /-- `addEvent` between the two locks -/
  | resize (op : Op)
  /-- before the critical section of a context -/
  | locked (op : Op) (addr : Nat)
deriving Repr, DecidableEq

/-! ## A critical section stays inside the table -/

/-- `x` has no index out of range, and a result that satisfies `P`. -/
def InRange {α : Type} (P : α → Prop) : Except Abort α → Prop
  | .error e => e ≠ .badIndex
  | .ok a => P a

theorem InRange.bind {α β : Type} {P : α → Prop} {Q : β → Prop} {x : Except Abort α}
    {f : α → Except Abort β} (hx : InRange P x) (hf : ∀ a, P a → InRange Q (f a)) :
    InRange Q (x >>= f) := by
  cases x with
  | error e => exact hx
  | ok a => exact hf a hx

variable {m : IOManager} {addr n : Nat} {event : Event} {ctl : Bool}

/-- The table has `n` contexts. -/
def HasLength (n : Nat) (m : IOManager) : Prop := m.fdContexts.length = n

theorem HasLength.put (h : HasLength n m) (fd : Int) (c : FdContext) : HasLength n (m.put fd c) := by
  show (m.fdContexts.set _ _).length = n
  rw [List.length_set]
  exact h

theorem HasLength.not_le (h : HasLength n m) (hlt : addr < n) :
    ¬(m.fdContexts.length : Int) ≤ addr := by
  rw [h]
  omega

theorem fdContext_inRange (h : HasLength n m) (hlt : addr < n) :
    InRange (fun _ => True) (m.fdContext addr) := by
  have hlt' : addr < m.fdContexts.length := h ▸ hlt
  have hget : m.fdContexts[addr]? = some m.fdContexts[addr] := List.getElem?_eq_getElem hlt'
  rw [fdContext_eq_ok.mpr ⟨Int.natCast_nonneg addr, hget⟩]
  trivial

theorem getContext_inRange (c : FdContext) (event : Event) :
    InRange (fun _ => True) (c.getContext event) := by
  unfold FdContext.getContext
  split
  · trivial
  · split
    · trivial
    · exact fun h => nomatch h

theorem triggerEvent_inRange (c : FdContext) (event : Event) :
    InRange (fun _ => True) (c.triggerEvent event) := by
  unfold FdContext.triggerEvent
  split
  · exact fun h => nomatch h
  · refine (getContext_inRange _ _).bind fun ctx _ => ?_
    split
    · exact fun h => nomatch h
    · split <;> trivial

theorem register_inRange (caller : Caller) (id : Nat) (cb : Option Nat) (ctx : EventContext) :
    InRange (fun _ => True) (register caller id cb ctx) := by
  unfold register
  split
  · trivial
  · split
    · trivial
    · exact fun h => nomatch h

theorem trigger_inRange (h : HasLength n m) (hlt : addr < n) :
    InRange (HasLength n) (m.trigger addr event) := by
  refine (fdContext_inRange h hlt).bind fun c _ => ?_
  exact (triggerEvent_inRange c event).bind fun r _ => h.put _ _

theorem triggerIf_inRange (h : HasLength n m) (hlt : addr < n) (bit : Bool) :
    InRange (HasLength n) (m.triggerIf bit addr event) := by
  cases bit with
  | true => exact trigger_inRange h hlt
  | false => exact h

theorem addEventLocked_inRange (h : HasLength n m) (hlt : addr < n) (caller : Caller) (id : Nat)
    (cb : Option Nat) :
    InRange (fun r => HasLength n r.2) (m.addEventLocked caller id addr event cb ctl) := by
  refine (fdContext_inRange h hlt).bind fun c _ => ?_
  simp only
  split
  · exact fun h => nomatch h
  · split
    · exact h
    · refine (getContext_inRange _ _).bind fun ctx _ => ?_
      split
      · exact fun h => nomatch h
      · exact (register_inRange ..).bind fun x _ => h.put _ _

theorem delEvent_inRange (h : HasLength n m) (hlt : addr < n) :
    InRange (fun r => HasLength n r.2) (m.delEvent addr event ctl) := by
  rw [delEvent, if_neg (h.not_le hlt)]
  refine (fdContext_inRange h hlt).bind fun c _ => ?_
  split
  · exact h
  · split
    · exact h
    · exact (getContext_inRange _ _).bind fun ctx _ => h.put _ _

theorem cancelEvent_inRange (h : HasLength n m) (hlt : addr < n) :
    InRange (fun r => HasLength n r.2) (m.cancelEvent addr event ctl) := by
  rw [cancelEvent, if_neg (h.not_le hlt)]
  refine (fdContext_inRange h hlt).bind fun c _ => ?_
  split
  · exact h
  · split
    · exact h
    · exact (trigger_inRange h hlt).bind fun m' h' => h'

theorem cancelAll_inRange (h : HasLength n m) (hlt : addr < n) :
    InRange (fun r => HasLength n r.2) (m.cancelAll addr ctl) := by
  rw [cancelAll, if_neg (h.not_le hlt)]
  refine (fdContext_inRange h hlt).bind fun c _ => ?_
  split
  · exact h
  · split
    · exact h
    · refine (triggerIf_inRange h hlt _).bind fun m₁ h₁ => ?_
      refine (fdContext_inRange h₁ hlt).bind fun c₁ _ => ?_
      refine (triggerIf_inRange h₁ hlt _).bind fun m₂ h₂ => ?_
      refine (fdContext_inRange h₂ hlt).bind fun c₂ _ => ?_
      split
      · exact h₂
      · exact fun h => nomatch h

theorem dispatch_inRange (h : HasLength n m) (hlt : addr < n) (ev : EpollEvents) :
    InRange (HasLength n) (m.dispatch addr ev ctl) := by
  refine (fdContext_inRange h hlt).bind fun c _ => ?_
  simp only
  split
  · exact h
  · split
    · exact h
    · exact (triggerIf_inRange h hlt _).bind fun m₁ h₁ => triggerIf_inRange h₁ hlt _

/-- An operation on a context that exists makes and deletes none. -/
theorem step_inRange {r : Registry} (hlt : addr < r.manager.fdContexts.length) (op : Op) :
    InRange (fun r' => r'.manager.fdContexts.length = r.manager.fdContexts.length)
      (r.step (op.onAddr addr)) := by
  have h : HasLength r.manager.fdContexts.length r.manager := rfl
  cases op with
  | addEvent caller fd event cb ctl =>
      rw [Op.onAddr, Registry.step, addEvent, if_pos (by omega)]
      exact (addEventLocked_inRange h hlt caller _ cb).bind fun x hx => hx
  | delEvent fd event ctl => exact (delEvent_inRange h hlt).bind fun x hx => hx
  | cancelEvent fd event ctl => exact (cancelEvent_inRange h hlt).bind fun x hx => hx
  | cancelAll fd ctl => exact (cancelAll_inRange h hlt).bind fun x hx => hx
  | dispatch fd ev ctl => exact (dispatch_inRange h hlt ev).bind fun x hx => hx

/-! ## The table -/

/-- The size that `addEvent` resizes the table to. -/
def Op.target (op : Op) : Nat := op.fd.toNat * 3 / 2

/-- What the call is about to do to a table of `size` contexts makes it
larger, and the new size is an `int`. -/
def Call.Grows (size : Nat) : Call → Prop
  | .resize op => size ≤ op.target ∧ op.target < 2 ^ 31
  | _ => True

instance (size : Nat) : (c : Call) → Decidable (c.Grows size)
  | .resize _ => inferInstanceAs (Decidable (_ ∧ _))
  | .none | .locked .. => inferInstanceAs (Decidable True)

structure FdTable where
  contexts : Registry
  fdContexts : List Nat
  calls : Nat → Call
  failed : Option Abort

namespace FdTable

/-- `contextResize(size)`: the new places get new contexts. -/
def contextResize (s : FdTable) (size : Nat) : FdTable :=
  let addr := s.contexts.manager.fdContexts.length
  let count := size - s.fdContexts.length
  { s with
    fdContexts := s.fdContexts.take size ++ List.range' addr count
    contexts := { s.contexts with
      manager := { s.contexts.manager with
        fdContexts := s.contexts.manager.fdContexts ++ List.replicate count .new } } }

/-- After the constructor. -/
def new : FdTable :=
  contextResize ⟨⟨⟨[], 0, []⟩, 0, 0⟩, [], fun _ => .none, none⟩ 32

/-- `(int)m_fdContexts.size()`. -/
def size (s : FdTable) : Int := toInt32 s.fdContexts.length

/-- The context of a descriptor, if the table has one. -/
def lookup (s : FdTable) (fd : Int) : Option Nat :=
  if s.size > fd then s.fdContexts[fd.toNat]? else none

def setCall (s : FdTable) (t : Nat) (c : Call) : FdTable :=
  { s with calls := fun u => if u = t then c else s.calls u }

/-- `fd_ctx = m_fdContexts[fd]`. -/
def enter (s : FdTable) (t : Nat) (op : Op) : FdTable :=
  match s.fdContexts[op.fd.toNat]? with
  | none => { s with failed := some .badIndex }
  | some addr => s.setCall t (.locked op addr)

/-- A call up to the release of the read lock; all but `addEvent` give
up where the table ends. -/
def begin (s : FdTable) (t : Nat) (op : Op) : Option FdTable :=
  if s.calls t = .none ∧ op.isDispatch = false ∧ 0 ≤ op.fd ∧ op.fd < 2 ^ 31 then
    if s.size > op.fd then some (s.enter t op)
    else if op.isAddEvent then some (s.setCall t (.resize op))
    else some s
  else none

/-- The part of `addEvent` under the write lock. -/
def resize (s : FdTable) (t : Nat) : Option FdTable :=
  match s.calls t with
  | .resize op => some ((s.contextResize op.target).enter t op)
  | _ => none

def outcome (s : FdTable) : Except Abort Registry → FdTable
  | .error e => { s with failed := some e }
  | .ok r => { s with contexts := r }

/-- The critical section of the context. -/
def run (s : FdTable) (t : Nat) : Option FdTable :=
  match s.calls t with
  | .locked op addr => some ((s.setCall t .none).outcome (s.contexts.step (op.onAddr addr)))
  | _ => none

/-- `idle` on an entry with a pointer to the context at `addr`. -/
def dispatch (s : FdTable) (addr : Nat) (ev : EpollEvents) (ctl : Bool) : Option FdTable :=
  if addr < s.contexts.manager.fdContexts.length then
    some (s.outcome (s.contexts.step (.dispatch addr ev ctl)))
  else none

inductive Action where
  | begin (t : Nat) (op : Op)
  | resize (t : Nat)
  | run (t : Nat)
  | dispatch (addr : Nat) (ev : EpollEvents) (ctl : Bool)
deriving Repr, DecidableEq

def step (s : FdTable) (a : Action) : Option FdTable :=
  if s.failed.isSome then none
  else
    match a with
    | .begin t op => s.begin t op
    | .resize t => s.resize t
    | .run t => s.run t
    | .dispatch addr ev ctl => s.dispatch addr ev ctl

/-- Any number of threads, in any order. -/
def system : System FdTable Action where
  init s := s = new
  step := step

/-- A resize makes the table larger, and its size is still an `int`. -/
def Growing (s : FdTable) : Action → Prop
  | .resize t => (s.calls t).Grows s.fdContexts.length
  | _ => True

instance (s : FdTable) : (a : Action) → Decidable (s.Growing a)
  | .resize _ => inferInstanceAs (Decidable (Call.Grows ..))
  | .begin .. | .run _ | .dispatch .. => inferInstanceAs (Decidable True)

/-! ## Every context stays in its place -/

structure Whole (s : FdTable) : Prop where
  addrs : s.fdContexts = List.range s.contexts.manager.fdContexts.length
  lower : 32 ≤ s.fdContexts.length
  upper : s.fdContexts.length < 2 ^ 31
  resizing : ∀ t op, s.calls t = .resize op → 32 ≤ op.fd ∧ op.fd < 2 ^ 31
  locked : ∀ t op addr, s.calls t = .locked op addr → op.fd = addr ∧ addr < s.fdContexts.length
  inRange : s.failed ≠ some .badIndex

variable {s s' : FdTable}

theorem Whole.length_eq (h : s.Whole) :
    s.fdContexts.length = s.contexts.manager.fdContexts.length := by
  conv_lhs => rw [h.addrs, List.length_range]

theorem Whole.getElem? (h : s.Whole) {i : Nat} (hi : i < s.fdContexts.length) :
    s.fdContexts[i]? = some i := by
  rw [h.addrs, List.getElem?_range (h.length_eq ▸ hi)]

theorem Whole.size_eq (h : s.Whole) : s.size = s.fdContexts.length := toInt32_eq h.upper

theorem Whole.lookup_eq (h : s.Whole) {i : Nat} (hi : i < s.fdContexts.length) :
    s.lookup i = some i := by
  rw [lookup, if_pos (by rw [h.size_eq]; omega)]
  exact h.getElem? hi

theorem new_whole : new.Whole where
  addrs := by decide
  lower := by decide
  upper := by decide
  resizing t op hcall := by cases hcall
  locked t op addr hcall := by cases hcall
  inRange := nofun

/-- A thread goes on to something that the table bears out. -/
theorem Whole.setCall (h : s.Whole) (t : Nat) {c : Call}
    (hres : ∀ op, c = .resize op → 32 ≤ op.fd ∧ op.fd < 2 ^ 31)
    (hloc : ∀ op addr, c = .locked op addr → op.fd = addr ∧ addr < s.fdContexts.length) :
    (s.setCall t c).Whole where
  addrs := h.addrs
  lower := h.lower
  upper := h.upper
  resizing u op hcall := by
    simp only [FdTable.setCall] at hcall
    split at hcall
    · exact hres op hcall
    · exact h.resizing u op hcall
  locked u op addr hcall := by
    simp only [FdTable.setCall] at hcall
    split at hcall
    · exact hloc op addr hcall
    · exact h.locked u op addr hcall
  inRange := h.inRange

theorem Whole.enter (h : s.Whole) (t : Nat) {op : Op} (h0 : 0 ≤ op.fd)
    (hlt : op.fd.toNat < s.fdContexts.length) : (s.enter t op).Whole := by
  rw [FdTable.enter, h.getElem? hlt]
  refine h.setCall t (fun _ hcall => nomatch hcall) fun op' addr hcall => ?_
  obtain ⟨rfl, rfl⟩ := Call.locked.inj hcall
  exact ⟨by omega, hlt⟩

theorem Whole.contextResize (h : s.Whole) {n : Nat} (hle : s.fdContexts.length ≤ n)
    (hlt : n < 2 ^ 31) : (s.contextResize n).Whole ∧ (s.contextResize n).fdContexts.length = n ∧
      s.fdContexts <+: (s.contextResize n).fdContexts := by
  have htable : (s.contextResize n).fdContexts = s.fdContexts ++
      List.range' s.contexts.manager.fdContexts.length (n - s.fdContexts.length) := by
    rw [FdTable.contextResize, List.take_of_length_le hle]
  have hlen : (s.contextResize n).fdContexts.length = n := by
    rw [htable, List.length_append, List.length_range']
    omega
  refine ⟨⟨?_, by have := h.lower; omega, by omega, h.resizing, fun t op addr hcall => ?_,
    h.inRange⟩, hlen, htable ▸ List.prefix_append ..⟩
  · rw [htable]
    show _ = List.range (s.contexts.manager.fdContexts ++ _).length
    rw [List.length_append, List.length_replicate]
    conv_lhs => rw [h.addrs, List.length_range]
    have happend := List.range'_append_1 (s := 0)
      (m := s.contexts.manager.fdContexts.length) (n := n - s.fdContexts.length)
    rw [Nat.zero_add, ← List.range_eq_range', ← List.range_eq_range'] at happend
    rwa [h.length_eq] at happend ⊢
  · obtain ⟨hfd, haddr⟩ := h.locked t op addr hcall
    exact ⟨hfd, by omega⟩

theorem Whole.outcome (h : s.Whole) {x : Except Abort Registry}
    (hx : InRange (fun r => r.manager.fdContexts.length = s.contexts.manager.fdContexts.length) x) :
    (s.outcome x).Whole ∧ (s.outcome x).fdContexts = s.fdContexts := by
  cases x with
  | error e =>
      refine ⟨⟨h.addrs, h.lower, h.upper, h.resizing, h.locked, ?_⟩, rfl⟩
      exact fun heq => hx (Option.some.inj heq)
  | ok r => exact ⟨⟨by rw [FdTable.outcome, hx]; exact h.addrs, h.lower, h.upper, h.resizing,
      h.locked, h.inRange⟩, rfl⟩

/-- One step of any thread. -/
theorem step_whole (h : s.Whole) {a : Action} (ha : s.Growing a) (hstep : s.step a = some s') :
    s'.Whole ∧ s.fdContexts <+: s'.fdContexts := by
  have henter {s : FdTable} (t : Nat) {op : Op} : (s.enter t op).fdContexts = s.fdContexts := by
    unfold FdTable.enter
    split <;> rfl
  unfold step at hstep
  split at hstep
  · cases hstep
  cases a with
  | begin t op =>
      simp only [begin] at hstep
      split at hstep
      · rename_i hop
        obtain ⟨-, -, h0, hlt⟩ := hop
        split at hstep
        · rename_i hsize
          obtain rfl := Option.some.inj hstep
          rw [h.size_eq] at hsize
          exact ⟨h.enter t h0 (by omega), [], (List.append_nil _).trans (henter t).symm⟩
        · rename_i hsize
          rw [h.size_eq] at hsize
          have hlow := h.lower
          split at hstep
          · obtain rfl := Option.some.inj hstep
            refine ⟨h.setCall t (fun op' hcall => ?_) (fun _ _ hcall => nomatch hcall),
              List.prefix_refl _⟩
            obtain rfl := Call.resize.inj hcall
            exact ⟨by omega, hlt⟩
          · obtain rfl := Option.some.inj hstep
            exact ⟨h, List.prefix_refl _⟩
      · cases hstep
  | resize t =>
      simp only [resize] at hstep
      split at hstep
      · rename_i op hcall
        obtain rfl := Option.some.inj hstep
        obtain ⟨hle, hlt⟩ : (Call.resize op).Grows s.fdContexts.length := hcall ▸ ha
        obtain ⟨hfd, -⟩ := h.resizing t op hcall
        obtain ⟨hwhole, hlen, hpre⟩ := h.contextResize hle hlt
        -- from 32 on, half as much again is more
        have hmore : op.fd.toNat < op.target := by
          unfold Op.target
          omega
        exact ⟨hwhole.enter t (by omega) (hlen.symm ▸ hmore), by rwa [henter]⟩
      · cases hstep
  | run t =>
      simp only [run] at hstep
      split at hstep
      · rename_i op addr hcall
        obtain rfl := Option.some.inj hstep
        obtain ⟨-, haddr⟩ := h.locked t op addr hcall
        have hwhole := h.setCall t (c := .none) (fun _ hcall => nomatch hcall)
          (fun _ _ hcall => nomatch hcall)
        obtain ⟨hwhole', heq⟩ := hwhole.outcome (step_inRange (h.length_eq ▸ haddr) op)
        exact ⟨hwhole', [], (List.append_nil _).trans heq.symm⟩
      · cases hstep
  | dispatch addr ev ctl =>
      simp only [dispatch] at hstep
      split at hstep
      · rename_i haddr
        obtain rfl := Option.some.inj hstep
        obtain ⟨hwhole, heq⟩ := h.outcome (step_inRange haddr (.dispatch addr ev ctl))
        exact ⟨hwhole, [], (List.append_nil _).trans heq.symm⟩
      · cases hstep

theorem reachable_whole (h : system.ReachableBy Growing s) : s.Whole :=
  h.invariant (by rintro s rfl; exact new_whole) fun _ _ _ hs ha hstep => (step_whole hs ha hstep).1

/-- As long as every resize is a growth, no context leaves its place:
the table is only extended, each context is found under its descriptor,
and the context that a call has found is found again ever after. -/
theorem registrations_reachable (h : system.ReachableBy Growing s) :
    s.failed ≠ some .badIndex ∧
    (∀ (addr : Nat) (c : FdContext), s.contexts.manager.fdContexts[addr]? = some c →
      s.lookup addr = some addr) ∧
    (∀ s', (system.startingAt s).ReachableBy Growing s' → s.fdContexts <+: s'.fdContexts) ∧
    ∀ t op addr, s.calls t = .locked op addr →
      ∀ s', (system.startingAt s).ReachableBy Growing s' → s'.lookup op.fd = some addr := by
  have hs := reachable_whole h
  have hrun (s' : FdTable) (h' : (system.startingAt s).ReachableBy Growing s') :
      s.fdContexts <+: s'.fdContexts :=
    h.run (R := fun s s' => s.fdContexts <+: s'.fdContexts) (fun _ => List.prefix_refl _)
      (fun _ _ _ => List.IsPrefix.trans)
      (fun _ _ _ hr ha hstep => (step_whole (reachable_whole hr) ha hstep).2) h'
  refine ⟨hs.inRange, fun addr c hc => ?_, hrun, fun t op addr hcall s' h' => ?_⟩
  · exact hs.lookup_eq (hs.length_eq ▸ (List.getElem?_eq_some_iff.mp hc).1)
  · obtain ⟨hfd, haddr⟩ := hs.locked t op addr hcall
    rw [hfd]
    exact (reachable_whole (h.later h')).lookup_eq (Nat.lt_of_lt_of_le haddr (hrun s' h').length_le)

/-- Of two threads that find the table too small the one with the
smaller descriptor resizes first. -/
theorem registrations_reachable_two :
    ∃ s, s.calls 0 = .locked (.addEvent ⟨some 9, 5, true⟩ 40 .READ none true) 40 ∧
      ∀ s', (system.startingAt s).ReachableBy Growing s' → s'.lookup 40 = some 40 := by
  have hrun : (system.replayBy Growing new
      [.begin 0 (.addEvent ⟨some 9, 5, true⟩ 40 .READ none true),
        .begin 1 (.addEvent ⟨some 9, 6, true⟩ 60 .READ none true), .resize 0, .resize 1]).map
      (fun s => s.calls 0) =
        some (.locked (.addEvent ⟨some 9, 5, true⟩ 40 .READ none true) 40) := by
    rfl
  obtain ⟨s, hs, hcall⟩ := Option.map_eq_some_iff.mp hrun
  have hreach := System.replayBy_reachable (.init rfl) hs
  exact ⟨s, hcall, fun s' h' => (registrations_reachable hreach).2.2.2 0 _ 40 hcall s' h'⟩

/-- The thread with the smaller descriptor resizes last: the table is
cut off below the larger one, whose event is registered and cannot be
found any more. -/
theorem registration_can_be_lost :
    ∃ s s', system.Reachable s ∧ system.step s (.resize 1) = some s' ∧
      s.lookup 60 = some 60 ∧ s'.fdContexts.length < s.fdContexts.length ∧
      s'.lookup 60 = none ∧
      (s'.contexts.manager.fdContexts[60]?).map FdContext.events = some .READ := by
  have hrun : (system.replay new
      [.begin 0 (.addEvent ⟨some 9, 5, true⟩ 60 .READ none true),
        .begin 1 (.addEvent ⟨some 9, 6, true⟩ 40 .READ none true), .resize 0, .run 0]).map
      (fun s => (s.lookup 60, (system.step s (.resize 1)).map fun s' =>
        (decide (s'.fdContexts.length < s.fdContexts.length), s'.lookup 60,
          (s'.contexts.manager.fdContexts[60]?).map FdContext.events))) =
      some (some 60, some (true, none, some .READ)) := by
    decide
  obtain ⟨s, hs, heq⟩ := Option.map_eq_some_iff.mp hrun
  obtain ⟨hfound, heq⟩ := Prod.mk.inj heq
  obtain ⟨s', hstep, heq⟩ := Option.map_eq_some_iff.mp heq
  obtain ⟨hshort, heq⟩ := Prod.mk.inj heq
  obtain ⟨hlost, hevents⟩ := Prod.mk.inj heq
  exact ⟨s, s', System.replay_reachable (.init rfl) hs, hstep, hfound, of_decide_eq_true hshort,
    hlost, hevents⟩

end FdTable

end IOManager

end Sylar
