import Sylar.FdManager
import Sylar.FdTable

/-!
# Indexing with a descriptor

`FdManager` and `IOManager` index a vector with the `int` that they are
given. They compare it with `(int)size()` before, which keeps large
numbers out and lets negative ones pass; only `get` has a test for -1.
Where the table is too small, `get(fd, true)` and `addEvent` resize it to
`fd * 1.5`, which is more than `fd` from 2 on.

Here are the parts of the functions that look at the two tables, each
with the accesses it makes. After an access out of range anything can
happen; here the call goes on as if there was nothing in its place. The
number that a negative `fd * 1.5` is converted to is undefined; here it
is 0.
-/

namespace Sylar

/-- `v[index]`, on a vector of `size` elements. -/
structure Access where
  index : Int
  size : Nat
deriving Repr, DecidableEq

def Access.InRange (a : Access) : Prop := 0 ≤ a.index ∧ a.index < a.size

instance (a : Access) : Decidable a.InRange := inferInstanceAs (Decidable (_ ∧ _))

namespace FdIndex

/-- The element at an index, if there is one. -/
def elem {α : Type} (l : List α) (i : Int) : Option α := if 0 ≤ i then l[i.toNat]? else none

def setElem {α : Type} (l : List α) (i : Int) (x : α) : List α :=
  if 0 ≤ i then l.set i.toNat x else l

/-- `fd * 1.5`, as a `size_t`. -/
def grownSize (fd : Int) : Nat := (fd * 3 / 2).toNat

/-! ## m_datas -/

/-- `get(fd, auto_create)` under the read lock: the accesses, and what it
returns if it does not go on. -/
def get (m : FdManager) (fd : Int) (autoCreate : Bool) : List Access × Option (Option Nat) :=
  if fd = -1 then ([], some none)
  else if m.size ≤ fd then ([], if autoCreate then none else some none)
  else
    let data := (elem m.datas fd).join
    ([⟨fd, m.datas.length⟩], if data.isSome || !autoCreate then some data else none)

/-- `get(fd, true)` under the write lock, with the new context at `addr`. -/
def create (m : FdManager) (fd : Int) (addr : Nat) : List Access × FdManager :=
  let m := if fd ≥ m.size then m.resize (grownSize fd) else m
  ([⟨fd, m.datas.length⟩], ⟨setElem m.datas fd (some addr)⟩)

def del (m : FdManager) (fd : Int) : List Access × FdManager :=
  if m.size ≤ fd then ([], m) else ([⟨fd, m.datas.length⟩], ⟨setElem m.datas fd none⟩)

/-! ## m_fdContexts -/

/-- `contextResize(size)` on the addresses of the contexts, new ones from
`addr` on; the loop looks at every place. -/
def contextResize (table : List Nat) (addr size : Nat) : List Access × List Nat :=
  ((List.range size).map fun i : Nat => (⟨(i : Int), size⟩ : Access),
    table.take size ++ List.range' addr (size - table.length))

/-- `addEvent(fd, ..)` under the read lock: the accesses, and `fd_ctx` if
it does not go on to the write lock. -/
def addEvent (table : List Nat) (fd : Int) : List Access × Option (Option Nat) :=
  if toInt32 table.length > fd then ([⟨fd, table.length⟩], some (elem table fd)) else ([], none)

/-- `addEvent(fd, ..)` under the write lock. -/
def grow (table : List Nat) (addr : Nat) (fd : Int) : List Access × List Nat :=
  let r := contextResize table addr (grownSize fd)
  (r.1 ++ [⟨fd, r.2.length⟩], r.2)

/-- How the other three find `fd_ctx`. -/
def lookup (table : List Nat) (fd : Int) : List Access × Option Nat :=
  if toInt32 table.length ≤ fd then ([], none) else ([⟨fd, table.length⟩], elem table fd)

def delEvent (table : List Nat) (fd : Int) : List Access × Option Nat := lookup table fd

def cancelEvent (table : List Nat) (fd : Int) : List Access × Option Nat := lookup table fd

def cancelAll (table : List Nat) (fd : Int) : List Access × Option Nat := lookup table fd

/-! ## Runs -/

/-- Where a thread is between the two locks. -/
inductive Call where
  | none
  | create (fd : Int)
  | grow (fd : Int)
deriving Repr, DecidableEq

/-- The two tables, how many contexts of the second there have been, the
threads, and every access so far. -/
structure Tables where
  manager : FdManager
  fdContexts : List Nat
  contexts : Nat
  calls : Nat → Call
  accesses : List Access

/-- The table that it goes on with, of `size` elements as an `int`,
reaches to the descriptor. -/
def Call.Reaches (size : Int) : Call → Prop
  | .create fd => if size ≤ fd then 2 ≤ fd else 0 ≤ fd
  | .grow fd => 2 ≤ fd
  | .none => True

instance (size : Int) : (c : Call) → Decidable (c.Reaches size)
  | .create fd => inferInstanceAs (Decidable (if size ≤ fd then 2 ≤ fd else 0 ≤ fd))
  | .grow _ => inferInstanceAs (Decidable (_ ≤ _))
  | .none => .isTrue trivial

namespace Tables

/-- After the constructors. -/
def new : Tables :=
  { manager := .new
    fdContexts := (contextResize [] 0 32).2
    contexts := 32
    calls := fun _ => .none
    accesses := (contextResize [] 0 32).1 }

inductive Event where
  | get (t : Nat) (fd : Int) (autoCreate : Bool)
  | create (t addr : Nat)
  | del (fd : Int)
  | addEvent (t : Nat) (fd : Int)
  | grow (t : Nat)
  | delEvent (fd : Int)
  | cancelEvent (fd : Int)
  | cancelAll (fd : Int)
deriving Repr, DecidableEq

/-- The argument is an `int`. -/
def IsInt (fd : Int) : Prop := -2 ^ 31 ≤ fd ∧ fd < 2 ^ 31

instance (fd : Int) : Decidable (IsInt fd) := inferInstanceAs (Decidable (_ ∧ _))

def setCall (s : Tables) (t : Nat) (c : Call) : Tables :=
  { s with calls := fun u => if u = t then c else s.calls u }

def log (s : Tables) (accesses : List Access) : Tables :=
  { s with accesses := s.accesses ++ accesses }

/-- A critical section of one of the two locks. -/
def step (s : Tables) : Event → Option Tables
  | .get t fd autoCreate =>
      if s.calls t = .none ∧ IsInt fd then
        let r := FdIndex.get s.manager fd autoCreate
        some ((s.log r.1).setCall t (if r.2.isSome then .none else .create fd))
      else none
  | .create t addr =>
      match s.calls t with
      | .create fd =>
          let r := FdIndex.create s.manager fd addr
          some ({ s.log r.1 with manager := r.2 }.setCall t .none)
      | _ => none
  | .del fd =>
      if IsInt fd then
        let r := FdIndex.del s.manager fd
        some { s.log r.1 with manager := r.2 }
      else none
  | .addEvent t fd =>
      if s.calls t = .none ∧ IsInt fd then
        let r := FdIndex.addEvent s.fdContexts fd
        some ((s.log r.1).setCall t (if r.2.isSome then .none else .grow fd))
      else none
  | .grow t =>
      match s.calls t with
      | .grow fd =>
          let r := FdIndex.grow s.fdContexts s.contexts fd
          some ({ s.log r.1 with
            fdContexts := r.2
            contexts := s.contexts + (r.2.length - s.fdContexts.length) }.setCall t .none)
      | _ => none
  | .delEvent fd =>
      if IsInt fd then some (s.log (FdIndex.delEvent s.fdContexts fd).1) else none
  | .cancelEvent fd =>
      if IsInt fd then some (s.log (FdIndex.cancelEvent s.fdContexts fd).1) else none
  | .cancelAll fd =>
      if IsInt fd then some (s.log (FdIndex.cancelAll s.fdContexts fd).1) else none

/-- Any number of threads, in any order. -/
def system : System Tables Event where
  init s := s = new
  step := step

/-- No access so far was out of range. -/
def Safe (s : Tables) : Prop := ∀ a ∈ s.accesses, a.InRange

/-- The descriptor is not negative, unless it is taken for one that the
table does not reach to; and where the table has to grow, it is 2 at
least. -/
def Guarded (s : Tables) : Event → Prop
  | .get _ fd _ => fd = -1 ∨ s.manager.size ≤ fd ∨ 0 ≤ fd
  | .create t _ => (s.calls t).Reaches s.manager.size
  | .del fd => s.manager.size ≤ fd ∨ 0 ≤ fd
  | .addEvent _ fd => toInt32 s.fdContexts.length ≤ fd ∨ 0 ≤ fd
  | .grow t => (s.calls t).Reaches (toInt32 s.fdContexts.length)
  | .delEvent fd => toInt32 s.fdContexts.length ≤ fd ∨ 0 ≤ fd
  | .cancelEvent fd => toInt32 s.fdContexts.length ≤ fd ∨ 0 ≤ fd
  | .cancelAll fd => toInt32 s.fdContexts.length ≤ fd ∨ 0 ≤ fd

instance (s : Tables) : (e : Event) → Decidable (s.Guarded e)
  | .create t _ => inferInstanceAs (Decidable ((s.calls t).Reaches _))
  | .grow t => inferInstanceAs (Decidable ((s.calls t).Reaches _))
  | .get .. | .del _ | .addEvent .. => inferInstanceAs (Decidable (_ ∨ _))
  | .delEvent _ | .cancelEvent _ | .cancelAll _ => inferInstanceAs (Decidable (_ ∨ _))

end Tables

/-! ## The functions -/

variable {m : FdManager} {table : List Nat} {fd : Int} {addr n : Nat} {autoCreate : Bool}

/-- An index that has passed the comparison with the size. -/
theorem inRange_of_lt (hlt : fd < toInt32 n) : (⟨fd, n⟩ : Access).InRange ↔ 0 ≤ fd := by
  have hle := toInt32_le n
  show 0 ≤ fd ∧ fd < n ↔ 0 ≤ fd
  omega

/-- An index into a table that has been resized for it. -/
theorem inRange_grown : (⟨fd, grownSize fd⟩ : Access).InRange ↔ 2 ≤ fd := by
  show 0 ≤ fd ∧ fd < (fd * 3 / 2).toNat ↔ 2 ≤ fd
  omega

theorem length_resize (m : FdManager) (n : Nat) : (m.resize n).datas.length = n := by
  rw [FdManager.resize, List.length_append, List.length_take, List.length_replicate]
  omega

theorem length_contextResize (table : List Nat) (addr n : Nat) :
    (contextResize table addr n).2.length = n := by
  rw [contextResize, List.length_append, List.length_take, List.length_range']
  omega

theorem contextResize_inRange (table : List Nat) (addr n : Nat) :
    ∀ a ∈ (contextResize table addr n).1, a.InRange := by
  intro a ha
  obtain ⟨i, hi, rfl⟩ := List.mem_map.mp ha
  have hlt := List.mem_range.mp hi
  exact ⟨Int.natCast_nonneg i, Int.ofNat_lt.mpr hlt⟩

theorem get_inRange (m : FdManager) (fd : Int) (autoCreate : Bool) :
    (∀ a ∈ (get m fd autoCreate).1, a.InRange) ↔ fd = -1 ∨ m.size ≤ fd ∨ 0 ≤ fd := by
  unfold get
  by_cases hnone : fd = -1
  · rw [if_pos hnone]
    exact ⟨fun _ => .inl hnone, fun _ _ hmem => nomatch hmem⟩
  · rw [if_neg hnone, or_iff_right hnone]
    by_cases hle : m.size ≤ fd
    · rw [if_pos hle]
      exact ⟨fun _ => .inl hle, fun _ _ hmem => nomatch hmem⟩
    · rw [if_neg hle, or_iff_right hle]
      dsimp only
      rw [List.forall_mem_singleton]
      exact inRange_of_lt (Int.lt_of_not_ge hle)

theorem create_inRange (m : FdManager) (fd : Int) (addr : Nat) :
    (∀ a ∈ (create m fd addr).1, a.InRange) ↔ (Call.create fd).Reaches m.size := by
  unfold create Call.Reaches
  dsimp only
  rw [List.forall_mem_singleton]
  by_cases hle : m.size ≤ fd
  · rw [if_pos hle, if_pos hle, length_resize, inRange_grown]
  · rw [if_neg hle, if_neg hle]
    exact inRange_of_lt (Int.lt_of_not_ge hle)

theorem del_inRange (m : FdManager) (fd : Int) :
    (∀ a ∈ (del m fd).1, a.InRange) ↔ m.size ≤ fd ∨ 0 ≤ fd := by
  unfold del
  by_cases hle : m.size ≤ fd
  · rw [if_pos hle]
    exact ⟨fun _ => .inl hle, fun _ _ hmem => nomatch hmem⟩
  · rw [if_neg hle, or_iff_right hle]
    dsimp only
    rw [List.forall_mem_singleton]
    exact inRange_of_lt (Int.lt_of_not_ge hle)

theorem addEvent_inRange (table : List Nat) (fd : Int) :
    (∀ a ∈ (addEvent table fd).1, a.InRange) ↔ toInt32 table.length ≤ fd ∨ 0 ≤ fd := by
  unfold addEvent
  by_cases hlt : toInt32 table.length > fd
  · rw [if_pos hlt, or_iff_right (Int.not_le.mpr hlt)]
    dsimp only
    rw [List.forall_mem_singleton, inRange_of_lt hlt]
  · rw [if_neg hlt]
    exact ⟨fun _ => .inl (Int.not_lt.mp hlt), fun _ _ hmem => nomatch hmem⟩

theorem grow_inRange (table : List Nat) (addr : Nat) (fd : Int) (size : Int) :
    (∀ a ∈ (grow table addr fd).1, a.InRange) ↔ (Call.grow fd).Reaches size := by
  have hresize := contextResize_inRange table addr (grownSize fd)
  unfold grow Call.Reaches
  dsimp only
  rw [List.forall_mem_append, List.forall_mem_singleton, length_contextResize, inRange_grown]
  exact and_iff_right hresize

theorem lookup_inRange (table : List Nat) (fd : Int) :
    (∀ a ∈ (lookup table fd).1, a.InRange) ↔ toInt32 table.length ≤ fd ∨ 0 ≤ fd := by
  unfold lookup
  by_cases hle : toInt32 table.length ≤ fd
  · rw [if_pos hle]
    exact ⟨fun _ => .inl hle, fun _ _ hmem => nomatch hmem⟩
  · rw [if_neg hle, or_iff_right hle]
    dsimp only
    rw [List.forall_mem_singleton, inRange_of_lt (Int.lt_of_not_ge hle)]

/-! ## On a descriptor that is not negative

There the functions do what the tables of `Process` and `FdTable` do. -/

theorem elem_natCast {α : Type} (l : List α) (i : Nat) : elem l i = l[i]? := by
  rw [elem, if_pos (Int.natCast_nonneg i), Int.toNat_natCast]

theorem setElem_natCast {α : Type} (l : List α) (i : Nat) (x : α) : setElem l i x = l.set i x := by
  rw [setElem, if_pos (Int.natCast_nonneg i), Int.toNat_natCast]

theorem get_natCast (m : FdManager) (fd : Nat) : (get m fd false).2 = some (m.get fd) := by
  unfold get FdManager.get
  rw [if_neg (by omega)]
  by_cases hle : m.size ≤ fd
  · rw [if_pos hle, if_pos hle]
    rfl
  · rw [if_neg hle, if_neg hle]
    simp [elem_natCast]

theorem create_natCast (m : FdManager) (fd addr : Nat) :
    (create m fd addr).2 = m.put fd addr := by
  have hsize : grownSize fd = fd * 3 / 2 := by
    unfold grownSize
    omega
  unfold create FdManager.put
  rw [hsize]
  dsimp only
  rw [setElem_natCast]

theorem del_natCast (m : FdManager) (fd : Nat) : (del m fd).2 = m.del fd := by
  unfold del FdManager.del
  rw [setElem_natCast]
  split <;> rfl

theorem lookup_natCast (s : IOManager.FdTable) (fd : Nat) :
    (lookup s.fdContexts fd).2 = s.lookup fd := by
  unfold lookup IOManager.FdTable.lookup IOManager.FdTable.size
  by_cases hle : toInt32 s.fdContexts.length ≤ fd
  · rw [if_pos hle, if_neg (Int.not_lt.mpr hle)]
  · rw [if_neg hle, if_pos (Int.lt_of_not_ge hle)]
    exact elem_natCast _ _

theorem contextResize_fdTable (s : IOManager.FdTable) (size : Nat) :
    (s.contextResize size).fdContexts =
      (contextResize s.fdContexts s.contexts.manager.fdContexts.length size).2 := rfl

/-! ## Runs -/

namespace Tables

variable {s s' : Tables} {es : List Event}

theorem safe_iff {accesses : List Access} (h : s'.accesses = s.accesses ++ accesses) :
    s'.Safe ↔ s.Safe ∧ ∀ a ∈ accesses, a.InRange := by
  rw [Safe, h, List.forall_mem_append]
  rfl

/-- A critical section keeps to the tables exactly if it is guarded. -/
theorem step_safe {e : Event} (hstep : s.step e = some s') :
    s'.Safe ↔ s.Safe ∧ s.Guarded e := by
  cases e with
  | get t fd autoCreate =>
      simp only [step, Option.ite_none_right_eq_some, Option.some.injEq] at hstep
      obtain ⟨-, rfl⟩ := hstep
      exact (safe_iff rfl).trans (and_congr_right fun _ => get_inRange ..)
  | create t addr =>
      rw [step] at hstep
      split at hstep
      · rename_i fd hcall
        obtain rfl := Option.some.inj hstep
        rw [Guarded, hcall]
        exact (safe_iff rfl).trans (and_congr_right fun _ => create_inRange ..)
      · cases hstep
  | del fd =>
      simp only [step, Option.ite_none_right_eq_some, Option.some.injEq] at hstep
      obtain ⟨-, rfl⟩ := hstep
      exact (safe_iff rfl).trans (and_congr_right fun _ => del_inRange ..)
  | addEvent t fd =>
      simp only [step, Option.ite_none_right_eq_some, Option.some.injEq] at hstep
      obtain ⟨-, rfl⟩ := hstep
      exact (safe_iff rfl).trans (and_congr_right fun _ => addEvent_inRange ..)
  | grow t =>
      rw [step] at hstep
      split at hstep
      · rename_i fd hcall
        obtain rfl := Option.some.inj hstep
        rw [Guarded, hcall]
        exact (safe_iff rfl).trans (and_congr_right fun _ => grow_inRange ..)
      · cases hstep
  | delEvent fd =>
      simp only [step, Option.ite_none_right_eq_some, Option.some.injEq] at hstep
      obtain ⟨-, rfl⟩ := hstep
      exact (safe_iff rfl).trans (and_congr_right fun _ => lookup_inRange ..)
  | cancelEvent fd =>
      simp only [step, Option.ite_none_right_eq_some, Option.some.injEq] at hstep
      obtain ⟨-, rfl⟩ := hstep
      exact (safe_iff rfl).trans (and_congr_right fun _ => lookup_inRange ..)
  | cancelAll fd =>
      simp only [step, Option.ite_none_right_eq_some, Option.some.injEq] at hstep
      obtain ⟨-, rfl⟩ := hstep
      exact (safe_iff rfl).trans (and_congr_right fun _ => lookup_inRange ..)

theorem new_safe : new.Safe := contextResize_inRange [] 0 32

/-- **When the tables are only indexed in range**: in exactly the runs in
which every critical section is guarded. -/
theorem index_in_range_iff (hrun : system.replay new es = some s') :
    s'.Safe ↔ system.replayBy Guarded new es = some s' := by
  have hiff := System.replay_iff (I := fun _ => True) (fun _ _ _ _ _ => trivial)
    (fun _ _ _ _ hstep => step_safe hstep) trivial hrun
  rw [hiff, and_iff_right new_safe]

/-- Two threads, which make both tables larger. -/
theorem index_in_range_iff_grown :
    ∃ s', system.replay new [.get 0 70 true, .del 3, .create 0 9, .addEvent 1 40, .cancelAll 5,
      .grow 1, .delEvent 59] = some s' ∧ s'.fdContexts.length = 60 ∧ s'.Safe := by
  have hrun : (system.replayBy Guarded new [.get 0 70 true, .del 3, .create 0 9, .addEvent 1 40,
      .cancelAll 5, .grow 1, .delEvent 59]).map (fun s => s.fdContexts.length) = some 60 := by
    decide +kernel
  obtain ⟨s', hby, hlen⟩ := Option.map_eq_some_iff.mp hrun
  have hreplay := System.replay_of_replayBy hby
  exact ⟨s', hreplay, hlen, (index_in_range_iff hreplay).mpr hby⟩

/-- What `Socket::cancelAll` passes on once the socket is closed. -/
theorem index_minus_one :
    ∃ s', system.replay new [.cancelAll (-1)] = some s' ∧ ⟨-1, 32⟩ ∈ s'.accesses ∧ ¬s'.Safe := by
  have hmem : (⟨-1, 32⟩ : Access) ∈ new.accesses ++ (FdIndex.cancelAll new.fdContexts (-1)).1 :=
    List.mem_append_right _ (List.mem_singleton_self _)
  exact ⟨_, rfl, hmem, fun hsafe => absurd (hsafe _ hmem).1 (by decide)⟩

end Tables

end FdIndex

end Sylar
