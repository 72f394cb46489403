import Sylar.Lib.OrderedSet
import Sylar.Lib.System
import Sylar.Lib.Word

/-!
# Timers

`timer.cc`: a `TimerManager` keeps the pointers of its armed timers in
a `std::set` ordered by `Timer::Comparator`, which looks through the
pointer at `m_next`. The key of a set element is therefore a mutable
field of another object, and the model keeps that: `heap` holds the
timers by address, `timers` is the list of addresses in the order of
the set, and `comparator` reads `next` from the heap as it is now.

Every function is one critical section of `m_mutex`, with what the
environment decides as an argument: the address an allocation returns
and the clock readings. `Timer::reset` compares `m_ms` before it takes
the lock; the value it saw is `seen`. `addTimer` and `listExpiredCb`
read the clock before they take the lock, the others inside.
-/

namespace Sylar

/-- What a timer calls: a function, or a function bound by
`addConditionTimer` to a condition that must still be alive. -/
inductive Callback (C : Type) where
  | fn (cb : C)
  | onTimer (weakCond : Nat) (cb : C)
deriving Repr, DecidableEq

/-- Calling it: the function that runs, if one does. -/
def Callback.invoke {C : Type} (alive : Nat → Bool) : Callback C → Option C
  | .fn cb => some cb
  | .onTimer weakCond cb => if alive weakCond then some cb else none

structure Timer (C : Type) where
  recurring : Bool
  ms : Nat
  next : Nat
  cb : Option (Callback C)
deriving Repr, DecidableEq

/-- `Timer::Comparator` on pointers, `next` the key behind each. -/
def comparator (next : Nat → Nat) : Option Nat → Option Nat → Bool
  | none, none => false
  | none, some _ => true
  | some _, none => false
  | some l, some r =>
      if next l < next r then true
      else if next r < next l then false
      else decide (l < r)

/-- The order of the set, `next` the keys. -/
def Before (next : Nat → Nat) (a b : Nat) : Prop := comparator next (some a) (some b) = true

instance (next : Nat → Nat) : DecidableRel (Before next) :=
  fun _ _ => inferInstanceAs (Decidable (_ = true))

structure TimerManager (C : Type) where
  heap : Nat → Option (Timer C)
  timers : List Nat
  tickled : Bool
  previouseTime : Nat

/-- The undefined behaviour a call could run into. -/
inductive TimerFault where
  /-- a member of a timer that is not alive -/
  | dangling
  /-- `m_timers.erase(m_timers.end())` -/
  | eraseEnd
deriving Repr, DecidableEq

namespace TimerManager

variable {C : Type}

def new (now : Nat) : TimerManager C :=
  { heap := fun _ => none, timers := [], tickled := false, previouseTime := now }

def put (m : TimerManager C) (a : Nat) (t : Timer C) : TimerManager C :=
  { m with heap := fun b => if b = a then some t else m.heap b }

/-- `m_next` of the timer at `a`. -/
def next (m : TimerManager C) (a : Nat) : Nat := (m.heap a).elim 0 Timer.next

def find (m : TimerManager C) (a : Nat) : Option Nat := OrderedSet.find (Before m.next) a m.timers

def erase (m : TimerManager C) (it : Nat) : TimerManager C :=
  { m with timers := m.timers.eraseIdx it }

def insert (m : TimerManager C) (a : Nat) : TimerManager C :=
  { m with timers := OrderedSet.insert (Before m.next) a m.timers }

/-- `addTimer(val, lock)`: whether it goes on to call
`onTimerInsertedAtFront`, and the manager. -/
def addTimerLocked (m : TimerManager C) (val : Nat) : Bool × TimerManager C :=
  let m := m.insert val
  let atFront := m.timers.head? == some val && !m.tickled
  (atFront, if atFront then { m with tickled := true } else m)

/-- `addTimer(ms, cb, recurring)`, the new timer at `addr`. -/
def addTimer (m : TimerManager C) (addr ms : Nat) (cb : Option (Callback C)) (recurring : Bool)
    (now : Nat) : Bool × TimerManager C :=
  (m.put addr { recurring := recurring, ms := ms, next := add64 now ms, cb := cb }).addTimerLocked
    addr

def addConditionTimer (m : TimerManager C) (addr ms : Nat) (cb : C) (weakCond : Nat)
    (recurring : Bool) (now : Nat) : Bool × TimerManager C :=
  m.addTimer addr ms (some (.onTimer weakCond cb)) recurring now

def cancel (m : TimerManager C) (a : Nat) : Except TimerFault (Bool × TimerManager C) :=
  match m.heap a with
  | none => .error .dangling
  | some t =>
      if t.cb.isSome then
        let m := m.put a { t with cb := none }
        match m.find a with
        | none => .error .eraseEnd
        | some it => .ok (true, m.erase it)
      else .ok (false, m)

def refresh (m : TimerManager C) (a now : Nat) : Except TimerFault (Bool × TimerManager C) :=
  match m.heap a with
  | none => .error .dangling
  | some t =>
      if t.cb.isNone then .ok (false, m)
      else
        match m.find a with
        | none => .ok (false, m)
        | some it =>
            .ok (true, (((m.erase it).put a { t with next := add64 now t.ms }).insert a))

/-- `Timer::reset(ms, from_now)`: the result, whether it goes on to call
`onTimerInsertedAtFront`, and the manager. -/
def reset (m : TimerManager C) (a ms : Nat) (fromNow : Bool) (seen now : Nat) :
    Except TimerFault (Bool × Bool × TimerManager C) :=
  if ms = seen ∧ fromNow = false then .ok (true, false, m)
  else
    match m.heap a with
    | none => .error .dangling
    | some t =>
        if t.cb.isNone then .ok (false, false, m)
        else
          match m.find a with
          | none => .ok (false, false, m)
          | some it =>
              let start := if fromNow then now else sub64 t.next t.ms
              let t := { t with ms := ms, next := add64 start ms }
              .ok (true, ((m.erase it).put a t).addTimerLocked a)

def getNextTimer (m : TimerManager C) (now : Nat) : Nat × TimerManager C :=
  let m := { m with tickled := false }
  match m.timers with
  | [] => (2 ^ 64 - 1, m)
  | first :: _ => (if now ≥ m.next first then 0 else m.next first - now, m)

def hasTimer (m : TimerManager C) : Bool := !m.timers.isEmpty

/-- `detectClockRollover(now_ms)`: one hour back counts. -/
def detectClockRollover (m : TimerManager C) (now : Nat) : Bool × TimerManager C :=
  (decide (now < m.previouseTime ∧ now < sub64 m.previouseTime (60 * 60 * 1000)),
    { m with previouseTime := now })

/-- How many timers from `begin()` on have expired: the `lower_bound`
of a timer at `probe` due now, and those behind it due now. -/
def expiredCount (m : TimerManager C) (now probe : Nat) : Nat :=
  let key := fun a => if a = probe then now else m.next a
  let it := OrderedSet.lowerBound (Before key) probe m.timers
  it + ((m.timers.drop it).takeWhile fun a => m.next a == now).length

/-- The loop over the expired timers: the callbacks it collects, and
the manager. -/
def rearm (now : Nat) : List Nat → TimerManager C → List (Option (Callback C)) × TimerManager C
  | [], m => ([], m)
  | a :: rest, m =>
      match m.heap a with
      | none => rearm now rest m
      | some t =>
          let (cbs, m') := rearm now rest <|
            if t.recurring then (m.put a { t with next := add64 now t.ms }).insert a
            else m.put a { t with cb := none }
          (t.cb :: cbs, m')

/-- `listExpiredCb(cbs)`: the callbacks, and the manager. -/
def listExpiredCb (m : TimerManager C) (now probe : Nat) :
    List (Option (Callback C)) × TimerManager C :=
  match m.timers with
  | [] => ([], m)
  | first :: _ =>
      let (rollover, m) := m.detectClockRollover now
      if !rollover && m.next first > now then ([], m)
      else
        let it := if rollover then m.timers.length else m.expiredCount now probe
        rearm now (m.timers.take it) { m with timers := m.timers.drop it }

/-! ## Runs -/

/-- A critical section. `addTimer` has any callback, so it is
`addConditionTimer` too; `release` is the end of the last pointer to a
timer outside the set, whose memory an allocation may then get again. -/
inductive Op (C : Type) where
  | addTimer (addr ms : Nat) (cb : Callback C) (recurring : Bool) (now : Nat)
  | cancel (a : Nat)
  | refresh (a now : Nat)
  | reset (a ms : Nat) (fromNow : Bool) (seen now : Nat)
  | getNextTimer (now : Nat)
  | listExpiredCb (now probe : Nat)
  | release (a : Nat)

/-- The manager after a critical section, and whether the caller goes
on to `onTimerInsertedAtFront`. `none` where the section cannot occur:
an address in use is not allocated, a pointer not held is not used. -/
def run (m : TimerManager C) : Op C → Option (Bool × TimerManager C)
  | .addTimer addr ms cb recurring now =>
      if m.heap addr = none then some (m.addTimer addr ms (some cb) recurring now) else none
  | .cancel a => (m.cancel a).toOption.map fun r => (false, r.2)
  | .refresh a now => (m.refresh a now).toOption.map fun r => (false, r.2)
  | .reset a ms fromNow seen now => (m.reset a ms fromNow seen now).toOption.map fun r => r.2
  | .getNextTimer now => some (false, (m.getNextTimer now).2)
  | .listExpiredCb now probe =>
      if m.heap probe = none then some (false, (m.listExpiredCb now probe).2) else none
  | .release a =>
      if a ∈ m.timers then none
      else some (false, { m with heap := fun b => if b = a then none else m.heap b })

/-- A fresh manager and any critical sections in any order. -/
def system (C : Type) : System (TimerManager C) (Op C) where
  init m := ∃ now, m = new now
  step m op := (m.run op).map Prod.snd

end TimerManager

end Sylar
