import Mathlib.Data.List.Induction
import Sylar.Hook

/-!
# The non-blocking flag of a managed socket

`FdCtx::init` puts a socket into non-blocking mode behind the user's
back; the hooked `fcntl` and `ioctl` of `hook.cc` are to keep it there
and to show the user the mode he has asked for. `File` is what the
kernel knows of the socket: its status flags, of which `F_SETFL` can
change the `settable` ones. Whether the kernel accepts a call is an
argument (`ok`).

`asked` and `lastFlags` say what the user has asked for. `Kept` is the
invariant; `fcntl` keeps it, and so does `ioctl(FIONBIO)` unless it is
to clear the flag, which it hands on to the kernel as it is.
-/

namespace Sylar

def O_NONBLOCK : BitVec 32 := 0x800

/-- `flags & O_NONBLOCK` as a condition. -/
def isNonblock (flags : BitVec 32) : Bool := flags &&& O_NONBLOCK != 0

structure File where
  flags : BitVec 32
  settable : BitVec 32
deriving Repr, DecidableEq

namespace File

/-- `fcntl_f(fd, F_SETFL, arg)` that succeeds. -/
def setfl (f : File) (arg : BitVec 32) : File :=
  { f with flags := f.flags &&& ~~~f.settable ||| arg &&& f.settable }

/-- `ioctl_f(fd, FIONBIO, &v)` that succeeds. -/
def fionbio (f : File) (v : BitVec 32) : File :=
  { f with flags := if v != 0 then f.flags ||| O_NONBLOCK else f.flags &&& ~~~O_NONBLOCK }

end File

/-- A descriptor: its entry in the `FdManager` and its file. -/
structure HookedFd where
  ctx : Option FdCtx
  file : File
deriving Repr, DecidableEq

/-- A new `FdCtx` after `init()`; `stat` is `S_ISSOCK` of what `fstat`
found, or `none` when it failed. -/
def FdCtx.init (stat : Option Bool) (file : File) : FdCtx × File :=
  let isInit := stat.isSome
  let isSocket := stat.getD false
  let file :=
    if isSocket && !isNonblock file.flags then file.setfl (file.flags ||| O_NONBLOCK) else file
  (⟨isInit, isSocket, isSocket, false, false, noTimeout, noTimeout⟩, file)

namespace HookedFd

/-- What the three functions test before they act on the `FdCtx`. -/
def managed (s : HookedFd) : Option FdCtx :=
  s.ctx.filter fun ctx => !ctx.isClosed && ctx.isSocket

/-- `fcntl(fd, F_SETFL, arg)`. -/
def setfl (s : HookedFd) (arg : BitVec 32) (ok : Bool) : Int × HookedFd :=
  let call (s : HookedFd) (arg : BitVec 32) : Int × HookedFd :=
    if ok then (0, { s with file := s.file.setfl arg }) else (-1, s)
  match s.managed with
  | none => call s arg
  | some ctx =>
      let s := { s with ctx := some { ctx with userNonblock := isNonblock arg } }
      call s (if ctx.sysNonblock then arg ||| O_NONBLOCK else arg &&& ~~~O_NONBLOCK)

/-- `fcntl(fd, F_GETFL)`. -/
def getfl (s : HookedFd) : BitVec 32 :=
  let arg := s.file.flags
  match s.managed with
  | none => arg
  | some ctx => if ctx.userNonblock then arg ||| O_NONBLOCK else arg &&& ~~~O_NONBLOCK

/-- `ioctl(d, FIONBIO, &v)`. -/
def fionbio (s : HookedFd) (v : BitVec 32) (ok : Bool) : Int × HookedFd :=
  let call (s : HookedFd) : Int × HookedFd :=
    if ok then (0, { s with file := s.file.fionbio v }) else (-1, s)
  match s.managed with
  | none => call s
  | some ctx => call { s with ctx := some { ctx with userNonblock := v != 0 } }

inductive Call where
  | setfl (arg : BitVec 32) (ok : Bool)
  | getfl
  | fionbio (v : BitVec 32) (ok : Bool)
deriving Repr, DecidableEq

def call (s : HookedFd) : Call → HookedFd
  | .setfl arg ok => (s.setfl arg ok).2
  | .getfl => s
  | .fionbio v ok => (s.fionbio v ok).2

def run (s : HookedFd) (calls : List Call) : HookedFd := calls.foldl call s

/-- A socket after `FdMgr::get(fd, true)`. -/
def opened (file : File) : HookedFd :=
  let r := FdCtx.init (some true) file
  ⟨some r.1, r.2⟩

/-! ## What the user has asked for -/

/-- Whether the last request was for non-blocking mode. -/
def asked (calls : List Call) : Bool :=
  calls.foldl (fun asked c => match c with
    | .setfl arg _ => isNonblock arg
    | .getfl => asked
    | .fionbio v _ => v != 0) false

/-- The flags that the last accepted `F_SETFL` leaves by itself. -/
def lastFlags (file : File) (calls : List Call) : BitVec 32 :=
  calls.foldl (fun flags c => match c with
    | .setfl arg true => (file.setfl arg).flags
    | _ => flags) file.flags

/-- What is to hold after `calls`. -/
structure Kept (s : HookedFd) (file : File) (calls : List Call) : Prop where
  nonblock : isNonblock s.file.flags = true
  reported : isNonblock s.getfl = asked calls
  others : s.getfl &&& ~~~O_NONBLOCK = lastFlags file calls &&& ~~~O_NONBLOCK

/-- `ioctl(FIONBIO)` with 0, accepted by the kernel. -/
def Call.clears : Call → Bool
  | .fionbio v ok => v == 0 && ok
  | _ => false

end HookedFd

/-! ## Bits -/

theorem isNonblock_eq (x : BitVec 32) : isNonblock x = x.getLsbD 11 := by
  rw [isNonblock, show O_NONBLOCK = BitVec.twoPow 32 11 from rfl, BitVec.and_twoPow]
  cases x.getLsbD 11 <;> rfl

theorem getLsbD_O_NONBLOCK (i : Nat) : O_NONBLOCK.getLsbD i = decide (i = 11) := by
  rw [show O_NONBLOCK = BitVec.twoPow 32 11 from rfl, BitVec.getLsbD_twoPow]
  simp [eq_comm]

namespace HookedFd

variable {s : HookedFd} {file : File} {calls : List Call}

/-! ## One call -/

theorem run_concat (s : HookedFd) (calls : List Call) (c : Call) :
    s.run (calls ++ [c]) = (s.run calls).call c := by
  rw [run, List.foldl_append]
  rfl

structure Inv (s : HookedFd) (file : File) (calls : List Call) : Prop where
  ctx : ∃ recvTimeout sendTimeout,
    s.ctx = some ⟨true, true, true, asked calls, false, recvTimeout, sendTimeout⟩
  settable : s.file.settable = file.settable
  flags : ∀ i, s.file.flags.getLsbD i = (decide (i = 11) || (lastFlags file calls).getLsbD i)
  fixed : ∀ i, file.settable.getLsbD i = false →
    (lastFlags file calls).getLsbD i = file.flags.getLsbD i

theorem Inv.managed (h : s.Inv file calls) : ∃ recvTimeout sendTimeout,
    s.managed = some ⟨true, true, true, asked calls, false, recvTimeout, sendTimeout⟩ := by
  obtain ⟨recvTimeout, sendTimeout, hctx⟩ := h.ctx
  exact ⟨recvTimeout, sendTimeout, by rw [HookedFd.managed, hctx]; rfl⟩

theorem opened_inv (hset : isNonblock file.settable = true) : (opened file).Inv file [] := by
  rw [isNonblock_eq] at hset
  by_cases hflag : isNonblock file.flags = true
  · have hopened : opened file =
        ⟨some ⟨true, true, true, false, false, noTimeout, noTimeout⟩, file⟩ := by
      simp [opened, FdCtx.init, hflag]
    rw [hopened]
    refine ⟨⟨_, _, rfl⟩, rfl, fun i => ?_, fun i _ => rfl⟩
    rw [isNonblock_eq] at hflag
    by_cases hi : i = 11
    · simp [hi, hflag]
    · simp [hi, lastFlags]
  · have hopened : opened file = ⟨some ⟨true, true, true, false, false, noTimeout, noTimeout⟩,
        file.setfl (file.flags ||| O_NONBLOCK)⟩ := by
      simp [opened, FdCtx.init, hflag]
    rw [hopened]
    refine ⟨⟨_, _, rfl⟩, rfl, fun i => ?_, fun i _ => rfl⟩
    simp only [File.setfl, lastFlags, List.foldl_nil, BitVec.getLsbD_or, BitVec.getLsbD_and,
      BitVec.getLsbD_not, getLsbD_O_NONBLOCK]
    by_cases hi : i = 11
    · simp [hi, hset]
    · by_cases hlt : i < 32
      · cases file.settable.getLsbD i <;> simp [hi, hlt]
      · simp [BitVec.getLsbD_of_ge _ i (Nat.le_of_not_lt hlt), hi]

/-- Every call but the one that clears the flag in the kernel. -/
theorem Inv.call (h : s.Inv file calls) {c : Call} (hc : c.clears = false) :
    (s.call c).Inv file (calls ++ [c]) := by
  obtain ⟨recvTimeout, sendTimeout, hmanaged⟩ := h.managed
  cases c with
  | getfl =>
      have hasked : asked (calls ++ [.getfl]) = asked calls := by simp [asked]
      have hlast : lastFlags file (calls ++ [.getfl]) = lastFlags file calls := by simp [lastFlags]
      exact ⟨hasked ▸ h.ctx, h.settable, hlast ▸ h.flags, hlast ▸ h.fixed⟩
  | setfl arg ok =>
      have hasked : asked (calls ++ [.setfl arg ok]) = isNonblock arg := by simp [asked]
      cases ok with
      | false =>
          have hlast : lastFlags file (calls ++ [.setfl arg false]) = lastFlags file calls := by
            simp [lastFlags]
          refine ⟨⟨recvTimeout, sendTimeout, ?_⟩, ?_, ?_, hlast ▸ h.fixed⟩
          · simp [HookedFd.call, setfl, hmanaged, hasked]
          · simpa [HookedFd.call, setfl, hmanaged] using h.settable
          · simpa [HookedFd.call, setfl, hmanaged, hlast] using h.flags
      | true =>
          have hlast : lastFlags file (calls ++ [.setfl arg true]) = (file.setfl arg).flags := by
            simp [lastFlags]
          have hflags : ((s.call (.setfl arg true)).file.flags) =
              s.file.flags &&& ~~~file.settable ||| (arg ||| O_NONBLOCK) &&& file.settable := by
            simp [HookedFd.call, setfl, hmanaged, File.setfl, h.settable]
          refine ⟨⟨recvTimeout, sendTimeout, ?_⟩, ?_, fun i => ?_, fun i hi => ?_⟩
          · simp [HookedFd.call, setfl, hmanaged, hasked]
          · simpa [HookedFd.call, setfl, hmanaged, File.setfl] using h.settable
          · rw [hflags, hlast]
            simp only [File.setfl, BitVec.getLsbD_or, BitVec.getLsbD_and, BitVec.getLsbD_not,
              getLsbD_O_NONBLOCK, h.flags i]
            by_cases hi : i = 11
            · simp [hi]
            · cases hbit : file.settable.getLsbD i with
              | true => simp [hi]
              | false => simp [hi, h.fixed i hbit]
          · rw [hlast]
            simp only [File.setfl, BitVec.getLsbD_or, BitVec.getLsbD_and, BitVec.getLsbD_not, hi]
            by_cases hlt : i < 32
            · simp [hlt]
            · simp [BitVec.getLsbD_of_ge _ i (Nat.le_of_not_lt hlt)]
  | fionbio v ok =>
      have hasked : asked (calls ++ [.fionbio v ok]) = (v != 0) := by simp [asked]
      have hlast : lastFlags file (calls ++ [.fionbio v ok]) = lastFlags file calls := by
        simp [lastFlags]
      refine ⟨⟨recvTimeout, sendTimeout, ?_⟩, ?_, fun i => ?_, hlast ▸ h.fixed⟩
      · cases ok <;> simp [HookedFd.call, fionbio, hmanaged, hasked]
      · cases ok <;> simpa [HookedFd.call, fionbio, hmanaged, File.fionbio] using h.settable
      · rw [hlast]
        cases ok with
        | false => simpa [HookedFd.call, fionbio, hmanaged] using h.flags i
        | true =>
            have hv : (v != 0) = true := by simpa [Call.clears] using hc
            have hflags : (s.call (.fionbio v true)).file.flags = s.file.flags ||| O_NONBLOCK := by
              simp only [HookedFd.call, fionbio, hmanaged, File.fionbio, hv, if_true]
            rw [hflags, BitVec.getLsbD_or, getLsbD_O_NONBLOCK, h.flags i]
            by_cases hi : i = 11 <;> simp [hi]

theorem Inv.kept (h : s.Inv file calls) : s.Kept file calls := by
  obtain ⟨recvTimeout, sendTimeout, hmanaged⟩ := h.managed
  have hget : s.getfl = if asked calls then s.file.flags ||| O_NONBLOCK
      else s.file.flags &&& ~~~O_NONBLOCK := by
    simp [getfl, hmanaged]
  refine ⟨?_, ?_, ?_⟩
  · rw [isNonblock_eq, h.flags]
    rfl
  · rw [hget, isNonblock_eq]
    cases asked calls with
    | true => simp [getLsbD_O_NONBLOCK]
    | false => simp [getLsbD_O_NONBLOCK]
  · refine BitVec.eq_of_getLsbD_eq fun i hi => ?_
    have hbit := h.flags i
    rw [hget]
    cases asked calls <;>
      simp only [Bool.false_eq_true, if_true, if_false, BitVec.getLsbD_and, BitVec.getLsbD_or,
        BitVec.getLsbD_not, getLsbD_O_NONBLOCK, hbit] <;>
      by_cases h11 : i = 11 <;> simp [h11, hi]

/-! ## Any number of calls -/

theorem run_inv (hset : isNonblock file.settable = true) :
    (∀ c ∈ calls, c.clears = false) → ((opened file).run calls).Inv file calls := by
  induction calls using List.reverseRecOn with
  | nil => exact fun _ => opened_inv hset
  | append_singleton calls c ih =>
      intro hcalls
      rw [run_concat]
      exact (ih fun d hd => hcalls d (List.mem_append_left _ hd)).call
        (hcalls c (List.mem_append_right _ (List.mem_singleton_self c)))

/-- An accepted `ioctl(FIONBIO)` with 0 clears the flag. -/
theorem clears_spec (s : HookedFd) {c : Call} (hc : c.clears = true) :
    isNonblock (s.call c).file.flags = false := by
  cases c with
  | setfl arg ok => cases hc
  | getfl => cases hc
  | fionbio v ok =>
      obtain ⟨rfl, rfl⟩ : v = 0 ∧ ok = true := by simpa [Call.clears] using hc
      have hflags : (s.call (.fionbio 0 true)).file.flags = s.file.flags &&& ~~~O_NONBLOCK := by
        unfold HookedFd.call fionbio
        cases s.managed <;> rfl
      rw [hflags, isNonblock_eq, BitVec.getLsbD_and, BitVec.getLsbD_not, getLsbD_O_NONBLOCK]
      simp

/-- The mode is kept after every call if and only if none of them is an
`ioctl(FIONBIO)` that clears it. -/
theorem nonblock_kept (hset : isNonblock file.settable = true) (calls : List Call) :
    (∀ pre, pre <+: calls → ((opened file).run pre).Kept file pre) ↔
      ∀ c ∈ calls, c.clears = false := by
  constructor
  · intro hkept c hc
    obtain ⟨pre, post, rfl⟩ := List.append_of_mem hc
    have hafter := (hkept (pre ++ [c]) ⟨post, by simp⟩).nonblock
    by_contra hclears
    rw [run_concat, clears_spec _ (Bool.eq_true_of_not_eq_false hclears)] at hafter
    cases hafter
  · intro hcalls pre hpre
    exact (run_inv hset fun c hc => hcalls c (hpre.subset hc)).kept

/-- The user switches non-blocking mode on with `FIONBIO` and off with
`F_SETFL`. -/
theorem nonblock_kept_switched :
    ((opened ⟨2, 0xC00⟩).run [.fionbio 1 true, .getfl, .setfl 2 true]).Kept ⟨2, 0xC00⟩
      [.fionbio 1 true, .getfl, .setfl 2 true] :=
  (nonblock_kept (by decide) _).mpr (by decide) _ (List.prefix_refl _)

/-- The user asks for blocking mode with `FIONBIO`, and the kernel's flag
is gone. -/
theorem nonblock_lost :
    ¬∀ file calls, isNonblock file.settable = true → ((opened file).run calls).Kept file calls := by
  intro hall
  have hkept := (hall ⟨2, 0xC00⟩ [.fionbio 0 true] (by decide)).nonblock
  exact absurd hkept (by decide)

end HookedFd

end Sylar
