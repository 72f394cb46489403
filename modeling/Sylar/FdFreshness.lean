import Sylar.FdManager

/-!
# A new descriptor remembers nothing

As long as no number goes back to the kernel with its context (`Clean`),
a number that is free has none, and neither has one whose `socket` or
`accept` has not returned (`Inv`). So `get(fd, true)` makes a new context
and puts the file into non-blocking mode (`opened_fresh`).
-/

namespace Sylar

namespace Process

variable {s s' : Process} {a : Action} {t t' fd fd' : Nat} {p : Place}

structure Inv (s : Process) : Prop where
  sized : s.manager.Sized
  free : ∀ fd, s.files fd = none → s.manager.get fd = none
  opening : ∀ t fd, Opening (s.callers t) fd → s.manager.get fd = none ∧ fd * 3 / 2 < 2 ^ 31 ∧
    ∃ file, s.files fd = some (true, file) ∧ isNonblock file.settable = true
  single : ∀ t t' fd, Opening (s.callers t) fd → Opening (s.callers t') fd → t = t'

theorem new_inv (files : Nat → Option (Bool × File)) : Inv (new files) := by
  have hnone : ∀ t fd, ¬Opening ((new files).callers t) fd := by
    rintro t fd (h | h) <;> cases h
  refine ⟨FdManager.new_sized, fun fd _ => ?_, fun t fd h => absurd h (hnone t fd),
    fun t _ fd h => absurd h (hnone t fd)⟩
  rw [new, FdManager.new_sized.get_eq, FdManager.new, List.getElem?_replicate]
  split <;> rfl

/-! ## Steps of one caller -/

theorem move_self (s : Process) (t : Nat) (p : Place) : (s.move t p).callers t = p :=
  Function.update_self ..

theorem move_other (p : Place) (h : t' ≠ t) : (s.move t p).callers t' = s.callers t' :=
  Function.update_of_ne h ..

theorem setFile_self (s : Process) (fd : Nat) (f : Option (Bool × File)) :
    (s.setFile fd f).files fd = f := Function.update_self ..

theorem setFile_other (f : Option (Bool × File)) (h : fd' ≠ fd) :
    (s.setFile fd f).files fd' = s.files fd' := Function.update_of_ne h ..

/-- A caller goes on without beginning to open a number. -/
theorem Inv.move (h : Inv s) (hp : ∀ fd, Opening p fd → Opening (s.callers t) fd) :
    Inv (s.move t p) := by
  have hback : ∀ t' fd, Opening ((s.move t p).callers t') fd → Opening (s.callers t') fd := by
    intro t' fd ho
    by_cases ht : t' = t
    · subst ht
      rw [move_self] at ho
      exact hp fd ho
    · rwa [move_other p ht] at ho
  exact ⟨h.sized, h.free, fun t' fd ho => h.opening t' fd (hback t' fd ho),
    fun t₁ t₂ fd h₁ h₂ => h.single t₁ t₂ fd (hback t₁ fd h₁) (hback t₂ fd h₂)⟩

theorem Inv.leave (h : Inv s) (hp : ∀ fd, ¬Opening p fd) : Inv (s.move t p) :=
  h.move fun fd ho => absurd ho (hp fd)

/-- A free number is handed out. -/
theorem Inv.hand (h : Inv s) (hfree : s.files fd = none) (f : Bool × File) :
    Inv (s.setFile fd (some f)) := by
  refine ⟨h.sized, fun fd' hnone => ?_, fun t fd' ho => ?_, h.single⟩
  · by_cases heq : fd' = fd
    · rw [heq, setFile_self] at hnone
      cases hnone
    · rw [setFile_other _ heq] at hnone
      exact h.free fd' hnone
  · obtain ⟨hget, hsmall, file, hfile, hset⟩ := h.opening t fd' ho
    have heq : fd' ≠ fd := by
      rintro rfl
      rw [hfree] at hfile
      cases hfile
    exact ⟨hget, hsmall, file, by rw [setFile_other _ heq]; exact hfile, hset⟩

/-- A caller begins to open a number. -/
theorem Inv.begin_ (h : Inv s) (hget : s.manager.get fd = none) (hsmall : fd * 3 / 2 < 2 ^ 31)
    {file : File} (hfile : s.files fd = some (true, file))
    (hset : isNonblock file.settable = true) (halone : ∀ t', ¬Opening (s.callers t') fd) :
    Inv (s.move t (.find fd)) := by
  have hcases : ∀ t' fd', Opening ((s.move t (.find fd)).callers t') fd' →
      t' = t ∧ fd' = fd ∨ t' ≠ t ∧ Opening (s.callers t') fd' := by
    intro t' fd' ho
    by_cases ht : t' = t
    · subst ht
      rw [move_self] at ho
      obtain ho | ho := ho
      · cases ho
        exact .inl ⟨rfl, rfl⟩
      · cases ho
    · rw [move_other _ ht] at ho
      exact .inr ⟨ht, ho⟩
  refine ⟨h.sized, h.free, fun t' fd' ho => ?_, fun t₁ t₂ fd' h₁ h₂ => ?_⟩
  · obtain ⟨-, rfl⟩ | ⟨-, ho⟩ := hcases t' fd' ho
    · exact ⟨hget, hsmall, file, hfile, hset⟩
    · exact h.opening t' fd' ho
  · obtain ⟨rfl, rfl⟩ | ⟨-, ho₁⟩ := hcases t₁ fd' h₁
    · obtain ⟨rfl, -⟩ | ⟨-, ho₂⟩ := hcases t₂ fd' h₂
      · rfl
      · exact absurd ho₂ (halone t₂)
    · obtain ⟨rfl, rfl⟩ | ⟨-, ho₂⟩ := hcases t₂ fd' h₂
      · exact absurd ho₁ (halone t₁)
      · exact h.single t₁ t₂ fd' ho₁ ho₂

/-- A new context of a socket. -/
theorem init_socket {file : File} (hset : isNonblock file.settable = true) :
    (FdCtx.init (some true) file).1 = ⟨true, true, true, false, false, noTimeout, noTimeout⟩ ∧
      isNonblock (FdCtx.init (some true) file).2.flags = true :=
  ⟨rfl, (HookedFd.opened_inv hset).kept.nonblock⟩

/-- A context is put in for a number that nobody is opening any more. -/
theorem Inv.install (h : Inv s) (hsmall : fd * 3 / 2 < 2 ^ 31)
    (halone : ∀ t, ¬Opening (s.callers t) fd) (f : Bool × File) (heap : List FdCtx) (addr : Nat) :
    Inv { s.setFile fd (some f) with heap, manager := s.manager.put fd addr } := by
  refine ⟨h.sized.put hsmall, fun fd' hnone => ?_, fun t' fd' ho => ?_, h.single⟩
  · by_cases heq : fd' = fd
    · subst heq
      exact absurd ((setFile_self s fd' (some f)).symm.trans hnone) (by simp)
    · have hfree : s.files fd' = none := (setFile_other (some f) heq).symm.trans hnone
      exact (h.sized.get_put hsmall fd').trans ((if_neg heq).trans (h.free fd' hfree))
  · obtain ⟨hget, hsmall', file, hfile, hset⟩ := h.opening t' fd' ho
    have heq : fd' ≠ fd := by
      rintro rfl
      exact halone t' ho
    exact ⟨(h.sized.get_put hsmall fd').trans ((if_neg heq).trans hget), hsmall', file,
      (setFile_other (some f) heq).trans hfile, hset⟩

/-- What `get(fd, true)` does under the write lock. -/
theorem Inv.make (h : Inv s) (hstep : s.make t = some s') :
    ∃ fd, s'.callers = Function.update s.callers t (.opened fd) ∧ Fresh s' fd ∧ Inv s' := by
  unfold Process.make at hstep
  split at hstep
  · rename_i fd hplace
    obtain ⟨-, hsmall, file, hfile, hset⟩ := h.opening t fd (.inr hplace)
    obtain ⟨hctx, hflags⟩ := init_socket hset
    rw [hfile] at hstep
    obtain rfl := Option.some.inj hstep
    refine ⟨fd, rfl, ?_, ?_⟩
    · refine ⟨s.heap.length, (FdCtx.init (some true) file).1, (FdCtx.init (some true) file).2,
        ?_, ?_, ?_, ?_, ?_, ?_, ?_, hflags⟩
      · exact (h.sized.get_put hsmall fd).trans (if_pos rfl)
      · exact List.getElem?_concat_length ..
      · rw [hctx]
      · rw [hctx]
      · rw [hctx]
      · rw [hctx]
      · exact setFile_self ..
    · have hleft : Inv (s.move t (.opened fd)) := h.leave (by simp [Opening])
      refine hleft.install hsmall (fun t' ho => ?_) _ _ _
      by_cases ht : t' = t
      · subst ht
        rw [move_self] at ho
        simp [Opening] at ho
      · rw [move_other _ ht] at ho
        exact ht (h.single t' t fd ho (.inr hplace))
  · cases hstep

/-- The table may lose contexts. -/
theorem Inv.drop (h : Inv s) {m : FdManager} (hm : m.Sized)
    (hkeep : ∀ fd, s.manager.get fd = none → m.get fd = none) : Inv { s with manager := m } := by
  refine ⟨hm, fun fd hnone => hkeep fd (h.free fd hnone), fun t fd ho => ?_, h.single⟩
  obtain ⟨hget, hrest⟩ := h.opening t fd ho
  exact ⟨hkeep fd hget, hrest⟩

theorem Inv.closeFd (h : Inv s) (hplace : s.callers t = .close fd) (hok : Clean s (.closeFd t)) :
    Inv (s.setFile fd none) := by
  have hclean : s.manager.get fd = none ∧ ∀ t', ¬Opening (s.callers t') fd := by
    by_cases hopen : s.files fd = none
    · refine ⟨h.free fd hopen, fun t' ho => ?_⟩
      obtain ⟨-, -, file, hfile, -⟩ := h.opening t' fd ho
      rw [hopen] at hfile
      cases hfile
    · exact hok fd hplace hopen
  refine ⟨h.sized, fun fd' hnone => ?_, fun t' fd' ho => ?_, h.single⟩
  · by_cases heq : fd' = fd
    · rw [heq]
      exact hclean.1
    · rw [setFile_other _ heq] at hnone
      exact h.free fd' hnone
  · have heq : fd' ≠ fd := by
      rintro rfl
      exact hclean.2 t' ho
    rw [setFile_other _ heq]
    exact h.opening t' fd' ho

theorem onFile_settable (c : Control) (file : File) : (c.onFile file).settable = file.settable := by
  cases c <;> rfl

theorem Inv.original (h : Inv s) (c : Control) (ok : Bool) (fd : Nat) :
    Inv (s.setFile fd ((s.files fd).map fun f => (f.1, if ok then c.onFile f.2 else f.2))) := by
  refine ⟨h.sized, fun fd' hnone => ?_, fun t' fd' ho => ?_, h.single⟩
  · by_cases heq : fd' = fd
    · subst heq
      rw [setFile_self, Option.map_eq_none_iff] at hnone
      exact h.free fd' hnone
    · rw [setFile_other _ heq] at hnone
      exact h.free fd' hnone
  · obtain ⟨hget, hsmall, file, hfile, hset⟩ := h.opening t' fd' ho
    by_cases heq : fd' = fd
    · subst heq
      refine ⟨hget, hsmall, if ok then c.onFile file else file, ?_, ?_⟩
      · rw [setFile_self, hfile]
        rfl
      · cases ok with
        | true => exact (onFile_settable c file).symm ▸ hset
        | false => exact hset
    · exact ⟨hget, hsmall, file, by rw [setFile_other _ heq]; exact hfile, hset⟩

/-! ## Runs -/

/-- What a step does. -/
inductive Effect (s : Process) : Action → Process → Prop
  /-- a caller goes on, and may have used a context -/
  | quiet {a : Action} {t : Nat} {p : Place} (heap : List FdCtx) :
      (∀ fd, ¬Opening p fd ∧ p ≠ .opened fd) → Effect s a ({ s with heap }.move t p)
  | hand {t fd : Nat} {file : File} (manage : Bool) : s.files fd = none →
      isNonblock file.settable = true → Effect s (.kernel t (some (fd, file)))
        ((s.setFile fd (some (true, file))).move t (if manage then .find fd else .idle))
  | find {t fd : Nat} : s.callers t = .find fd → Effect s (.find t)
      (s.move t (if (s.manager.get fd).isSome then .opened fd else .make fd))
  | make {t : Nat} {s' : Process} : s.make t = some s' → Effect s (.make t) s'
  | del {t fd : Nat} :
      Effect s (.del t) ({ s with manager := s.manager.del fd }.move t (.close fd))
  | closeFd {t fd : Nat} : s.callers t = .close fd →
      Effect s (.closeFd t) ((s.setFile fd none).move t .idle)
  | original {t : Nat} {ok : Bool} (fd : Nat) (c : Control) : Effect s (.original t ok)
      ((s.setFile fd ((s.files fd).map fun f => (f.1, if ok then c.onFile f.2 else f.2))).move t
        .idle)
  | other {fd : Nat} {isSocket : Bool} {file : File} : s.files fd = none →
      Effect s (.other fd isSocket file) (s.setFile fd (some (isSocket, file)))

theorem step_effect (hstep : s.step a = some s') : Effect s a s' := by
  cases a with
  | socket t hookEnable =>
      obtain ⟨-, hstep⟩ := Option.ite_none_right_eq_some.mp hstep
      obtain rfl := Option.some.inj hstep
      exact .quiet s.heap (by simp [Opening])
  | accept t =>
      obtain ⟨-, hstep⟩ := Option.ite_none_right_eq_some.mp hstep
      obtain rfl := Option.some.inj hstep
      exact .quiet s.heap (by simp [Opening])
  | kernel t r =>
      simp only [Process.step, kernel] at hstep
      split at hstep
      · obtain rfl := Option.some.inj hstep
        exact .quiet s.heap (by simp [Opening])
      · obtain ⟨⟨hfree, hset⟩, hstep⟩ := Option.ite_none_right_eq_some.mp hstep
        obtain rfl := Option.some.inj hstep
        exact .hand _ hfree hset
      · cases hstep
  | find t =>
      simp only [Process.step, find] at hstep
      split at hstep
      · rename_i fd hplace
        obtain rfl := Option.some.inj hstep
        exact .find hplace
      · cases hstep
  | make t => exact .make hstep
  | done t =>
      simp only [Process.step] at hstep
      split at hstep
      · obtain rfl := Option.some.inj hstep
        exact .quiet s.heap (by simp [Opening])
      · cases hstep
  | close t fd hookEnable =>
      obtain ⟨-, hstep⟩ := Option.ite_none_right_eq_some.mp hstep
      obtain rfl := Option.some.inj hstep
      refine .quiet s.heap fun fd' => ?_
      split <;> simp [Opening]
  | del t =>
      simp only [Process.step] at hstep
      split at hstep
      · obtain rfl := Option.some.inj hstep
        exact .del
      · cases hstep
  | closeFd t =>
      simp only [Process.step] at hstep
      split at hstep
      · rename_i fd hplace
        obtain rfl := Option.some.inj hstep
        exact .closeFd hplace
      · cases hstep
  | control t fd c hookEnable =>
      obtain ⟨-, hstep⟩ := Option.ite_none_right_eq_some.mp hstep
      obtain rfl := Option.some.inj hstep
      refine .quiet s.heap fun fd' => ?_
      split <;> simp [Opening]
  | use t =>
      simp only [Process.step, use] at hstep
      split at hstep
      · obtain rfl := Option.some.inj hstep
        exact .quiet s.heap (by simp [Opening])
      · obtain ⟨ctx, -, rfl⟩ := Option.map_eq_some_iff.mp hstep
        exact .quiet _ (by simp [Opening])
      · cases hstep
  | original t ok =>
      simp only [Process.step, original] at hstep
      split at hstep
      · rename_i fd c hplace
        obtain rfl := Option.some.inj hstep
        exact .original fd c
      · cases hstep
  | other fd isSocket file =>
      obtain ⟨hfree, hstep⟩ := Option.ite_none_right_eq_some.mp hstep
      obtain rfl := Option.some.inj hstep
      exact .other hfree

theorem Inv.step (h : Inv s) (hok : Clean s a) (hstep : s.step a = some s') : Inv s' := by
  cases step_effect hstep with
  | quiet heap hp =>
      have hheap : Inv { s with heap } := ⟨h.sized, h.free, h.opening, h.single⟩
      exact hheap.leave fun fd => (hp fd).1
  | @hand t fd file manage hfree hset =>
      have hhand := h.hand hfree (true, file)
      cases manage with
      | false => exact hhand.leave (by simp [Opening])
      | true =>
          refine hhand.begin_ (h.free fd hfree) hok (setFile_self ..) hset fun t' ho => ?_
          obtain ⟨-, -, file', hfile', -⟩ := h.opening t' fd ho
          rw [hfree] at hfile'
          cases hfile'
  | @find t fd hplace =>
      rw [(h.opening t fd (.inl hplace)).1]
      refine h.move fun fd' ho => ?_
      obtain ho | ho := ho
      · cases ho
      · cases ho
        exact .inl hplace
  | make hmake =>
      obtain ⟨-, -, -, hs'⟩ := h.make hmake
      exact hs'
  | @del t fd =>
      have hsized : (s.manager.del fd).Sized := h.sized.del fd
      have hkeep : ∀ fd', s.manager.get fd' = none → (s.manager.del fd).get fd' = none :=
        fun _ hnone => h.sized.get_del hnone
      generalize s.manager.del fd = m at hsized hkeep ⊢
      exact (h.drop hsized hkeep).leave (by simp [Opening])
  | closeFd hplace => exact (h.closeFd hplace hok).leave (by simp [Opening])
  | original fd c => exact (h.original c _ fd).leave (by simp [Opening])
  | other hfree => exact h.hand hfree _

theorem reachable_inv (h : system.ReachableBy Clean s) : Inv s := by
  refine h.invariant (fun s hinit => ?_) fun s a s' hs hok hstep => hs.step hok hstep
  obtain ⟨files, rfl⟩ := hinit
  exact new_inv files

/-- A step in which a call gets to `opened` is its `make`. -/
theorem returned_make (h : Inv s) (hstep : s.step a = some s') (hbefore : s.callers t ≠ .opened fd)
    (hreturn : s'.callers t = .opened fd) : ∃ t', a = .make t' := by
  have hmove : ∀ {s₀ : Process} {t₀ p}, s₀.callers = s.callers → p ≠ .opened fd →
      (s₀.move t₀ p).callers t ≠ .opened fd := by
    intro s₀ t₀ p hsame hp
    by_cases ht : t = t₀
    · rw [ht, move_self]
      exact hp
    · rw [move_other _ ht, hsame]
      exact hbefore
  cases step_effect hstep with
  | quiet heap hp => exact absurd hreturn (hmove rfl (hp fd).2)
  | hand manage hfree hset =>
      refine absurd hreturn (hmove rfl ?_)
      split <;> simp
  | @find t' fd' hplace =>
      rw [(h.opening t' fd' (.inl hplace)).1] at hreturn
      exact absurd hreturn (hmove rfl (by simp))
  | make hmake => exact ⟨_, rfl⟩
  | del => exact absurd hreturn (hmove rfl (by simp))
  | closeFd hplace => exact absurd hreturn (hmove rfl (by simp))
  | original fd' c => exact absurd hreturn (hmove rfl (by simp))
  | other hfree => exact absurd hreturn hbefore

/-- **A new descriptor inherits nothing**, in every run that closes no
number under its context: when `socket` or `accept` returns one, its
context is fresh and its file is in non-blocking mode. -/
theorem opened_fresh (h : system.ReachableBy Clean s) (hstep : system.step s a = some s')
    (hbefore : s.callers t ≠ .opened fd) (hreturn : s'.callers t = .opened fd) : Fresh s' fd := by
  have hinv := reachable_inv h
  obtain ⟨t', rfl⟩ := returned_make hinv hstep hbefore hreturn
  obtain ⟨fd', hcallers, hfresh, -⟩ := hinv.make hstep
  rw [hcallers] at hreturn
  by_cases ht : t = t'
  · rw [ht, Function.update_self] at hreturn
    obtain rfl := Place.opened.inj hreturn
    exact hfresh
  · rw [Function.update_of_ne ht] at hreturn
    exact absurd hreturn hbefore

/-- Thread 0 makes the socket 5 and sets a timeout. -/
def firstUse : List Action :=
  [.socket 0 true, .kernel 0 (some (5, ⟨2, 0xC00⟩)), .find 0, .make 0, .done 0,
    .control 0 5 (.timeout true 100) true, .use 0, .original 0 true]

/-- A thread closes it, and thread 0 gets the number again. -/
def secondUse (t : Nat) (hookEnable : Bool) : List Action :=
  (.close t 5 hookEnable :: if hookEnable then [.del t] else []) ++
    [.closeFd t, .socket 0 true, .kernel 0 (some (5, ⟨2, 0xC00⟩))]

/-- The timeout that `get(5)` remembers. -/
def remembered (s : Process) : Option Nat :=
  (s.manager.get 5).bind fun addr => (s.heap[addr]?).map FdCtx.recvTimeout

/-- The hook of the closing thread is disabled: the new socket has the old
timeout. -/
theorem stale_inherited : ∃ s s', system.Reachable s ∧ s.callers 0 = .find 5 ∧
    system.step s (.find 0) = some s' ∧ s'.callers 0 = .opened 5 ∧ ¬Fresh s' 5 := by
  have hinit : system.Reachable (new fun _ => none) := .init ⟨_, rfl⟩
  have hrun : (system.replay (new fun _ => none) (firstUse ++ secondUse 1 false)).any (fun s =>
      s.callers 0 = .find 5 ∧ (s.find 0).any (fun s' =>
        s'.callers 0 = .opened 5 ∧ s'.remembered = some 100) = true) = true := by
    rfl
  obtain ⟨s, hs, hstate⟩ := (Option.any_eq_true _ _).mp hrun
  obtain ⟨hfind, hafter⟩ := of_decide_eq_true hstate
  obtain ⟨s', hs', hstate'⟩ := (Option.any_eq_true _ _).mp hafter
  obtain ⟨hopened, hold⟩ := of_decide_eq_true hstate'
  refine ⟨s, s', System.replay_reachable hinit hs, hfind, hs', hopened, ?_⟩
  rintro ⟨addr, ctx, file, hget, hctx, hrecv, -⟩
  rw [remembered, hget, Option.bind_some, hctx, Option.map_some, hrecv] at hold
  exact absurd hold (by decide)

/-- After a hooked `close` the new socket is fresh. -/
theorem opened_fresh_reused : ∃ s s', system.step s (.make 0) = some s' ∧ s.heap.length = 1 ∧
    Fresh s' 5 := by
  have hdone : ∀ {s : Process}, system.ReachableBy Clean s →
      (s.callers 0 = .make 5 ∧ s.heap.length = 1 ∧
        (s.make 0).any (fun s' => s'.callers 0 = .opened 5) = true) →
      ∃ s s', system.step s (.make 0) = some s' ∧ s.heap.length = 1 ∧ Fresh s' 5 := by
    rintro s h ⟨hplace, hheap, hany⟩
    obtain ⟨s', hs', hret⟩ := (Option.any_eq_true _ _).mp hany
    exact ⟨s, s', hs', hheap,
      opened_fresh (t := 0) (a := .make 0) h hs' (by simp [hplace]) (of_decide_eq_true hret)⟩
  have hsmall : 5 * 3 / 2 < 2 ^ 31 := by decide
  have hinit : system.ReachableBy Clean (new fun _ => none) := .init ⟨_, rfl⟩
  have h := hinit.step (e := Action.socket 0 true) trivial rfl
  have h := h.step (e := Action.kernel 0 (some (5, ⟨2, 0xC00⟩))) hsmall rfl
  have h := h.step (e := Action.find 0) trivial rfl
  have h := h.step (e := Action.make 0) trivial rfl
  have h := h.step (e := Action.done 0) trivial rfl
  have h := h.step (e := Action.close 0 5 true) trivial rfl
  have h := h.step (e := Action.del 0) trivial rfl
  have h := h.step (e := Action.closeFd 0) (fun fd hplace _ => by
    obtain rfl : 5 = fd := Place.close.inj hplace
    refine ⟨by decide, fun t' ho => ?_⟩
    by_cases ht : t' = 0
    · subst ht
      obtain ho | ho := ho <;> cases ho
    · simp [Opening, move, setFile, Function.update_of_ne ht, new] at ho) rfl
  have h := h.step (e := Action.socket 0 true) trivial rfl
  have h := h.step (e := Action.kernel 0 (some (5, ⟨2, 0xC00⟩))) hsmall rfl
  have h := h.step (e := Action.find 0) trivial rfl
  exact hdone h (by decide)

end Process

end Sylar
