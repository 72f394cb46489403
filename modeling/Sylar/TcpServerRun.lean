import Mathlib.Algebra.Order.Group.Multiset
import Mathlib.Data.Multiset.Range
import Sylar.Lib.System
import Sylar.TcpServer

/-!
# A server from `bind` to `stop`

`TcpServer::start`, `startAccept` and `stop`. `start` schedules a fiber
for each socket, which accepts clients until it finds `m_isStop` set;
`stop` sets it and schedules one that closes the sockets. The fibers run
on any number of threads, so that their steps come in any order between
the calls.

No client is lost or handled twice (`clients_handled`). After `stop` each
fiber accepts one more client at most, and all of them end
(`stop_bounded`). Nothing tells the user when they have: a `start` before
that leaves the old fibers running, next to the new ones or on sockets
that are closed. `start` and `bind` are safe exactly when no fiber is left
(`orderly_iff`).

The calls, and the accesses to `m_isStop`, which nothing protects, are
taken to be atomic.
-/

namespace Sylar

/-- Where `startAccept` is: at the head of its loop, in `accept`, or with a
client that is to be scheduled. -/
inductive AcceptStage where
  | check
  | accept
  | schedule (client : Nat)
deriving Repr, DecidableEq

/-- A fiber on `m_acceptWorker`; before it begins it is at the head of the
loop. -/
inductive AcceptTask where
  | startAccept (sock : Nat) (stage : AcceptStage)
  /-- the lambda of `stop` -/
  | closeAll
deriving Repr, DecidableEq

namespace AcceptTask

/-- The client in its hands. -/
def client : AcceptTask → Multiset Nat
  | .startAccept _ (.schedule c) => {c}
  | _ => 0

def holds (c : Nat) : AcceptTask → Bool
  | .startAccept _ (.schedule c') => c' = c
  | _ => false

def sock : AcceptTask → Option Nat
  | .startAccept k _ => some k
  | .closeAll => none

/-- How many steps it makes at most until it ends, when the server is
stopped. -/
def work : AcceptTask → Nat
  | .startAccept _ .accept => 3
  | .startAccept _ (.schedule _) => 2
  | _ => 1

def accepts : AcceptTask → Nat
  | .startAccept _ .accept => 1
  | _ => 0

end AcceptTask

/-- Sockets and clients are numbered. -/
structure ServerRun where
  socks : List Nat
  /-- the sockets there have been -/
  made : Nat
  closed : List Nat
  isStop : Bool
  tasks : List AcceptTask
  /-- the clients that have been accepted -/
  clients : Nat
  /-- those given to `handleClient` -/
  handled : List Nat
deriving Repr, DecidableEq

namespace ServerRun

inductive ServerEvent where
  /-- `bind`, which makes `n` listening sockets, and whether it succeeds -/
  | bind (n : Nat) (ok : Bool)
  | start
  | stop
  /-- a step of a fiber, and whether `accept` has a client -/
  | run (t : Nat) (client : Bool)
deriving Repr, DecidableEq

/-- The step of the fiber `t`. -/
def runTask (s : ServerRun) (t : Nat) (client : Bool) : AcceptTask → ServerRun
  | .closeAll =>
      { s with closed := s.closed ++ s.socks, socks := [], tasks := s.tasks.eraseIdx t }
  | .startAccept k .check =>
      if s.isStop then { s with tasks := s.tasks.eraseIdx t }
      else { s with tasks := s.tasks.set t (.startAccept k .accept) }
  | .startAccept k .accept =>
      if client ∧ k ∉ s.closed then
        { s with
          clients := s.clients + 1
          tasks := s.tasks.set t (.startAccept k (.schedule s.clients)) }
      else { s with tasks := s.tasks.set t (.startAccept k .check) }
  | .startAccept k (.schedule c) =>
      { s with handled := s.handled ++ [c], tasks := s.tasks.set t (.startAccept k .check) }

def step (s : ServerRun) : ServerEvent → Option ServerRun
  | .bind n ok => some
      { s with
        made := s.made + n
        socks := if ok then s.socks ++ List.range' s.made n else [] }
  | .start => some
      (if !s.isStop then s
      else { s with
        isStop := false
        tasks := s.tasks ++ s.socks.map fun k => .startAccept k .check })
  | .stop => some { s with isStop := true, tasks := s.tasks ++ [.closeAll] }
  | .run t client => s.tasks[t]?.map (s.runTask t client)

/-- What the constructor leaves. -/
def new : ServerRun := ⟨[], 0, [], true, [], 0, []⟩

def system : System ServerRun ServerEvent where
  init s := s = new
  step := step

/-- What a step does. -/
inductive Stepped (s : ServerRun) : ServerEvent → ServerRun → Prop
  | bind {n : Nat} {ok : Bool} : Stepped s (.bind n ok)
      { s with
        made := s.made + n
        socks := if ok then s.socks ++ List.range' s.made n else [] }
  | started : s.isStop = false → Stepped s .start s
  | start : s.isStop = true → Stepped s .start
      { s with
        isStop := false
        tasks := s.tasks ++ s.socks.map fun k => .startAccept k .check }
  | stop : Stepped s .stop { s with isStop := true, tasks := s.tasks ++ [.closeAll] }
  | closeAll {t : Nat} {client : Bool} : s.tasks[t]? = some .closeAll →
      Stepped s (.run t client)
        { s with closed := s.closed ++ s.socks, socks := [], tasks := s.tasks.eraseIdx t }
  | ends {t : Nat} {client : Bool} {k : Nat} : s.tasks[t]? = some (.startAccept k .check) →
      s.isStop = true → Stepped s (.run t client) { s with tasks := s.tasks.eraseIdx t }
  | accept {t : Nat} {client : Bool} {k : Nat} : s.tasks[t]? = some (.startAccept k .check) →
      s.isStop = false →
      Stepped s (.run t client) { s with tasks := s.tasks.set t (.startAccept k .accept) }
  | accepted {t k : Nat} : s.tasks[t]? = some (.startAccept k .accept) → k ∉ s.closed →
      Stepped s (.run t true)
        { s with
          clients := s.clients + 1
          tasks := s.tasks.set t (.startAccept k (.schedule s.clients)) }
  | failed {t : Nat} {client : Bool} {k : Nat} : s.tasks[t]? = some (.startAccept k .accept) →
      Stepped s (.run t client) { s with tasks := s.tasks.set t (.startAccept k .check) }
  | schedule {t : Nat} {client : Bool} {k c : Nat} :
      s.tasks[t]? = some (.startAccept k (.schedule c)) →
      Stepped s (.run t client)
        { s with handled := s.handled ++ [c], tasks := s.tasks.set t (.startAccept k .check) }

theorem step_stepped {s s' : ServerRun} {e : ServerEvent} (h : s.step e = some s') :
    Stepped s e s' := by
  cases e with
  | bind n ok =>
      obtain rfl := Option.some.inj h
      exact .bind
  | start =>
      obtain rfl := Option.some.inj h
      cases hstop : s.isStop with
      | true => exact .start hstop
      | false => exact .started hstop
  | stop =>
      obtain rfl := Option.some.inj h
      exact .stop
  | run t client =>
      obtain ⟨task, ht, rfl⟩ := Option.map_eq_some_iff.mp h
      cases task with
      | closeAll => exact .closeAll ht
      | startAccept k stage =>
          cases stage with
          | check =>
              rw [runTask]
              split
              · rename_i hstop
                exact .ends ht hstop
              · rename_i hrun
                exact .accept ht (Bool.eq_false_iff.mpr hrun)
          | accept =>
              rw [runTask]
              split
              · rename_i hclient
                obtain ⟨rfl, hopen⟩ := hclient
                exact .accepted ht hopen
              · exact .failed ht
          | schedule c => exact .schedule ht

/-- What the event says of `bind` is what `bind` does to `m_socks`. -/
theorem bind_socks {α : Type} {getFamily : α → Int} (held : Socket α → Bool)
    (server : TcpServer α) (calls : List (α × Answers α)) (k : Kernel α) :
    ∃ news, (server.bind getFamily held calls [] k).server.socks =
        (if (server.bind getFamily held calls [] k).ok then server.socks ++ news else []) ∧
      ((server.bind getFamily held calls [] k).ok = true → news.length = calls.length) := by
  obtain ⟨news, hsocks, hfails, hserved⟩ :=
    @TcpServer.loop_spec α getFamily calls ⟨server.socks, [], k⟩
  refine ⟨news, ?_⟩
  rw [TcpServer.bind]
  split
  · exact ⟨rfl, fun h => absurd h Bool.false_ne_true⟩
  · rename_i hnone
    rw [Bool.not_eq_true, Bool.not_eq_false', List.isEmpty_iff] at hnone
    rw [hnone, List.nil_append, eq_comm, List.map_eq_nil_iff, List.filter_eq_nil_iff] at hfails
    refine ⟨hsocks, fun _ => ?_⟩
    have hall : calls.filter (fun c => TcpServer.granted c.2) = calls :=
      List.filter_eq_self.mpr fun c hc => by simpa using hfails c hc
    rw [← hserved.serves.length_eq, hall, List.length_map]

/-! ## The clients -/

variable {s s' : ServerRun} {e : ServerEvent}

/-- The clients that have been handed on, and those between `accept` and
`schedule`. -/
def received (s : ServerRun) : Multiset Nat :=
  (s.handled : Multiset Nat) + (s.tasks.map AcceptTask.client).sum

theorem stepped_received (h : s.received = Multiset.range s.clients) (hs : Stepped s e s') :
    s'.received = Multiset.range s'.clients := by
  rw [received] at h ⊢
  cases hs with
  | bind | started => exact h
  | start =>
      have hnone : ((s.socks.map fun k => AcceptTask.startAccept k .check).map
          AcceptTask.client).sum = 0 := by
        rw [List.map_map]
        exact List.sum_eq_zero fun x hx => by
          obtain ⟨k, -, rfl⟩ := List.mem_map.mp hx
          rfl
      rw [List.map_append, List.sum_append, hnone, add_zero]
      exact h
  | stop =>
      have hnone : ([AcceptTask.closeAll].map AcceptTask.client).sum = 0 := rfl
      rw [List.map_append, List.sum_append, hnone, add_zero]
      exact h
  | closeAll ht | ends ht =>
      have hsum := (add_zero _).symm.trans (sum_map_eraseIdx AcceptTask.client ht)
      exact (congrArg _ hsum).trans h
  | @accept t _ k ht =>
      have hsum := sum_map_set AcceptTask.client (.startAccept k .accept) ht
      exact (congrArg _ (add_right_cancel hsum)).trans h
  | @failed t _ k ht =>
      have hsum := sum_map_set AcceptTask.client (.startAccept k .check) ht
      exact (congrArg _ (add_right_cancel hsum)).trans h
  | @accepted t k ht =>
      have hsum := sum_map_set AcceptTask.client (.startAccept k (.schedule s.clients)) ht
      have hnew : ((s.tasks.set t (.startAccept k (.schedule s.clients))).map
          AcceptTask.client).sum = (s.tasks.map AcceptTask.client).sum + {s.clients} :=
        (add_zero _).symm.trans hsum
      simp only
      rw [hnew, ← add_assoc, h, Multiset.range_succ, add_comm, Multiset.singleton_add]
  | @schedule t _ k c ht =>
      have hsum := sum_map_set AcceptTask.client (.startAccept k .check) ht
      have hold : ((s.tasks.set t (.startAccept k .check)).map AcceptTask.client).sum + {c} =
          (s.tasks.map AcceptTask.client).sum := hsum.trans (add_zero _)
      simp only
      rw [← h, ← hold, ← Multiset.coe_add, Multiset.coe_singleton, add_assoc,
        add_comm (({c} : Multiset Nat))]

theorem received_eq (h : system.Reachable s) : s.received = Multiset.range s.clients := by
  refine System.ReachableBy.invariant (P := fun s => s.received = Multiset.range s.clients) ?_
    (fun t e t' ht _ hstep => stepped_received ht (step_stepped hstep)) h
  rintro t rfl
  rfl

theorem count_client (c : Nat) : ∀ tasks : List AcceptTask,
    ((tasks.map AcceptTask.client).sum).count c = tasks.countP (AcceptTask.holds c)
  | [] => rfl
  | task :: tasks => by
      have hone : task.client.count c = if task.holds c then 1 else 0 := by
        cases task with
        | closeAll => rfl
        | startAccept k stage =>
            cases stage with
            | check | accept => rfl
            | schedule c' =>
                simp [AcceptTask.client, AcceptTask.holds, Multiset.count_singleton, eq_comm]
      rw [List.map_cons, List.sum_cons, Multiset.count_add, count_client c tasks, hone,
        List.countP_cons, add_comm]

/-- **No client is lost or handled twice**: of those that have been
accepted, each has been given to `handleClient` once, or one fiber is about
to. -/
theorem clients_handled (h : system.Reachable s) (c : Nat) :
    s.handled.count c + s.tasks.countP (AcceptTask.holds c) = if c < s.clients then 1 else 0 := by
  have hcount := congrArg (Multiset.count c) (received_eq h)
  rw [received, Multiset.count_add, Multiset.coe_count, count_client] at hcount
  rw [hcount]
  split
  · rename_i hlt
    exact Multiset.count_eq_one_of_mem (Multiset.nodup_range _) (Multiset.mem_range.mpr hlt)
  · rename_i hge
    exact Multiset.count_eq_zero_of_notMem fun hmem => hge (Multiset.mem_range.mp hmem)

/-- One client has been handled, and a fiber has another one. -/
theorem clients_handled_two : ∃ s, system.Reachable s ∧ s.clients = 2 ∧ s.handled = [0] ∧
    s.handled.count 1 + s.tasks.countP (AcceptTask.holds 1) = 1 := by
  have hrun : system.replay new [.bind 1 true, .start, .run 0 true, .run 0 true, .run 0 true,
      .run 0 true, .run 0 true] =
        some ⟨[0], 1, [], false, [.startAccept 0 (.schedule 1)], 2, [0]⟩ :=
    rfl
  exact ⟨_, System.replay_reachable (.init rfl) hrun, rfl, rfl,
    clients_handled (System.replay_reachable (.init rfl) hrun) 1⟩

/-! ## After `stop` -/

/-- The steps the fibers have left, and the clients they may still accept. -/
def work (s : ServerRun) : Nat := (s.tasks.map AcceptTask.work).sum

def accepting (s : ServerRun) : Nat := (s.tasks.map AcceptTask.accepts).sum

/-- How the fibers of a stopped server go on. -/
structure Winds (s s' : ServerRun) : Prop where
  isStop : s'.isStop = true
  clients : s'.clients + s'.accepting ≤ s.clients + s.accepting
  closed : ∀ k ∈ s.closed, k ∈ s'.closed
  socks : s'.socks = s.socks ∧ (.closeAll ∈ s.tasks → .closeAll ∈ s'.tasks) ∨
    s'.socks = [] ∧ ∀ k ∈ s.socks, k ∈ s'.closed

theorem mem_set_of_ne {t : Nat} {task old new : AcceptTask} {tasks : List AcceptTask}
    (ht : tasks[t]? = some old) (hne : task ≠ old) (hmem : task ∈ tasks) :
    task ∈ tasks.set t new := by
  obtain ⟨i, hi⟩ := List.getElem?_of_mem hmem
  have hit : t ≠ i := by
    rintro rfl
    exact hne (Option.some.inj (hi.symm.trans ht))
  refine List.mem_of_getElem? (i := i) ?_
  rw [List.getElem?_set_ne hit, hi]

theorem mem_eraseIdx_of_ne {t : Nat} {task old : AcceptTask} {tasks : List AcceptTask}
    (ht : tasks[t]? = some old) (hne : task ≠ old) (hmem : task ∈ tasks) :
    task ∈ tasks.eraseIdx t := by
  obtain ⟨i, hi⟩ := List.getElem?_of_mem hmem
  refine List.mem_eraseIdx_iff_getElem?.mpr ⟨i, ?_, hi⟩
  rintro rfl
  exact hne (Option.some.inj (hi.symm.trans ht))

/-- A fiber that stays on its socket. -/
theorem winds_set (hstop : s.isStop = true) {t k : Nat} {stage : AcceptStage} {new : AcceptTask}
    (ht : s.tasks[t]? = some (.startAccept k stage)) {clients : Nat} {handled : List Nat}
    (hclients : clients + new.accepts ≤ s.clients + (AcceptTask.startAccept k stage).accepts) :
    Winds s { s with clients, handled, tasks := s.tasks.set t new } := by
  have haccepts : ((s.tasks.set t new).map AcceptTask.accepts).sum +
      (AcceptTask.startAccept k stage).accepts = s.accepting + new.accepts :=
    sum_map_set AcceptTask.accepts new ht
  refine ⟨hstop, ?_, fun _ h => h, .inl ⟨rfl, mem_set_of_ne ht nofun⟩⟩
  show clients + ((s.tasks.set t new).map AcceptTask.accepts).sum ≤ _
  omega

theorem stepped_winds (hstop : s.isStop = true) {t : Nat} {client : Bool}
    (hs : Stepped s (.run t client) s') : Winds s s' ∧ s'.work < s.work := by
  cases hs with
  | closeAll ht =>
      have hwork : ((s.tasks.eraseIdx t).map AcceptTask.work).sum + 1 = s.work :=
        sum_map_eraseIdx AcceptTask.work ht
      have haccepts : ((s.tasks.eraseIdx t).map AcceptTask.accepts).sum + 0 = s.accepting :=
        sum_map_eraseIdx AcceptTask.accepts ht
      refine ⟨⟨hstop, Nat.add_le_add_left (Nat.le_of_eq haccepts) _,
        fun _ h => List.mem_append_left _ h, .inr ⟨rfl, fun _ h => List.mem_append_right _ h⟩⟩, ?_⟩
      show ((s.tasks.eraseIdx t).map AcceptTask.work).sum < s.work
      omega
  | ends ht =>
      have hwork : ((s.tasks.eraseIdx t).map AcceptTask.work).sum + 1 = s.work :=
        sum_map_eraseIdx AcceptTask.work ht
      have haccepts : ((s.tasks.eraseIdx t).map AcceptTask.accepts).sum + 0 = s.accepting :=
        sum_map_eraseIdx AcceptTask.accepts ht
      refine ⟨⟨hstop, Nat.add_le_add_left (Nat.le_of_eq haccepts) _, fun _ h => h,
        .inl ⟨rfl, mem_eraseIdx_of_ne ht nofun⟩⟩, ?_⟩
      show ((s.tasks.eraseIdx t).map AcceptTask.work).sum < s.work
      omega
  | accept _ hrun => cases hstop.symm.trans hrun
  | @accepted _ k ht =>
      have hwork : ((s.tasks.set t (.startAccept k (.schedule s.clients))).map
          AcceptTask.work).sum + 3 = s.work + 2 := sum_map_set AcceptTask.work _ ht
      refine ⟨winds_set hstop ht (Nat.le_refl _), ?_⟩
      show ((s.tasks.set t (.startAccept k (.schedule s.clients))).map AcceptTask.work).sum < s.work
      omega
  | @failed _ _ k ht =>
      have hwork : ((s.tasks.set t (.startAccept k .check)).map AcceptTask.work).sum + 3 =
          s.work + 1 := sum_map_set AcceptTask.work _ ht
      refine ⟨winds_set hstop ht (Nat.le_succ _), ?_⟩
      show ((s.tasks.set t (.startAccept k .check)).map AcceptTask.work).sum < s.work
      omega
  | @schedule _ _ k c ht =>
      have hwork : ((s.tasks.set t (.startAccept k .check)).map AcceptTask.work).sum + 2 =
          s.work + 1 := sum_map_set AcceptTask.work _ ht
      refine ⟨winds_set hstop ht (Nat.le_refl _), ?_⟩
      show ((s.tasks.set t (.startAccept k .check)).map AcceptTask.work).sum < s.work
      omega

theorem Winds.trans {s₁ s₂ s₃ : ServerRun} (h : Winds s₁ s₂) (h' : Winds s₂ s₃) :
    Winds s₁ s₃ := by
  refine ⟨h'.isStop, Nat.le_trans h'.clients h.clients, fun k hk => h'.closed k (h.closed k hk), ?_⟩
  obtain ⟨hsocks, htask⟩ | ⟨hsocks, hclosed⟩ := h.socks
  · obtain ⟨hsocks', htask'⟩ | ⟨hsocks', hclosed'⟩ := h'.socks
    · exact .inl ⟨hsocks'.trans hsocks, htask' ∘ htask⟩
    · exact .inr ⟨hsocks', fun k hk => hclosed' k (hsocks ▸ hk)⟩
  · refine .inr ⟨?_, fun k hk => h'.closed k (hclosed k hk)⟩
    obtain ⟨hsocks', -⟩ | ⟨hsocks', -⟩ := h'.socks
    · rw [hsocks', hsocks]
    · exact hsocks'

/-- The steps of the fibers. -/
def steps (runs : List (Nat × Bool)) : List ServerEvent := runs.map fun r => .run r.1 r.2

theorem replay_winds : ∀ {runs : List (Nat × Bool)} {s s' : ServerRun}, s.isStop = true →
    system.replay s (steps runs) = some s' → Winds s s' ∧ runs.length + s'.work ≤ s.work
  | [], s, s', hstop, h => by
      obtain rfl := Option.some.inj h
      exact ⟨⟨hstop, Nat.le_refl _, fun _ hk => hk, .inl ⟨rfl, id⟩⟩, Nat.le_of_eq (Nat.zero_add _)⟩
  | r :: runs, s, s', hstop, h => by
      obtain ⟨t, ht, hrest⟩ := Option.bind_eq_some_iff.mp h
      obtain ⟨hone, hless⟩ := stepped_winds hstop (step_stepped ht)
      obtain ⟨hmore, hle⟩ := replay_winds hone.isStop hrest
      refine ⟨hone.trans hmore, ?_⟩
      rw [List.length_cons]
      omega

/-- **A stopped server ends.** Behind `stop` the fibers make no more than
`work` steps, whatever their order, and accept no more clients than were in
`accept`; when they have ended, all sockets are closed. -/
theorem stop_bounded {s₁ s' : ServerRun} (hstop : s.step .stop = some s₁)
    {runs : List (Nat × Bool)} (h : system.replay s₁ (steps runs) = some s') :
    runs.length + s'.work ≤ s.work + 1 ∧ s'.clients ≤ s.clients + s.accepting ∧
      (s'.tasks = [] → s'.socks = [] ∧ ∀ k ∈ s.socks, k ∈ s'.closed) := by
  obtain rfl := Option.some.inj hstop
  obtain ⟨hwinds, hle⟩ := replay_winds rfl h
  have hwork : work { s with isStop := true, tasks := s.tasks ++ [.closeAll] } = s.work + 1 := by
    simp [work, AcceptTask.work]
  have haccepting : accepting { s with isStop := true, tasks := s.tasks ++ [.closeAll] } =
      s.accepting := by
    simp [accepting, AcceptTask.accepts]
  refine ⟨hwork ▸ hle, ?_, fun hnil => ?_⟩
  · have hclients := hwinds.clients
    rw [haccepting] at hclients
    exact Nat.le_trans (Nat.le_add_right ..) hclients
  · obtain ⟨-, htask⟩ | hclosed := hwinds.socks
    · have hmem := htask (List.mem_append_right _ (List.mem_singleton.mpr rfl))
      rw [hnil] at hmem
      cases hmem
    · exact hclosed

/-- `stop` while a fiber is in `accept`. -/
theorem stop_bounded_accept : ∃ s', system.replay ⟨[0], 1, [], true,
      [.startAccept 0 .accept, .closeAll], 0, []⟩
      (steps [(0, true), (1, true), (0, true), (0, true)]) = some s' ∧
    s'.clients ≤ 1 ∧ s'.socks = [] ∧ ∀ k ∈ [0], k ∈ s'.closed := by
  have hrun : system.replay ⟨[0], 1, [], true, [.startAccept 0 .accept, .closeAll], 0, []⟩
      (steps [(0, true), (1, true), (0, true), (0, true)]) = some ⟨[], 1, [0], true, [], 1, [0]⟩ :=
    rfl
  obtain ⟨-, hclients, hclosed⟩ :=
    stop_bounded (s := ⟨[0], 1, [], false, [.startAccept 0 .accept], 0, []⟩) rfl hrun
  exact ⟨_, hrun, hclients, hclosed rfl⟩

/-! ## Starting again -/

/-- The number of fibers that accept on a socket. -/
def fibers (s : ServerRun) (k : Nat) : Nat := (s.tasks.map AcceptTask.sock).count (some k)

/-- Each socket is open and has one fiber, and there is no other. -/
structure Serving (s : ServerRun) : Prop where
  fibers : ∀ k, s.fibers k = if k ∈ s.socks then 1 else 0
  opened : ∀ k ∈ s.socks, k ∉ s.closed
  unstopped : .closeAll ∉ s.tasks

/-- A server that is not stopped serves. -/
def Orderly (s : ServerRun) : Prop := s.isStop = false → s.Serving

/-- `start` waits until all fibers have ended, and `bind` is for a server
that is stopped. -/
def Waits (s : ServerRun) : ServerEvent → Prop
  | .bind n ok => s.isStop = true ∨ if ok then n = 0 else s.socks = []
  | .start => s.isStop = true → s.tasks = []
  | _ => True

/-- The sockets are those that have been made and not been closed. -/
structure Numbered (s : ServerRun) : Prop where
  nodup : s.socks.Nodup
  socks : ∀ k ∈ s.socks, k < s.made
  closed : ∀ k ∈ s.closed, k < s.made
  opened : ∀ k ∈ s.socks, k ∉ s.closed

theorem stepped_numbered (h : Numbered s) (hs : Stepped s e s') : Numbered s' := by
  cases hs with
  | @bind n ok =>
      have hnew : ∀ k ∈ List.range' s.made n, s.made ≤ k ∧ k < s.made + n := fun k hk =>
        List.mem_range'_1.mp hk
      have hclosed : ∀ k ∈ s.closed, k < s.made + n := fun k hk =>
        Nat.lt_add_right n (h.closed k hk)
      cases ok with
      | false => exact ⟨.nil, nofun, hclosed, nofun⟩
      | true =>
          refine ⟨List.nodup_append.mpr ⟨h.nodup, List.nodup_range', ?_⟩, ?_, hclosed, ?_⟩
          · rintro j hj k hk rfl
            exact Nat.not_lt_of_le (hnew j hk).1 (h.socks j hj)
          · intro k hk
            obtain hk | hk := List.mem_append.mp hk
            · exact Nat.lt_add_right n (h.socks k hk)
            · exact (hnew k hk).2
          · intro k hk hk'
            obtain hk | hk := List.mem_append.mp hk
            · exact h.opened k hk hk'
            · exact Nat.not_lt_of_le (hnew k hk).1 (h.closed k hk')
  | closeAll ht =>
      refine ⟨.nil, nofun, fun k hk => ?_, nofun⟩
      exact (List.mem_append.mp hk).elim (h.closed k) (h.socks k)
  | started => exact h
  | start | stop | ends | accept | accepted | failed | schedule =>
      exact ⟨h.nodup, h.socks, h.closed, h.opened⟩

theorem tasks_eq_nil (h : ∀ k, s.fibers k = 0) (hclose : .closeAll ∉ s.tasks) : s.tasks = [] := by
  refine List.eq_nil_iff_forall_not_mem.mpr fun task htask => ?_
  cases task with
  | closeAll => exact hclose htask
  | startAccept k stage =>
      exact List.count_eq_zero.mp (h k) (List.mem_map.mpr ⟨_, htask, rfl⟩)

/-- The new fibers of `start`. -/
theorem serving_start_iff (h : Numbered s) :
    Serving { s with
      isStop := false, tasks := s.tasks ++ s.socks.map fun k => .startAccept k .check } ↔
      s.tasks = [] := by
  have hfibers (k : Nat) : ((s.tasks ++ s.socks.map fun k => AcceptTask.startAccept k .check).map
      AcceptTask.sock).count (some k) = s.fibers k + if k ∈ s.socks then 1 else 0 := by
    have hnew : (s.socks.map fun k => AcceptTask.startAccept k .check).map AcceptTask.sock =
        s.socks.map some := List.map_map ..
    rw [List.map_append, List.count_append, hnew,
      List.count_map_of_injective _ _ (Option.some_injective Nat), h.nodup.count]
    rfl
  constructor
  · intro hserving
    refine tasks_eq_nil (fun k => ?_) fun hclose => ?_
    · have hk := (hfibers k).symm.trans (hserving.fibers k)
      exact Nat.add_eq_right.mp hk
    · exact hserving.unstopped (List.mem_append_left _ hclose)
  · intro hnil
    refine ⟨fun k => (hfibers k).trans ?_, h.opened, ?_⟩
    · rw [fibers, hnil]
      exact Nat.zero_add _
    · rw [hnil]
      simp

theorem serving_bind_iff (h : Numbered s) (hserving : Serving s) (n : Nat) (ok : Bool) :
    Serving { s with
      made := s.made + n, socks := if ok then s.socks ++ List.range' s.made n else [] } ↔
      if ok then n = 0 else s.socks = [] := by
  cases ok with
  | false =>
      constructor
      · intro hserving'
        refine List.eq_nil_iff_forall_not_mem.mpr fun k hk => ?_
        have hone := hserving.fibers k
        rw [if_pos hk] at hone
        cases hone.symm.trans (hserving'.fibers k)
      · intro hnil
        have hnone := hserving.fibers
        rw [hnil] at hnone
        exact ⟨hnone, nofun, hserving.unstopped⟩
  | true =>
      constructor
      · intro hserving'
        show n = 0
        by_contra hn
        have hmade : s.made ∉ s.socks := fun hmem => Nat.lt_irrefl _ (h.socks _ hmem)
        have hnew : s.made ∈ s.socks ++ List.range' s.made n :=
          List.mem_append_right _ (List.mem_range'_1.mpr ⟨Nat.le_refl _, by omega⟩)
        have hnone := (hserving.fibers s.made).trans (if_neg hmade)
        have hone := (hserving'.fibers s.made).trans (if_pos hnew)
        cases hnone.symm.trans hone
      · rintro rfl
        have hsocks : s.socks ++ List.range' s.made 0 = s.socks := List.append_nil _
        simp only [if_true, hsocks]
        exact ⟨hserving.fibers, hserving.opened, hserving.unstopped⟩

/-- A fiber stays on its socket. -/
theorem Serving.set (h : Serving s) {t k : Nat} {stage stage' : AcceptStage}
    (ht : s.tasks[t]? = some (.startAccept k stage)) {clients : Nat} {handled : List Nat} :
    Serving { s with clients, handled, tasks := s.tasks.set t (.startAccept k stage') } := by
  have hsame : (s.tasks.set t (.startAccept k stage')).map AcceptTask.sock =
      s.tasks.map AcceptTask.sock := by
    obtain ⟨hlt, hget⟩ := List.getElem?_eq_some_iff.mp ht
    have hlt' : t < (s.tasks.map AcceptTask.sock).length := by simpa using hlt
    have hsock : (s.tasks.map AcceptTask.sock)[t] = some k := by
      rw [List.getElem_map, hget]
      rfl
    rw [List.map_set]
    exact (congrArg _ hsock.symm).trans (List.set_getElem_self _)
  refine ⟨fun j => ?_, h.opened, fun hmem => ?_⟩
  · exact (congrArg (List.count (some j)) hsame).trans (h.fibers j)
  · obtain hmem | hmem := List.mem_or_eq_of_mem_set hmem
    · exact h.unstopped hmem
    · cases hmem

/-- A step keeps the server orderly exactly if it waits. -/
theorem stepped_orderly_iff (hnumbered : Numbered s) (h : Orderly s) (hs : Stepped s e s') :
    Orderly s' ↔ Waits s e := by
  cases hs with
  | @bind n ok =>
      by_cases hstop : s.isStop = true
      · exact iff_of_true (fun hrun => nomatch hstop.symm.trans hrun) (.inl hstop)
      · have hrun := Bool.eq_false_iff.mpr hstop
        have hiff := serving_bind_iff hnumbered (h hrun) n ok
        exact ⟨fun horderly => .inr (hiff.mp (horderly hrun)), fun hwaits _ =>
          hiff.mpr (hwaits.resolve_left hstop)⟩
  | started hrun =>
      exact iff_of_true h fun hstop => nomatch hrun.symm.trans hstop
  | start hstop =>
      have hiff := serving_start_iff hnumbered
      exact ⟨fun horderly _ => hiff.mp (horderly rfl), fun hwaits _ => hiff.mpr (hwaits hstop)⟩
  | stop => exact ⟨fun _ => trivial, fun _ hrun => nomatch hrun⟩
  | closeAll ht =>
      refine ⟨fun _ => trivial, fun _ hrun => ?_⟩
      exact absurd (List.mem_of_getElem? ht) (h hrun).unstopped
  | ends ht hstop =>
      exact ⟨fun _ => trivial, fun _ hrun => nomatch hstop.symm.trans hrun⟩
  | accept ht | accepted ht | failed ht | schedule ht =>
      exact ⟨fun _ => trivial, fun _ hrun => (h hrun).set ht⟩

/-- **A server serves, whenever it is not stopped, along exactly the runs**
in which every `start` waits for the old fibers and no `bind` is called in
between. -/
theorem orderly_iff (hinit : system.init s) {events : List ServerEvent} :
    system.Along Orderly s events ↔ system.Permits Waits s events := by
  obtain rfl := hinit
  have hnumbered : Numbered new := ⟨.nil, nofun, nofun, nofun⟩
  refine System.along_iff_of_blocked (I := Numbered) ?_ ?_ ?_ hnumbered nofun
  · intro s e s' hs hstep
    exact stepped_numbered hs (step_stepped hstep)
  · intro s e hnone
    cases e with
    | run t client => trivial
    | bind n ok | start | stop => cases hnone
  · intro s e s' hs horderly hstep
    exact stepped_orderly_iff hs horderly (step_stepped hstep)

/-- A server that is started again when all has ended. -/
theorem orderly_iff_again : system.Along Orderly new
    [.bind 1 true, .start, .stop, .run 0 true, .run 0 true, .bind 1 true, .start] := by
  refine (orderly_iff rfl).mpr ?_
  refine ⟨.inl rfl, fun s hs => ?_⟩
  obtain rfl := Option.some.inj hs
  refine ⟨fun _ => rfl, fun s hs => ?_⟩
  obtain rfl := Option.some.inj hs
  refine ⟨trivial, fun s hs => ?_⟩
  obtain rfl := Option.some.inj hs
  refine ⟨trivial, fun s hs => ?_⟩
  obtain rfl := Option.some.inj hs
  refine ⟨trivial, fun s hs => ?_⟩
  obtain rfl := Option.some.inj hs
  refine ⟨.inl rfl, fun s hs => ?_⟩
  obtain rfl := Option.some.inj hs
  exact ⟨fun _ => rfl, fun _ _ => trivial⟩

/-- One that is started before the sockets are closed: it runs without a
socket, and its fibers never end. -/
theorem unserved : ∃ s, system.Reachable s ∧ s.isStop = false ∧ s.socks = [] ∧ s.closed = [0] ∧
    s.tasks = [.startAccept 0 .accept, .startAccept 0 .check] := by
  have hrun : system.replay new [.bind 1 true, .start, .run 0 true, .stop, .start, .run 1 true] =
      some ⟨[], 1, [0], false, [.startAccept 0 .accept, .startAccept 0 .check], 0, []⟩ :=
    rfl
  exact ⟨_, System.replay_reachable (.init rfl) hrun, rfl, rfl, rfl, rfl⟩

end ServerRun

end Sylar
