import ThreadPoolExec.Pool.Controller

/-!
# What a shutdown joins

If no stop is pending when `stop` or `join` takes the lock, every stop asked
for has a thread in `threadList_` to obey it, and the shutdown takes as many
threads as are stopped already or are still to stop.
-/

set_option autoImplicit false

namespace ThreadPoolExec.CPUThreadPoolExecutor

open Interleaving

/-- One thread controls the pool, and `stop` and `join` take the lock only while
`threadsToStop_` is zero. -/
def noStopPending (state : Global Memory Agent)
    (label : Label CountingSemaphore.Ending Move) : Prop :=
  oneController state label ∧
    ∀ agent ∈ moving state label, agent.startsShutdown = true → state.shared.threadsToStop = 0

instance (state : Global Memory Agent) (label : Label CountingSemaphore.Ending Move) :
    Decidable (noStopPending state label) :=
  inferInstanceAs (Decidable (oneController state label ∧
    ∀ agent ∈ moving state label, agent.startsShutdown = true → state.shared.threadsToStop = 0))

/-- No stop is asked for that no thread is there to obey. -/
structure Obeyed (memory : Memory) : Prop where
  overhang : memory.history.overhang = 0
  starts : ∀ isJoin, memory.threadListLock = some (.stopMax isJoin) ∨
    memory.threadListLock = some (.stopActive isJoin) → memory.threadsToStop = 0

section Obeyed

variable {queue : TaskQueue} {choice : CountingSemaphore.Ending} {wake : Bool}
  {memory after : Memory} {left rest : List Agent} {agent : Agent} {holder : Holder}

private theorem startsShutdown_of_wants {isJoin : Bool} (wants : agent.wants = some holder)
    (starts : holder = .stopMax isJoin ∨ holder = .stopActive isJoin) :
    agent.startsShutdown = true := by
  unfold Agent.wants at wants
  split at wants <;> cases wants <;> rcases starts with same | same <;> cases same
  rfl

private theorem Obeyed.act (acted : act queue choice memory agent = some (after, left))
    (clear : agent.startsShutdown = true → memory.threadsToStop = 0) (obeyed : Obeyed memory) :
    Obeyed after := by
  refine ⟨(act_history acted).2.trans obeyed.overhang, fun isJoin starts => ?_⟩
  rcases act_cases acted with ⟨holder, wants, -, -, rfl⟩ | ⟨call, -, records⟩ | ⟨same, -⟩
  · have begins : holder = .stopMax isJoin ∨ holder = .stopActive isJoin :=
      starts.imp Option.some.inj Option.some.inj
    exact clear (startsShutdown_of_wants wants begins)
  · cases records <;> exact obeyed.starts isJoin starts
  · have lock : after.threadListLock = memory.threadListLock :=
      congrArg Ledger.threadListLock same
    have toStop : after.threadsToStop = memory.threadsToStop := congrArg Ledger.threadsToStop same
    rw [lock] at starts
    exact toStop.trans (obeyed.starts isJoin starts)

private theorem Obeyed.hold (unbounded : queue.bounded = false)
    (locked : memory.threadListLock = some holder)
    (stepped : holder.next queue wake memory = some (after, left)) (obeyed : Obeyed memory) :
    Obeyed after := by
  refine ⟨?_, fun isJoin starts => ?_⟩
  · rcases (hold_history unbounded stepped).2 with same | ⟨isJoin, rfl, overhang⟩
    · exact same.trans obeyed.overhang
    · exact overhang.trans (obeyed.starts isJoin (.inr locked))
  · cases hold_step stepped with
    | worker thread holder after left step =>
        cases step <;> rcases starts with starts | starts <;> cases starts
    | removal removal n holder after left step =>
        cases step <;> rcases starts with starts | starts <;> cases starts
    | call holder after left step =>
        cases step with
        | clearsMax isJoin => exact obeyed.starts isJoin (.inl locked)
        | _ => rcases starts with starts | starts <;> cases starts

theorem reachable_obeyed {numThreads : Nat × Nat} {state : Global Memory Agent}
    (unbounded : queue.bounded = false)
    (reached : Reachable (system queue numThreads) noStopPending state) : Obeyed state.shared := by
  refine Reaches.invariant (fun memory _ => Obeyed memory) ?_ ?_ ?_ ?_ reached
  · intro memory agents others _ obeyed
    exact obeyed
  · refine ⟨rfl, fun isJoin starts => ?_⟩
    rcases starts with starts | starts <;> cases starts
  · intro before index choice agent after left _ allowed found acted obeyed
    exact obeyed.act acted (allowed.2 agent found)
  · intro before move after left _ _ moved obeyed
    rcases env_cases moved with ⟨operation, -, -, invoked⟩ | ⟨wake, holder, -, locked, stepped⟩
    · have overhang := (invoke_history before.shared operation).2
      have same := (invoke_ledger before.shared operation).2
      rw [invoked] at overhang same
      refine ⟨overhang.trans obeyed.overhang, fun isJoin starts => ?_⟩
      have lock : after.threadListLock = before.shared.threadListLock :=
        congrArg Ledger.threadListLock same
      have toStop : after.threadsToStop = before.shared.threadsToStop :=
        congrArg Ledger.threadsToStop same
      rw [lock] at starts
      exact toStop.trans (obeyed.starts isJoin starts)
    · exact obeyed.hold unbounded locked stepped

end Obeyed

/-! ## The takes of a shutdown -/

/-- Where the takes of `stop` and `join` begin and what follows them. -/
def Call.closes : Call → Bool
  | .joinStoppedThreads _ (.shutdown _) | .checkThreadList _ | .checkStopped _ | .shutDown _ => true
  | _ => false

section Closing

variable {memory : Memory} {agents : List Agent} {call : Call}

private theorem owed_eq_zero {agent : Agent} (controls : agent.role.controls = 0)
    (observes : agent.role.observes = 0) (tokens : agent.tokens = 0) : agent.owed = 0 := by
  cases agent with
  | worker thread worker => rfl
  | call call =>
      cases call with
      | joinStoppedThreads n joiner =>
          cases joiner with
          | ensureJoined ensurer =>
              cases ensurer with
              | add task => cases tokens
              | observer => cases observes
          | setNumThreads resizer => cases resizer <;> cases controls
          | shutdown isJoin => cases controls
      | _ => rfl

private theorem closed_of_closes (knows : call.Knows memory) (closes : call.closes = true) :
    Closed memory := by
  cases call with
  | joinStoppedThreads n joiner =>
      cases joiner with
      | shutdown isJoin => exact knows
      | _ => cases closes
  | checkThreadList isJoin => exact knows
  | checkStopped isJoin => exact knows
  | shutDown isJoin => exact knows
  | _ => cases closes

private theorem shutsDown_of_closes (closes : call.closes = true) : call.role.shutsDown = 1 := by
  cases call with
  | joinStoppedThreads n joiner => cases joiner <;> trivial
  | _ => trivial

/-- Beside a shutdown that takes its threads, only workers come to the lock. -/
theorem Controlled.works {holder : Holder} (controlled : Controlled memory agents)
    (stored : memory.Stored) (locked : memory.threadListLock = some holder)
    (member : .call call ∈ agents) (closes : call.closes = true) :
    holder.thread?.isSome = true := by
  have closed := closed_of_closes (controlled.calls _ member) closes
  have front := controlled.perm (List.perm_cons_erase member)
  have shutsDown : Role.shutsDown (Agent.call call).role = 1 := shutsDown_of_closes closes
  have single := front.single (front.called List.mem_cons_self shutsDown)
  have unobserved := front.unobserved
  have kept := front.kept
  have role : Role.controls (Agent.call call).role = 1 := Role.controls_of_shutsDown shutsDown
  rw [countRoles, Memory.holding, locked, Option.elim_some, total_cons, role] at single
  rw [countRoles, Memory.holding, locked, Option.elim_some] at unobserved
  rw [KeptAlive, closed.gone, locked, Option.elim_some] at kept
  exact thread_of_roles (stored holder locked) (by omega) (by omega) (by omega)

/-- What a shutdown still has to take are the threads that have stopped and
those that have not. -/
theorem Controlled.takes (controlled : Controlled memory agents)
    (accounted : Accounted memory.ledger (total Agent.owed agents)) (stored : memory.Stored)
    (forgone : memory.history.forgone = 0) (overhang : memory.history.overhang = 0)
    (member : .call call ∈ agents) (closes : call.closes = true) :
    call.owed = memory.stoppedThreads.length + memory.threadList.length ∧
      (memory.threadListLock = none → memory.threadsToStop = memory.threadList.length) := by
  have same : agents.Perm (.call call :: agents.erase (.call call)) := List.perm_cons_erase member
  have closed := closed_of_closes (controlled.calls _ member) closes
  have front := controlled.perm same
  have shutsDown : Role.shutsDown (Agent.call call).role = 1 := shutsDown_of_closes closes
  have single := front.single (front.called List.mem_cons_self shutsDown)
  have unobserved := front.unobserved
  have kept := front.kept
  have role : Role.controls (Agent.call call).role = 1 := Role.controls_of_shutsDown shutsDown
  rw [countRoles, total_cons, role] at single
  rw [countRoles, total_cons] at unobserved
  rw [KeptAlive, closed.gone, total_cons] at kept
  have others : total Agent.owed (agents.erase (.call call)) = 0 := by
    refine total_eq_zero_iff.mpr fun other inRest => ?_
    have controls : total (fun agent => Role.controls agent.role) (agents.erase (.call call)) = 0 :=
      by omega
    have observes : total (fun agent => Role.observes agent.role) (agents.erase (.call call)) = 0 :=
      by omega
    have tokens : total Agent.tokens (agents.erase (.call call)) = 0 := by omega
    exact owed_eq_zero (total_eq_zero_iff.mp controls other inRest)
      (total_eq_zero_iff.mp observes other inRest) (total_eq_zero_iff.mp tokens other inRest)
  have owes : total Agent.owed agents = call.owed := by
    rw [total_perm same, total_cons, others]
    rfl
  rw [owes] at accounted
  cases locked : memory.threadListLock with
  | none =>
      obtain ⟨counted, joins, -⟩ := accounted.free locked
      rw [closed.activeThreads, overhang] at counted
      rw [closed.threadsToJoin, forgone] at joins
      exact ⟨by omega, fun _ => by omega⟩
  | some holder =>
      refine ⟨?_, fun free => by cases free⟩
      obtain ⟨counted, joins, ok⟩ := accounted.held locked
      rw [closed.activeThreads, overhang] at counted
      rw [closed.threadsToJoin, forgone] at joins
      rw [closed.maxThreads, closed.activeThreads, forgone] at ok
      have works := controlled.works stored locked member closes
      cases holder with
      | pendingAfterTimeout thread index pending =>
          exact absurd (ok rfl) (Nat.not_succ_le_zero 0)
      | stopThread thread observed =>
          simp only [Holder.counted, Holder.leaving, Holder.owed] at counted joins
          omega
      | taskShouldStop thread task =>
          simp only [Holder.counted, Holder.leaving, Holder.owed] at counted joins
          omega
      | minActive thread =>
          simp only [Holder.counted, Holder.leaving, Holder.owed] at counted joins
          omega
      | decrActive thread =>
          simp only [Holder.counted, Holder.leaving, Holder.owed] at counted joins
          omega
      | tryDecrToStop thread =>
          simp only [Holder.counted, Holder.leaving, Holder.owed] at counted joins
          omega
      | _ => cases works

end Closing

/-- The stops asked for have threads to obey them, and `stop` and `join` take
just the threads that come. -/
structure ShutdownBalanced (memory : Memory) (agents : List Agent) : Prop where
  threads : memory.threadsToStop ≤ memory.threadList.length
  takes : ∀ n isJoin, .call (.joinStoppedThreads n (.shutdown isJoin)) ∈ agents →
    n = memory.stoppedThreads.length + memory.threadList.length ∧
      (memory.threadListLock = none → memory.threadsToStop = memory.threadList.length)
  checkThreadList : ∀ isJoin, .call (.checkThreadList isJoin) ∈ agents → memory.threadList = []
  checkStopped : ∀ isJoin, .call (.checkStopped isJoin) ∈ agents → memory.stoppedThreads = []
  ends : ∀ isJoin, .call (.shutDown isJoin) ∈ agents →
    memory.threadsToStop = 0 ∧ memory.threadList = [] ∧ memory.stoppedThreads = []

theorem shutdown_balanced (queue : TaskQueue) (unbounded : queue.bounded = false)
    (numThreads : Nat × Nat) (state : Global Memory Agent)
    (reached : Reachable (system queue numThreads) noStopPending state) :
    ShutdownBalanced state.shared state.agents := by
  have controlled : Controlled state.shared state.agents :=
    reachable_controlled unbounded
      (fun _ _ allowed => shutsDownLast_of_oneController allowed.1) reached
  have accounted := reachable_accounted reached
  have stored : state.shared.Stored := reachable_stored reached
  have forgone := reachable_forgone unbounded reached
  have overhang := (reachable_obeyed unbounded reached).overhang
  have threads : state.shared.threadsToStop ≤ state.shared.threadList.length := by
    cases locked : state.shared.threadListLock with
    | none =>
        have counted := (accounted.free locked).1
        omega
    | some holder =>
        have counted := (accounted.held locked).1
        omega
  have takes : ∀ {call : Call}, .call call ∈ state.agents → call.closes = true →
      call.owed = state.shared.stoppedThreads.length + state.shared.threadList.length ∧
        (state.shared.threadListLock = none →
          state.shared.threadsToStop = state.shared.threadList.length) :=
    fun member closes => controlled.takes accounted stored forgone overhang member closes
  have empty : ∀ {call : Call}, .call call ∈ state.agents → call.closes = true →
      call.owed = 0 → state.shared.threadList = [] ∧ state.shared.stoppedThreads = [] := by
    intro call member closes none
    have all := (takes member closes).1
    exact ⟨List.eq_nil_of_length_eq_zero (by omega), List.eq_nil_of_length_eq_zero (by omega)⟩
  refine ⟨threads, fun n isJoin member => takes member rfl,
    fun isJoin member => (empty member rfl rfl).1, fun isJoin member => (empty member rfl rfl).2,
    fun isJoin member => ?_⟩
  obtain ⟨noThread, noStopped⟩ := empty member rfl rfl
  rw [noThread, List.length_nil] at threads
  exact ⟨Nat.le_zero.mp threads, noThread, noStopped⟩

/-- `setNumThreads(0)` takes a thread that had timed out and returns before the
one that it asked to stop. -/
private def joinWhileStopping : List (Label CountingSemaphore.Ending Move) :=
  frontActs 1 ++ held 7 ++ frontActs 2 ++ [Label.env (Move.invoke (.add 0))] ++ frontActs 10 ++
    held 4 ++ frontActs 1 ++ [Label.act 1 .handoff] ++ frontActs 6 ++ [Label.act 0 .timeout] ++
    frontActs 1 ++ held 6 ++ [Label.env (Move.invoke (.setNumThreads 0))] ++ frontActs 1 ++
    held 10 ++ frontActs 2 ++ [Label.env (Move.invoke (.shutdown true))] ++ frontActs 3 ++ held 8

theorem join_awaits_missing_thread :
    (system .unbounded (2, 1)).Permits oneController (system .unbounded (2, 1)).init
      joinWhileStopping ∧
    ∃ state : Global Memory Agent,
      (system .unbounded (2, 1)).run (system .unbounded (2, 1)).init joinWhileStopping =
        some state ∧
      state.shared.threadList.length < state.shared.threadsToStop ∧
      .call (.joinStoppedThreads 2 (.shutdown true)) ∈ state.agents ∧
      state.shared.stoppedThreads.length + state.shared.threadList.length = 1 := by
  have runs : ((system .unbounded (2, 1)).run (system .unbounded (2, 1)).init
      joinWhileStopping).map (fun state => (state.shared.threadsToStop, state.shared.threadList,
        state.shared.stoppedThreads,
        decide (.call (.joinStoppedThreads 2 (.shutdown true)) ∈ state.agents))) =
      some (2, [1], [], true) := by decide
  obtain ⟨state, replayed, values⟩ := Option.map_eq_some_iff.mp runs
  simp only [Prod.mk.injEq, decide_eq_true_eq] at values
  obtain ⟨toStop, threads, stopped, member⟩ := values
  refine ⟨by decide +kernel, state, replayed, ?_, member, ?_⟩
  · rw [toStop, threads]
    decide
  · rw [threads, stopped]
    rfl

/-- `join()` has the one thread of the pool to take. -/
private def joinOneThread : List (Label CountingSemaphore.Ending Move) :=
  frontActs 1 ++ held 7 ++ frontActs 2 ++ [Label.env (Move.invoke (.shutdown true))] ++
    frontActs 3 ++ held 8

theorem shutdown_balanced_oneThread :
    ∃ state : Global Memory Agent,
      (system .unbounded (1, 1)).run (system .unbounded (1, 1)).init joinOneThread = some state ∧
      .call (.joinStoppedThreads 1 (.shutdown true)) ∈ state.agents ∧
      ShutdownBalanced state.shared state.agents := by
  have runs : ((system .unbounded (1, 1)).run (system .unbounded (1, 1)).init
      joinOneThread).map (fun state =>
        decide (.call (.joinStoppedThreads 1 (.shutdown true)) ∈ state.agents)) =
      some true := by decide
  obtain ⟨state, replayed, member⟩ := Option.map_eq_some_iff.mp runs
  have reached : Reachable (system .unbounded (1, 1)) noStopPending state :=
    Reachable.init.replay (by decide) replayed
  exact ⟨state, replayed, of_decide_eq_true member,
    shutdown_balanced .unbounded rfl (1, 1) state reached⟩

end ThreadPoolExec.CPUThreadPoolExecutor
