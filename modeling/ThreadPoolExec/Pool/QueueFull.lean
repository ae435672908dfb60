import ThreadPoolExec.Pool.Accounting

/-!
# A resize that meets a full queue

While a call has the lock, the counters differ from those it found by exactly
what its section has stored so far. A `QueueFullException` leaves in the middle
of that, and nothing puts the counters back.
-/

set_option autoImplicit false

namespace ThreadPoolExec.CPUThreadPoolExecutor

open Interleaving

/-! ## The constructor -/

/-- The weight of every call that goes on. -/
def Role.calls : Role → Nat
  | .worker | .failed => 0
  | _ => 1

/-- The weight of the constructor. -/
def Role.constructs : Role → Nat
  | .construct => 1
  | _ => 0

theorem Role.constructs_le_calls (role : Role) : role.constructs ≤ role.calls := by
  cases role <;> decide

/-- The constructor is the only call until it has ended. -/
structure ConstructsFirst (memory : Memory) (agents : List Agent) : Prop where
  alone : memory.constructed = false → countRoles Role.calls memory agents ≤ 1
  ended : memory.constructed = true → countRoles Role.constructs memory agents = 0

theorem ConstructsFirst.perm {memory : Memory} {agents others : List Agent}
    (same : agents.Perm others) (first : ConstructsFirst memory agents) :
    ConstructsFirst memory others := by
  refine ⟨fun ongoing => ?_, fun done => ?_⟩
  · rw [countRoles, ← total_perm same]
    exact first.alone ongoing
  · rw [countRoles, ← total_perm same]
    exact first.ended done

section Constructor

variable {queue : TaskQueue} {choice : CountingSemaphore.Ending} {wake : Bool}
  {memory after : Memory} {left rest : List Agent} {agent : Agent} {holder : Holder}

/-- The last step of the constructor is made when there is no other call. -/
private theorem ConstructsFirst.lastStep {second : Nat}
    (first : ConstructsFirst memory (.call (.storeMin second) :: rest)) :
    memory.constructed = false ∧ countRoles Role.calls memory rest = 0 := by
  have weight : Role.constructs (Agent.call (.storeMin second)).role = 1 := rfl
  cases constructed : memory.constructed with
  | true =>
      have none := first.ended constructed
      simp only [countRoles, total_cons, weight] at none
      omega
  | false =>
      have alone := first.alone constructed
      have one : Role.calls (Agent.call (.storeMin second)).role = 1 := rfl
      simp only [countRoles, total_cons, one] at alone ⊢
      exact ⟨trivial, by omega⟩

private theorem ConstructsFirst.act
    (acted : act queue choice memory agent = some (after, left))
    (first : ConstructsFirst memory (agent :: rest)) : ConstructsFirst after (left ++ rest) := by
  have calls : countRoles Role.calls after (left ++ rest) ≤
      countRoles Role.calls memory (agent :: rest) := countRoles_act rfl acted
  have constructs : countRoles Role.constructs after (left ++ rest) ≤
      countRoles Role.constructs memory (agent :: rest) := countRoles_act rfl acted
  have unchanged : after.constructed = memory.constructed →
      ConstructsFirst after (left ++ rest) := by
    intro same
    refine ⟨fun ongoing => Nat.le_trans calls (first.alone (same.symm.trans ongoing)), fun done => ?_⟩
    rw [first.ended (same.symm.trans done)] at constructs
    exact Nat.le_zero.mp constructs
  rcases act_cases acted with ⟨holder, -, -, -, rfl⟩ | ⟨call, rfl, records⟩ | ⟨same, -⟩
  · exact unchanged rfl
  · cases records with
    | take n joiner thread stopped stoppedIs => exact unchanged rfl
    | construct second =>
        have none := first.lastStep.2
        have fewer := countRoles_mono Role.constructs_le_calls memory rest
        rw [none] at fewer
        exact ⟨nofun, fun _ => Nat.le_zero.mp fewer⟩
  · exact unchanged (congrArg Ledger.constructed same)

private theorem ConstructsFirst.hold (locked : memory.threadListLock = some holder)
    (stepped : holder.next queue wake memory = some (after, left))
    (first : ConstructsFirst memory rest) : ConstructsFirst after (left ++ rest) := by
  have calls : countRoles Role.calls after (left ++ rest) ≤ countRoles Role.calls memory rest :=
    countRoles_hold rfl rfl locked stepped
  have constructs : countRoles Role.constructs after (left ++ rest) ≤
      countRoles Role.constructs memory rest := countRoles_hold rfl rfl locked stepped
  have same : after.constructed = memory.constructed :=
    congrArg Outside.constructed (hold_outside stepped)
  refine ⟨fun ongoing => Nat.le_trans calls (first.alone (same.symm.trans ongoing)), fun done => ?_⟩
  rw [first.ended (same.symm.trans done)] at constructs
  exact Nat.le_zero.mp constructs

theorem reachable_constructsFirst {numThreads : Nat × Nat}
    {allowed : Global Memory Agent → Label CountingSemaphore.Ending Move → Prop}
    {state : Global Memory Agent}
    (reached : Reachable (system queue numThreads) allowed state) :
    ConstructsFirst state.shared state.agents := by
  refine Reaches.invariant ConstructsFirst ConstructsFirst.perm ?_
    (fun _ _ _ acted first => first.act acted) ?_ reached
  · exact ⟨fun _ => Nat.le_refl 1, nofun⟩
  · intro before move after left _ _ moved first
    rcases env_cases moved with ⟨operation, -, constructed, invoked⟩ |
      ⟨wake, holder, -, locked, stepped⟩
    · have roles : countRoles Role.constructs _ (_ ++ before.agents) = _ :=
        countRoles_invoke before.shared operation before.agents
      have same : _ = Ledger.constructed _ :=
        congrArg Ledger.constructed (invoke_ledger before.shared operation).2
      have client : Role.constructs operation.role = 0 := by cases operation <;> rfl
      rw [first.ended constructed, client, invoked] at roles
      rw [invoked] at same
      exact ⟨fun ongoing => absurd (ongoing.symm.trans (same.trans constructed)) nofun,
        fun _ => roles⟩
    · exact first.hold locked stepped

/-- A call that has the lock does not have the constructor beside it at its last
step. -/
theorem ConstructsFirst.holder_isWorker {second : Nat}
    (first : ConstructsFirst memory (.call (.storeMin second) :: rest))
    (locked : memory.threadListLock = some holder) : holder.role.calls = 0 := by
  have none := first.lastStep.2
  rw [countRoles, Memory.holding, locked, Option.elim_some] at none
  omega

end Constructor

/-! ## What a section has stored -/

/-- The counters that a call to `removeThreads` has stored before. -/
def Removal.stored (found : Sizing) : Removal → Sizing
  | .setNumThreads numThreads _ =>
      { found with maxThreads := numThreads, minThreads := min found.minThreads numThreads }
  | .shutdown _ => { found with maxThreads := 0, activeThreads := 0 }

/-- Where a call goes on that has added threads, or stopped some. -/
def Call.Resumes : Call → Prop
  | .joinStoppedThreads _ (.setNumThreads _) | .keepAliveRelease _ | .maxActive => True
  | _ => False

/-- The counters as they are in a section of a call that found them otherwise. -/
def Holder.Stored (found now : Sizing) : Holder → Prop
  | .getPending _ _ _ _ | .storeMax _ _ _ | .stopMax _ => now = found
  | .resize numThreads _ _ => now = { found with maxThreads := numThreads }
  | .stopActive _ => now = { found with maxThreads := 0 }
  | .removeThreads removal _ => now = removal.stored found
  | .stopThreads removal _ => now = { removal.stored found with isJoin := removal.isJoin }
  | .enqueuePoison removal n left | .postPoison removal n left =>
      left ≤ n ∧ now = { removal.stored found with
        isJoin := removal.isJoin, threadsToStop := found.threadsToStop + n }
  | .addThreads _ _ _ next | .storeActive _ next => next.Resumes
  | _ => True

/-- Whoever has the lock has stored what its place says. -/
def Memory.Stored (memory : Memory) : Prop :=
  ∀ holder, memory.threadListLock = some holder →
    holder.Stored memory.history.atLock memory.sizing

theorem Removal.stored_toStop (removal : Removal) (found : Sizing) :
    (removal.stored found).threadsToStop = found.threadsToStop := by
  cases removal <;> rfl

section Stored

variable {queue : TaskQueue} {choice : CountingSemaphore.Ending} {wake : Bool}
  {memory after : Memory} {left rest : List Agent} {agent : Agent} {holder next : Holder}

private theorem stored_of_worker (worker : holder.role.calls = 0) {found now : Sizing}
    (stored : holder.Stored found now) (later : Sizing) : holder.Stored found later := by
  cases holder with
  | getPending numThreads resizer index pending => cases resizer <;> cases worker
  | storeMax numThreads resizer pending => cases resizer <;> cases worker
  | resize numThreads resizer pending => cases resizer <;> cases worker
  | removeThreads removal n =>
      cases removal with
      | setNumThreads numThreads resizer => cases resizer <;> cases worker
      | shutdown isJoin => cases worker
  | stopThreads removal n =>
      cases removal with
      | setNumThreads numThreads resizer => cases resizer <;> cases worker
      | shutdown isJoin => cases worker
  | enqueuePoison removal n count =>
      cases removal with
      | setNumThreads numThreads resizer => cases resizer <;> cases worker
      | shutdown isJoin => cases worker
  | postPoison removal n count =>
      cases removal with
      | setNumThreads numThreads resizer => cases resizer <;> cases worker
      | shutdown isJoin => cases worker
  | stopMax isJoin => cases worker
  | stopActive isJoin => cases worker
  | addThreads count newThreads active next => exact stored
  | storeActive active next => exact stored
  | _ => trivial

private theorem stored_of_wants (wants : agent.wants = some holder) (found : Sizing) :
    holder.Stored found found := by
  unfold Agent.wants at wants
  split at wants <;> cases wants <;> trivial

private theorem stored_hold (locked : memory.threadListLock = some holder)
    (stepped : holder.next queue wake memory = some (after, left))
    (stored : holder.Stored memory.history.atLock memory.sizing)
    (holds : after.threadListLock = some next) :
    next.Stored after.history.atLock after.sizing := by
  have found : after.history.atLock = memory.history.atLock :=
    congrArg Outside.atLock (hold_outside stepped)
  rw [found]
  cases hold_step stepped with
  | worker thread holder after left step => cases step <;> cases holds <;> trivial
  | removal removal n holder after left step =>
      cases step with
      | storesIsJoin =>
          cases holds
          rw [Holder.Stored] at stored
          simp only [Holder.Stored, ← stored, Memory.sizing]
      | raisesToStop =>
          cases holds
          rw [Holder.Stored, Memory.sizing, Sizing.mk.injEq] at stored
          obtain ⟨max, min, active, toStop, isJoin⟩ := stored
          refine ⟨Nat.le_refl n, ?_⟩
          simp only [Memory.sizing, max, min, active, toStop, isJoin, removal.stored_toStop]
      | enqueues left tasks written =>
          cases holds
          exact ⟨Nat.le_of_succ_le stored.1, stored.2⟩
      | queueFull left full => cases holds
      | posts left =>
          cases holds
          exact stored
  | call holder after left step =>
      cases step with
      | addsPending numThreads resizer index pending inside =>
          cases holds
          exact stored
      | hasPending numThreads resizer index pending outside =>
          cases holds
          exact stored
      | storesMax numThreads resizer pending =>
          cases holds
          rw [Holder.Stored] at stored
          simp only [Holder.Stored, ← stored, Memory.sizing]
      | clearsMax isJoin =>
          cases holds
          rw [Holder.Stored] at stored
          simp only [Holder.Stored, ← stored, Memory.sizing]
      | shrinks numThreads resizer pending above =>
          cases holds
          rw [Holder.Stored, Memory.sizing, Sizing.mk.injEq] at stored
          obtain ⟨max, min, active, toStop, isJoin⟩ := stored
          simp only [Holder.Stored, Memory.sizing, Removal.stored, max, min, active, toStop, isJoin]
      | clearsActive isJoin =>
          cases holds
          rw [Holder.Stored, Memory.sizing, Sizing.mk.injEq] at stored
          obtain ⟨max, min, active, toStop, isJoin⟩ := stored
          simp only [Holder.Stored, Memory.sizing, Removal.stored, max, min, toStop, isJoin]
      | grows numThreads resizer pending below needed =>
          cases holds
          trivial
      | poisonedResize numThreads resizer n =>
          cases holds
          trivial
      | startsThread left newThreads active next =>
          cases holds
          exact stored
      | startedAll newThreads active next =>
          cases holds
          exact stored
      | tooFewActive ensurer below =>
          cases holds
          cases ensurer <;> trivial
      | _ => cases holds <;> trivial

private theorem stored_act (acted : act queue choice memory agent = some (after, left))
    (first : ConstructsFirst memory (agent :: rest))
    (stored : memory.Stored) (holds : after.threadListLock = some next) :
    next.Stored after.history.atLock after.sizing := by
  rcases act_cases acted with ⟨holder, wants, -, -, rfl⟩ | ⟨call, rfl, records⟩ | ⟨same, -⟩
  · cases holds
    exact stored_of_wants wants _
  · cases records with
    | take n joiner thread stopped stoppedIs => exact stored next holds
    | construct second => exact stored_of_worker (first.holder_isWorker holds) (stored next holds) _
  · have found : after.history.atLock = memory.history.atLock := congrArg Ledger.atLock same
    have sizing : after.sizing = memory.sizing := congrArg Ledger.sizing same
    rw [found, sizing]
    exact stored next ((congrArg Ledger.threadListLock same).symm.trans holds)

theorem reachable_stored {numThreads : Nat × Nat}
    {allowed : Global Memory Agent → Label CountingSemaphore.Ending Move → Prop}
    {state : Global Memory Agent}
    (reached : Reachable (system queue numThreads) allowed state) : state.shared.Stored := by
  refine Reaches.invariant (fun memory _ => memory.Stored) (fun _ stored => stored) nofun ?_ ?_
    reached
  · intro before index choice agent after left reaches _ found acted stored next holds
    have first := (reachable_constructsFirst reaches).perm (perm_of_getElem? found)
    exact stored_act acted first stored holds
  · intro before move after left _ _ moved stored next holds
    rcases env_cases moved with ⟨operation, -, -, invoked⟩ | ⟨wake, holder, -, locked, stepped⟩
    · have same := (invoke_ledger before.shared operation).2
      rw [invoked] at same
      have found : after.history.atLock = before.shared.history.atLock :=
        congrArg Ledger.atLock same
      have sizing : after.sizing = before.shared.sizing := congrArg Ledger.sizing same
      rw [found, sizing]
      exact stored next ((congrArg Ledger.threadListLock same).symm.trans holds)
    · exact stored_hold locked stepped (stored holder locked) holds

end Stored

/-! ## The exception -/

/-- The counters are those that the call found, and account for the threads. -/
structure NoEffect (memory : Memory) : Prop where
  sizing : memory.sizing = memory.history.atLock
  threads : memory.activeThreads + memory.threadsToStop = memory.threadList.length

/-- A call that leaves with `QueueFullException` leaves `threadsToStop_` raised
by all the stops it was to ask for, and the other counters as far as it came. -/
theorem queueFull_stored {queue : TaskQueue} {numThreads : Nat × Nat} {wake : Bool}
    {state : Global Memory Agent} {memory : Memory}
    (reached : Reachable (system queue numThreads) anySchedule state)
    (thrown : (system queue numThreads).step state (.env (.hold wake)) =
      some ⟨memory, .call .queueFull :: state.agents⟩) :
    ∃ (removal : Removal) (n : Nat), 0 < n ∧
      memory.sizing = { removal.stored memory.history.atLock with
        isJoin := removal.isJoin
        threadsToStop := memory.history.atLock.threadsToStop + n } := by
  obtain ⟨after, left, moved, same⟩ := step_env thrown
  simp only [Global.mk.injEq] at same
  obtain ⟨rfl, agents⟩ := same
  have leaves : [.call .queueFull] = left := List.append_cancel_right agents
  obtain ⟨holder, locked, stepped⟩ := env_hold moved
  have stored := reachable_stored reached holder locked
  cases hold_step stepped with
  | worker thread holder after left step => cases step <;> cases leaves
  | removal removal n holder after left step =>
      cases step with
      | queueFull left full => exact ⟨removal, n, Nat.zero_lt_of_lt stored.1, stored.2⟩
      | _ => cases leaves
  | call holder after left step =>
      cases step with
      | storesActive active next =>
          cases leaves
          cases stored
      | enoughActive ensurer above => cases ensurer <;> cases leaves
      | _ => cases leaves

/-- No call that leaves with `QueueFullException` leaves the counters as it
found them. -/
theorem queueFull_has_effect (queue : TaskQueue) (numThreads : Nat × Nat) (wake : Bool)
    (state : Global Memory Agent) (memory : Memory)
    (reached : Reachable (system queue numThreads) anySchedule state)
    (thrown : (system queue numThreads).step state (.env (.hold wake)) =
      some ⟨memory, .call .queueFull :: state.agents⟩) : ¬NoEffect memory := by
  intro effectless
  obtain ⟨removal, n, positive, stored⟩ := queueFull_stored reached thrown
  have raised : memory.sizing.threadsToStop = memory.history.atLock.threadsToStop + n :=
    congrArg Sizing.threadsToStop stored
  rw [effectless.sizing] at raised
  omega

/-- A task fills the queue of two workers before `setNumThreads(1)`. -/
private def shrinkOverFullQueue : List (Label CountingSemaphore.Ending Move) :=
  frontActs 1 ++ held 8 ++ frontActs 2 ++ [Label.env (Move.invoke (.add 0))] ++ frontActs 5 ++
    [Label.env (Move.invoke (.setNumThreads 1))] ++ frontActs 1 ++ held 6

theorem queueFull_of_setNumThreads :
    ∃ (state : Global Memory Agent) (memory : Memory),
      (system (.lifoSem 1) (2, 2)).run (system (.lifoSem 1) (2, 2)).init shrinkOverFullQueue =
        some state ∧
      (system (.lifoSem 1) (2, 2)).step state (.env (.hold true)) =
        some ⟨memory, .call .queueFull :: state.agents⟩ ∧
      memory.history.atLock = ⟨2, 2, 2, 0, false⟩ ∧ memory.sizing = ⟨1, 1, 2, 1, false⟩ ∧
      memory.activeThreads + memory.threadsToStop ≠ memory.threadList.length ∧
      ¬NoEffect memory := by
  have runs : (((system (.lifoSem 1) (2, 2)).run (system (.lifoSem 1) (2, 2)).init
      shrinkOverFullQueue).bind fun state =>
        ((system (.lifoSem 1) (2, 2)).step state (.env (.hold true))).map fun next =>
          (decide (next.agents = .call .queueFull :: state.agents), next.shared.history.atLock,
            next.shared.sizing, next.shared.threadList)) =
      some (true, ⟨2, 2, 2, 0, false⟩, ⟨1, 1, 2, 1, false⟩, [0, 1]) := by decide
  obtain ⟨state, replayed, steps⟩ := Option.bind_eq_some_iff.mp runs
  obtain ⟨⟨memory, agents⟩, stepped, values⟩ := Option.map_eq_some_iff.mp steps
  simp only [Prod.mk.injEq, decide_eq_true_eq] at values
  obtain ⟨rfl, found, sizing, threads⟩ := values
  have active : memory.activeThreads = 2 := congrArg Sizing.activeThreads sizing
  have toStop : memory.threadsToStop = 1 := congrArg Sizing.threadsToStop sizing
  have skewed : memory.activeThreads + memory.threadsToStop ≠ memory.threadList.length := by
    rw [active, toStop, threads]
    decide
  exact ⟨state, memory, replayed, stepped, found, sizing, skewed,
    fun effectless => skewed effectless.threads⟩

/-- The second poison task of `join()` finds the queue full. -/
private def joinOverFullQueue : List (Label CountingSemaphore.Ending Move) :=
  frontActs 1 ++ held 8 ++ frontActs 2 ++ [Label.env (Move.invoke (.shutdown true))] ++
    frontActs 3 ++ held 6

theorem queueFull_has_effect_of_join :
    ∃ (state : Global Memory Agent) (memory : Memory),
      (system (.lifoSem 1) (2, 2)).run (system (.lifoSem 1) (2, 2)).init joinOverFullQueue =
        some state ∧
      (system (.lifoSem 1) (2, 2)).step state (.env (.hold true)) =
        some ⟨memory, .call .queueFull :: state.agents⟩ ∧ ¬NoEffect memory := by
  have runs : (((system (.lifoSem 1) (2, 2)).run (system (.lifoSem 1) (2, 2)).init
      joinOverFullQueue).bind fun state =>
        ((system (.lifoSem 1) (2, 2)).step state (.env (.hold true))).map fun next =>
          decide (next.agents = .call .queueFull :: state.agents)) = some true := by decide
  obtain ⟨state, replayed, steps⟩ := Option.bind_eq_some_iff.mp runs
  obtain ⟨⟨memory, agents⟩, stepped, throws⟩ := Option.map_eq_some_iff.mp steps
  obtain rfl := of_decide_eq_true throws
  exact ⟨state, memory, replayed, stepped,
    queueFull_has_effect (.lifoSem 1) (2, 2) true state memory (Reachable.init.run replayed) stepped⟩

end ThreadPoolExec.CPUThreadPoolExecutor
