import ThreadPoolExec.Pool.QueueFull

/-!
# A shutdown is the last to control the pool

Clients add tasks and resize the pool whenever they like, until one of them
shuts it down. Keep-alive tokens hold the shutdown back until no add is
left that may start a thread, so once `stop` or `join` has given the lock back
no thread is started any more and none times out.
-/

set_option autoImplicit false

namespace ThreadPoolExec.CPUThreadPoolExecutor

open Interleaving

/-! ## Runs under one controller -/

/-- The weight of the calls that change how many threads there are to be. -/
def Role.controls : Role → Nat
  | .resize | .construct | .shutdown => 1
  | _ => 0

/-- The weight of the calls about observers. -/
def Role.observes : Role → Nat
  | .observer => 1
  | _ => 0

theorem Role.controls_of_shutsDown {role : Role} (shutsDown : role.shutsDown = 1) :
    role.controls = 1 := by
  cases role <;> trivial

theorem Role.shutsDown_of_controls {role : Role} (controls : role.controls = 0) :
    role.shutsDown = 0 := by
  cases role <;> trivial

def Operation.controls : Operation → Bool
  | .setNumThreads _ | .shutdown _ => true
  | _ => false

def Operation.observes : Operation → Bool
  | .addObserver _ | .removeObserver _ => true
  | _ => false

/-- The pool is resized and shut down by one call after another, and not after
it was shut down. -/
def oneController (state : Global Memory Agent)
    (label : Label CountingSemaphore.Ending Move) : Prop :=
  ∀ operation ∈ invoked label, operation.observes = false ∧
    (operation.controls = true → state.shared.history.shutdownCalled = false ∧
      countRoles Role.controls state.shared state.agents = 0)

instance (state : Global Memory Agent) (label : Label CountingSemaphore.Ending Move) :
    Decidable (oneController state label) :=
  inferInstanceAs (Decidable (∀ operation ∈ invoked label, operation.observes = false ∧
    (operation.controls = true → state.shared.history.shutdownCalled = false ∧
      countRoles Role.controls state.shared state.agents = 0)))

/-- Clients resize the pool when they like, until one of them shuts it down when
every resize has returned. -/
def shutsDownLast (state : Global Memory Agent)
    (label : Label CountingSemaphore.Ending Move) : Prop :=
  ∀ operation ∈ invoked label, operation.observes = false ∧
    (operation.controls = true → state.shared.history.shutdownCalled = false) ∧
    (operation.role.shutsDown = 1 → countRoles Role.controls state.shared state.agents = 0)

instance (state : Global Memory Agent) (label : Label CountingSemaphore.Ending Move) :
    Decidable (shutsDownLast state label) :=
  inferInstanceAs (Decidable (∀ operation ∈ invoked label, operation.observes = false ∧
    (operation.controls = true → state.shared.history.shutdownCalled = false) ∧
    (operation.role.shutsDown = 1 → countRoles Role.controls state.shared state.agents = 0)))

theorem Operation.controls_of_shutsDown {operation : Operation}
    (shutsDown : operation.role.shutsDown = 1) : operation.controls = true := by
  cases operation <;> first | rfl | cases shutsDown

theorem shutsDownLast_of_oneController {state : Global Memory Agent}
    {label : Label CountingSemaphore.Ending Move} (alone : oneController state label) :
    shutsDownLast state label := by
  intro operation called
  obtain ⟨observes, controls⟩ := alone operation called
  exact ⟨observes, fun controlling => (controls controlling).1,
    fun shutsDown => (controls (Operation.controls_of_shutsDown shutsDown)).2⟩

/-! ## Keep-alive tokens -/

def Ensurer.tokens : Ensurer → Nat
  | .add _ => 1
  | .observer => 0

def Joiner.tokens : Joiner → Nat
  | .ensureJoined ensurer => ensurer.tokens
  | _ => 0

/-- The keep-alive tokens of a call. -/
def Call.tokens : Call → Nat
  | .enqueue _ _ true | .post _ true | .keepAliveRelease _ => 1
  | .ensureJoined ensurer | .ensureJoinedLock ensurer | .ensureActive ensurer
  | .ensureActiveMax ensurer _ | .ensureActiveLock ensurer => ensurer.tokens
  | .joinStoppedThreads _ joiner => joiner.tokens
  | _ => 0

def Agent.tokens : Agent → Nat
  | .worker _ _ => 0
  | .call at_ => at_.tokens

def Holder.tokens : Holder → Nat
  | .collectJoined ensurer | .ensureActive ensurer => ensurer.tokens
  | .addThreads _ _ _ next | .storeActive _ next => next.tokens
  | _ => 0

/-- The keep-alive count is one for the pool itself, until it is joined, and one
for every token. -/
def KeptAlive (memory : Memory) (agents : List Agent) : Prop :=
  memory.keepAliveCount = total Agent.tokens agents +
    memory.threadListLock.elim 0 Holder.tokens + if memory.keepAliveJoined then 0 else 1

section KeptAlive

variable {queue : TaskQueue} {choice : CountingSemaphore.Ending} {wake : Bool}
  {memory after : Memory} {left rest : List Agent} {agent : Agent} {holder : Holder}

theorem Ensurer.next_tokens (ensurer : Ensurer) : ensurer.next.tokens = ensurer.tokens := by
  cases ensurer <;> rfl

private theorem joiner_tokens (joiner : Joiner) :
    total Agent.tokens joiner.next = joiner.tokens := by
  cases joiner with
  | ensureJoined ensurer => rfl
  | setNumThreads resizer => cases resizer <;> rfl
  | shutdown isJoin => rfl

private theorem tokens_of_wants (wants : agent.wants = some holder) :
    holder.tokens = agent.tokens := by
  unfold Agent.wants at wants
  split at wants <;> cases wants <;> rfl

/-- The tokens of the agents that a step leaves are the tokens of the one that
made it, but for those the step takes and gives back. -/
private theorem keptAlive_act (step : agent.Step queue choice memory after left)
    (kept : KeptAlive memory (agent :: rest)) : KeptAlive after (left ++ rest) := by
  unfold KeptAlive at kept ⊢
  rw [total_cons] at kept
  rw [total_append]
  have keeps : after.keepAliveCount = memory.keepAliveCount →
      after.keepAliveJoined = memory.keepAliveJoined →
      after.threadListLock = memory.threadListLock →
      total Agent.tokens left = agent.tokens →
      after.keepAliveCount = total Agent.tokens left + total Agent.tokens rest +
        after.threadListLock.elim 0 Holder.tokens + if after.keepAliveJoined then 0 else 1 := by
    intro count joined lock tokens
    rw [count, joined, lock, tokens]
    exact kept
  cases step with
  | locks agent holder wants free =>
      simp only [free, Option.elim_none, Option.elim_some, tokens_of_wants wants, total_nil]
        at kept ⊢
      omega
  | worker thread worker after left step => cases step <;> exact keeps rfl rfl rfl rfl
  | call call after left step =>
      cases step with
      | getsToken task priority alive =>
          simp only [Agent.tokens, Call.tokens, total_cons, total_nil] at kept ⊢
          omega
      | queueFull task priority mayNeed full =>
          cases mayNeed with
          | false => exact keeps rfl rfl rfl rfl
          | true =>
              simp only [Agent.tokens, Call.tokens, total_cons, total_nil, if_true] at kept ⊢
              omega
      | releasesToken task =>
          change memory.keepAliveCount - 1 = 0 + total Agent.tokens rest +
            memory.threadListLock.elim 0 Holder.tokens + if memory.keepAliveJoined then 0 else 1
          simp only [Agent.tokens, Call.tokens] at kept
          omega
      | joinsKeepAlive isJoin joined =>
          simp only [joined, Agent.tokens, Call.tokens, total_cons, total_nil, Bool.false_eq_true,
            if_true, if_false] at kept ⊢
          omega
      | enqueues task priority mayNeed tasks written =>
          refine keeps rfl rfl rfl ?_
          cases mayNeed <;> rfl
      | enoughActive ensurer active above => exact keeps rfl rfl rfl ensurer.next_tokens
      | joinsAll joiner => exact keeps rfl rfl rfl (joiner_tokens joiner)
      | _ => exact keeps rfl rfl rfl rfl

private theorem keptAlive_hold (locked : memory.threadListLock = some holder)
    (step : holder.Step queue wake memory after left)
    (kept : KeptAlive memory rest) : KeptAlive after (left ++ rest) := by
  unfold KeptAlive at kept ⊢
  rw [locked, Option.elim_some] at kept
  rw [total_append]
  have keeps : after.keepAliveCount = memory.keepAliveCount →
      after.keepAliveJoined = memory.keepAliveJoined →
      total Agent.tokens left + after.threadListLock.elim 0 Holder.tokens = holder.tokens →
      after.keepAliveCount = total Agent.tokens left + total Agent.tokens rest +
        after.threadListLock.elim 0 Holder.tokens + if after.keepAliveJoined then 0 else 1 := by
    intro count joined tokens
    rw [count, joined, kept, ← tokens]
    omega
  cases step with
  | worker thread holder after left step => cases step <;> exact keeps rfl rfl rfl
  | removal removal n holder after left step => cases step <;> exact keeps rfl rfl rfl
  | call holder after left step =>
      cases step with
      | enoughActive ensurer above => exact keeps rfl rfl ensurer.next_tokens
      | tooFewActive ensurer below =>
          refine keeps rfl rfl ?_
          rw [total_nil, Nat.zero_add]
          exact ensurer.next_tokens
      | startsThread left newThreads active next =>
          refine keeps rfl rfl ?_
          exact Nat.zero_add _
      | startedAll newThreads active next =>
          refine keeps rfl rfl ?_
          exact Nat.zero_add _
      | _ => exact keeps rfl rfl rfl

theorem invoke_keepAlive (memory : Memory) (operation : Operation) :
    (memory.invoke operation).1.keepAliveCount = memory.keepAliveCount ∧
      (memory.invoke operation).1.keepAliveJoined = memory.keepAliveJoined ∧
      total Agent.tokens (memory.invoke operation).2 = 0 := by
  cases operation <;> exact ⟨rfl, rfl, rfl⟩

/-- The keep-alive count is right in every state. -/
theorem reachable_keptAlive {numThreads : Nat × Nat}
    {allowed : Global Memory Agent → Label CountingSemaphore.Ending Move → Prop}
    {state : Global Memory Agent} (reached : Reachable (system queue numThreads) allowed state) :
    KeptAlive state.shared state.agents := by
  refine Reaches.invariant KeptAlive ?_ ?_ ?_ ?_ reached
  · intro memory agents others same kept
    rw [KeptAlive, ← total_perm same]
    exact kept
  · rfl
  · intro before index choice agent after left _ _ _ acted kept
    exact keptAlive_act (act_step acted) kept
  · intro before move after left _ _ moved kept
    rcases env_cases moved with ⟨operation, rfl, -, invoked⟩ | ⟨wake, holder, -, locked, stepped⟩
    · obtain ⟨count, joined, tokens⟩ := invoke_keepAlive before.shared operation
      have lock := congrArg Ledger.threadListLock (invoke_ledger before.shared operation).2
      rw [invoked] at count joined tokens lock
      change after.threadListLock = before.shared.threadListLock at lock
      rw [KeptAlive, count, joined, lock, total_append, tokens, Nat.zero_add]
      exact kept
    · exact keptAlive_hold locked (hold_step stepped) kept

end KeptAlive

/-! ## What a shutdown knows -/

/-- No add has a token, and none can get one. -/
structure KeepAliveOver (memory : Memory) : Prop where
  joined : memory.keepAliveJoined = true
  gone : memory.keepAliveCount = 0

/-- No thread is started any more, and none times out. -/
structure Closed (memory : Memory) : Prop extends KeepAliveOver memory where
  maxThreads : memory.maxThreads = 0
  activeThreads : memory.activeThreads = 0
  threadsToJoin : memory.threadsToJoin = 0

/-- What `stop` and `join` know without the lock. -/
def Call.Knows (memory : Memory) : Call → Prop
  | .joinKeepAliveOnce _ => memory.keepAliveJoined = false
  | .keepAliveWait _ => memory.keepAliveJoined = true
  | .shutdown _ => KeepAliveOver memory
  | .joinStoppedThreads _ (.shutdown _) | .checkThreadList _ | .checkStopped _ | .shutDown _ =>
      Closed memory
  | _ => True

def Agent.Knows (memory : Memory) : Agent → Prop
  | .worker _ _ => True
  | .call at_ => at_.Knows memory

/-- What they know while they remove threads. -/
def Removal.Knows (memory : Memory) : Removal → Prop
  | .setNumThreads _ _ => True
  | .shutdown _ => KeepAliveOver memory ∧ memory.maxThreads = 0 ∧ memory.activeThreads = 0

/-- What they know with the lock. -/
def Holder.Knows (memory : Memory) : Holder → Prop
  | .stopMax _ => KeepAliveOver memory
  | .stopActive _ => KeepAliveOver memory ∧ memory.maxThreads = 0
  | .removeThreads removal _ | .stopThreads removal _ | .enqueuePoison removal _ _
  | .postPoison removal _ _ => removal.Knows memory
  | .collectToJoin isJoin _ => (Removal.shutdown isJoin).Knows memory
  | _ => True

/-- The pool under its controllers, of which a shutdown is the last. -/
structure Controlled (memory : Memory) (agents : List Agent) : Prop where
  single : memory.history.shutdownCalled = true → countRoles Role.controls memory agents ≤ 1
  unobserved : countRoles Role.observes memory agents = 0
  uncalled : memory.history.shutdownCalled = false →
    countRoles Role.shutsDown memory agents = 0 ∧ memory.keepAliveJoined = false
  kept : KeptAlive memory agents
  calls : ∀ agent ∈ agents, agent.Knows memory
  holds : ∀ holder, memory.threadListLock = some holder → holder.Knows memory

section Controlled

variable {queue : TaskQueue} {choice : CountingSemaphore.Ending} {wake : Bool}
  {memory after : Memory} {left rest agents others : List Agent} {agent : Agent}
  {holder next : Holder}

theorem Controlled.perm (same : agents.Perm others) (controlled : Controlled memory agents) :
    Controlled memory others := by
  have counts : ∀ weight, countRoles weight memory others = countRoles weight memory agents := by
    intro weight
    rw [countRoles, countRoles, total_perm same]
  refine ⟨?_, ?_, fun none => ?_, ?_, fun agent member => ?_, controlled.holds⟩
  · rw [counts]
    exact controlled.single
  · rw [counts]
    exact controlled.unobserved
  · rw [counts]
    exact controlled.uncalled none
  · rw [KeptAlive, ← total_perm same]
    exact controlled.kept
  · exact controlled.calls agent (same.mem_iff.mpr member)

/-- Only a call that controls the pool has something to know. -/
theorem Agent.knows_of_role (role : agent.role.shutsDown = 0) (memory : Memory) :
    agent.Knows memory := by
  cases agent with
  | worker thread worker => trivial
  | call call =>
      cases call with
      | joinStoppedThreads n joiner =>
          cases joiner with
          | shutdown isJoin => cases role
          | _ => trivial
      | joinKeepAliveOnce isJoin => cases role
      | keepAliveWait isJoin => cases role
      | shutdown isJoin => cases role
      | checkThreadList isJoin => cases role
      | checkStopped isJoin => cases role
      | shutDown isJoin => cases role
      | _ => trivial

theorem KeepAliveOver.mono (ended : KeepAliveOver memory)
    (joined : after.keepAliveJoined = memory.keepAliveJoined)
    (gone : memory.keepAliveCount = 0 → after.keepAliveCount = 0) : KeepAliveOver after :=
  ⟨joined.trans ended.joined, gone ended.gone⟩

/-- What a call knows stays true while keep-alive and the closed pool do. -/
theorem Agent.Knows.mono (knows : agent.Knows memory)
    (joined : after.keepAliveJoined = memory.keepAliveJoined)
    (gone : memory.keepAliveCount = 0 → after.keepAliveCount = 0)
    (closed : Closed memory → after.maxThreads = 0 ∧ after.activeThreads = 0 ∧
      after.threadsToJoin = 0) : agent.Knows after := by
  have ended : KeepAliveOver memory → KeepAliveOver after := fun ended => ended.mono joined gone
  have shut : Closed memory → Closed after := by
    intro all
    obtain ⟨maxThreads, activeThreads, threadsToJoin⟩ := closed all
    exact ⟨ended all.toKeepAliveOver, maxThreads, activeThreads, threadsToJoin⟩
  cases agent with
  | worker thread worker => trivial
  | call call =>
      cases call with
      | joinStoppedThreads n joiner =>
          cases joiner with
          | shutdown isJoin => exact shut knows
          | _ => trivial
      | joinKeepAliveOnce isJoin => exact joined.trans knows
      | keepAliveWait isJoin => exact joined.trans knows
      | shutdown isJoin => exact ended knows
      | checkThreadList isJoin => exact shut knows
      | checkStopped isJoin => exact shut knows
      | shutDown isJoin => exact shut knows
      | _ => trivial

theorem Holder.knows_of_role (role : holder.role.shutsDown = 0) (memory : Memory) :
    holder.Knows memory := by
  cases holder with
  | removeThreads removal n => cases removal <;> trivial
  | stopThreads removal n => cases removal <;> trivial
  | enqueuePoison removal n count => cases removal <;> trivial
  | postPoison removal n count => cases removal <;> trivial
  | stopMax isJoin => cases role
  | stopActive isJoin => cases role
  | collectToJoin isJoin n => cases role
  | _ => trivial

theorem Removal.Knows.mono {removal : Removal} (knows : removal.Knows memory)
    (joined : after.keepAliveJoined = memory.keepAliveJoined)
    (gone : memory.keepAliveCount = 0 → after.keepAliveCount = 0)
    (maxThreads : after.maxThreads = memory.maxThreads)
    (activeThreads : after.activeThreads = memory.activeThreads) : removal.Knows after := by
  cases removal with
  | setNumThreads numThreads resizer => trivial
  | shutdown isJoin =>
      obtain ⟨ended, noMax, noActive⟩ := knows
      exact ⟨ended.mono joined gone, maxThreads.trans noMax, activeThreads.trans noActive⟩

theorem Holder.Knows.mono (knows : holder.Knows memory)
    (joined : after.keepAliveJoined = memory.keepAliveJoined)
    (gone : memory.keepAliveCount = 0 → after.keepAliveCount = 0)
    (maxThreads : after.maxThreads = memory.maxThreads)
    (activeThreads : after.activeThreads = memory.activeThreads) : holder.Knows after := by
  have removes : ∀ removal : Removal, removal.Knows memory → removal.Knows after :=
    fun removal knows => knows.mono joined gone maxThreads activeThreads
  cases holder with
  | removeThreads removal n => exact removes removal knows
  | stopThreads removal n => exact removes removal knows
  | enqueuePoison removal n count => exact removes removal knows
  | postPoison removal n count => exact removes removal knows
  | collectToJoin isJoin n => exact removes (.shutdown isJoin) knows
  | stopMax isJoin => exact KeepAliveOver.mono knows joined gone
  | stopActive isJoin => exact ⟨knows.1.mono joined gone, maxThreads.trans knows.2⟩
  | _ => trivial

private theorem knows_of_wants (wants : agent.wants = some holder) (knows : agent.Knows memory) :
    holder.Knows memory := by
  unfold Agent.wants at wants
  split at wants <;> cases wants <;> trivial

private theorem act_keepAlive (step : agent.Step queue choice memory after left) :
    (memory.keepAliveCount = 0 → after.keepAliveCount = 0) ∧
      (after.keepAliveJoined = memory.keepAliveJoined ∨
        ∃ isJoin, agent = .call (.joinKeepAliveOnce isJoin)) := by
  cases step with
  | locks agent holder wants free => exact ⟨id, .inl rfl⟩
  | worker thread worker after left step => cases step <;> exact ⟨id, .inl rfl⟩
  | call call after left step =>
      cases step with
      | getsToken task priority alive => exact ⟨fun gone => by omega, .inl rfl⟩
      | queueFull task priority mayNeed full =>
          refine ⟨fun gone => ?_, .inl rfl⟩
          simp only [gone]
          split <;> rfl
      | releasesToken task =>
          refine ⟨fun gone => ?_, .inl rfl⟩
          simp only [Memory.addReturns, gone]
      | joinsKeepAlive isJoin joined =>
          refine ⟨fun gone => ?_, .inr ⟨isJoin, rfl⟩⟩
          simp only [gone]
      | _ => exact ⟨id, .inl rfl⟩

theorem act_sizes (acted : act queue choice memory agent = some (after, left)) :
    after.maxThreads = memory.maxThreads ∧ after.activeThreads = memory.activeThreads ∧
      after.threadsToJoin = memory.threadsToJoin ∧
      after.history.shutdownCalled = memory.history.shutdownCalled := by
  rcases act_cases acted with ⟨holder, -, -, -, rfl⟩ | ⟨call, -, records⟩ | ⟨same, -⟩
  · exact ⟨rfl, rfl, rfl, rfl⟩
  · cases records <;> exact ⟨rfl, rfl, rfl, rfl⟩
  · exact ⟨congrArg Ledger.maxThreads same, congrArg Ledger.activeThreads same,
      congrArg Ledger.threadsToJoin same, congrArg Ledger.shutdownCalled same⟩

private theorem act_lock (acted : act queue choice memory agent = some (after, left)) :
    (∃ holder, agent.wants = some holder ∧ memory.threadListLock = none ∧
      after.threadListLock = some holder) ∨ after.threadListLock = memory.threadListLock := by
  rcases act_cases acted with ⟨holder, wants, free, -, rfl⟩ | ⟨call, -, records⟩ | ⟨same, -⟩
  · exact .inl ⟨holder, wants, free, rfl⟩
  · cases records <;> exact .inr rfl
  · exact .inr (congrArg Ledger.threadListLock same)

/-- A step of a shutdown leaves it knowing what its next place asks. -/
private theorem act_knows (step : agent.Step queue choice memory after left)
    (knows : agent.Knows memory) : ∀ next ∈ left, next.Knows after := by
  cases step with
  | locks agent holder wants free => exact List.forall_mem_nil _
  | worker thread worker after left step => cases step <;> simp [loopHead, Agent.Knows]
  | call call after left step =>
      cases step with
      | joinsAll joiner =>
          cases joiner with
          | shutdown isJoin => simpa [Joiner.next, Agent.Knows, Call.Knows] using knows
          | ensureJoined ensurer => simp [Joiner.next, Agent.Knows, Call.Knows]
          | setNumThreads resizer =>
              cases resizer <;> simp [Joiner.next, Agent.Knows, Call.Knows]
      | joinsOne n joiner thread stopped first =>
          cases joiner with
          | shutdown isJoin =>
              have closed : Closed memory := knows
              simp only [List.mem_singleton, forall_eq]
              exact ⟨⟨closed.joined, closed.gone⟩, closed.maxThreads, closed.activeThreads,
                closed.threadsToJoin⟩
          | _ => simp [Agent.Knows, Call.Knows]
      | joinedBefore isJoin joined => exact absurd (knows.symm.trans joined) Bool.false_ne_true
      | joinsKeepAlive isJoin joined => simp [Agent.Knows, Call.Knows]
      | keepAliveGone isJoin gone =>
          simp only [List.mem_singleton, forall_eq]
          exact ⟨knows, gone⟩
      | noThreadLeft isJoin zero => simpa [Agent.Knows, Call.Knows] using knows
      | noStoppedLeft isJoin zero => simpa [Agent.Knows, Call.Knows] using knows
      | enoughActive ensurer active above =>
          cases ensurer <;> simp [Ensurer.next, Agent.Knows, Call.Knows]
      | _ => simp [Agent.Knows, Call.Knows]

/-- Whoever shuts the pool down was called to. -/
theorem Controlled.called (controlled : Controlled memory agents) (member : agent ∈ agents)
    (shutsDown : agent.role.shutsDown = 1) : memory.history.shutdownCalled = true := by
  cases called : memory.history.shutdownCalled with
  | true => rfl
  | false =>
      have none := (controlled.uncalled called).1
      have weighs := weight_le_total (fun agent => Role.shutsDown agent.role) member
      rw [countRoles] at none
      simp only [shutsDown] at weighs
      omega

/-- Beside a call that shuts the pool down there is no other that controls it. -/
theorem Controlled.rest_roles (controlled : Controlled memory (agent :: rest))
    (shutsDown : agent.role.shutsDown = 1) :
    ∀ other ∈ rest, other.role.controls = 0 := by
  have single := controlled.single (controlled.called List.mem_cons_self shutsDown)
  rw [countRoles, total_cons, Role.controls_of_shutsDown shutsDown] at single
  exact total_eq_zero_iff.mp (by omega)

theorem Controlled.act (acted : act queue choice memory agent = some (after, left))
    (controlled : Controlled memory (agent :: rest)) : Controlled after (left ++ rest) := by
  have step := act_step acted
  obtain ⟨maxThreads, activeThreads, threadsToJoin, called⟩ := act_sizes acted
  obtain ⟨gone, joined⟩ := act_keepAlive step
  have controls : countRoles Role.controls after (left ++ rest) ≤
      countRoles Role.controls memory (agent :: rest) := countRoles_act rfl acted
  have observes : countRoles Role.observes after (left ++ rest) ≤
      countRoles Role.observes memory (agent :: rest) := countRoles_act rfl acted
  have shutsDown : countRoles Role.shutsDown after (left ++ rest) ≤
      countRoles Role.shutsDown memory (agent :: rest) := countRoles_act rfl acted
  rw [controlled.unobserved] at observes
  refine ⟨fun shut => Nat.le_trans controls (controlled.single (called.symm.trans shut)),
    Nat.le_zero.mp observes, fun none => ?_, keptAlive_act step controlled.kept,
    fun other member => ?_, fun holder holds => ?_⟩
  · obtain ⟨roles, unjoined⟩ := controlled.uncalled (called.symm.trans none)
    rw [roles] at shutsDown
    refine ⟨Nat.le_zero.mp shutsDown, ?_⟩
    rcases joined with same | ⟨isJoin, rfl⟩
    · exact same.trans unjoined
    · rw [countRoles, total_cons, Agent.role, Call.role, Role.shutsDown] at roles
      omega
  · rcases List.mem_append.mp member with new | old
    · exact act_knows step (controlled.calls agent List.mem_cons_self) other new
    · rcases joined with same | ⟨isJoin, rfl⟩
      · have knows := controlled.calls other (List.mem_cons_of_mem agent old)
        refine knows.mono same gone fun closed => ?_
        exact ⟨maxThreads.trans closed.maxThreads, activeThreads.trans closed.activeThreads,
          threadsToJoin.trans closed.threadsToJoin⟩
      · have role := controlled.rest_roles rfl other old
        exact Agent.knows_of_role (Role.shutsDown_of_controls role) after
  · rcases act_lock acted with ⟨locker, wants, free, locks⟩ | same
    · cases holds.symm.trans locks
      have knows := knows_of_wants wants (controlled.calls agent List.mem_cons_self)
      rcases joined with unjoined | ⟨isJoin, rfl⟩
      · exact knows.mono unjoined gone maxThreads activeThreads
      · cases wants
    · have locked := same.symm.trans holds
      rcases joined with unjoined | ⟨isJoin, rfl⟩
      · exact (controlled.holds holder locked).mono unjoined gone maxThreads activeThreads
      · have single := controlled.single (controlled.called List.mem_cons_self rfl)
        rw [countRoles, Memory.holding, locked, Option.elim_some, total_cons, Agent.role, Call.role]
          at single
        have role : holder.role.controls = 0 := by
          simp only [Role.controls] at single ⊢
          omega
        exact Holder.knows_of_role (Role.shutsDown_of_controls role) after

/-- A holder of the lock that neither controls the pool nor has a token is a
worker. -/
theorem thread_of_roles {found now : Sizing} (stored : holder.Stored found now)
    (controls : holder.role.controls = 0) (observes : holder.role.observes = 0)
    (tokens : holder.tokens = 0) : holder.thread?.isSome = true := by
  have resumes : ∀ next : Call, next.Resumes → next.role.controls = 0 →
      next.role.observes = 0 → next.tokens ≠ 0 := by
    intro next resumes controls observes
    cases next with
    | joinStoppedThreads n joiner =>
        cases joiner with
        | setNumThreads resizer => cases resizer <;> cases controls
        | _ => cases resumes
    | keepAliveRelease task => exact Nat.one_ne_zero
    | maxActive => cases observes
    | _ => cases resumes
  cases holder with
  | getPending numThreads resizer index pending => cases resizer <;> cases controls
  | storeMax numThreads resizer pending => cases resizer <;> cases controls
  | resize numThreads resizer pending => cases resizer <;> cases controls
  | removeThreads removal n =>
      cases removal with
      | setNumThreads numThreads resizer => cases resizer <;> cases controls
      | shutdown isJoin => cases controls
  | stopThreads removal n =>
      cases removal with
      | setNumThreads numThreads resizer => cases resizer <;> cases controls
      | shutdown isJoin => cases controls
  | enqueuePoison removal n count =>
      cases removal with
      | setNumThreads numThreads resizer => cases resizer <;> cases controls
      | shutdown isJoin => cases controls
  | postPoison removal n count =>
      cases removal with
      | setNumThreads numThreads resizer => cases resizer <;> cases controls
      | shutdown isJoin => cases controls
  | addThreads count newThreads active next =>
      exact absurd tokens (resumes next stored controls observes)
  | storeActive active next => exact absurd tokens (resumes next stored controls observes)
  | stopMax isJoin => cases controls
  | stopActive isJoin => cases controls
  | collectToJoin isJoin n => cases controls
  | collectJoined ensurer =>
      cases ensurer with
      | add task => cases tokens
      | observer => cases observes
  | ensureActive ensurer =>
      cases ensurer with
      | add task => cases tokens
      | observer => cases observes
  | addObserver observer => cases observes
  | removeObserver observer => cases observes
  | _ => rfl

/-- With the lock a shutdown comes to know what its next place asks. -/
private theorem hold_knows (step : holder.Step queue wake memory after left)
    (stored : holder.Stored memory.history.atLock memory.sizing) (knows : holder.Knows memory) :
    (∀ next ∈ left, next.Knows after) ∧
      ∀ next, after.threadListLock = some next → next.Knows after := by
  cases step with
  | worker thread holder after left step =>
      cases step <;>
        exact ⟨by simp [loopHead, Agent.Knows], fun next holds => by cases holds <;> trivial⟩
  | removal removal n holder after left step =>
      cases step with
      | queueFull left full =>
          exact ⟨by simp [Agent.Knows, Call.Knows], fun next holds => by cases holds⟩
      | _ =>
          refine ⟨List.forall_mem_nil _, fun next holds => ?_⟩
          cases holds
          exact Removal.Knows.mono knows rfl id rfl rfl
  | call holder after left step =>
      cases step with
      | clearsMax isJoin =>
          refine ⟨List.forall_mem_nil _, fun next holds => ?_⟩
          cases holds
          exact ⟨⟨knows.joined, knows.gone⟩, rfl⟩
      | clearsActive isJoin =>
          obtain ⟨ended, maxThreads⟩ := knows
          refine ⟨List.forall_mem_nil _, fun next holds => ?_⟩
          cases holds
          exact ⟨⟨ended.joined, ended.gone⟩, maxThreads, rfl⟩
      | poisonedShutdown isJoin n =>
          have removes : (Removal.shutdown isJoin).Knows memory := knows
          refine ⟨List.forall_mem_nil _, fun next holds => ?_⟩
          cases holds
          exact removes.mono rfl id rfl rfl
      | collectsToJoin isJoin n =>
          obtain ⟨ended, maxThreads, activeThreads⟩ := knows
          refine ⟨?_, fun next holds => by cases holds⟩
          simp only [List.mem_singleton, forall_eq]
          exact ⟨⟨ended.joined, ended.gone⟩, maxThreads, activeThreads, rfl⟩
      | storesActive active next =>
          refine ⟨?_, fun next holds => by cases holds⟩
          simp only [List.mem_singleton, forall_eq]
          cases next with
          | joinStoppedThreads n joiner =>
              cases joiner <;> trivial
          | keepAliveRelease task => trivial
          | maxActive => trivial
          | _ => cases stored
      | enoughActive ensurer above =>
          refine ⟨?_, fun next holds => by cases holds⟩
          cases ensurer <;> simp [Ensurer.next, Agent.Knows, Call.Knows]
      | _ =>
          exact ⟨by simp [loopHead, Agent.Knows, Call.Knows], fun next holds => by
            cases holds <;> trivial⟩

theorem workerStep_of_thread (step : holder.Step queue wake memory after left)
    (works : holder.thread?.isSome = true) :
    ∃ thread, holder.WorkerStep queue memory thread after left := by
  cases step with
  | worker thread holder after left step => exact ⟨thread, step⟩
  | removal removal n holder after left step => cases step <;> cases works
  | call holder after left step => cases step <;> cases works

/-- A worker with the lock leaves a closed pool closed. -/
private theorem closed_worker {thread owed : Nat}
    (step : holder.WorkerStep queue memory thread after left)
    (locked : memory.threadListLock = some holder) (accounted : Accounted memory.ledger owed)
    (forgone : memory.history.forgone = 0) (closed : Closed memory) :
    after.maxThreads = 0 ∧ after.activeThreads = 0 ∧ after.threadsToJoin = 0 := by
  have ok := (accounted.held locked).2.2
  rw [closed.maxThreads, closed.activeThreads, forgone] at ok
  cases step with
  | decrements => exact absurd ok.1 (Nat.lt_irrefl 0)
  | stillPending index pending outside positive =>
      exact absurd (ok rfl) (Nat.not_succ_le_zero 0)
  | nonePending index outside => exact absurd (ok rfl) (Nat.not_succ_le_zero 0)
  | _ => exact ⟨closed.maxThreads, closed.activeThreads, closed.threadsToJoin⟩

theorem Controlled.hold {owed : Nat} (locked : memory.threadListLock = some holder)
    (stepped : holder.next queue wake memory = some (after, left))
    (stored : memory.Stored) (accounted : Accounted memory.ledger owed)
    (forgone : memory.history.forgone = 0) (controlled : Controlled memory rest) :
    Controlled after (left ++ rest) := by
  have step := hold_step stepped
  have outside := hold_outside stepped
  have joined : after.keepAliveJoined = memory.keepAliveJoined :=
    congrArg Outside.keepAliveJoined outside
  have count : after.keepAliveCount = memory.keepAliveCount :=
    congrArg Outside.keepAliveCount outside
  have called : after.history.shutdownCalled = memory.history.shutdownCalled :=
    congrArg Outside.shutdownCalled outside
  have controls : countRoles Role.controls after (left ++ rest) ≤
      countRoles Role.controls memory rest := countRoles_hold rfl rfl locked stepped
  have observes : countRoles Role.observes after (left ++ rest) ≤
      countRoles Role.observes memory rest := countRoles_hold rfl rfl locked stepped
  have shutsDown : countRoles Role.shutsDown after (left ++ rest) ≤
      countRoles Role.shutsDown memory rest := countRoles_hold rfl rfl locked stepped
  obtain ⟨leaves, holds⟩ := hold_knows step (stored holder locked) (controlled.holds holder locked)
  have unobserved := controlled.unobserved
  rw [unobserved] at observes
  rw [countRoles, Memory.holding, locked, Option.elim_some] at unobserved
  refine ⟨fun shut => Nat.le_trans controls (controlled.single (called.symm.trans shut)),
    Nat.le_zero.mp observes, fun none => ?_, keptAlive_hold locked step controlled.kept,
    fun other member => ?_, holds⟩
  · obtain ⟨roles, unjoined⟩ := controlled.uncalled (called.symm.trans none)
    rw [roles] at shutsDown
    exact ⟨Nat.le_zero.mp shutsDown, joined.trans unjoined⟩
  · rcases List.mem_append.mp member with new | old
    · exact leaves other new
    · rcases Nat.eq_zero_or_pos holder.role.controls with none | positive
      · have knows := controlled.calls other old
        refine knows.mono joined (fun gone => count.trans gone) fun closed => ?_
        have kept := controlled.kept
        rw [KeptAlive, closed.gone, locked, Option.elim_some] at kept
        have works := thread_of_roles (stored holder locked) none (by omega) (by omega)
        obtain ⟨thread, worker⟩ := workerStep_of_thread step works
        exact closed_worker worker locked accounted forgone closed
      · refine Agent.knows_of_role ?_ after
        cases shut : memory.history.shutdownCalled with
        | false =>
            have roles := (controlled.uncalled shut).1
            rw [countRoles] at roles
            have none : total (fun agent => Role.shutsDown agent.role) rest = 0 := by omega
            exact total_eq_zero_iff.mp none other old
        | true =>
            have single := controlled.single shut
            rw [countRoles, Memory.holding, locked, Option.elim_some] at single
            have none : total (fun agent => Role.controls agent.role) rest = 0 := by omega
            exact Role.shutsDown_of_controls (total_eq_zero_iff.mp none other old)

theorem Controlled.invoke {operation : Operation} (controlled : Controlled memory agents)
    (observes : operation.observes = false)
    (first : operation.controls = true → memory.history.shutdownCalled = false)
    (alone : operation.role.shutsDown = 1 → countRoles Role.controls memory agents = 0) :
    Controlled (memory.invoke operation).1 ((memory.invoke operation).2 ++ agents) := by
  have roles (weight : Role → Nat) :
      countRoles weight (memory.invoke operation).1 ((memory.invoke operation).2 ++ agents) =
        weight operation.role + countRoles weight memory agents :=
    countRoles_invoke memory operation agents
  have same := (invoke_ledger memory operation).2
  obtain ⟨count, joined, tokens⟩ := invoke_keepAlive memory operation
  have lock : (memory.invoke operation).1.threadListLock = memory.threadListLock :=
    congrArg Ledger.threadListLock same
  have maxThreads : (memory.invoke operation).1.maxThreads = memory.maxThreads :=
    congrArg Ledger.maxThreads same
  have activeThreads : (memory.invoke operation).1.activeThreads = memory.activeThreads :=
    congrArg Ledger.activeThreads same
  have threadsToJoin : (memory.invoke operation).1.threadsToJoin = memory.threadsToJoin :=
    congrArg Ledger.threadsToJoin same
  have old : ∀ agent ∈ agents, agent.Knows (memory.invoke operation).1 := by
    intro agent member
    have knows := controlled.calls agent member
    refine knows.mono joined (fun gone => count.trans gone) fun closed => ?_
    exact ⟨maxThreads.trans closed.maxThreads, activeThreads.trans closed.activeThreads,
      threadsToJoin.trans closed.threadsToJoin⟩
  refine ⟨?_, ?_, ?_, ?_, ?_, fun holder holds => ?_⟩
  · rw [roles]
    cases operation with
    | add priority => simpa [Memory.invoke, Operation.role, Role.controls] using controlled.single
    | setNumThreads numThreads =>
        exact fun shut => absurd ((first rfl).symm.trans shut) Bool.false_ne_true
    | shutdown isJoin => simp [Operation.role, Role.controls, alone rfl]
    | addObserver observer => cases observes
    | removeObserver observer => cases observes
  · rw [roles, controlled.unobserved]
    cases operation <;> first | rfl | cases observes
  · rw [roles, joined]
    cases operation with
    | shutdown isJoin => exact fun uncalled => by cases uncalled
    | addObserver observer => cases observes
    | removeObserver observer => cases observes
    | _ => simpa [Operation.role, Role.shutsDown, Memory.invoke] using controlled.uncalled
  · rw [KeptAlive, count, joined, lock, total_append, tokens, Nat.zero_add]
    exact controlled.kept
  · cases operation with
    | shutdown isJoin =>
        have unjoined := (controlled.uncalled (first rfl)).2
        simpa [Memory.invoke, Agent.Knows, Call.Knows, unjoined] using old
    | _ => simpa [Memory.invoke, Agent.Knows, Call.Knows] using old
  · exact (controlled.holds holder (lock.symm.trans holds)).mono joined
      (fun gone => count.trans gone) maxThreads activeThreads

theorem reachable_controlled {numThreads : Nat × Nat}
    {allowed : Global Memory Agent → Label CountingSemaphore.Ending Move → Prop}
    {state : Global Memory Agent} (unbounded : queue.bounded = false)
    (controls : ∀ state label, allowed state label → shutsDownLast state label)
    (reached : Reachable (system queue numThreads) allowed state) :
    Controlled state.shared state.agents := by
  refine Reaches.invariant Controlled Controlled.perm ?_ ?_ ?_ reached
  · refine ⟨fun _ => Nat.le_refl 1, rfl, fun _ => ⟨rfl, rfl⟩, rfl, ?_, ?_⟩
    · simp [system, Agent.Knows, Call.Knows]
    · simp [system]
  · intro before index choice agent after left _ _ _ acted controlled
    exact controlled.act acted
  · intro before move after left reaches allowed moved controlled
    rcases env_cases moved with ⟨operation, rfl, -, invoked⟩ | ⟨wake, holder, -, locked, stepped⟩
    · obtain ⟨observes, first, alone⟩ := controls before _ allowed operation rfl
      have started := controlled.invoke observes first alone
      rw [invoked] at started
      exact started
    · exact controlled.hold locked stepped (reachable_stored reaches) (reachable_accounted reaches)
        (reachable_forgone unbounded reaches)

end Controlled

end ThreadPoolExec.CPUThreadPoolExecutor
