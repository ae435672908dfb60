import ThreadPoolExec.Pool.Supply

/-!
# Who sleeps and who is to stop

The semaphore of the queue counts the workers that sleep. For every stop that is
asked for there is a poison task, in the queue or with a worker that waits for
the lock; a worker that obeys without one leaves it to the others.
-/

set_option autoImplicit false

namespace ThreadPoolExec.CPUThreadPoolExecutor

open Interleaving

def Worker.asleep : Worker → Nat
  | .tryTakeFor .asleep => 1
  | _ => 0

/-- Whether a worker sleeps. -/
def Agent.asleep : Agent → Nat
  | .worker _ at_ => at_.asleep
  | .call _ => 0

def CPUTask.isPoison : CPUTask → Bool
  | .func _ => false
  | .poison _ => true

/-- The poison tasks in the queue. -/
def Tasks.poison (tasks : Tasks) : Nat :=
  tasks.levels.flatten.countP CPUTask.isPoison

def Worker.poison : Worker → Nat
  | .stopping (some _) => 1
  | _ => 0

/-- The poison task that a worker has taken and not obeyed yet. -/
def Agent.poison : Agent → Nat
  | .worker _ at_ => at_.poison
  | .call _ => 0

/-- The poison task of the worker that has the lock, or those that a removal has
still to write. -/
def Holder.poison : Holder → Nat
  | .taskShouldStop _ (some _) => 1
  | .enqueuePoison _ _ left | .postPoison _ _ left => left
  | _ => 0

/-- The semaphore knows the workers that sleep, and there is a poison task for
every stop that is asked for. -/
structure Counted (memory : Memory) (agents : List Agent) : Prop where
  asleep : memory.tasks.sem.sleeping + memory.tasks.sem.woken = total Agent.asleep agents
  toStop : memory.threadsToStop ≤ memory.tasks.poison +
    memory.threadListLock.elim 0 Holder.poison + total Agent.poison agents

section Counted

variable {queue : TaskQueue} {choice : CountingSemaphore.Ending} {wake : Bool}
  {memory after : Memory} {left rest agents others : List Agent} {agent : Agent} {holder : Holder}
  {tasks written : Tasks} {level : Nat} {item : CPUTask}

theorem poison_of_enqueue (inside : level < tasks.levels.length)
    (writes : tasks.enqueue queue level item = some written) :
    written.poison = tasks.poison + if item.isPoison then 1 else 0 := by
  obtain ⟨-, rfl⟩ := enqueue_eq_some writes
  have same := (@Levels.flatten_push_perm _ tasks.levels level item inside).countP_eq
    CPUTask.isPoison
  rw [Tasks.poison, same, List.countP_cons, Tasks.poison]

theorem poison_of_pop {levels : List (List CPUTask)}
    (popped : Levels.pop tasks.levels level = some (item, levels)) :
    tasks.poison = Tasks.poison { tasks with levels := levels } +
      if item.isPoison then 1 else 0 := by
  have same := (Levels.flatten_pop_perm popped).countP_eq CPUTask.isPoison
  rw [Tasks.poison, same, List.countP_cons, Tasks.poison]

/-- What a step of an agent does to the counts of the sleepers and of the poison
tasks. -/
structure Agent.Counts (memory after : Memory) (agent : Agent) (left : List Agent) : Prop where
  asleep : after.tasks.sem.sleeping + after.tasks.sem.woken + agent.asleep =
    memory.tasks.sem.sleeping + memory.tasks.sem.woken + total Agent.asleep left
  poison : memory.tasks.poison + memory.threadListLock.elim 0 Holder.poison + agent.poison =
    after.tasks.poison + after.threadListLock.elim 0 Holder.poison + total Agent.poison left
  toStop : after.threadsToStop = memory.threadsToStop

/-- A step that leaves the queue alone and neither ends nor begins a sleep. -/
private theorem counts_of_same {call : Call} (tasks : after.tasks = memory.tasks)
    (lock : after.threadListLock = memory.threadListLock)
    (toStop : after.threadsToStop = memory.threadsToStop)
    (asleep : total Agent.asleep left = 0) (poison : total Agent.poison left = 0) :
    (Agent.call call).Counts memory after left := by
  refine ⟨?_, ?_, toStop⟩
  · rw [tasks, asleep]
    rfl
  · rw [tasks, lock, poison]
    rfl

private theorem loopHead_awake (unbounded : queue.bounded = false) (thread : Nat) :
    (loopHead queue thread).asleep = 0 ∧ (loopHead queue thread).poison = 0 := by
  simp [loopHead, Take.start, unbounded, Agent.asleep, Agent.poison, Worker.asleep, Worker.poison]

private theorem worker_counts {thread : Nat} {worker : Worker} (unbounded : queue.bounded = false)
    (step : worker.Step queue choice memory thread after left) :
    (Agent.worker thread worker).Counts memory after left := by
  have loops : (Agent.worker thread worker).asleep = 0 → (Agent.worker thread worker).poison = 0 →
      (Agent.worker thread worker).Counts memory memory [loopHead queue thread] := by
    intro awake clean
    obtain ⟨nextAwake, nextClean⟩ := loopHead_awake unbounded thread
    constructor
    case asleep => rw [awake, total_cons, nextAwake, total_nil]
    case poison => rw [clean, total_cons, nextClean, total_nil]
    case toStop => rfl
  cases step with
  | waits sem passed =>
      obtain ⟨-, rfl⟩ := CountingSemaphore.tryWait_eq_some passed
      exact ⟨rfl, rfl, rfl⟩
  | sleeps blocked =>
      refine ⟨?_, rfl, rfl⟩
      simp only [CountingSemaphore.sleep, Agent.asleep, Worker.asleep, total_cons, total_nil]
      omega
  | resumes sem ended =>
      have waiting := CountingSemaphore.endWait_waiting ended
      exact ⟨waiting.symm, rfl, rfl⟩
  | timesOut sem ended =>
      have waiting := CountingSemaphore.endWait_waiting ended
      exact ⟨waiting.symm, rfl, rfl⟩
  | takesTask level task levels popped =>
      have same := poison_of_pop popped
      refine ⟨rfl, ?_, rfl⟩
      rw [same]
      rfl
  | takesPoison level byJoin levels popped =>
      have same := poison_of_pop popped
      refine ⟨rfl, ?_, rfl⟩
      rw [same]
      simp only [CPUTask.isPoison, if_true, Agent.poison, Worker.poison, total_cons, total_nil]
      omega
  | seesNoStop zero => exact loops rfl rfl
  | seesJoin isJoin => exact loops rfl rfl
  | _ => exact ⟨rfl, rfl, rfl⟩

private theorem joiner_counts (joiner : Joiner) :
    total Agent.asleep joiner.next = 0 ∧ total Agent.poison joiner.next = 0 := by
  cases joiner with
  | ensureJoined ensurer => exact ⟨rfl, rfl⟩
  | setNumThreads resizer => cases resizer <;> exact ⟨rfl, rfl⟩
  | shutdown isJoin => exact ⟨rfl, rfl⟩

private theorem posts_counts {changed : Memory} {call : Call} (wake : Bool)
    (tasks : changed.tasks = (memory.tasks.post wake).1)
    (lock : changed.threadListLock = memory.threadListLock)
    (toStop : changed.threadsToStop = memory.threadsToStop)
    (asleep : total Agent.asleep left = 0) (poison : total Agent.poison left = 0) :
    (Agent.call call).Counts memory changed left := by
  refine ⟨?_, ?_, toStop⟩
  · rw [tasks, asleep]
    exact CountingSemaphore.post_waiting wake
  · rw [tasks, lock, poison]
    rfl

private theorem call_counts {call : Call} (step : call.Step queue choice memory after left)
    (inside : memory.tasks.levels.length = queue.getNumPriorities) :
    (Agent.call call).Counts memory after left := by
  cases step with
  | enqueues task priority mayNeed tasks written =>
      have same := poison_of_enqueue (inside ▸ queue.level_lt priority) written
      obtain ⟨-, rfl⟩ := enqueue_eq_some written
      refine ⟨rfl, ?_, rfl⟩
      rw [same]
      rfl
  | posts task => exact posts_counts _ rfl rfl rfl rfl rfl
  | wakesThread task woke => exact posts_counts _ rfl rfl rfl rfl rfl
  | wakesNone task woke => exact posts_counts _ rfl rfl rfl rfl rfl
  | joinsAll joiner =>
      exact counts_of_same rfl rfl rfl (joiner_counts joiner).1 (joiner_counts joiner).2
  | _ => exact counts_of_same rfl rfl rfl rfl rfl

theorem act_counts (unbounded : queue.bounded = false)
    (step : agent.Step queue choice memory after left)
    (inside : memory.tasks.levels.length = queue.getNumPriorities) :
    agent.Counts memory after left := by
  cases step with
  | locks agent holder wants free =>
      have kept : agent.asleep = 0 ∧ agent.poison = holder.poison := by
        unfold Agent.wants at wants
        split at wants <;> cases wants <;> try exact ⟨rfl, rfl⟩
        next thread task => cases task <;> exact ⟨rfl, rfl⟩
      refine ⟨?_, ?_, rfl⟩
      · rw [kept.1]
        rfl
      · simp only [free, Option.elim_none, Option.elim_some, kept.2, total_nil]
        omega
  | worker thread worker after left step => exact worker_counts unbounded step
  | call call after left step => exact call_counts step inside

/-- The holder of the lock leaves the sleepers asleep, or wakes them, and starts
nobody who sleeps. -/
theorem hold_asleep (unbounded : queue.bounded = false)
    (step : holder.Step queue wake memory after left) :
    after.tasks.sem.sleeping + after.tasks.sem.woken =
      memory.tasks.sem.sleeping + memory.tasks.sem.woken ∧ total Agent.asleep left = 0 := by
  have loops (thread : Nat) : total Agent.asleep [loopHead queue thread] = 0 := by
    rw [total_cons, (loopHead_awake unbounded thread).1]
    rfl
  cases step with
  | worker thread holder after left step =>
      cases step with
      | notAsked poison zero => exact ⟨rfl, loops thread⟩
      | atMin below => exact ⟨rfl, loops thread⟩
      | stillPending index pending outside positive => exact ⟨rfl, loops thread⟩
      | notAskedAfterTask zero => exact ⟨rfl, loops thread⟩
      | _ => exact ⟨rfl, rfl⟩
  | removal removal n holder after left step =>
      cases step with
      | enqueues left tasks written =>
          obtain ⟨-, rfl⟩ := enqueue_eq_some written
          exact ⟨rfl, rfl⟩
      | posts left => exact ⟨CountingSemaphore.post_waiting wake, rfl⟩
      | _ => exact ⟨rfl, rfl⟩
  | call holder after left step =>
      cases step with
      | startsThread left newThreads active next => exact ⟨rfl, loops memory.nextId⟩
      | _ => exact ⟨rfl, rfl⟩

/-- A stop is obeyed with or without a poison task, and for every one that a
removal asks for it writes a poison task. -/
theorem hold_toStop {held : Nat} (unbounded : queue.bounded = false)
    (step : holder.Step queue wake memory after left)
    (inside : memory.tasks.levels.length = queue.getNumPriorities)
    (enough : memory.threadsToStop ≤ memory.tasks.poison + holder.poison + held) :
    after.threadsToStop ≤
      after.tasks.poison + after.threadListLock.elim 0 Holder.poison + held := by
  cases step with
  | worker thread holder after left step =>
      cases step with
      | obeys task asked =>
          cases task <;> simp only [Holder.poison, Option.elim_some] at enough ⊢ <;> omega
      | obeysAfterTask asked =>
          simp only [Holder.poison, Option.elim_some] at enough ⊢
          omega
      | notAsked poison zero =>
          rw [zero]
          exact Nat.zero_le _
      | _ => exact enough
  | removal removal n holder after left step =>
      cases step with
      | raisesToStop =>
          simp only [Holder.poison, Option.elim_some] at enough ⊢
          omega
      | enqueues left tasks written =>
          have last : queue.poisonLevel < memory.tasks.levels.length :=
            inside ▸ queue.level_lt Executor.LO_PRI
          simp only [Holder.poison, Option.elim_some, poison_of_enqueue last written,
            CPUTask.isPoison, if_true] at enough ⊢
          omega
      | queueFull left full => simp [enqueue_isSome_of_unbounded unbounded] at full
      | _ => exact enough
  | call holder after left step => cases step <;> exact enough

theorem Counted.perm (same : agents.Perm others) (counted : Counted memory agents) :
    Counted memory others := by
  constructor
  case asleep =>
    rw [← total_perm same]
    exact counted.asleep
  case toStop =>
    rw [← total_perm same]
    exact counted.toStop

private theorem Counted.act (counts : agent.Counts memory after left)
    (counted : Counted memory (agent :: rest)) : Counted after (left ++ rest) := by
  obtain ⟨asleep, poison, toStop⟩ := counts
  obtain ⟨sleepers, stops⟩ := counted
  rw [total_cons] at sleepers stops
  constructor
  case asleep =>
    rw [total_append]
    omega
  case toStop =>
    rw [total_append]
    omega

private theorem Counted.invoke (operation : Operation) (counted : Counted memory agents) :
    Counted (memory.invoke operation).1 ((memory.invoke operation).2 ++ agents) := by
  obtain ⟨sleepers, stops⟩ := counted
  have awake : total Agent.asleep (memory.invoke operation).2 = 0 := by
    cases operation <;> rfl
  constructor
  case asleep =>
    rw [total_append, awake, Nat.zero_add, ← sleepers]
    cases operation <;> rfl
  case toStop =>
    rw [total_append]
    refine Nat.le_trans (Nat.le_of_eq ?_) (Nat.le_trans stops ?_)
    · cases operation <;> rfl
    · cases operation <;> exact Nat.add_le_add_left (Nat.le_add_left _ _) _

theorem reachable_counted {numThreads : Nat × Nat}
    {allowed : Global Memory Agent → Label CountingSemaphore.Ending Move → Prop}
    {state : Global Memory Agent} (unbounded : queue.bounded = false)
    (reached : Reachable (system queue numThreads) allowed state) :
    Counted state.shared state.agents := by
  refine Reaches.invariant Counted Counted.perm ⟨rfl, Nat.zero_le _⟩ ?_ ?_ reached
  · intro before index choice agent after left reaches _ _ acted counted
    exact counted.act (act_counts unbounded (act_step acted) (reachable_levels reaches))
  · intro before move after left reaches _ moved counted
    rcases env_cases moved with ⟨operation, -, -, invoked⟩ | ⟨wake, holder, -, locked, stepped⟩
    · have called := counted.invoke operation
      rw [invoked] at called
      exact called
    · have step := hold_step stepped
      obtain ⟨sleepers, stops⟩ := counted
      obtain ⟨same, awake⟩ := hold_asleep unbounded step
      rw [locked, Option.elim_some] at stops
      constructor
      case asleep =>
        rw [total_append, same, sleepers, awake, Nat.zero_add]
      case toStop =>
        have enough := hold_toStop unbounded step (reachable_levels reaches) stops
        rw [total_append]
        omega

end Counted

end ThreadPoolExec.CPUThreadPoolExecutor
