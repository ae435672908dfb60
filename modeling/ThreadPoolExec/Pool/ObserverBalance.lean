import Mathlib.Algebra.Ring.Int.Defs
import ThreadPoolExec.Pool.Capacity
import ThreadPoolExec.Pool.Controller
import ThreadPoolExec.Pool.QueueObservers

/-!
# What queue observers are told

`addImpl` calls `onEnqueued` before it writes into the task queue, and nothing
takes the call back when the write throws. The calls of the observers are a log
of the pool's runs. The slot of an observer stands for it: every call of
`getQueueObserver` for the slot returns the same one.
-/

set_option autoImplicit false

namespace ThreadPoolExec.CPUThreadPoolExecutor

open Interleaving

/-- The observer of a priority, with a factory installed. -/
def TaskQueue.getQueueObserver (queue : TaskQueue) (pri : Int8) : BitVec 8 :=
  QueueObservers.Executor.home { numPriorities := queue.getNumPriorities } pri.toBitVec

/-- A call of `onEnqueued` or `onDequeued`. -/
structure Notification where
  observer : BitVec 8
  task : Nat
deriving DecidableEq

/-- What a step of an add found, and what it left. -/
structure OwnStep where
  task : Nat
  before : Memory
  after : Memory

/-- `priorities` are the `queuePriority()` of the tasks, by number. `thrown` are
the tasks whose add exited with `QueueFullException`, and `failed` those whose
add failed a check. `steps` are the steps of the adds up to the write. -/
structure Log where
  priorities : List Int8 := []
  onEnqueued : List Notification := []
  onDequeued : List Notification := []
  thrown : List Nat := []
  failed : List Nat := []
  steps : List OwnStep := []

def Log.queuePriority (log : Log) (task : Nat) : Int8 :=
  log.priorities.getD task 0

/-- The task and the priority of an add that has not written yet. -/
def Call.adding? : Call → Option (Nat × Int8)
  | .loadMin task priority | .loadActive task priority | .loadMax task priority _
  | .getKeepAliveToken task priority | .enqueue task priority _ => some (task, priority)
  | _ => none

def Log.act (queue : TaskQueue) (before : Memory) (agent : Agent) (after : Memory)
    (left : List Agent) (log : Log) : Log :=
  match agent with
  | .worker _ (.taken task) =>
      { log with
        onDequeued := ⟨queue.getQueueObserver (log.queuePriority task), task⟩ :: log.onDequeued }
  | .call call =>
      match call.adding? with
      | some (task, _) =>
          { log with
            thrown := if left = [.call .queueFull] then task :: log.thrown else log.thrown
            failed := if left = [.call .checkFailed] then task :: log.failed else log.failed
            steps := ⟨task, before, after⟩ :: log.steps }
      | none => log
  | .worker _ _ => log

/-- An add begins with its call of `onEnqueued`. -/
def Log.env (queue : TaskQueue) (before : Memory) (move : Move) (_ : Memory) (_ : List Agent)
    (log : Log) : Log :=
  match move with
  | .invoke (.add priority) =>
      { log with
        priorities := log.priorities ++ [priority]
        onEnqueued := ⟨queue.getQueueObserver priority, before.history.nextTask⟩ :: log.onEnqueued }
  | _ => log

def observed (queue : TaskQueue) (numThreads : Nat × Nat) :
    System (Recorded Memory Log) Agent CountingSemaphore.Ending Move :=
  (system queue numThreads).recorded ⟨Log.act queue, Log.env queue⟩ {}

/-! ## What is claimed of them -/

def CPUTask.task? : CPUTask → Option Nat
  | .func task => some task
  | .poison _ => none

/-- The tasks in the queue. -/
def Tasks.queued (tasks : Tasks) : List Nat :=
  tasks.levels.flatten.filterMap CPUTask.task?

/-- The steps that an add has made itself. -/
def Log.ownSteps (log : Log) (task : Nat) : List OwnStep :=
  log.steps.filter (·.task = task)

/-- Neither the queue nor its semaphore changes, nor the counters and lists of
threads. -/
def OwnStep.Still (step : OwnStep) : Prop :=
  step.after.tasks = step.before.tasks ∧ step.after.ledger = step.before.ledger

/-- What these steps have added to the keep-alive count. -/
def Log.tokens (log : Log) (task : Nat) : Int :=
  ((log.ownSteps task).map fun step =>
    (step.after.keepAliveCount : Int) - step.before.keepAliveCount).sum

def Log.balance (log : Log) (observer : BitVec 8) : Int :=
  log.onEnqueued.countP (·.observer = observer) - log.onDequeued.countP (·.observer = observer)

/-- An observer's balance, as far as one task is concerned. -/
def Log.ownBalance (log : Log) (observer : BitVec 8) (task : Nat) : Int :=
  log.onEnqueued.count ⟨observer, task⟩ - log.onDequeued.count ⟨observer, task⟩

/-- The tasks of an observer in a list. -/
def Log.tasksOf (queue : TaskQueue) (log : Log) (observer : BitVec 8) (tasks : List Nat) : Nat :=
  tasks.countP fun task => queue.getQueueObserver (log.queuePriority task) = observer

/-- An add that has thrown leaves everything as it was. -/
structure NoNetEffect (observer : BitVec 8) (log : Log) (task : Nat) : Prop where
  still : ∀ step ∈ log.ownSteps task, step.Still
  tokens : log.tokens task = 0
  balance : log.ownBalance observer task = 0

/-- An add between `onEnqueued` and its write, a worker between `try_take_for`
and `onDequeued`, or a call that the program has not survived. -/
def Agent.unsettled : Agent → Bool
  | .worker _ (.taken _) => true
  | .worker _ _ => false
  | .call at_ => at_.adding?.isSome || at_ = .checkFailed

structure Balanced (queue : TaskQueue) (observer : BitVec 8)
    (state : Global (Recorded Memory Log) Agent) : Prop where
  refused : ∀ task ∈ state.shared.log.thrown, NoNetEffect observer state.shared.log task
  settled : (∀ agent ∈ state.agents, agent.unsettled = false) →
    state.shared.log.balance observer =
      state.shared.log.tasksOf queue observer state.shared.memory.tasks.queued

/-- An add of an observer's that finds its level full. -/
def Agent.meetsFull (queue : TaskQueue) (observer : BitVec 8) (tasks : Tasks) : Agent → Bool
  | .call (.enqueue _ priority _) =>
      queue.getQueueObserver priority = observer && tasks.full queue (queue.level priority)
  | _ => false

/-- No add of an observer's finds its level full. -/
def hasRoom (queue : TaskQueue) (observer : BitVec 8)
    (state : Global (Recorded Memory Log) Agent) : Label CountingSemaphore.Ending Move → Prop
  | .act index _ =>
      (state.agents[index]?).any (Agent.meetsFull queue observer state.shared.memory.tasks) = false
  | .env _ => True

instance (queue : TaskQueue) (observer : BitVec 8) (state : Global (Recorded Memory Log) Agent) :
    (label : Label CountingSemaphore.Ending Move) → Decidable (hasRoom queue observer state label)
  | .act _ _ => instDecidableEqBool _ _
  | .env _ => .isTrue trivial

/-! ## Every task is in one place -/

/-- The task that an agent has in its hands, on the way into the queue or out
of it. -/
def Agent.inHand? : Agent → Option Nat
  | .worker _ (.taken task) => some task
  | .worker _ _ => none
  | .call at_ => at_.adding?.map Prod.fst

def Agent.inHand (weight : Nat → Nat) (agent : Agent) : Nat :=
  agent.inHand?.elim 0 weight

def Agent.adding? : Agent → Option (Nat × Int8)
  | .worker _ _ => none
  | .call at_ => at_.adding?

/-- A weight of the tasks that `onEnqueued` was called for, wherever they are:
reported, in the queue, in the hands of an agent, or with an add that has ended
without them. -/
def Log.places (log : Log) (weight : Nat → Nat) (memory : Memory) (agents : List Agent) : Nat :=
  total weight (log.onDequeued.map Notification.task) + total weight memory.tasks.queued +
    total (Agent.inHand weight) agents + total weight log.thrown + total weight log.failed

structure Logged (queue : TaskQueue) (memory : Memory) (log : Log) (agents : List Agent) :
    Prop where
  fresh : log.onEnqueued.map Notification.task = (List.range memory.history.nextTask).reverse
  priorities : log.priorities.length = memory.history.nextTask
  asked : ∀ agent ∈ agents, ∀ adding ∈ agent.adding?, log.queuePriority adding.1 = adding.2
  observers : ∀ notification ∈ log.onEnqueued ++ log.onDequeued,
    queue.getQueueObserver (log.queuePriority notification.task) = notification.observer
  conserved : ∀ weight : Nat → Nat, total weight (log.onEnqueued.map Notification.task) =
    log.places weight memory agents
  failed : log.failed ≠ [] → .call .checkFailed ∈ agents

section Queued

variable {queue : TaskQueue} {tasks after : Tasks} {level : Nat} {item : CPUTask}

theorem queued_of_enqueue (inside : level < tasks.levels.length)
    (written : tasks.enqueue queue level item = some after) :
    after.queued.Perm (item.task?.toList ++ tasks.queued) := by
  obtain ⟨-, rfl⟩ := enqueue_eq_some written
  have same := (@Levels.flatten_push_perm _ tasks.levels level item inside).filterMap CPUTask.task?
  cases item <;> exact same

theorem queued_of_pop (popped : Levels.pop tasks.levels level = some (item, after.levels)) :
    tasks.queued.Perm (item.task?.toList ++ after.queued) := by
  have same := (Levels.flatten_pop_perm popped).filterMap CPUTask.task?
  cases item <;> exact same

end Queued

/-! ## What a step does with the tasks -/

inductive Agent.Moves (queue : TaskQueue) (memory after : Memory) : Agent → List Agent → Prop where
  | goesOn (before next : Call) (adding : Nat × Int8) (adds : before.adding? = some adding)
      (still : next.adding? = some adding) (tasks : after.tasks = memory.tasks)
      (ledger : after.ledger = memory.ledger)
      (tokens : after.keepAliveCount + before.tokens = memory.keepAliveCount + next.tokens)
      (waits : ∀ mayNeed, before ≠ .enqueue adding.1 adding.2 mayNeed) :
      Moves queue memory after (.call before) [.call next]
  | fails (task : Nat) (priority : Int8) (tasks : after.tasks = memory.tasks) :
      Moves queue memory after (.call (.getKeepAliveToken task priority)) [.call .checkFailed]
  | writes (task : Nat) (priority : Int8) (mayNeed : Bool)
      (written : memory.tasks.enqueue queue (queue.level priority) (.func task) =
        some after.tasks) :
      Moves queue memory after (.call (.enqueue task priority mayNeed))
        [.call (.post task mayNeed)]
  | throws (task : Nat) (priority : Int8) (mayNeed : Bool)
      (full : memory.tasks.full queue (queue.level priority) = true)
      (tasks : after.tasks = memory.tasks) (ledger : after.ledger = memory.ledger)
      (tokens : after.keepAliveCount =
        if mayNeed then memory.keepAliveCount - 1 else memory.keepAliveCount) :
      Moves queue memory after (.call (.enqueue task priority mayNeed)) [.call .queueFull]
  | takes (thread level task : Nat)
      (popped : Levels.pop memory.tasks.levels level = some (.func task, after.tasks.levels)) :
      Moves queue memory after (.worker thread (.tryTakeFor (.probe level)))
        [.worker thread (.taken task)]
  | reports (thread task : Nat) (tasks : after.tasks = memory.tasks) :
      Moves queue memory after (.worker thread (.taken task)) [.worker thread (.runTask task)]
  | elsewhere (agent : Agent) (left : List Agent) (idle : agent.inHand? = none)
      (leaves : ∀ next ∈ left, next.inHand? = none) (alive : agent ≠ .call .checkFailed)
      (queued : after.tasks.queued.Perm memory.tasks.queued) :
      Moves queue memory after agent left

section Moves

variable {queue : TaskQueue} {choice : CountingSemaphore.Ending} {wake : Bool}
  {memory after : Memory} {left : List Agent} {agent : Agent} {holder : Holder}

theorem act_nextTask (step : agent.Step queue choice memory after left) :
    after.history.nextTask = memory.history.nextTask := by
  cases step with
  | locks agent holder wants free => rfl
  | worker thread worker after left step => cases step <;> rfl
  | call call after left step => cases step <;> rfl

private theorem idle_of_wants (wants : agent.wants = some holder) :
    agent.inHand? = none ∧ agent ≠ .call .checkFailed := by
  unfold Agent.wants at wants
  split at wants <;> cases wants <;> exact ⟨rfl, nofun⟩

theorem act_moves (step : agent.Step queue choice memory after left) :
    agent.Moves queue memory after left := by
  cases step with
  | locks agent holder wants free =>
      obtain ⟨idle, alive⟩ := idle_of_wants wants
      exact .elsewhere _ _ idle (List.forall_mem_nil _) alive (.refl _)
  | worker thread worker after left step =>
      cases step with
      | takesTask level task levels popped => exact .takes _ _ _ popped
      | takesPoison level byJoin levels popped =>
          have queued := @queued_of_pop _ { memory.tasks with levels := levels } _ _ popped
          exact .elsewhere _ _ rfl (by simp [Agent.inHand?]) (by simp) queued.symm
      | runsTask task => exact .reports _ _ rfl
      | _ => exact .elsewhere _ _ rfl (by simp [Agent.inHand?, loopHead]) (by simp) (.refl _)
  | call call after left step =>
      cases step with
      | minIsZero task priority zero => exact .goesOn _ _ _ rfl rfl rfl rfl rfl (by simp)
      | minIsPositive task priority positive => exact .goesOn _ _ _ rfl rfl rfl rfl rfl (by simp)
      | loadsActive task priority => exact .goesOn _ _ _ rfl rfl rfl rfl rfl (by simp)
      | mayNeed task priority active below => exact .goesOn _ _ _ rfl rfl rfl rfl rfl (by simp)
      | noNeed task priority active above => exact .goesOn _ _ _ rfl rfl rfl rfl rfl (by simp)
      | getsToken task priority alive => exact .goesOn _ _ _ rfl rfl rfl rfl rfl (by simp)
      | noToken task priority joined => exact .fails _ _ rfl
      | enqueues task priority mayNeed tasks written => exact .writes _ _ _ written
      | queueFull task priority mayNeed full =>
          refine .throws _ _ _ ?_ rfl rfl rfl
          unfold Tasks.enqueue at full
          split at full
          · assumption
          · cases full
      | enoughActive ensurer active above =>
          refine .elsewhere _ _ rfl ?_ (by simp) (.refl _)
          cases ensurer <;> simp [Ensurer.next, Agent.inHand?, Call.adding?]
      | joinsAll joiner =>
          refine .elsewhere _ _ rfl ?_ (by simp) (.refl _)
          cases joiner with
          | ensureJoined ensurer => simp [Joiner.next, Agent.inHand?, Call.adding?]
          | setNumThreads resizer =>
              cases resizer <;> simp [Joiner.next, Agent.inHand?, Call.adding?]
          | shutdown isJoin => simp [Joiner.next, Agent.inHand?, Call.adding?]
      | _ => exact .elsewhere _ _ rfl (by simp [Agent.inHand?, Call.adding?]) (by simp) (.refl _)

private theorem adding?_of_resumes {next : Call} (resumes : next.Resumes) :
    next.adding? = none := by
  cases next <;> first | rfl | cases resumes

/-- The holder of the lock has no task in its hands, and adds none. -/
theorem hold_moves (step : holder.Step queue wake memory after left)
    (inside : queue.poisonLevel < memory.tasks.levels.length)
    (stored : holder.Stored memory.history.atLock memory.sizing) :
    after.tasks.queued.Perm memory.tasks.queued ∧ ∀ next ∈ left, next.inHand? = none := by
  cases step with
  | worker thread holder after left step =>
      cases step <;> exact ⟨.refl _, by simp [loopHead, Agent.inHand?]⟩
  | removal removal n holder after left step =>
      cases step with
      | enqueues left tasks written =>
          exact ⟨queued_of_enqueue inside written, List.forall_mem_nil _⟩
      | _ => exact ⟨.refl _, by simp [Agent.inHand?, Call.adding?]⟩
  | call holder after left step =>
      cases step with
      | storesActive active next =>
          exact ⟨.refl _, by simp [Agent.inHand?, adding?_of_resumes stored]⟩
      | enoughActive ensurer above =>
          refine ⟨.refl _, ?_⟩
          cases ensurer <;> simp [Ensurer.next, Agent.inHand?, Call.adding?]
      | _ => exact ⟨.refl _, by simp [loopHead, Agent.inHand?, Call.adding?]⟩

end Moves

/-! ## What the log knows -/

section Logged

variable {queue : TaskQueue} {memory after : Memory} {log : Log}
  {left rest agents others : List Agent} {agent : Agent} {weight : Nat → Nat} {task : Nat}

/-- The weight of one task. -/
def single (task other : Nat) : Nat :=
  if other = task then 1 else 0

theorem total_single (task : Nat) (tasks : List Nat) :
    total (single task) tasks = tasks.count task := by
  have counted := total_indicator (· == task) tasks
  simp only [beq_iff_eq] at counted
  exact counted

@[simp] theorem Log.act_priorities (log : Log) :
    (log.act queue memory agent after left).priorities = log.priorities := by
  unfold Log.act
  split
  · rfl
  · split <;> rfl
  · rfl

@[simp] theorem Log.act_onEnqueued (log : Log) :
    (log.act queue memory agent after left).onEnqueued = log.onEnqueued := by
  unfold Log.act
  split
  · rfl
  · split <;> rfl
  · rfl

theorem adding?_of_idle (idle : agent.inHand? = none) : agent.adding? = none := by
  cases agent with
  | worker thread worker => rfl
  | call call => exact Option.map_eq_none_iff.mp idle

theorem Log.act_of_idle (log : Log) (idle : agent.inHand? = none) :
    log.act queue memory agent after left = log := by
  cases agent with
  | worker thread worker => cases worker <;> first | rfl | cases idle
  | call call =>
      have none : call.adding? = none := adding?_of_idle idle
      simp only [Log.act, none]

theorem Log.act_goesOn {before next : Call} {adding : Nat × Int8} (log : Log)
    (adds : before.adding? = some adding) (still : next.adding? = some adding) :
    log.act queue memory (.call before) after [.call next] =
      { log with steps := ⟨adding.1, memory, after⟩ :: log.steps } := by
  have alive : next ≠ .queueFull ∧ next ≠ .checkFailed := by
    constructor <;> rintro rfl <;> cases still
  simp [Log.act, adds, alive]

theorem Logged.perm (same : agents.Perm others) (logged : Logged queue memory log agents) :
    Logged queue memory log others := by
  refine ⟨logged.fresh, logged.priorities, fun agent member => ?_, logged.observers,
    fun weight => ?_, fun failed => same.mem_iff.mp (logged.failed failed)⟩
  · exact logged.asked agent (same.mem_iff.mpr member)
  · rw [logged.conserved, Log.places, Log.places, total_perm same]

/-- Every task that `onEnqueued` was called for is in one place, and no other
task is anywhere. -/
theorem Logged.places_single (logged : Logged queue memory log agents) (task : Nat) :
    log.places (single task) memory agents = if task < memory.history.nextTask then 1 else 0 := by
  rw [← logged.conserved, logged.fresh, total_single]
  have distinct := List.nodup_reverse.mpr (List.nodup_range (n := memory.history.nextTask))
  simp [distinct.count]

theorem inHand_single (inHand : agent.inHand? = some task) : agent.inHand (single task) = 1 := by
  simp [Agent.inHand, inHand, single]

theorem Agent.inHand?_of_adding {adding : Nat × Int8} (adds : agent.adding? = some adding) :
    agent.inHand? = some adding.1 := by
  cases agent with
  | worker thread worker => cases adds
  | call call => exact congrArg (Option.map Prod.fst) adds

theorem Logged.lt_nextTask (logged : Logged queue memory log agents)
    (somewhere : 0 < log.places (single task) memory agents) : task < memory.history.nextTask := by
  rw [logged.places_single] at somewhere
  split_ifs at somewhere with lt
  · exact lt
  · cases somewhere

theorem Logged.lt_of_inHand (logged : Logged queue memory log agents) (member : agent ∈ agents)
    (inHand : agent.inHand? = some task) : task < memory.history.nextTask := by
  apply logged.lt_nextTask
  have weighs := weight_le_total (Agent.inHand (single task)) member
  rw [inHand_single inHand] at weighs
  unfold Log.places
  omega

theorem Log.places_act (moves : agent.Moves queue memory after left)
    (inside : memory.tasks.levels.length = queue.getNumPriorities) (log : Log) :
    (log.act queue memory agent after left).places weight after (left ++ rest) =
      log.places weight memory (agent :: rest) := by
  cases moves with
  | goesOn before next adding adds still tasks ledger tokens waits =>
      rw [log.act_goesOn adds still]
      simp [Log.places, tasks, Agent.inHand, Agent.inHand?, adds, still]
  | fails task priority tasks =>
      simp only [Log.places, Log.act, Call.adding?, List.cons.injEq, Agent.call.injEq, reduceCtorEq,
        and_true, if_false, if_true, tasks, List.cons_append, List.nil_append, total_cons,
        Agent.inHand, Agent.inHand?, Option.map_none, Option.elim_none, Option.map_some,
        Option.elim_some]
      omega
  | writes task priority mayNeed written =>
      have queued : total weight _ = total weight _ :=
        total_perm (queued_of_enqueue (inside ▸ queue.level_lt priority) written)
      simp only [CPUTask.task?, Option.toList_some, List.singleton_append, total_cons] at queued
      simp only [Log.places, Log.act, Call.adding?, List.cons.injEq, Agent.call.injEq, reduceCtorEq,
        and_true, if_false, queued, List.cons_append, List.nil_append, total_cons, Agent.inHand,
        Agent.inHand?, Option.map_none, Option.elim_none, Option.map_some, Option.elim_some]
      omega
  | throws task priority mayNeed full tasks ledger tokens =>
      simp only [Log.places, Log.act, Call.adding?, List.cons.injEq, Agent.call.injEq, reduceCtorEq,
        and_true, if_false, if_true, tasks, List.cons_append, List.nil_append, total_cons,
        Agent.inHand, Agent.inHand?, Option.map_none, Option.elim_none, Option.map_some,
        Option.elim_some]
      omega
  | takes thread level task popped =>
      have queued : total weight _ = total weight _ := total_perm (queued_of_pop popped)
      simp only [CPUTask.task?, Option.toList_some, List.singleton_append, total_cons] at queued
      simp only [Log.places, Log.act, List.cons_append, List.nil_append, total_cons, Agent.inHand,
        Agent.inHand?, queued, Option.elim_some, Option.elim_none]
      omega
  | reports thread task tasks =>
      simp only [Log.places, Log.act, List.map_cons, total_cons, tasks, List.cons_append,
        List.nil_append, Agent.inHand, Agent.inHand?, Option.elim_some, Option.elim_none]
      omega
  | elsewhere agent left idle leaves alive queued =>
      have none : total (Agent.inHand weight) left = 0 := by
        rw [total_eq_zero_iff]
        intro next member
        simp [Agent.inHand, leaves next member]
      rw [log.act_of_idle idle]
      simp [Log.places, total_perm queued, none, Agent.inHand, idle]

theorem Logged.act (moves : agent.Moves queue memory after left)
    (nextTask : after.history.nextTask = memory.history.nextTask)
    (inside : memory.tasks.levels.length = queue.getNumPriorities)
    (logged : Logged queue memory log (agent :: rest)) :
    Logged queue after (log.act queue memory agent after left) (left ++ rest) := by
  have priority (task : Nat) : (log.act queue memory agent after left).queuePriority task =
      log.queuePriority task := by
    rw [Log.queuePriority, log.act_priorities, Log.queuePriority]
  constructor
  case fresh => rw [log.act_onEnqueued, nextTask, logged.fresh]
  case priorities => rw [log.act_priorities, nextTask, logged.priorities]
  case asked =>
    intro other member adding adds
    rw [priority]
    rcases List.mem_append.mp member with new | old
    · refine logged.asked agent List.mem_cons_self adding ?_
      have busy := Agent.inHand?_of_adding adds
      cases moves with
      | goesOn before next own asks still tasks ledger tokens waits =>
          cases List.mem_singleton.mp new
          exact asks.trans (still.symm.trans adds)
      | elsewhere agent left idle leaves alive queued => cases (leaves other new).symm.trans busy
      | _ =>
          cases List.mem_singleton.mp new
          cases adds
    · exact logged.asked other (List.mem_cons_of_mem _ old) adding adds
  case observers =>
    intro notification member
    rw [priority]
    rw [log.act_onEnqueued] at member
    rcases List.mem_append.mp member with enqueued | dequeued
    · exact logged.observers notification (List.mem_append_left _ enqueued)
    · have old : notification ∈ log.onDequeued →
          queue.getQueueObserver (log.queuePriority notification.task) = notification.observer :=
        fun reported => logged.observers notification (List.mem_append_right _ reported)
      cases moves with
      | goesOn before next own asks still tasks ledger tokens waits =>
          rw [log.act_goesOn asks still] at dequeued
          exact old dequeued
      | reports thread task tasks =>
          rcases List.mem_cons.mp dequeued with rfl | before
          · rfl
          · exact old before
      | elsewhere agent left idle leaves alive queued =>
          rw [log.act_of_idle idle] at dequeued
          exact old dequeued
      | _ => exact old dequeued
  case conserved =>
    intro weight
    rw [log.act_onEnqueued, Log.places_act moves inside, logged.conserved]
  case failed =>
    intro failed
    have kept : log.failed ≠ [] → agent ≠ .call .checkFailed →
        .call .checkFailed ∈ left ++ rest := by
      intro before alive
      rcases List.mem_cons.mp (logged.failed before) with same | old
      · exact absurd same.symm alive
      · exact List.mem_append_right left old
    cases moves with
    | goesOn before next own asks still tasks ledger tokens waits =>
        rw [log.act_goesOn asks still] at failed
        refine kept failed ?_
        rintro ⟨⟩
        cases asks
    | fails task priority tasks => exact List.mem_cons_self
    | elsewhere agent left idle leaves alive queued =>
        rw [log.act_of_idle idle] at failed
        exact kept failed alive
    | _ => exact kept failed nofun

theorem Log.places_hold {log : Log} (queued : after.tasks.queued.Perm memory.tasks.queued)
    (leaves : ∀ next ∈ left, next.inHand? = none) :
    log.places weight after (left ++ rest) = log.places weight memory rest := by
  have none : total (Agent.inHand weight) left = 0 := by
    rw [total_eq_zero_iff]
    intro next member
    simp [Agent.inHand, leaves next member]
  simp [Log.places, total_perm queued, none]

theorem Logged.hold (nextTask : after.history.nextTask = memory.history.nextTask)
    (queued : after.tasks.queued.Perm memory.tasks.queued)
    (leaves : ∀ next ∈ left, next.inHand? = none) (logged : Logged queue memory log rest) :
    Logged queue after log (left ++ rest) := by
  constructor
  case fresh => rw [nextTask, logged.fresh]
  case priorities => rw [nextTask, logged.priorities]
  case asked =>
    intro agent member adding adds
    rcases List.mem_append.mp member with new | old
    · cases (leaves agent new).symm.trans (Agent.inHand?_of_adding adds)
    · exact logged.asked agent old adding adds
  case observers => exact logged.observers
  case conserved =>
    intro weight
    rw [Log.places_hold queued leaves, logged.conserved]
  case failed =>
    intro failed
    exact List.mem_append_right left (logged.failed failed)

theorem Logged.lt_of_notified (logged : Logged queue memory log agents)
    {notification : Notification} (member : notification ∈ log.onEnqueued ++ log.onDequeued) :
    notification.task < memory.history.nextTask := by
  rcases List.mem_append.mp member with enqueued | dequeued
  · have number := List.mem_map_of_mem (f := Notification.task) enqueued
    rw [logged.fresh] at number
    simpa using number
  · apply logged.lt_nextTask
    have counted := List.count_pos_iff.mpr (List.mem_map_of_mem (f := Notification.task) dequeued)
    rw [← total_single] at counted
    unfold Log.places
    omega

theorem Logged.lt_of_thrown (logged : Logged queue memory log agents)
    (thrown : task ∈ log.thrown) : task < memory.history.nextTask := by
  apply logged.lt_nextTask
  have counted := List.count_pos_iff.mpr thrown
  rw [← total_single] at counted
  unfold Log.places
  omega

theorem Log.env_thrown (move : Move) (log : Log) :
    (log.env queue memory move after left).thrown = log.thrown := by
  unfold Log.env
  split <;> rfl

/-- The priorities of the tasks that there are stay what they were. -/
theorem Logged.env_queuePriority (move : Move) (after : Memory) (left : List Agent)
    (logged : Logged queue memory log agents) (lt : task < memory.history.nextTask) :
    (log.env queue memory move after left).queuePriority task = log.queuePriority task := by
  unfold Log.env
  split
  · rw [← logged.priorities] at lt
    rw [Log.queuePriority, Log.queuePriority, List.getD_eq_getElem?_getD,
      List.getD_eq_getElem?_getD, List.getElem?_append_left lt]
  · rfl

/-- An add begins. -/
theorem Logged.add (after : Memory) (left : List Agent) (priority : Int8)
    (logged : Logged queue memory log agents) :
    Logged queue (memory.invoke (.add priority)).1
      (log.env queue memory (.invoke (.add priority)) after left)
      ((memory.invoke (.add priority)).2 ++ agents) := by
  have length := logged.priorities
  have before {task : Nat} (lt : task < memory.history.nextTask) :
      (log.priorities ++ [priority]).getD task 0 = log.queuePriority task :=
    logged.env_queuePriority (.invoke (.add priority)) after left lt
  have latest : (log.priorities ++ [priority]).getD memory.history.nextTask 0 = priority := by
    rw [← length, List.getD_eq_getElem?_getD, List.getElem?_concat_length, Option.getD_some]
  constructor
  case fresh =>
    change _ :: log.onEnqueued.map Notification.task = _
    rw [logged.fresh]
    exact (List.reverse_concat' ..).symm.trans (congrArg List.reverse List.range_succ.symm)
  case priorities =>
    change (log.priorities ++ [priority]).length = _
    rw [List.length_append, length]
    rfl
  case asked =>
    intro agent member adding adds
    rcases List.mem_cons.mp member with rfl | old
    · cases adds
      exact latest
    · have lt := logged.lt_of_inHand old (Agent.inHand?_of_adding adds)
      exact (before lt).trans (logged.asked agent old adding adds)
  case observers =>
    intro notification member
    rcases List.mem_cons.mp member with rfl | old
    · exact congrArg queue.getQueueObserver latest
    · have lt := logged.lt_of_notified old
      exact (congrArg queue.getQueueObserver (before lt)).trans (logged.observers notification old)
  case conserved =>
    intro weight
    have same := logged.conserved weight
    simp only [Log.places] at same
    simp only [Log.env, Log.places, Memory.invoke, List.map_cons, total_cons, List.singleton_append,
      Agent.inHand, Agent.inHand?, Call.adding?, Option.map_some, Option.elim_some]
    omega
  case failed =>
    intro failed
    exact List.mem_cons_of_mem _ (logged.failed failed)

theorem Logged.invoke (after : Memory) (left : List Agent) (operation : Operation)
    (logged : Logged queue memory log agents) :
    Logged queue (memory.invoke operation).1 (log.env queue memory (.invoke operation) after left)
      ((memory.invoke operation).2 ++ agents) := by
  cases operation with
  | add priority => exact logged.add after left priority
  | _ =>
      refine Logged.hold ?_ ?_ ?_ logged
      · rfl
      · exact .refl _
      · simp [Memory.invoke, Agent.inHand?, Call.adding?]

theorem reachable_logged {numThreads : Nat × Nat}
    {allowed : Global (Recorded Memory Log) Agent → Label CountingSemaphore.Ending Move → Prop}
    {state : Global (Recorded Memory Log) Agent}
    (reached : Reachable (observed queue numThreads) allowed state) :
    Logged queue state.shared.memory state.shared.log state.agents := by
  refine Reaches.invariant (fun shared agents => Logged queue shared.memory shared.log agents)
    Logged.perm ?_ ?_ ?_ reached
  · refine ⟨rfl, rfl, ?_, nofun, ?_, fun failed => absurd rfl failed⟩
    · intro agent member adding adds
      cases List.mem_singleton.mp member
      cases adds
    · intro weight
      have none : (queue.empty).queued = [] := by
        simp [Tasks.queued, TaskQueue.empty]
      change 0 = 0 + total weight queue.empty.queued + (0 + 0) + 0 + 0
      rw [none]
      rfl
  · intro before index choice agent after left reaches _ _ acted logged
    obtain ⟨acts, logs⟩ := recorded_act acted
    have step := act_step acts
    have inside := reachable_levels reaches.unrecorded
    rw [logs]
    exact logged.act (act_moves step) (act_nextTask step) inside
  · intro before move after left reaches _ moved logged
    obtain ⟨acts, logs⟩ := recorded_env moved
    rcases env_cases acts with ⟨operation, rfl, -, invoked⟩ | ⟨wake, holder, rfl, locked, stepped⟩
    · have begun := logged.invoke after.memory left operation
      rw [invoked] at begun
      rw [logs]
      exact begun
    · have inside : queue.poisonLevel < before.shared.memory.tasks.levels.length := by
        rw [reachable_levels reaches.unrecorded]
        exact queue.level_lt _
      obtain ⟨queued, leaves⟩ :=
        hold_moves (hold_step stepped) inside (reachable_stored reaches.unrecorded holder locked)
      rw [logs]
      exact logged.hold (congrArg Outside.nextTask (hold_outside stepped)) queued leaves

end Logged

/-! ## An add that has thrown -/

/-- What an add has done so far: it has some tokens, and nothing else. -/
structure Undone (log : Log) (task tokens : Nat) : Prop where
  still : ∀ step ∈ log.ownSteps task, step.Still
  tokens : log.tokens task = tokens

structure Refunded (memory : Memory) (log : Log) (agents : List Agent) : Prop where
  begun : ∀ step ∈ log.steps, step.task < memory.history.nextTask
  adding : ∀ agent ∈ agents, ∀ adding ∈ agent.adding?, Undone log adding.1 agent.tokens
  thrown : ∀ task ∈ log.thrown, Undone log task 0

section Refunded

variable {queue : TaskQueue} {memory after : Memory} {log recorded : Log}
  {left rest agents others : List Agent} {agent : Agent} {task tokens : Nat}

theorem Undone.congr (same : recorded.ownSteps task = log.ownSteps task)
    (undone : Undone log task tokens) : Undone recorded task tokens := by
  refine ⟨same ▸ undone.still, ?_⟩
  rw [Log.tokens, same]
  exact undone.tokens

theorem ownSteps_of_ne {step : OwnStep} (steps : recorded.steps = step :: log.steps)
    (different : step.task ≠ task) : recorded.ownSteps task = log.ownSteps task := by
  rw [Log.ownSteps, steps, List.filter_cons_of_neg (by simpa using different)]
  rfl

/-- A step that only takes tokens, or gives them back. -/
theorem Undone.cons {now : Nat} (steps : recorded.steps = ⟨task, memory, after⟩ :: log.steps)
    (tasks : after.tasks = memory.tasks) (ledger : after.ledger = memory.ledger)
    (count : after.keepAliveCount + tokens = memory.keepAliveCount + now)
    (undone : Undone log task tokens) : Undone recorded task now := by
  have own : recorded.ownSteps task = ⟨task, memory, after⟩ :: log.ownSteps task := by
    rw [Log.ownSteps, steps, List.filter_cons_of_pos (by simp)]
    rfl
  constructor
  case still =>
    intro step member
    rw [own] at member
    rcases List.mem_cons.mp member with rfl | old
    · exact ⟨tasks, ledger⟩
    · exact undone.still step old
  case tokens =>
    have before := undone.tokens
    rw [Log.tokens] at before ⊢
    simp only [own, List.map_cons, List.sum_cons, before]
    omega

theorem Refunded.perm (same : agents.Perm others) (refunded : Refunded memory log agents) :
    Refunded memory log others :=
  ⟨refunded.begun, fun agent member => refunded.adding agent (same.mem_iff.mpr member),
    refunded.thrown⟩

theorem Refunded.tail (refunded : Refunded memory log (agent :: rest)) :
    Refunded memory log rest :=
  ⟨refunded.begun, fun other member => refunded.adding other (List.mem_cons_of_mem _ member),
    refunded.thrown⟩

/-- A task in the hands of an agent is nowhere else. -/
theorem Logged.apart (logged : Logged queue memory log (agent :: rest))
    (inHand : agent.inHand? = some task) :
    task ∉ log.thrown ∧ ∀ other ∈ rest, other.inHand? ≠ some task := by
  have once := logged.places_single task
  rw [if_pos (logged.lt_of_inHand List.mem_cons_self inHand), Log.places, total_cons,
    inHand_single inHand, total_single task log.thrown] at once
  constructor
  · apply List.count_eq_zero.mp
    omega
  · intro other member same
    have weighs := weight_le_total (Agent.inHand (single task)) member
    rw [inHand_single same] at weighs
    omega

/-- The steps of one add are none of another's. -/
theorem Refunded.apart (logged : Logged queue memory log (agent :: rest))
    (inHand : agent.inHand? = some task)
    (steps : recorded.steps = ⟨task, memory, after⟩ :: log.steps)
    (refunded : Refunded memory log (agent :: rest)) :
    (∀ step ∈ recorded.steps, step.task < memory.history.nextTask) ∧
      (∀ other ∈ rest, ∀ adding ∈ other.adding?, Undone recorded adding.1 other.tokens) ∧
      ∀ other ∈ log.thrown, Undone recorded other 0 := by
  obtain ⟨notThrown, alone⟩ := logged.apart inHand
  refine ⟨fun step member => ?_, fun other member adding adds => ?_, fun other thrown => ?_⟩
  · rw [steps] at member
    rcases List.mem_cons.mp member with rfl | old
    · exact logged.lt_of_inHand List.mem_cons_self inHand
    · exact refunded.begun step old
  · have different : task ≠ adding.1 := by
      rintro rfl
      exact alone other member (Agent.inHand?_of_adding adds)
    have undone := refunded.adding other (List.mem_cons_of_mem _ member) adding adds
    exact undone.congr (ownSteps_of_ne steps different)
  · have different : task ≠ other := by
      rintro rfl
      exact notThrown thrown
    exact (refunded.thrown other thrown).congr (ownSteps_of_ne steps different)

theorem Refunded.idle (steps : recorded.steps = log.steps) (thrown : recorded.thrown = log.thrown)
    (nextTask : memory.history.nextTask = after.history.nextTask)
    (leaves : ∀ next ∈ left, next.adding? = none) (refunded : Refunded memory log rest) :
    Refunded after recorded (left ++ rest) := by
  have own (task : Nat) : recorded.ownSteps task = log.ownSteps task := by
    rw [Log.ownSteps, steps, Log.ownSteps]
  constructor
  case begun =>
    rw [steps, ← nextTask]
    exact refunded.begun
  case adding =>
    intro agent member adding adds
    rcases List.mem_append.mp member with new | old
    · cases (leaves agent new).symm.trans adds
    · exact (refunded.adding agent old adding adds).congr (own _)
  case thrown =>
    intro task member
    rw [thrown] at member
    exact (refunded.thrown task member).congr (own task)

theorem Refunded.act (moves : agent.Moves queue memory after left)
    (nextTask : after.history.nextTask = memory.history.nextTask)
    (kept : agent.tokens ≤ memory.keepAliveCount)
    (logged : Logged queue memory log (agent :: rest))
    (refunded : Refunded memory log (agent :: rest)) :
    Refunded after (log.act queue memory agent after left) (left ++ rest) := by
  have own := refunded.adding agent List.mem_cons_self
  have ends {task : Nat} (inHand : agent.inHand? = some task)
      (steps : (log.act queue memory agent after left).steps = ⟨task, memory, after⟩ :: log.steps)
      (leaves : ∀ next ∈ left, ∀ adding ∈ next.adding?,
        Undone (log.act queue memory agent after left) adding.1 next.tokens)
      (thrown : ∀ other ∈ (log.act queue memory agent after left).thrown, other ∈ log.thrown ∨
        Undone (log.act queue memory agent after left) other 0) :
      Refunded after (log.act queue memory agent after left) (left ++ rest) := by
    obtain ⟨begun, others, before⟩ := refunded.apart logged inHand steps
    refine ⟨nextTask ▸ begun, fun next member => ?_, fun other member => ?_⟩
    · rcases List.mem_append.mp member with new | old
      · exact leaves next new
      · exact others next old
    · rcases thrown other member with old | new
      · exact before other old
      · exact new
  cases moves with
  | goesOn before next adding adds still tasks ledger tokens waits =>
      have goesOn := @Log.act_goesOn queue memory after _ _ _ log adds still
      have steps := congrArg Log.steps goesOn
      refine ends (congrArg (Option.map Prod.fst) adds) steps ?_ ?_
      · intro other member same isSame
        cases List.mem_singleton.mp member
        cases still.symm.trans isSame
        exact (own adding adds).cons steps tasks ledger tokens
      · intro other thrown
        rw [goesOn] at thrown
        exact .inl thrown
  | fails task priority tasks =>
      refine ends rfl rfl ?_ fun _ => .inl
      simp [Agent.adding?, Call.adding?]
  | writes task priority mayNeed written =>
      refine ends rfl rfl ?_ fun _ => .inl
      simp [Agent.adding?, Call.adding?]
  | throws task priority mayNeed full tasks ledger tokens =>
      refine ends rfl rfl ?_ ?_
      · simp [Agent.adding?, Call.adding?]
      · intro other thrown
        rcases List.mem_cons.mp thrown with rfl | old
        · refine .inr ((own _ rfl).cons rfl tasks ledger ?_)
          cases mayNeed with
          | false => exact congrArg (· + 0) tokens
          | true => exact (congrArg (· + 1) tokens).trans (Nat.sub_add_cancel kept)
        · exact .inl old
  | takes thread level task popped =>
      refine Refunded.idle ?_ ?_ nextTask.symm ?_ refunded.tail
      · rfl
      · rfl
      · simp [Agent.adding?]
  | reports thread task tasks =>
      refine Refunded.idle ?_ ?_ nextTask.symm ?_ refunded.tail
      · rfl
      · rfl
      · simp [Agent.adding?]
  | elsewhere agent left idle leaves alive queued =>
      rw [log.act_of_idle idle]
      refine refunded.tail.idle rfl rfl nextTask.symm fun next member => ?_
      exact adding?_of_idle (leaves next member)

theorem Refunded.add (queue : TaskQueue) (after : Memory) (left : List Agent) (priority : Int8)
    (refunded : Refunded memory log agents) :
    Refunded (memory.invoke (.add priority)).1
      (log.env queue memory (.invoke (.add priority)) after left)
      ((memory.invoke (.add priority)).2 ++ agents) := by
  have same {task tokens : Nat} (undone : Undone log task tokens) :
      Undone (log.env queue memory (.invoke (.add priority)) after left) task tokens := by
    apply Undone.congr _ undone
    rfl
  constructor
  case begun =>
    intro step member
    exact Nat.lt_succ_of_lt (refunded.begun step member)
  case adding =>
    intro agent member adding adds
    rcases List.mem_cons.mp member with rfl | old
    · cases adds
      have none : log.ownSteps memory.history.nextTask = [] := by
        apply List.filter_eq_nil_iff.mpr
        intro step member
        simpa using Nat.ne_of_lt (refunded.begun step member)
      have undone : Undone log memory.history.nextTask 0 := by
        constructor
        case still => simp [none]
        case tokens => simp [Log.tokens, none]
      exact same undone
    · exact same (refunded.adding agent old adding adds)
  case thrown =>
    intro task member
    exact same (refunded.thrown task member)

theorem Refunded.invoke (queue : TaskQueue) (after : Memory) (left : List Agent)
    (operation : Operation) (refunded : Refunded memory log agents) :
    Refunded (memory.invoke operation).1 (log.env queue memory (.invoke operation) after left)
      ((memory.invoke operation).2 ++ agents) := by
  cases operation with
  | add priority => exact refunded.add queue after left priority
  | _ =>
      refine Refunded.idle ?_ ?_ ?_ ?_ refunded
      · rfl
      · rfl
      · rfl
      · simp [Memory.invoke, Agent.adding?, Call.adding?]

theorem reachable_refunded {numThreads : Nat × Nat}
    {allowed : Global (Recorded Memory Log) Agent → Label CountingSemaphore.Ending Move → Prop}
    {state : Global (Recorded Memory Log) Agent}
    (reached : Reachable (observed queue numThreads) allowed state) :
    Refunded state.shared.memory state.shared.log state.agents := by
  refine Reaches.invariant (fun shared agents => Refunded shared.memory shared.log agents)
    Refunded.perm ?_ ?_ ?_ reached
  · constructor
    case begun =>
      intro step member
      exact absurd member List.not_mem_nil
    case adding =>
      intro agent member adding adds
      cases List.mem_singleton.mp member
      cases adds
    case thrown =>
      intro task member
      exact absurd member List.not_mem_nil
  · intro before index choice agent after left reaches _ found acted refunded
    obtain ⟨acts, logs⟩ := recorded_act acted
    have step := act_step acts
    have logged := (reachable_logged reaches).perm (perm_of_getElem? found)
    have kept : agent.tokens ≤ before.shared.memory.keepAliveCount := by
      have weighs := weight_le_total Agent.tokens (List.mem_of_getElem? found)
      have counted : KeptAlive before.shared.memory before.agents :=
        reachable_keptAlive reaches.unrecorded
      rw [KeptAlive] at counted
      omega
    rw [logs]
    exact refunded.act (act_moves step) (act_nextTask step) kept logged
  · intro before move after left reaches _ moved refunded
    obtain ⟨acts, logs⟩ := recorded_env moved
    rcases env_cases acts with ⟨operation, rfl, -, invoked⟩ | ⟨wake, holder, rfl, locked, stepped⟩
    · have begun := refunded.invoke queue after.memory left operation
      rw [invoked] at begun
      rw [logs]
      exact begun
    · have inside : queue.poisonLevel < before.shared.memory.tasks.levels.length := by
        rw [reachable_levels reaches.unrecorded]
        exact queue.level_lt _
      have stored := reachable_stored reaches.unrecorded holder locked
      have leaves := (hold_moves (hold_step stepped) inside stored).2
      rw [logs]
      refine refunded.idle rfl rfl ?_ fun next member => adding?_of_idle (leaves next member)
      exact (congrArg Outside.nextTask (hold_outside stepped)).symm

end Refunded

/-! ## The balance -/

section Balance

variable {queue : TaskQueue} {numThreads : Nat × Nat} {observer : BitVec 8} {memory : Memory}
  {log : Log} {agents : List Agent} {notifications : List Notification} {task : Nat}
  {state next : Global (Recorded Memory Log) Agent}
  {label : Label CountingSemaphore.Ending Move}
  {allowed : Global (Recorded Memory Log) Agent → Label CountingSemaphore.Ending Move → Prop}

theorem countP_observer (observer : BitVec 8) (observers : ∀ notification ∈ notifications,
    queue.getQueueObserver (log.queuePriority notification.task) = notification.observer) :
    notifications.countP (·.observer = observer) =
      log.tasksOf queue observer (notifications.map Notification.task) := by
  rw [Log.tasksOf, List.countP_map]
  apply List.countP_congr
  intro notification member
  simp [observers notification member]

theorem count_notification (observer : BitVec 8) (task : Nat)
    (observers : ∀ notification ∈ notifications,
      queue.getQueueObserver (log.queuePriority notification.task) = notification.observer) :
    notifications.count ⟨observer, task⟩ =
      if queue.getQueueObserver (log.queuePriority task) = observer then
        (notifications.map Notification.task).count task
      else 0 := by
  split_ifs with theirs
  · rw [List.count, List.count, List.countP_map]
    apply List.countP_congr
    rintro ⟨other, number⟩ member
    have same := observers _ member
    simp only [beq_iff_eq, Notification.mk.injEq, Function.comp_apply]
    refine ⟨And.right, ?_⟩
    rintro rfl
    exact ⟨same.symm.trans theirs, rfl⟩
  · apply List.count_eq_zero.mpr
    intro member
    exact theirs (observers _ member)

theorem total_tasksOf (log : Log) (tasks : List Nat) :
    total (fun task => if queue.getQueueObserver (log.queuePriority task) = observer then 1 else 0)
      tasks = log.tasksOf queue observer tasks := by
  have counted := total_indicator
    (fun task => decide (queue.getQueueObserver (log.queuePriority task) = observer)) tasks
  simp only [decide_eq_true_eq] at counted
  exact counted

theorem Agent.inHand?_of_settled {agent : Agent} (settled : agent.unsettled = false) :
    agent.inHand? = none := by
  cases agent with
  | worker thread worker => cases worker <;> first | rfl | cases settled
  | call call =>
      simp only [Agent.unsettled, Bool.or_eq_false_iff] at settled
      simpa [Agent.inHand?] using settled.1

/-- The tasks that were thrown out with an exception stay in the balance. -/
theorem Logged.balance_eq (logged : Logged queue memory log agents)
    (settled : ∀ agent ∈ agents, agent.unsettled = false) :
    log.balance observer =
      log.tasksOf queue observer memory.tasks.queued + log.tasksOf queue observer log.thrown := by
  have enqueued := countP_observer observer
    fun notification member => logged.observers notification (List.mem_append_left _ member)
  have dequeued := countP_observer observer
    fun notification member => logged.observers notification (List.mem_append_right _ member)
  have conserved := logged.conserved fun task =>
    if queue.getQueueObserver (log.queuePriority task) = observer then 1 else 0
  have none : log.failed = [] := by
    by_contra failed
    cases settled _ (logged.failed failed)
  have idle (weight : Nat → Nat) : total (Agent.inHand weight) agents = 0 := by
    apply total_eq_zero_iff.mpr
    intro agent member
    rw [Agent.inHand, Agent.inHand?_of_settled (settled agent member), Option.elim_none]
  simp only [Log.places, total_tasksOf, idle, none] at conserved
  rw [Log.balance, enqueued, dequeued]
  simp only [Log.tasksOf, List.countP_nil] at conserved ⊢
  omega

theorem Logged.ownBalance_thrown (observer : BitVec 8)
    (logged : Logged queue memory log agents) (thrown : task ∈ log.thrown) :
    log.ownBalance observer task =
      if queue.getQueueObserver (log.queuePriority task) = observer then 1 else 0 := by
  have places := logged.places_single task
  have conserved := logged.conserved (single task)
  have counted := List.count_pos_iff.mpr thrown
  rw [← total_single] at counted
  rw [Log.places] at places conserved
  have enqueued := count_notification observer task
    fun notification member => logged.observers notification (List.mem_append_left _ member)
  have dequeued := count_notification observer task
    fun notification member => logged.observers notification (List.mem_append_right _ member)
  rw [Log.ownBalance, enqueued, dequeued, ← total_single, ← total_single]
  split_ifs at places ⊢ <;> omega

theorem balanced_iff (reached : Reachable (observed queue numThreads) allowed state) :
    Balanced queue observer state ↔ ∀ task ∈ state.shared.log.thrown,
      queue.getQueueObserver (state.shared.log.queuePriority task) ≠ observer := by
  have logged := reachable_logged reached
  constructor
  · intro balanced task thrown theirs
    have own := logged.ownBalance_thrown observer thrown
    rw [(balanced.refused task thrown).balance, if_pos theirs] at own
    cases own
  · intro others
    constructor
    case refused =>
      intro task thrown
      have undone := (reachable_refunded reached).thrown task thrown
      refine ⟨undone.still, undone.tokens, ?_⟩
      rw [logged.ownBalance_thrown observer thrown, if_neg (others task thrown)]
    case settled =>
      intro settled
      have none : state.shared.log.tasksOf queue observer state.shared.log.thrown = 0 := by
        apply List.countP_eq_zero.mpr
        intro task thrown
        simpa using others task thrown
      rw [logged.balance_eq settled, none]
      exact Int.add_zero _

private theorem act_thrown (observer : BitVec 8) {after : Memory} {left : List Agent}
    {agent : Agent} (moves : agent.Moves queue memory after left) (log : Log) :
    (agent.meetsFull queue observer memory.tasks = false ∧
      (log.act queue memory agent after left).thrown = log.thrown) ∨
    ∃ task priority mayNeed, agent = .call (.enqueue task priority mayNeed) ∧
      (log.act queue memory agent after left).thrown = task :: log.thrown ∧
      agent.meetsFull queue observer memory.tasks =
        decide (queue.getQueueObserver priority = observer) := by
  cases moves with
  | goesOn before next adding adds still tasks ledger tokens waits =>
      rw [log.act_goesOn adds still]
      refine .inl ⟨?_, rfl⟩
      cases before with
      | enqueue task priority mayNeed =>
          cases adds
          exact absurd rfl (waits mayNeed)
      | _ => rfl
  | fails task priority tasks => exact .inl ⟨rfl, rfl⟩
  | writes task priority mayNeed written =>
      have room := (enqueue_eq_some written).1
      refine .inl ⟨?_, rfl⟩
      rw [Agent.meetsFull, room, Bool.and_false]
  | throws task priority mayNeed full tasks ledger tokens =>
      refine .inr ⟨task, priority, mayNeed, rfl, rfl, ?_⟩
      rw [Agent.meetsFull, full, Bool.and_true]
  | takes thread level task popped => exact .inl ⟨rfl, rfl⟩
  | reports thread task tasks => exact .inl ⟨rfl, rfl⟩
  | elsewhere agent left idle leaves alive queued =>
      rw [log.act_of_idle idle]
      refine .inl ⟨?_, rfl⟩
      cases agent with
      | worker thread worker => rfl
      | call call => cases call <;> first | rfl | cases idle

/-- A step adds to the tasks that were thrown out one of the observer's, or none
of its. -/
theorem thrown_iff_hasRoom (reached : Reachable (observed queue numThreads) allowed state)
    (others : ∀ task ∈ state.shared.log.thrown,
      queue.getQueueObserver (state.shared.log.queuePriority task) ≠ observer)
    (moved : (observed queue numThreads).step state label = some next) :
    (∀ task ∈ next.shared.log.thrown,
        queue.getQueueObserver (next.shared.log.queuePriority task) ≠ observer) ↔
      hasRoom queue observer state label := by
  have logged := reachable_logged reached
  cases label with
  | act index choice =>
      obtain ⟨agent, after, left, found, acted, rfl⟩ := step_act moved
      obtain ⟨acts, logs⟩ := recorded_act acted
      have priority (task : Nat) : after.log.queuePriority task =
          state.shared.log.queuePriority task := by
        rw [logs, Log.queuePriority, Log.act_priorities, Log.queuePriority]
      have asked := logged.asked agent (List.mem_of_getElem? found)
      simp only [hasRoom, found, Option.any_some, priority]
      rcases act_thrown observer (act_moves (act_step acts)) state.shared.log with ⟨room, same⟩ |
        ⟨task, pri, mayNeed, rfl, thrown, full⟩
      · simp only [logs, same, room]
        exact ⟨fun _ => trivial, fun _ => others⟩
      · have pri := asked _ rfl
        simp only [logs, thrown, full, List.forall_mem_cons, pri, decide_eq_false_iff_not]
        exact ⟨And.left, fun room => ⟨room, others⟩⟩
  | env move =>
      obtain ⟨after, left, acted, rfl⟩ := step_env moved
      obtain ⟨acts, logs⟩ := recorded_env acted
      refine ⟨fun _ => trivial, fun _ task thrown => ?_⟩
      rcases env_cases acts with ⟨operation, rfl, -, -⟩ | ⟨wake, holder, rfl, -, -⟩
      · rw [logs] at thrown ⊢
        rw [Log.env_thrown] at thrown
        rw [logged.env_queuePriority _ _ _ (logged.lt_of_thrown thrown)]
        exact others task thrown
      · rw [logs] at thrown ⊢
        exact others task thrown

end Balance

/-- A queue observer is told of the tasks that are queued, and a refused add
leaves nothing behind, in every state of a run exactly when no add of its finds
its level full. -/
theorem balanced_throughout (queue : TaskQueue) (numThreads : Nat × Nat) (observer : BitVec 8)
    (labels : List (Label CountingSemaphore.Ending Move))
    (last : Global (Recorded Memory Log) Agent)
    (replayed : (observed queue numThreads).run (observed queue numThreads).init labels =
      some last) :
    (∀ front back state, labels = front ++ back →
      (observed queue numThreads).run (observed queue numThreads).init front = some state →
      Balanced queue observer state) ↔
    (observed queue numThreads).Permits (hasRoom queue observer) (observed queue numThreads).init
      labels := by
  rw [← System.permits_iff (p := fun state => ∀ task ∈ state.shared.log.thrown,
    queue.getQueueObserver (state.shared.log.queuePriority task) ≠ observer)
    (fun reached others moved => thrown_iff_hasRoom reached others moved) .refl
    (fun _ thrown => absurd thrown List.not_mem_nil) replayed]
  constructor
  · intro balanced front back state split before
    exact (balanced_iff (Reachable.init.run before)).mp (balanced front back state split before)
  · intro others front back state split before
    exact (balanced_iff (Reachable.init.run before)).mpr (others front back state split before)

/-- The constructor, and an add while the worker has not come to the queue. -/
private def addOnce : List (Label CountingSemaphore.Ending Move) :=
  frontActs 1 ++ held 7 ++ frontActs 2 ++ [Label.env (Move.invoke (.add 0))] ++ frontActs 5

theorem balanced_throughout_addOnce :
    ∃ last, (observed (.lifoSem 1) (1, 1)).run (observed (.lifoSem 1) (1, 1)).init addOnce =
        some last ∧
      last.shared.log.onEnqueued = [⟨0, 0⟩] ∧ last.shared.memory.tasks.queued = [0] ∧
      Balanced (.lifoSem 1) 0 last := by
  have runs : ((observed (.lifoSem 1) (1, 1)).run (observed (.lifoSem 1) (1, 1)).init
      addOnce).map (fun last => (last.shared.log.onEnqueued, last.shared.memory.tasks.queued)) =
      some ([⟨0, 0⟩], [0]) := by decide
  obtain ⟨last, replayed, values⟩ := Option.map_eq_some_iff.mp runs
  obtain ⟨enqueued, queued⟩ := Prod.mk.inj values
  have throughout := balanced_throughout (.lifoSem 1) (1, 1) 0 addOnce last replayed
  exact ⟨last, replayed, enqueued, queued, throughout.mpr (by decide) addOnce [] last
    (List.append_nil addOnce).symm replayed⟩

/-- A second add finds the queue full. -/
private def addTwice : List (Label CountingSemaphore.Ending Move) :=
  addOnce ++ [Label.env (Move.invoke (.add 0))] ++ frontActs 4

theorem not_forall_balanced :
    ¬∀ (queue : TaskQueue) (numThreads : Nat × Nat) (observer : BitVec 8)
      (labels : List (Label CountingSemaphore.Ending Move))
      (last : Global (Recorded Memory Log) Agent),
      queue.bounded = true →
      (∀ label ∈ labels, ∀ operation ∈ invoked label, operation.controls = false) →
      (observed queue numThreads).run (observed queue numThreads).init labels = some last →
      Balanced queue observer last := by
  intro all
  have runs : ((observed (.lifoSem 1) (1, 1)).run (observed (.lifoSem 1) (1, 1)).init
      addTwice).map (fun last => (last.agents.all fun agent => !agent.unsettled,
        last.shared.log.balance 0,
        last.shared.log.tasksOf (.lifoSem 1) 0 last.shared.memory.tasks.queued)) =
      some (true, 2, 1) := by decide
  obtain ⟨last, replayed, values⟩ := Option.map_eq_some_iff.mp runs
  obtain ⟨settled, rest⟩ := Prod.mk.inj values
  obtain ⟨balance, queued⟩ := Prod.mk.inj rest
  have balanced := all (.lifoSem 1) (1, 1) 0 addTwice last rfl (by decide) replayed
  have equal := balanced.settled (by simpa using settled)
  rw [balance, queued] at equal
  cases equal

end ThreadPoolExec.CPUThreadPoolExecutor
