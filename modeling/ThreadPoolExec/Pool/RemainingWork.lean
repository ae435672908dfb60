import ThreadPoolExec.Pool.Rest

/-!
# A pool left alone comes to rest

An item in the queue, a place for a thread and a call each lead to so many
steps at most. Only a shutdown asks for more than was paid for, poison for
every thread there is, so it has every thread that there may come to be on its
account. Calls for observers go in rounds, that anything else may start anew.
-/

set_option autoImplicit false

namespace ThreadPoolExec.CPUThreadPoolExecutor

open Interleaving

/-! ## The work of everybody -/

namespace TaskQueue

variable (queue : TaskQueue)

/-- What a permit leads to: a worker that probes every level. -/
def perPermit : Nat := queue.getNumPriorities + 10

/-- What a thread leads to that `setNumThreads` asks to stop. -/
def perThread : Nat := queue.perPermit + 3

/-- What the place for a thread leads to. -/
def perPlace : Nat := queue.perThread + 5

/-- What a pool of so many active threads, with places for the others, may
still come to. -/
def upkeep (active maxThreads : Nat) : Nat :=
  queue.perThread * active + queue.perPlace * (maxThreads - active)

end TaskQueue

section Upkeep

variable {queue : TaskQueue} {active maxThreads : Nat}

namespace TaskQueue

/-- A place that is taken sets some work free. -/
theorem upkeep_engage {n : Nat} (room : active + n ≤ maxThreads) :
    queue.upkeep (active + n) maxThreads + 5 * n = queue.upkeep active maxThreads := by
  obtain ⟨others, rfl⟩ := Nat.exists_eq_add_of_le room
  have left : active + n + others - (active + n) = others := by omega
  have places : active + n + others - active = others + n := by omega
  rw [upkeep, upkeep, left, places, Nat.mul_add, Nat.mul_add, perPlace, Nat.add_mul queue.perThread 5 n]
  omega

/-- So does a thread beyond the maximum that is asked to stop. -/
theorem upkeep_release (n : Nat) :
    queue.upkeep (active + n) active = queue.upkeep active active + queue.perThread * n := by
  have none : active - (active + n) = 0 := by omega
  rw [upkeep, upkeep, none, Nat.sub_self, Nat.mul_add]
  omega

theorem upkeep_mono {fewer : Nat} (le : fewer ≤ maxThreads) :
    queue.upkeep active fewer ≤ queue.upkeep active maxThreads :=
  Nat.add_le_add_left (Nat.mul_le_mul_left _ (Nat.sub_le_sub_right le active)) _

theorem upkeep_le (other : Nat) :
    queue.upkeep active maxThreads ≤
      queue.upkeep active other + queue.perPlace * maxThreads := by
  have places : queue.perPlace * (maxThreads - active) ≤ queue.perPlace * maxThreads :=
    Nat.mul_le_mul_left _ (Nat.sub_le maxThreads active)
  rw [upkeep, upkeep]
  omega

end TaskQueue

end Upkeep

/-- The threads that count as active once the holder has done what it began. -/
def Holder.engaged (activeThreads : Nat) : Holder → Nat
  | .pendingAfterTimeout _ _ _ => activeThreads + 1
  | .enqueuePoison (.setNumThreads numThreads _) _ _
  | .postPoison (.setNumThreads numThreads _) _ _ => numThreads
  | .addThreads left newThreads active _ => active + newThreads.length + left
  | .storeActive active _ => active
  | _ => activeThreads

section Work

variable (queue : TaskQueue)

def Take.work : Take → Nat
  | .semWait => 1
  | .asleep => 0
  | .probe level => queue.getNumPriorities - level + 9

def Worker.work : Worker → Nat
  | .tryTakeFor take => take.work queue
  | .stopping none => queue.getNumPriorities + 12
  | .stopping (some _) | .decrementing => 3
  | .taken _ => 8
  | .runTask _ => 7
  | .taskStatsCallbacks => 6
  | .loadToStop => 5
  | .loadIsJoin => 4

/-- An add goes through `ensureActiveThreads` once, while the loop for observers
is counted in its rounds. -/
def Ensurer.work : Ensurer → Nat
  | .add _ => 1
  | .observer => 0

def Joiner.work : Joiner → Nat
  | .ensureJoined ensurer => 9 * ensurer.work
  | .setNumThreads _ => 2
  | .shutdown _ => 3

def Call.work : Call → Nat
  | .loadMin _ _ => queue.perPermit + 18
  | .loadActive _ _ => queue.perPermit + 17
  | .loadMax _ _ _ => queue.perPermit + 16
  | .getKeepAliveToken _ _ => queue.perPermit + 15
  | .enqueue _ _ _ => queue.perPermit + 14
  | .post _ _ => queue.perPermit + 13
  | .keepAliveRelease _ => 1
  | .ensureJoined ensurer => 12 * ensurer.work
  | .ensureJoinedLock ensurer => 11 * ensurer.work
  | .ensureActive ensurer => 8 * ensurer.work
  | .ensureActiveMax ensurer _ => 7 * ensurer.work
  | .ensureActiveLock ensurer => 6 * ensurer.work
  | .maxActive | .maxActiveMax _ => 0
  | .setNumThreads numThreads _ => queue.getNumPriorities + 11 + queue.perPlace * numThreads
  | .joinStoppedThreads n joiner => n + joiner.work
  | .joinKeepAliveOnce _ => 12
  | .keepAliveWait _ => 11
  | .shutdown _ => 10
  | .checkThreadList _ => 2
  | .checkStopped _ => 1
  | .storeMin _ => 1
  | .addObserver _ | .removeObserver _ => 2
  | .shutDown _ | .queueFull | .checkFailed => 0

def Agent.work : Agent → Nat
  | .worker _ at_ => at_.work queue
  | .call at_ => at_.work queue

/-- What the poison of `stop` and `join` leads to; that of `setNumThreads` is
for active threads. -/
def Removal.work (n : Nat) : Removal → Nat
  | .setNumThreads _ _ => 0
  | .shutdown _ => queue.perThread * n

def Holder.work : Holder → Nat
  | .taskShouldStop _ none => queue.getNumPriorities + 11
  | .minActive _ => queue.getNumPriorities + 10
  | .decrActive _ => queue.getNumPriorities + 9
  | .pendingAfterTimeout _ index _ => queue.getNumPriorities - index + 8
  | .taskShouldStop _ (some _) | .tryDecrToStop _ => 2
  | .stopThread _ _ => 1
  | .getPending numThreads _ index _ =>
      queue.getNumPriorities - index + 10 + queue.perPlace * numThreads
  | .storeMax numThreads _ _ => 9 + queue.perPlace * numThreads
  | .resize _ _ _ => 8
  | .removeThreads removal n => 7 + removal.work queue n
  | .stopThreads removal n => 6 + removal.work queue n
  | .enqueuePoison _ n left => left * (queue.perPermit + 2) + n + 5
  | .postPoison _ n left => left * (queue.perPermit + 2) + n + 5 + queue.perPermit + 1
  | .addThreads left _ _ next => 2 * left + 2 + next.work queue
  | .storeActive _ next => 1 + next.work queue
  | .stopMax _ => 9
  | .stopActive _ => 8
  | .collectToJoin _ n => n + 4
  | .collectJoined ensurer => 10 * ensurer.work
  | .ensureActive ensurer => 5 * ensurer.work
  | .addObserver _ | .removeObserver _ => 1

end Work

def Memory.engaged (memory : Memory) : Nat :=
  memory.threadListLock.elim memory.activeThreads (Holder.engaged memory.activeThreads)

def Memory.work (queue : TaskQueue) (memory : Memory) : Nat :=
  queue.perPermit * memory.tasks.sem.permits + memory.threadsToJoin +
    queue.upkeep memory.engaged memory.maxThreads + memory.threadListLock.elim 0 (Holder.work queue)

/-! ## The account of a shutdown -/

/-- The shutdowns that are still to ask every thread to stop. -/
def Call.closings : Call → Nat
  | .joinKeepAliveOnce _ | .keepAliveWait _ | .shutdown _ => 1
  | _ => 0

def Agent.closings : Agent → Nat
  | .worker _ _ => 0
  | .call at_ => at_.closings

def Holder.closings : Holder → Nat
  | .stopMax _ | .stopActive _ => 1
  | .addThreads _ _ _ next | .storeActive _ next => next.closings
  | _ => 0

def Memory.closings (memory : Memory) : Nat :=
  memory.threadListLock.elim 0 Holder.closings

/-- The threads that may be started because of an agent: those that a resize
asks for, and the one that may take the place of a worker that timed out. -/
def Call.openings : Call → Nat
  | .setNumThreads numThreads _ => numThreads
  | _ => 0

def Agent.openings : Agent → Nat
  | .worker _ (.stopping none) => 1
  | .worker _ _ => 0
  | .call at_ => at_.openings

def Holder.openings : Holder → Nat
  | .taskShouldStop _ none | .minActive _ | .decrActive _ | .pendingAfterTimeout _ _ _ => 1
  | .getPending numThreads _ _ _ | .storeMax numThreads _ _ => numThreads
  | .addThreads left _ _ next => left + next.openings
  | .storeActive _ next => next.openings
  | _ => 0

/-- The threads that there are and the places for others. -/
def Memory.openings (memory : Memory) : Nat :=
  memory.threadList.length + (memory.maxThreads - memory.engaged) +
    memory.threadListLock.elim 0 Holder.openings

/-! ## The rounds for observers -/

/-- What is left of a round of `ensureMaxActiveThreads`, as long as neither the
active threads nor their maximum change. -/
def Call.round (activeThreads maxThreads : Nat) : Call → Nat
  | .ensureActiveMax .observer active =>
      if maxThreads ≤ active then (if activeThreads < maxThreads then 13 else 3) else 5
  | .maxActive => if activeThreads < maxThreads then 12 else 2
  | .maxActiveMax active => if active < maxThreads then 11 else 1
  | .ensureJoined .observer => 10
  | .ensureJoinedLock .observer => 9
  | .joinStoppedThreads _ (.ensureJoined .observer) => 7
  | .ensureActive .observer => 6
  | .ensureActiveLock .observer => 4
  | _ => 0

def Agent.round (memory : Memory) : Agent → Nat
  | .worker _ _ => 0
  | .call at_ => at_.round memory.activeThreads memory.maxThreads

def Holder.round : Holder → Nat
  | .collectJoined .observer => 8
  | .ensureActive .observer => 3
  | _ => 0

def Memory.round (memory : Memory) : Nat :=
  memory.threadListLock.elim 0 Holder.round

/-! ## What a step leaves -/

/-- A step does some of the work, or some of the round, or else is that of a
shutdown which puts the threads there are to its account. -/
structure Lessens (queue : TaskQueue) (memory : Memory) (before : List Agent) (after : Memory)
    (left : List Agent) : Prop where
  openings : after.openings + total Agent.openings left ≤
    memory.openings + total Agent.openings before
  spends :
    (after.closings + total Agent.closings left ≤
        memory.closings + total Agent.closings before ∧
      (after.work queue + total (Agent.work queue) left <
          memory.work queue + total (Agent.work queue) before ∨
        after.work queue + total (Agent.work queue) left ≤
            memory.work queue + total (Agent.work queue) before ∧
          (after.activeThreads = memory.activeThreads ∧ after.maxThreads = memory.maxThreads) ∧
          after.round + total (Agent.round after) left <
            memory.round + total (Agent.round memory) before)) ∨
    (after.closings + total Agent.closings left + 1 ≤
        memory.closings + total Agent.closings before ∧
      after.work queue + total (Agent.work queue) left <
        memory.work queue + total (Agent.work queue) before +
          queue.perThread * memory.threadList.length)

section Act

variable {queue : TaskQueue} {choice : CountingSemaphore.Ending} {memory after : Memory}
  {left : List Agent} {agent : Agent} {holder : Holder}

private theorem wants_work (wants : agent.wants = some holder) (memory : Memory) :
    holder.engaged memory.activeThreads = memory.activeThreads ∧
      holder.closings = agent.closings ∧ holder.openings = agent.openings ∧
        (holder.work queue < agent.work queue ∨
          holder.work queue ≤ agent.work queue ∧ holder.round < agent.round memory) := by
  have less {amount others : Nat} : amount + others < amount + 1 + others := by omega
  unfold Agent.wants at wants
  split at wants <;> cases wants
  case h_1 thread task =>
    cases task with
    | none => exact ⟨rfl, rfl, rfl, .inl (Nat.lt_succ_self _)⟩
    | some item => exact ⟨rfl, rfl, rfl, .inl (Nat.lt_succ_self _)⟩
  case h_3 ensurer =>
    cases ensurer with
    | add task => exact ⟨rfl, rfl, rfl, .inl (Nat.lt_succ_self 10)⟩
    | observer => exact ⟨rfl, rfl, rfl, .inr ⟨Nat.le_refl _, Nat.lt_succ_self 8⟩⟩
  case h_4 ensurer =>
    cases ensurer with
    | add task => exact ⟨rfl, rfl, rfl, .inl (Nat.lt_succ_self 5)⟩
    | observer => exact ⟨rfl, rfl, rfl, .inr ⟨Nat.le_refl _, Nat.lt_succ_self 3⟩⟩
  case h_5 numThreads resizer => exact ⟨rfl, rfl, rfl, .inl less⟩
  all_goals exact ⟨rfl, rfl, rfl, .inl (Nat.lt_succ_self _)⟩

private theorem worker_lessens (unbounded : queue.bounded = false)
    (within : memory.tasks.levels.length = queue.getNumPriorities) (inTime : choice ≠ .timeout)
    {worker : Worker} {thread : Nat} (step : worker.Step queue choice memory thread after left) :
    Lessens queue memory [.worker thread worker] after left := by
  have permit : queue.perPermit = queue.getNumPriorities + 10 := rfl
  have loops : (Take.start queue).work queue = 1 := by
    rw [Take.start, unbounded]
    rfl
  cases step with
  | waits sem passed =>
      refine ⟨Nat.le_refl _, .inl ⟨Nat.le_refl _, .inl ?_⟩⟩
      simp only [Memory.work, Memory.engaged, total_cons, total_nil, Agent.work, Worker.work,
        Take.work, CountingSemaphore.tryWait_permits passed, Nat.mul_succ]
      omega
  | sleeps blocked =>
      exact ⟨Nat.le_refl _, .inl ⟨Nat.le_refl _, .inl (Nat.lt_succ_self _)⟩⟩
  | resumes sem ended =>
      refine ⟨Nat.le_refl _, .inl ⟨Nat.le_refl _, .inl ?_⟩⟩
      simp only [Memory.work, Memory.engaged, total_cons, total_nil, Agent.work, Worker.work,
        Take.work, CountingSemaphore.endWait_permits ended, if_true, Nat.mul_succ]
      omega
  | timesOut sem ended =>
      cases choice with
      | timeout => exact absurd rfl inTime
      | handoff => simp [CountingSemaphore.endWait] at ended
      | value => simp [CountingSemaphore.endWait] at ended
  | takesTask level task levels popped =>
      refine ⟨Nat.le_refl _, .inl ⟨Nat.le_refl _, .inl (Nat.add_lt_add_left ?_ _)⟩⟩
      simp only [total_cons, total_nil, Agent.work, Worker.work, Take.work]
      omega
  | takesPoison level byJoin levels popped =>
      refine ⟨Nat.le_refl _, .inl ⟨Nat.le_refl _, .inl (Nat.add_lt_add_left ?_ _)⟩⟩
      simp only [total_cons, total_nil, Agent.work, Worker.work, Take.work]
      omega
  | passesLevel level inside empty =>
      refine ⟨Nat.le_refl _, .inl ⟨Nat.le_refl _, .inl (Nat.add_lt_add_left ?_ _)⟩⟩
      simp only [total_cons, total_nil, Agent.work, Worker.work, Take.work]
      omega
  | probedAll level outside bounded => simp [unbounded] at bounded
  | seesNoStop zero =>
      refine ⟨Nat.le_refl _, .inl ⟨Nat.le_refl _, .inl (Nat.add_lt_add_left ?_ _)⟩⟩
      simp only [total_cons, total_nil, Agent.work, Worker.work, loopHead, loops]
      omega
  | seesJoin isJoin =>
      refine ⟨Nat.le_refl _, .inl ⟨Nat.le_refl _, .inl (Nat.add_lt_add_left ?_ _)⟩⟩
      simp only [total_cons, total_nil, Agent.work, Worker.work, loopHead, loops]
      omega
  | _ =>
      exact ⟨Nat.le_refl _, .inl ⟨Nat.le_refl _, .inl (Nat.lt_succ_self _)⟩⟩

private theorem call_lessens {call : Call} (step : call.Step queue choice memory after left) :
    Lessens queue memory [.call call] after left := by
  -- what a call does by itself is some of its own work, or of its round
  have spends {after : Memory} {call : Call} {left : List Agent}
      (openings : after.openings + total Agent.openings left ≤
        memory.openings + Agent.openings (.call call))
      (closings : after.closings + total Agent.closings left ≤
        memory.closings + Agent.closings (.call call))
      (work : after.work queue + total (Agent.work queue) left <
        memory.work queue + call.work queue) : Lessens queue memory [.call call] after left :=
    ⟨openings, .inl ⟨closings, .inl work⟩⟩
  have turns {call next : Call} (openings : next.openings = call.openings)
      (closings : next.closings = call.closings) (work : next.work queue = call.work queue)
      (round : next.round memory.activeThreads memory.maxThreads <
        call.round memory.activeThreads memory.maxThreads) :
      Lessens queue memory [.call call] memory [.call next] := by
    refine ⟨Nat.le_of_eq ?_, .inl ⟨Nat.le_of_eq ?_, .inr ⟨Nat.le_of_eq ?_, ⟨rfl, rfl⟩,
      Nat.add_lt_add_left round _⟩⟩⟩
    · simp only [total_cons, total_nil, Agent.openings, openings]
    · simp only [total_cons, total_nil, Agent.closings, closings]
    · simp only [total_cons, total_nil, Agent.work, work]
  have less {amount others : Nat} (lt : amount < others) :
      memory.work queue + amount < memory.work queue + others := Nat.add_lt_add_left lt _
  cases step with
  | minIsZero task priority zero =>
      exact spends (Nat.le_refl _) (Nat.le_refl _) (less (Nat.add_lt_add_left (show 15 < 18 by decide) _))
  | minIsPositive task priority positive =>
      exact spends (Nat.le_refl _) (Nat.le_refl _) (less (Nat.lt_succ_self _))
  | loadsActive task priority =>
      exact spends (Nat.le_refl _) (Nat.le_refl _) (less (Nat.lt_succ_self _))
  | mayNeed task priority active below =>
      exact spends (Nat.le_refl _) (Nat.le_refl _) (less (Nat.lt_succ_self _))
  | noNeed task priority active above =>
      exact spends (Nat.le_refl _) (Nat.le_refl _) (less (Nat.add_lt_add_left (show 14 < 16 by decide) _))
  | getsToken task priority alive =>
      exact spends (Nat.le_refl _) (Nat.le_refl _) (less (Nat.lt_succ_self _))
  | noToken task priority joined =>
      exact spends (Nat.le_refl _) (Nat.le_refl _) (less (Nat.succ_pos _))
  | enqueues task priority mayNeed tasks written =>
      obtain ⟨-, same⟩ := enqueue_eq_some written
      refine spends (Nat.le_refl _) (Nat.le_refl _) ?_
      have sem : tasks.sem = memory.tasks.sem := by rw [same]
      simp only [Memory.work, Memory.engaged, total_cons, total_nil, Agent.work, Call.work, sem]
      omega
  | queueFull task priority mayNeed full =>
      exact spends (Nat.le_refl _) (Nat.le_refl _) (less (Nat.succ_pos _))
  | posts task =>
      refine spends (Nat.le_refl _) (Nat.le_refl _) ?_
      simp only [Memory.work, Memory.engaged, Memory.addReturns, Tasks.post, total_nil, Call.work,
        CountingSemaphore.post_permits, Nat.mul_succ]
      omega
  | wakesThread task woke =>
      refine spends (Nat.le_refl _) (Nat.le_refl _) ?_
      simp only [Memory.work, Memory.engaged, Tasks.post, total_cons, total_nil, Agent.work,
        Call.work, CountingSemaphore.post_permits, Nat.mul_succ]
      omega
  | wakesNone task woke =>
      refine spends (Nat.le_refl _) (Nat.le_refl _) ?_
      simp only [Memory.work, Memory.engaged, Tasks.post, total_cons, total_nil, Agent.work,
        Call.work, Ensurer.work, CountingSemaphore.post_permits, Nat.mul_succ]
      omega
  | releasesToken task =>
      exact spends (Nat.le_refl _) (Nat.le_refl _) (less (Nat.lt_succ_self _))
  | noneToJoin ensurer zero =>
      cases ensurer with
      | add task => exact spends (Nat.le_refl _) (Nat.le_refl _) (less (show 8 < 12 by decide))
      | observer => exact turns rfl rfl rfl (show 6 < 10 by decide)
  | someToJoin ensurer positive =>
      cases ensurer with
      | add task => exact spends (Nat.le_refl _) (Nat.le_refl _) (less (Nat.lt_succ_self 11))
      | observer => exact turns rfl rfl rfl (Nat.lt_succ_self 9)
  | ensureLoadsActive ensurer =>
      cases ensurer with
      | add task => exact spends (Nat.le_refl _) (Nat.le_refl _) (less (Nat.lt_succ_self 7))
      | observer =>
          refine turns rfl rfl rfl ?_
          simp only [Call.round]
          split_ifs <;> omega
  | enoughActive ensurer active above =>
      cases ensurer with
      | add task => exact spends (Nat.le_refl _) (Nat.le_refl _) (less (show 1 < 7 by decide))
      | observer =>
          refine turns rfl rfl rfl ?_
          simp only [Ensurer.next, Call.round, above, if_true]
          split_ifs <;> omega
  | tooFewActive ensurer active below =>
      cases ensurer with
      | add task => exact spends (Nat.le_refl _) (Nat.le_refl _) (less (Nat.lt_succ_self 6))
      | observer =>
          refine turns rfl rfl rfl ?_
          simp only [Call.round, Nat.not_le.mpr below, if_false]
          decide
  | maxLoadsActive =>
      refine turns rfl rfl rfl ?_
      simp only [Call.round]
      split_ifs <;> omega
  | belowMax active below =>
      refine turns rfl rfl rfl ?_
      simp only [Call.round, below, if_true]
      decide
  | atMax active above =>
      refine ⟨Nat.le_refl _, .inl ⟨Nat.le_refl _, .inr ⟨Nat.le_refl _, ⟨rfl, rfl⟩,
        Nat.add_lt_add_left ?_ _⟩⟩⟩
      simp only [total_cons, total_nil, Agent.round, Call.round, Nat.not_lt.mpr above, if_false]
      decide
  | joinsAll joiner =>
      cases joiner with
      | ensureJoined ensurer =>
          cases ensurer with
          | add task => exact spends (Nat.le_refl _) (Nat.le_refl _) (less (Nat.lt_succ_self 8))
          | observer => exact turns rfl rfl rfl (Nat.lt_succ_self 6)
      | setNumThreads resizer =>
          cases resizer with
          | client => exact spends (Nat.le_refl _) (Nat.le_refl _) (less (show 0 < 2 by decide))
          | constructor second =>
              exact spends (Nat.le_refl _) (Nat.le_refl _) (less (Nat.lt_succ_self 1))
      | shutdown isJoin =>
          exact spends (Nat.le_refl _) (Nat.le_refl _) (less (Nat.lt_succ_self 2))
  | joinsOne n joiner thread stopped first =>
      refine spends (Nat.le_refl _) (Nat.le_refl _) (less ?_)
      simp only [total_cons, total_nil, Agent.work, Call.work]
      omega
  | joinedBefore isJoin joined =>
      exact spends (Nat.le_refl _) (Nat.le_refl _) (less (show 10 < 12 by decide))
  | joinsKeepAlive isJoin joined =>
      exact spends (Nat.le_refl _) (Nat.le_refl _) (less (Nat.lt_succ_self 11))
  | keepAliveGone isJoin gone =>
      exact spends (Nat.le_refl _) (Nat.le_refl _) (less (Nat.lt_succ_self 10))
  | noThreadLeft isJoin zero =>
      exact spends (Nat.le_refl _) (Nat.le_refl _) (less (Nat.lt_succ_self 1))
  | threadLeft isJoin positive =>
      exact spends (Nat.le_refl _) (Nat.le_refl _) (less (show 0 < 2 by decide))
  | noStoppedLeft isJoin zero =>
      exact spends (Nat.le_refl _) (Nat.le_refl _) (less (Nat.lt_succ_self 0))
  | stoppedLeft isJoin positive =>
      exact spends (Nat.le_refl _) (Nat.le_refl _) (less (Nat.lt_succ_self 0))
  | constructs second =>
      exact spends (Nat.le_refl _) (Nat.le_refl _) (less (Nat.lt_succ_self 0))

private theorem act_lessens (unbounded : queue.bounded = false)
    (within : memory.tasks.levels.length = queue.getNumPriorities) (inTime : choice ≠ .timeout)
    (step : agent.Step queue choice memory after left) :
    Lessens queue memory [agent] after left := by
  cases step with
  | locks agent holder wants free =>
      obtain ⟨engaged, closings, openings, spent⟩ := @wants_work queue _ _ wants memory
      refine ⟨Nat.le_of_eq ?_, .inl ⟨Nat.le_of_eq ?_, ?_⟩⟩
      · simp only [Memory.openings, Memory.engaged, free, Option.elim_some, Option.elim_none,
          engaged, total_cons, total_nil, openings]
        omega
      · simp only [Memory.closings, free, Option.elim_some, Option.elim_none, total_cons, total_nil,
          closings]
        omega
      · simp only [Memory.work, Memory.engaged, Memory.round, free, Option.elim_some,
          Option.elim_none, engaged, total_cons, total_nil, true_and]
        omega
  | worker thread worker after left step => exact worker_lessens unbounded within inTime step
  | call call after left step => exact call_lessens step

end Act

section Hold

variable {queue : TaskQueue} {wake : Bool} {memory after : Memory} {left : List Agent}
  {holder : Holder}

variable (unbounded : queue.bounded = false) (locked : memory.threadListLock = some holder)
  (ok : holder.Ok memory.maxThreads memory.activeThreads 0)

include unbounded locked ok

private theorem holder_lessens {thread : Nat}
    (step : holder.WorkerStep queue memory thread after left) :
    Lessens queue memory [] after left := by
  have loops : (Take.start queue).work queue = 1 := by
    rw [Take.start, unbounded]
    rfl
  cases step with
  | obeys task asked =>
      refine ⟨?_, .inl ⟨?_, .inl ?_⟩⟩ <;> cases task <;>
        simp only [Memory.openings, Memory.closings, Memory.work, Memory.engaged, locked,
          Option.elim_some, total_nil, Holder.engaged, Holder.openings, Holder.closings,
          Holder.work] <;> omega
  | nonePending index outside =>
      have engage := @TaskQueue.upkeep_engage queue _ _ 1 (ok rfl)
      have room := ok rfl
      refine ⟨?_, .inl ⟨?_, .inl ?_⟩⟩ <;>
        simp only [Memory.openings, Memory.closings, Memory.work, Memory.engaged, locked,
          Option.elim_some, total_nil, Holder.engaged, Holder.openings, Holder.closings,
          Holder.work] <;> omega
  | decrements =>
      have restored : memory.activeThreads - 1 + 1 = memory.activeThreads :=
        Nat.succ_pred_eq_of_pos ok.1
      refine ⟨?_, .inl ⟨?_, .inl ?_⟩⟩ <;>
        simp only [Memory.openings, Memory.closings, Memory.work, Memory.engaged, locked,
          Option.elim_some, total_nil, Holder.engaged, Holder.openings, Holder.closings,
          Holder.work, restored] <;> omega
  | stops observed threadList removed =>
      have shorter := ThreadList.length_of_remove removed
      refine ⟨?_, .inl ⟨?_, .inl ?_⟩⟩ <;>
        simp only [Memory.openings, Memory.closings, Memory.work, Memory.engaged, locked,
          Option.elim_some, Option.elim_none, total_nil, Holder.engaged, Holder.openings,
          Holder.closings, Holder.work] <;> omega
  | _ =>
      refine ⟨?_, .inl ⟨?_, .inl ?_⟩⟩ <;>
        simp only [Memory.openings, Memory.closings, Memory.work, Memory.engaged, locked,
          Option.elim_some, Option.elim_none, total_cons, total_nil, Holder.engaged,
          Holder.openings, Holder.closings, Holder.work, loopHead, Agent.openings, Agent.closings,
          Agent.work, Worker.work, loops] <;> omega

private theorem removal_lessens {removal : Removal} {n : Nat}
    (step : holder.RemovalStep queue wake memory removal n after left) :
    Lessens queue memory [] after left := by
  have poison : queue.perThread * n = n * (queue.perPermit + 2) + n := by
    rw [TaskQueue.perThread, Nat.mul_comm, Nat.mul_succ]
  cases step with
  | storesIsJoin =>
      refine ⟨?_, .inl ⟨?_, .inl ?_⟩⟩ <;>
        simp only [Memory.openings, Memory.closings, Memory.work, Memory.engaged, locked,
          Option.elim_some, total_nil, Holder.engaged, Holder.openings, Holder.closings,
          Holder.work] <;> omega
  | raisesToStop =>
      cases removal with
      | setNumThreads numThreads resizer =>
          obtain ⟨allowed, active⟩ := ok
          have release := @TaskQueue.upkeep_release queue numThreads n
          refine ⟨?_, .inl ⟨?_, .inl ?_⟩⟩ <;>
            simp only [Memory.openings, Memory.closings, Memory.work, Memory.engaged, locked,
              Option.elim_some, total_nil, Holder.engaged, Holder.openings, Holder.closings,
              Holder.work, Removal.work, allowed, active] <;> omega
      | shutdown isJoin =>
          refine ⟨?_, .inl ⟨?_, .inl ?_⟩⟩ <;>
            simp only [Memory.openings, Memory.closings, Memory.work, Memory.engaged, locked,
              Option.elim_some, total_nil, Holder.engaged, Holder.openings, Holder.closings,
              Holder.work, Removal.work] <;> omega
  | enqueues left tasks written =>
      obtain ⟨-, same⟩ := enqueue_eq_some written
      have sem : tasks.sem = memory.tasks.sem := by rw [same]
      refine ⟨?_, .inl ⟨?_, .inl ?_⟩⟩ <;> cases removal <;>
        simp only [Memory.openings, Memory.closings, Memory.work, Memory.engaged, locked, sem,
          Option.elim_some, total_nil, Holder.engaged, Holder.openings, Holder.closings,
          Holder.work, Nat.succ_mul] <;> omega
  | queueFull left full => simp [enqueue_isSome_of_unbounded unbounded] at full
  | posts left =>
      refine ⟨?_, .inl ⟨?_, .inl ?_⟩⟩ <;> cases removal <;>
        simp only [Memory.openings, Memory.closings, Memory.work, Memory.engaged, locked,
          Tasks.post, CountingSemaphore.post_permits, Nat.mul_succ, Option.elim_some, total_nil,
          Holder.engaged, Holder.openings, Holder.closings, Holder.work] <;> omega

private theorem call_holder_lessens
    (closing : ∀ isJoin, holder = .stopActive isJoin → memory.maxThreads = 0)
    (step : holder.CallStep queue memory after left) : Lessens queue memory [] after left := by
  have loops : (Take.start queue).work queue = 1 := by
    rw [Take.start, unbounded]
    rfl
  cases step with
  | storesMax numThreads resizer pending =>
      have places := @TaskQueue.upkeep_le queue memory.activeThreads numThreads memory.maxThreads
      refine ⟨?_, .inl ⟨?_, .inl ?_⟩⟩ <;>
        simp only [Memory.openings, Memory.closings, Memory.work, Memory.engaged, locked,
          Option.elim_some, total_nil, Holder.engaged, Holder.openings, Holder.closings,
          Holder.work] <;> omega
  | grows numThreads resizer pending below needed =>
      have fits := add_numToAdd_le below (Nat.min_le_right memory.minThreads numThreads) pending
        (!memory.observers.isEmpty)
      have allowed : memory.maxThreads = numThreads := ok
      have engage := @TaskQueue.upkeep_engage queue _ _ _ fits
      refine ⟨?_, .inl ⟨?_, .inl ?_⟩⟩ <;>
        simp only [Memory.openings, Memory.closings, Memory.work, Memory.engaged, locked, allowed,
          Option.elim_some, total_nil, Holder.engaged, Holder.openings, Holder.closings,
          Holder.work, Call.openings, Call.closings, Call.work, Joiner.work, List.length_nil,
          Nat.add_zero] <;> omega
  | clearsMax isJoin =>
      have fewer := @TaskQueue.upkeep_mono queue memory.activeThreads _ _ (Nat.zero_le memory.maxThreads)
      refine ⟨?_, .inl ⟨?_, .inl ?_⟩⟩ <;>
        simp only [Memory.openings, Memory.closings, Memory.work, Memory.engaged, locked,
          Option.elim_some, total_nil, Holder.engaged, Holder.openings, Holder.closings,
          Holder.work] <;> omega
  | clearsActive isJoin =>
      have none : memory.maxThreads = 0 := closing isJoin rfl
      have rest : queue.upkeep 0 0 = 0 := rfl
      refine ⟨?_, .inr ⟨?_, ?_⟩⟩ <;>
        simp only [Memory.openings, Memory.closings, Memory.work, Memory.engaged, locked, none, rest,
          Option.elim_some, total_nil, Holder.engaged, Holder.openings, Holder.closings,
          Holder.work, Removal.work] <;> omega
  | collectsJoined ensurer =>
      cases ensurer with
      | add task =>
          refine ⟨?_, .inl ⟨?_, .inl ?_⟩⟩ <;>
            simp only [Memory.openings, Memory.closings, Memory.work, Memory.engaged, locked,
              Option.elim_some, Option.elim_none, total_cons, total_nil, Holder.engaged,
              Holder.openings, Holder.closings, Holder.work, Agent.openings, Agent.closings,
              Agent.work, Call.openings, Call.closings, Call.work, Joiner.work, Ensurer.work]
              <;> omega
      | observer =>
          refine ⟨?_, .inl ⟨?_, .inr ⟨?_, ⟨rfl, rfl⟩, ?_⟩⟩⟩ <;>
            simp only [Memory.openings, Memory.closings, Memory.work, Memory.engaged, Memory.round,
              locked, Option.elim_some, Option.elim_none, total_cons, total_nil, Holder.engaged,
              Holder.openings, Holder.closings, Holder.work, Holder.round, Agent.openings,
              Agent.closings, Agent.work, Agent.round, Call.openings, Call.closings, Call.work,
              Call.round, Joiner.work, Ensurer.work] <;> omega
  | enoughActive ensurer above =>
      cases ensurer with
      | add task =>
          refine ⟨?_, .inl ⟨?_, .inl ?_⟩⟩ <;>
            simp only [Memory.openings, Memory.closings, Memory.work, Memory.engaged, locked,
              Option.elim_some, Option.elim_none, total_cons, total_nil, Holder.engaged,
              Holder.openings, Holder.closings, Holder.work, Agent.openings, Agent.closings,
              Agent.work, Ensurer.next, Call.openings, Call.closings, Call.work, Ensurer.work]
              <;> omega
      | observer =>
          refine ⟨?_, .inl ⟨?_, .inr ⟨?_, ⟨rfl, rfl⟩, ?_⟩⟩⟩ <;>
            simp only [Memory.openings, Memory.closings, Memory.work, Memory.engaged, Memory.round,
              locked, Option.elim_some, Option.elim_none, total_cons, total_nil, Holder.engaged,
              Holder.openings, Holder.closings, Holder.work, Holder.round, Agent.openings,
              Agent.closings, Agent.work, Agent.round, Ensurer.next, Call.openings, Call.closings,
              Call.work, Call.round, Ensurer.work, Nat.not_lt.mpr above, if_false] <;> omega
  | tooFewActive ensurer below =>
      have engage := @TaskQueue.upkeep_engage queue _ _ 1 below
      refine ⟨?_, .inl ⟨?_, .inl ?_⟩⟩ <;> cases ensurer <;>
        simp only [Memory.openings, Memory.closings, Memory.work, Memory.engaged, locked,
          Option.elim_some, total_nil, Holder.engaged, Holder.openings, Holder.closings,
          Holder.work, Ensurer.next, Call.openings, Call.closings, Call.work, Ensurer.work,
          List.length_nil, Nat.add_zero] <;> omega
  | _ =>
      refine ⟨?_, .inl ⟨?_, .inl ?_⟩⟩ <;>
        simp only [Memory.openings, Memory.closings, Memory.work, Memory.engaged, locked,
          Option.elim_some, Option.elim_none, total_cons, total_nil, Holder.engaged,
          Holder.openings, Holder.closings, Holder.work, Removal.work, Agent.openings,
          Agent.closings, Agent.work, Call.openings, Call.closings, Call.work, Joiner.work,
          Worker.work, loopHead, loops, ThreadList.length_add, List.length_append,
          List.length_singleton, Nat.add_assoc, Nat.add_comm 1, Nat.zero_mul, Nat.zero_add,
          Nat.add_zero] <;> omega

private theorem hold_lessens
    (closing : ∀ isJoin, holder = .stopActive isJoin → memory.maxThreads = 0)
    (step : holder.Step queue wake memory after left) : Lessens queue memory [] after left := by
  cases step with
  | worker thread holder after left step => exact holder_lessens unbounded locked ok step
  | removal removal n holder after left step => exact removal_lessens unbounded locked ok step
  | call holder after left step => exact call_holder_lessens unbounded locked ok closing step

end Hold

/-- `stop` and `join` clear the active threads after their maximum. -/
theorem reachable_closing {queue : TaskQueue} {numThreads : Nat × Nat}
    {allowed : Global Memory Agent → Label CountingSemaphore.Ending Move → Prop}
    {state : Global Memory Agent} (reached : Reachable (system queue numThreads) allowed state) :
    ∀ isJoin, state.shared.threadListLock = some (.stopActive isJoin) →
      state.shared.maxThreads = 0 := by
  refine Reaches.invariant (fun memory _ => ∀ isJoin,
    memory.threadListLock = some (.stopActive isJoin) → memory.maxThreads = 0) ?_ ?_ ?_ ?_ reached
  · intro memory agents others _ closing
    exact closing
  · intro isJoin locked
    cases locked
  · intro before index choice agent after left _ _ _ acted closing isJoin locked
    rcases act_cases acted with ⟨holder, wants, -, -, rfl⟩ | ⟨call, -, records⟩ | ⟨same, -⟩
    · cases locked
      unfold Agent.wants at wants
      split at wants <;> cases wants
    · cases records <;> exact closing isJoin locked
    · have lock : after.threadListLock = before.shared.threadListLock :=
        congrArg Ledger.threadListLock same
      have max : after.maxThreads = before.shared.maxThreads := congrArg Ledger.maxThreads same
      exact max.trans (closing isJoin (lock.symm.trans locked))
  · intro before move after left _ _ moved closing isJoin locked
    rcases env_cases moved with ⟨operation, -, -, invoked⟩ | ⟨wake, holder, -, -, stepped⟩
    · have same := (invoke_ledger before.shared operation).2
      rw [invoked] at same
      have lock : after.threadListLock = before.shared.threadListLock :=
        congrArg Ledger.threadListLock same
      have max : after.maxThreads = before.shared.maxThreads := congrArg Ledger.maxThreads same
      exact max.trans (closing isJoin (lock.symm.trans locked))
    · cases hold_step stepped with
      | worker thread holder after left step => cases step <;> cases locked
      | removal removal n holder after left step => cases step <;> cases locked
      | call holder after left step =>
          cases step with
          | clearsMax byJoin => rfl
          | _ => cases locked

/-! ## What is left to do -/

/-- The work of all, and the poison for every thread that there may be when a
shutdown comes. -/
def workLeft (queue : TaskQueue) (memory : Memory) (agents : List Agent) : Nat :=
  memory.work queue + total (Agent.work queue) agents +
    queue.perThread * ((memory.closings + total Agent.closings agents) *
      (memory.openings + total Agent.openings agents))

def roundLeft (memory : Memory) (agents : List Agent) : Nat :=
  memory.round + total (Agent.round memory) agents

/-- How many steps a pool may make by itself. -/
def remainingWork (queue : TaskQueue) (state : Global Memory Agent) : Nat :=
  workLeft queue state.shared state.agents *
      (13 * countRoles Role.observes state.shared state.agents + 1) +
    roundLeft state.shared state.agents

section Left

variable {queue : TaskQueue} {memory after : Memory} {before left agents others : List Agent}

theorem workLeft_perm (same : agents.Perm others) :
    workLeft queue memory agents = workLeft queue memory others := by
  simp only [workLeft, total_perm same]

theorem roundLeft_perm (same : agents.Perm others) :
    roundLeft memory agents = roundLeft memory others := by
  simp only [roundLeft, total_perm same]

private theorem round_le (active maxThreads : Nat) (call : Call) :
    call.round active maxThreads ≤ 13 * call.role.observes := by
  unfold Call.round
  split
  case h_1 seen =>
    change _ ≤ 13
    split_ifs <;> omega
  case h_2 =>
    change _ ≤ 13
    split_ifs <;> omega
  case h_3 seen =>
    change _ ≤ 13
    split_ifs <;> omega
  case h_9 => exact Nat.zero_le _
  all_goals exact Nat.le_of_ble_eq_true rfl

theorem roundLeft_le (memory : Memory) (agents : List Agent) :
    roundLeft memory agents ≤ 13 * countRoles Role.observes memory agents := by
  have holds : memory.round ≤ 13 * memory.holding Role.observes := by
    rw [Memory.round, Memory.holding]
    cases memory.threadListLock with
    | none => exact Nat.le_refl 0
    | some holder =>
        simp only [Option.elim_some]
        unfold Holder.round
        split
        case h_3 => exact Nat.zero_le _
        all_goals exact Nat.le_of_ble_eq_true rfl
  have calls : total (Agent.round memory) agents ≤
      13 * total (fun agent => Role.observes agent.role) agents := by
    induction agents with
    | nil => exact Nat.le_refl 0
    | cons agent rest ih =>
        have own : agent.round memory ≤ 13 * Role.observes agent.role := by
          cases agent with
          | worker thread worker => exact Nat.zero_le _
          | call call => exact round_le _ _ call
        rw [total_cons, total_cons, Nat.mul_add]
        exact Nat.add_le_add own ih
  rw [roundLeft, countRoles, Nat.mul_add]
  exact Nat.add_le_add holds calls

theorem Lessens.spent (lessens : Lessens queue memory before after left) (rest : List Agent) :
    workLeft queue after (left ++ rest) < workLeft queue memory (before ++ rest) ∨
      workLeft queue after (left ++ rest) ≤ workLeft queue memory (before ++ rest) ∧
        roundLeft after (left ++ rest) < roundLeft memory (before ++ rest) := by
  obtain ⟨openings, spends⟩ := lessens
  simp only [workLeft, roundLeft, total_append]
  have openings : after.openings + (total Agent.openings left + total Agent.openings rest) ≤
      memory.openings + (total Agent.openings before + total Agent.openings rest) := by omega
  rcases spends with ⟨closings, spent⟩ | ⟨closings, raised⟩
  · have closings : after.closings + (total Agent.closings left + total Agent.closings rest) ≤
        memory.closings + (total Agent.closings before + total Agent.closings rest) := by omega
    have account := Nat.mul_le_mul_left queue.perThread (Nat.mul_le_mul closings openings)
    rcases spent with less | ⟨same, ⟨active, maxThreads⟩, less⟩
    · left
      omega
    · right
      have others : total (Agent.round after) rest = total (Agent.round memory) rest := by
        have rounds : Agent.round after = Agent.round memory := by
          funext agent
          cases agent with
          | worker thread worker => rfl
          | call call => simp only [Agent.round, active, maxThreads]
        rw [rounds]
      rw [others]
      omega
  · left
    have closings : after.closings + (total Agent.closings left + total Agent.closings rest) + 1 ≤
        memory.closings + (total Agent.closings before + total Agent.closings rest) := by omega
    -- the account held the threads there are, and those that may come
    have account := Nat.mul_le_mul_left queue.perThread (Nat.mul_le_mul_right
      (memory.openings + (total Agent.openings before + total Agent.openings rest)) closings)
    have others := Nat.mul_le_mul_left queue.perThread (Nat.mul_le_mul_left
      (after.closings + (total Agent.closings left + total Agent.closings rest)) openings)
    have threads : memory.threadList.length ≤
        memory.openings + (total Agent.openings before + total Agent.openings rest) := by
      rw [Memory.openings]
      omega
    have paid := Nat.mul_le_mul_left queue.perThread threads
    rw [Nat.succ_mul, Nat.mul_add] at account
    omega

end Left

section Alone

variable {queue : TaskQueue} {numThreads : Nat × Nat}

private theorem spends_alone (unbounded : queue.bounded = false) :
    (system queue numThreads).SpendsWhile unprompted
      (Reachable (system queue numThreads) anySchedule) (remainingWork queue) := by
  refine @System.SpendsWhile.of_rounds _ _ _ _ _ _ _
    (fun state => workLeft queue state.shared state.agents)
    (fun state => roundLeft state.shared state.agents)
    (fun state => 13 * countRoles Role.observes state.shared state.agents)
    (fun state => roundLeft_le state.shared state.agents) ?_
  intro state next label reached own moved
  refine ⟨.step reached trivial moved, ?_⟩
  cases label with
  | act index choice =>
      obtain ⟨agent, after, left, found, acted, rfl⟩ := step_act moved
      have same := perm_of_getElem? found
      have fewer : countRoles Role.observes after (left ++ state.agents.eraseIdx index) ≤
          countRoles Role.observes state.shared (agent :: state.agents.eraseIdx index) :=
        countRoles_act rfl acted
      have spent := (act_lessens unbounded (reachable_levels reached) own
        (act_step acted)).spent (state.agents.eraseIdx index)
      rw [countRoles, countRoles, ← total_perm same] at fewer
      rw [List.singleton_append, ← workLeft_perm same, ← roundLeft_perm same] at spent
      exact ⟨Nat.mul_le_mul_left 13 fewer, spent⟩
  | env move =>
      obtain ⟨after, left, acted, rfl⟩ := step_env moved
      rcases env_cases acted with ⟨operation, rfl, -, -⟩ | ⟨wake, holder, -, locked, stepped⟩
      · exact own.elim
      · have fewer : countRoles Role.observes after (left ++ state.agents) ≤
            countRoles Role.observes state.shared state.agents :=
          countRoles_hold rfl rfl locked stepped
        obtain ⟨-, -, ok⟩ := (reachable_accounted reached).held locked
        rw [reachable_forgone unbounded reached] at ok
        have spent := (hold_lessens unbounded locked ok
          (fun isJoin same => reachable_closing reached isJoin (locked.trans (congrArg some same)))
          (hold_step stepped)).spent state.agents
        exact ⟨Nat.mul_le_mul_left 13 fewer, spent⟩

/-- Without new calls and timeouts, a pool with an unbounded queue makes only so
many steps, whatever resizes, stops and joins are under way, and comes to rest. -/
theorem left_alone_rests (unbounded : queue.bounded = false) (state : Global Memory Agent)
    (reached : Reachable (system queue numThreads) anySchedule state) :
    (∀ labels last, (∀ label ∈ labels, unprompted label) →
      (system queue numThreads).run state labels = some last →
        labels.length ≤ remainingWork queue state) ∧
    ∃ labels last, (∀ label ∈ labels, unprompted label) ∧
      (system queue numThreads).run state labels = some last ∧
      (system queue numThreads).AtRest unprompted last := by
  constructor
  · intro labels last own replayed
    exact Nat.le_of_add_right_le
      (System.SpendsWhile.length_le (spends_alone unbounded) reached own replayed)
  · exact System.SpendsWhile.exists_atRest (spends_alone unbounded) state reached

/-- The constructor of a pool of one thread and its worker come to rest. -/
theorem left_alone_rests_oneThread :
    ∃ labels last, (∀ label ∈ labels, unprompted label) ∧ labels.length ≤ 31 ∧
      (system .unbounded (1, 1)).run (system .unbounded (1, 1)).init labels = some last ∧
      (system .unbounded (1, 1)).AtRest unprompted last := by
  obtain ⟨bounded, labels, last, own, replayed, rests⟩ :=
    @left_alone_rests .unbounded (1, 1) rfl (system .unbounded (1, 1)).init .init
  exact ⟨labels, last, own, bounded labels last own replayed, replayed, rests⟩

end Alone

/-! ## Shutdowns return -/

def pendingClosings (memory : Memory) (agents : List Agent) : Nat :=
  memory.closings + total Agent.closings agents

section Shutdown

variable {queue : TaskQueue} {wake : Bool} {memory after : Memory}
  {before left agents : List Agent} {holder : Holder} {numThreads : Nat × Nat}
  {state : Global Memory Agent}

theorem Lessens.closings (lessens : Lessens queue memory before after left) (rest : List Agent) :
    pendingClosings after (left ++ rest) ≤ pendingClosings memory (before ++ rest) := by
  simp only [pendingClosings, total_append]
  rcases lessens.spends with ⟨closings, -⟩ | ⟨closings, -⟩ <;> omega

private theorem closings_le_controls (call : Call) : call.closings ≤ call.role.controls := by
  unfold Call.closings
  split
  case h_4 => exact Nat.zero_le _
  all_goals exact Nat.le_refl 1

private theorem pendingClosings_le (agents : List Agent) :
    total Agent.closings agents ≤ total (fun agent => Role.controls agent.role) agents :=
  total_le_total fun agent _ => by
    cases agent with
    | worker thread worker => exact Nat.zero_le _
    | call call => exact closings_le_controls call

private theorem hold_lowers (step : holder.Step queue wake memory after left) :
    after.threadsToStop ≤ memory.threadsToStop ∨ ∃ removal n, holder = .stopThreads removal n := by
  cases step with
  | worker thread holder after left step =>
      cases step with
      | obeys task asked => exact .inl (Nat.sub_le _ 1)
      | obeysAfterTask asked => exact .inl (Nat.sub_le _ 1)
      | _ => exact .inl (Nat.le_refl _)
  | removal removal n holder after left step =>
      cases step with
      | raisesToStop => exact .inr ⟨removal, n, rfl⟩
      | _ => exact .inl (Nat.le_refl _)
  | call holder after left step => cases step <;> exact .inl (Nat.le_refl _)

/-- A shutdown was called, and no stop is pending as long as it has to come to
the lock. -/
private structure Awaited (queue : TaskQueue) (numThreads : Nat × Nat)
    (state : Global Memory Agent) : Prop where
  reached : Reachable (system queue numThreads) noStopPending state
  called : state.shared.history.shutdownCalled = true
  clear : 0 < pendingClosings state.shared state.agents → state.shared.threadsToStop = 0

private theorem awaited_step (unbounded : queue.bounded = false) {next : Global Memory Agent}
    {label : Label CountingSemaphore.Ending Move} (awaited : Awaited queue numThreads state)
    (own : unprompted label) (moved : (system queue numThreads).step state label = some next) :
    Awaited queue numThreads next := by
  obtain ⟨reached, called, clear⟩ := awaited
  cases label with
  | act index choice =>
      obtain ⟨agent, after, left, found, acted, rfl⟩ := step_act moved
      have same := perm_of_getElem? found
      have pending : pendingClosings state.shared (agent :: state.agents.eraseIdx index) =
          pendingClosings state.shared state.agents := by
        rw [pendingClosings, pendingClosings, total_perm same]
      refine ⟨.step reached ⟨fun operation member => ?_, fun other isOther starts => ?_⟩ moved, ?_,
        fun goesOn => ?_⟩
      · cases member
      · -- whoever starts the shutdown has come to the lock
        obtain rfl : agent = other := Option.some.inj (found.symm.trans isOther)
        have closing : 0 < agent.closings := by
          unfold Agent.startsShutdown at starts
          split at starts
          · exact Nat.one_pos
          · cases starts
        refine clear ?_
        rw [← pending, pendingClosings, total_cons]
        omega
      · exact (act_sizes acted).2.2.2.trans called
      · have toStop : after.threadsToStop = state.shared.threadsToStop := by
          rcases act_cases acted with ⟨holder, -, -, -, rfl⟩ | ⟨call, -, records⟩ | ⟨kept, -⟩
          · rfl
          · cases records <;> rfl
          · exact congrArg Ledger.threadsToStop kept
        have fewer := (act_lessens unbounded (reachable_levels reached) own
          (act_step acted)).closings (state.agents.eraseIdx index)
        rw [List.singleton_append, pending] at fewer
        exact toStop.trans (clear (Nat.lt_of_lt_of_le goesOn fewer))
  | env move =>
      obtain ⟨after, left, acted, rfl⟩ := step_env moved
      rcases env_cases acted with ⟨operation, rfl, -, -⟩ | ⟨wake, holder, rfl, locked, stepped⟩
      · exact own.elim
      · refine ⟨.step reached ⟨fun operation member => ?_, fun other isOther => ?_⟩ moved, ?_,
          fun goesOn => ?_⟩
        · cases member
        · cases isOther
        · exact (congrArg Outside.shutdownCalled (hold_outside stepped)).trans called
        · obtain ⟨-, -, ok⟩ := (reachable_accounted reached).held locked
          rw [reachable_forgone unbounded reached] at ok
          have fewer := (hold_lessens unbounded locked ok (fun isJoin same =>
            reachable_closing reached isJoin (locked.trans (congrArg some same)))
            (hold_step stepped)).closings state.agents
          have goesOn : 0 < pendingClosings state.shared state.agents :=
            Nat.lt_of_lt_of_le goesOn fewer
          rcases hold_lowers (hold_step stepped) with lowers | ⟨removal, n, rfl⟩
          · exact Nat.le_zero.mp (clear goesOn ▸ lowers)
          · -- one controller removes threads or waits for the lock
            have controlled : Controlled state.shared state.agents :=
              reachable_controlled unbounded
                (fun _ _ allowed => shutsDownLast_of_oneController allowed.1) reached
            have single := controlled.single called
            have removes : Role.controls (Holder.stopThreads removal n).role = 1 := by
              cases removal with
              | setNumThreads size resizer => cases resizer <;> rfl
              | shutdown isJoin => rfl
            have none := pendingClosings_le state.agents
            rw [countRoles, Memory.holding, locked, Option.elim_some, removes] at single
            rw [pendingClosings, Memory.closings, locked, Option.elim_some] at goesOn
            exact absurd goesOn (by
              change ¬0 < 0 + _
              omega)

/-- Where no stop is pending when `stop` or `join` is called, that call returns:
whatever else is under way, the pool makes only so many steps, and where it
rests the call has returned. -/
theorem shutdown_returns (unbounded : queue.bounded = false)
    (reached : Reachable (system queue numThreads) noStopPending state)
    (called : state.shared.history.shutdownCalled = true)
    (clear : state.shared.threadsToStop = 0) :
    (∀ labels last, (∀ label ∈ labels, unprompted label) →
      (system queue numThreads).run state labels = some last →
        labels.length ≤ remainingWork queue state ∧
          ((system queue numThreads).AtRest unprompted last →
            ShutDown last.shared last.agents)) ∧
    ∃ labels last, (∀ label ∈ labels, unprompted label) ∧
      (system queue numThreads).run state labels = some last ∧
      ShutDown last.shared last.agents := by
  have spends : (system queue numThreads).SpendsWhile unprompted (Awaited queue numThreads)
      (remainingWork queue) :=
    System.SpendsWhile.restrict (spends_alone unbounded) (fun _ awaited => awaited.reached.any)
      (awaited_step unbounded)
  have awaited : Awaited queue numThreads state := ⟨reached, called, fun _ => clear⟩
  have ends : ∀ labels last, (∀ label ∈ labels, unprompted label) →
      (system queue numThreads).run state labels = some last →
        (system queue numThreads).AtRest unprompted last → ShutDown last.shared last.agents := by
    intro labels last own replayed rests
    have kept := System.SpendsWhile.kept spends awaited own replayed
    exact shutDown_of_atRest unbounded numThreads kept.reached kept.called rests
  constructor
  · intro labels last own replayed
    exact ⟨Nat.le_of_add_right_le (System.SpendsWhile.length_le spends awaited own replayed),
      ends labels last own replayed⟩
  · obtain ⟨labels, last, own, replayed, rests⟩ :=
      System.SpendsWhile.exists_atRest spends state awaited
    exact ⟨labels, last, own, replayed, ends labels last own replayed rests⟩

/-- `join` is called on a pool of one thread. -/
private def joinCalled : List (Label CountingSemaphore.Ending Move) :=
  frontActs 1 ++ held 7 ++ frontActs 2 ++ [Label.env (Move.invoke (.shutdown true))]

theorem shutdown_returns_oneThread :
    ∃ state : Global Memory Agent,
      (system .unbounded (1, 1)).run (system .unbounded (1, 1)).init joinCalled = some state ∧
      ∃ labels last, (∀ label ∈ labels, unprompted label) ∧
        (system .unbounded (1, 1)).run state labels = some last ∧
        ShutDown last.shared last.agents := by
  have runs : ((system .unbounded (1, 1)).run (system .unbounded (1, 1)).init joinCalled).map
      (fun state => (state.shared.history.shutdownCalled, state.shared.threadsToStop)) =
      some (true, 0) := by
    decide
  obtain ⟨state, replayed, values⟩ := Option.map_eq_some_iff.mp runs
  simp only [Prod.mk.injEq] at values
  have reached : Reachable (system .unbounded (1, 1)) noStopPending state :=
    Reachable.init.replay (by decide) replayed
  exact ⟨state, replayed, (shutdown_returns rfl reached values.1 values.2).2⟩

end Shutdown

end ThreadPoolExec.CPUThreadPoolExecutor
