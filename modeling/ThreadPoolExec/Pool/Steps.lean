import ThreadPoolExec.Pool.Executor

/-!
# The steps of the pool

Every step that the pool can make, with the condition under which it is made
and what it leaves behind.
-/

set_option autoImplicit false

namespace ThreadPoolExec.CPUThreadPoolExecutor

/-! ## Steps outside the lock -/

/-- The steps of a worker that does not hold the lock. -/
inductive Worker.Step (queue : TaskQueue) (choice : CountingSemaphore.Ending) (memory : Memory)
    (thread : Nat) : Worker → Memory → List Agent → Prop where
  | waits (sem : CountingSemaphore) (passed : memory.tasks.sem.tryWait = some sem) :
      Step queue choice memory thread (.tryTakeFor .semWait)
        { memory with tasks := { memory.tasks with sem := sem } }
        [.worker thread (.tryTakeFor (.probe 0))]
  | sleeps (blocked : memory.tasks.sem.tryWait = none) :
      Step queue choice memory thread (.tryTakeFor .semWait)
        { memory with tasks := { memory.tasks with sem := memory.tasks.sem.sleep } }
        [.worker thread (.tryTakeFor .asleep)]
  | resumes (sem : CountingSemaphore)
      (ended : memory.tasks.sem.endWait true choice = some (sem, true)) :
      Step queue choice memory thread (.tryTakeFor .asleep)
        { memory with tasks := { memory.tasks with sem := sem } }
        [.worker thread (.tryTakeFor (.probe 0))]
  | timesOut (sem : CountingSemaphore)
      (ended : memory.tasks.sem.endWait true choice = some (sem, false)) :
      Step queue choice memory thread (.tryTakeFor .asleep)
        { memory with tasks := { memory.tasks with sem := sem } } [.worker thread (.stopping none)]
  | takesTask (level task : Nat) (levels : List (List CPUTask))
      (popped : Levels.pop memory.tasks.levels level = some (.func task, levels)) :
      Step queue choice memory thread (.tryTakeFor (.probe level))
        { memory with tasks := { memory.tasks with levels := levels } }
        [.worker thread (.taken task)]
  | takesPoison (level : Nat) (byJoin : Bool) (levels : List (List CPUTask))
      (popped : Levels.pop memory.tasks.levels level = some (.poison byJoin, levels)) :
      Step queue choice memory thread (.tryTakeFor (.probe level))
        { memory with
          tasks := { memory.tasks with levels := levels }
          history := { memory.history with
            poisonTaken := memory.history.poisonTaken || byJoin } }
        [.worker thread (.stopping (some (.poison byJoin)))]
  | passesLevel (level : Nat) (inside : level < memory.tasks.levels.length)
      (empty : Levels.pop memory.tasks.levels level = none) :
      Step queue choice memory thread (.tryTakeFor (.probe level)) memory
        [.worker thread (.tryTakeFor (.probe (level + 1)))]
  | probedAll (level : Nat) (outside : memory.tasks.levels.length ≤ level)
      (bounded : queue.bounded = true) :
      Step queue choice memory thread (.tryTakeFor (.probe level)) memory
        [.worker thread (.tryTakeFor .semWait)]
  | runsTask (task : Nat) :
      Step queue choice memory thread (.taken task)
        { memory with history := { memory.history with ran := task :: memory.history.ran } }
        [.worker thread (.runTask task)]
  | finishesTask (task : Nat) :
      Step queue choice memory thread (.runTask task) memory [.worker thread .taskStatsCallbacks]
  | callsBack :
      Step queue choice memory thread .taskStatsCallbacks memory [.worker thread .loadToStop]
  | seesStop (asked : 0 < memory.threadsToStop) :
      Step queue choice memory thread .loadToStop memory [.worker thread .loadIsJoin]
  | seesNoStop (zero : ¬0 < memory.threadsToStop) :
      Step queue choice memory thread .loadToStop memory [loopHead queue thread]
  | seesJoin (isJoin : memory.isJoin = true) :
      Step queue choice memory thread .loadIsJoin memory [loopHead queue thread]
  | seesNoJoin (isJoin : memory.isJoin = false) :
      Step queue choice memory thread .loadIsJoin memory [.worker thread .decrementing]

/-- The steps of a call that does not hold the lock. -/
inductive Call.Step (queue : TaskQueue) (choice : CountingSemaphore.Ending) (memory : Memory) :
    Call → Memory → List Agent → Prop where
  | minIsZero (task : Nat) (priority : Int8) (zero : memory.minThreads = 0) :
      Step queue choice memory (.loadMin task priority) memory
        [.call (.getKeepAliveToken task priority)]
  | minIsPositive (task : Nat) (priority : Int8) (positive : memory.minThreads ≠ 0) :
      Step queue choice memory (.loadMin task priority) memory [.call (.loadActive task priority)]
  | loadsActive (task : Nat) (priority : Int8) :
      Step queue choice memory (.loadActive task priority) memory
        [.call (.loadMax task priority memory.activeThreads)]
  | mayNeed (task : Nat) (priority : Int8) (active : Nat) (below : active < memory.maxThreads) :
      Step queue choice memory (.loadMax task priority active) memory
        [.call (.getKeepAliveToken task priority)]
  | noNeed (task : Nat) (priority : Int8) (active : Nat) (above : memory.maxThreads ≤ active) :
      Step queue choice memory (.loadMax task priority active) memory
        [.call (.enqueue task priority false)]
  | getsToken (task : Nat) (priority : Int8) (alive : 0 < memory.keepAliveCount) :
      Step queue choice memory (.getKeepAliveToken task priority)
        { memory with keepAliveCount := memory.keepAliveCount + 1 }
        [.call (.enqueue task priority true)]
  | noToken (task : Nat) (priority : Int8) (joined : memory.keepAliveCount = 0) :
      Step queue choice memory (.getKeepAliveToken task priority) memory [.call .checkFailed]
  | enqueues (task : Nat) (priority : Int8) (mayNeed : Bool) (tasks : Tasks)
      (written : memory.tasks.enqueue queue (queue.level priority) (.func task) = some tasks) :
      Step queue choice memory (.enqueue task priority mayNeed) { memory with tasks := tasks }
        [.call (.post task mayNeed)]
  | queueFull (task : Nat) (priority : Int8) (mayNeed : Bool)
      (full : memory.tasks.enqueue queue (queue.level priority) (.func task) = none) :
      Step queue choice memory (.enqueue task priority mayNeed)
        { memory with
          keepAliveCount := if mayNeed then memory.keepAliveCount - 1 else memory.keepAliveCount }
        [.call .queueFull]
  | posts (task : Nat) :
      Step queue choice memory (.post task false)
        ({ memory with
          tasks := (memory.tasks.post (choice = CountingSemaphore.Ending.handoff)).1 }.addReturns
            task) []
  | wakesThread (task : Nat) (woke : (memory.tasks.post (choice = .handoff)).2 = true) :
      Step queue choice memory (.post task true)
        { memory with tasks := (memory.tasks.post (choice = .handoff)).1 }
        [.call (.keepAliveRelease task)]
  | wakesNone (task : Nat) (woke : (memory.tasks.post (choice = .handoff)).2 = false) :
      Step queue choice memory (.post task true)
        { memory with tasks := (memory.tasks.post (choice = .handoff)).1 }
        [.call (.ensureJoined (.add task))]
  | releasesToken (task : Nat) :
      Step queue choice memory (.keepAliveRelease task)
        ({ memory with keepAliveCount := memory.keepAliveCount - 1 }.addReturns task) []
  | noneToJoin (ensurer : Ensurer) (zero : memory.threadsToJoin = 0) :
      Step queue choice memory (.ensureJoined ensurer) memory [.call (.ensureActive ensurer)]
  | someToJoin (ensurer : Ensurer) (positive : memory.threadsToJoin ≠ 0) :
      Step queue choice memory (.ensureJoined ensurer) memory [.call (.ensureJoinedLock ensurer)]
  | ensureLoadsActive (ensurer : Ensurer) :
      Step queue choice memory (.ensureActive ensurer) memory
        [.call (.ensureActiveMax ensurer memory.activeThreads)]
  | enoughActive (ensurer : Ensurer) (active : Nat) (above : memory.maxThreads ≤ active) :
      Step queue choice memory (.ensureActiveMax ensurer active) memory [.call ensurer.next]
  | tooFewActive (ensurer : Ensurer) (active : Nat) (below : active < memory.maxThreads) :
      Step queue choice memory (.ensureActiveMax ensurer active) memory
        [.call (.ensureActiveLock ensurer)]
  | maxLoadsActive :
      Step queue choice memory .maxActive memory [.call (.maxActiveMax memory.activeThreads)]
  | belowMax (active : Nat) (below : active < memory.maxThreads) :
      Step queue choice memory (.maxActiveMax active) memory [.call (.ensureJoined .observer)]
  | atMax (active : Nat) (above : memory.maxThreads ≤ active) :
      Step queue choice memory (.maxActiveMax active) memory []
  | joinsAll (joiner : Joiner) :
      Step queue choice memory (.joinStoppedThreads 0 joiner) memory joiner.next
  | joinsOne (n : Nat) (joiner : Joiner) (thread : Nat) (stopped : List Nat)
      (first : memory.stoppedThreads = thread :: stopped) :
      Step queue choice memory (.joinStoppedThreads (n + 1) joiner)
        { memory with stoppedThreads := stopped } [.call (.joinStoppedThreads n joiner)]
  | joinedBefore (isJoin : Bool) (joined : memory.keepAliveJoined = true) :
      Step queue choice memory (.joinKeepAliveOnce isJoin) memory [.call (.shutdown isJoin)]
  | joinsKeepAlive (isJoin : Bool) (joined : memory.keepAliveJoined = false) :
      Step queue choice memory (.joinKeepAliveOnce isJoin)
        { memory with keepAliveJoined := true, keepAliveCount := memory.keepAliveCount - 1 }
        [.call (.keepAliveWait isJoin)]
  | keepAliveGone (isJoin : Bool) (gone : memory.keepAliveCount = 0) :
      Step queue choice memory (.keepAliveWait isJoin) memory [.call (.shutdown isJoin)]
  | noThreadLeft (isJoin : Bool) (zero : memory.threadList.length = 0) :
      Step queue choice memory (.checkThreadList isJoin) memory [.call (.checkStopped isJoin)]
  | threadLeft (isJoin : Bool) (positive : memory.threadList.length ≠ 0) :
      Step queue choice memory (.checkThreadList isJoin) memory [.call .checkFailed]
  | noStoppedLeft (isJoin : Bool) (zero : memory.stoppedThreads.length = 0) :
      Step queue choice memory (.checkStopped isJoin) memory [.call (.shutDown isJoin)]
  | stoppedLeft (isJoin : Bool) (positive : memory.stoppedThreads.length ≠ 0) :
      Step queue choice memory (.checkStopped isJoin) memory [.call .checkFailed]
  | constructs (second : Nat) :
      Step queue choice memory (.storeMin second)
        { memory with
          minThreads := if second = 0 then 1 else memory.minThreads
          constructed := true } []

/-- The steps of an agent: it takes the lock, or goes on without it. -/
inductive Agent.Step (queue : TaskQueue) (choice : CountingSemaphore.Ending) (memory : Memory) :
    Agent → Memory → List Agent → Prop where
  | locks (agent : Agent) (holder : Holder) (wants : agent.wants = some holder)
      (free : memory.threadListLock = none) :
      Step queue choice memory agent
        { memory with
          threadListLock := some holder
          history := { memory.history with atLock := memory.sizing } } []
  | worker (thread : Nat) (at_ : Worker) (after : Memory) (left : List Agent)
      (stepped : at_.Step queue choice memory thread after left) :
      Step queue choice memory (.worker thread at_) after left
  | call (at_ : Call) (after : Memory) (left : List Agent)
      (stepped : at_.Step queue choice memory after left) :
      Step queue choice memory (.call at_) after left

section Outside

variable {queue : TaskQueue} {choice : CountingSemaphore.Ending} {memory after : Memory}
  {left : List Agent} {agent : Agent}

private theorem take_step {take : Take} {thread : Nat}
    (stepped : (Worker.tryTakeFor take).next queue choice memory thread = some (after, left)) :
    (Worker.tryTakeFor take).Step queue choice memory thread after left := by
  cases take with
  | semWait =>
      cases passed : memory.tasks.sem.tryWait with
      | some sem =>
          simp only [Worker.next, Take.next, passed] at stepped
          cases stepped
          exact .waits sem passed
      | none =>
          simp only [Worker.next, Take.next, passed] at stepped
          cases stepped
          exact .sleeps passed
  | asleep =>
      cases ended : memory.tasks.sem.endWait true choice with
      | none => simp [Worker.next, Take.next, ended] at stepped
      | some result =>
          obtain ⟨sem, passed⟩ := result
          cases passed with
          | true =>
              simp only [Worker.next, Take.next, ended] at stepped
              cases stepped
              exact .resumes sem ended
          | false =>
              simp only [Worker.next, Take.next, ended] at stepped
              cases stepped
              exact .timesOut sem ended
  | probe level =>
      by_cases inside : level < memory.tasks.levels.length
      · cases popped : Levels.pop memory.tasks.levels level with
        | none =>
            simp only [Worker.next, Take.next, inside, if_true, popped] at stepped
            cases stepped
            exact .passesLevel level inside popped
        | some result =>
            obtain ⟨item, levels⟩ := result
            simp only [Worker.next, Take.next, inside, if_true, popped] at stepped
            cases item with
            | func task =>
                cases stepped
                exact .takesTask level task levels popped
            | poison byJoin =>
                cases stepped
                exact .takesPoison level byJoin levels popped
      · simp only [Worker.next, Take.next, inside, if_false] at stepped
        split at stepped
        · cases stepped
        · next bounded =>
            split at bounded <;> cases bounded
            cases stepped
            exact .probedAll level (Nat.le_of_not_lt inside) ‹_›
        · next bounded =>
            split at bounded <;> cases bounded

private theorem worker_step {worker : Worker} {thread : Nat}
    (stepped : worker.next queue choice memory thread = some (after, left)) :
    worker.Step queue choice memory thread after left := by
  cases worker with
  | tryTakeFor take => exact take_step stepped
  | stopping task => cases stepped
  | taken task =>
      cases stepped
      exact .runsTask task
  | runTask task =>
      cases stepped
      exact .finishesTask task
  | taskStatsCallbacks =>
      cases stepped
      exact .callsBack
  | loadToStop =>
      simp only [Worker.next] at stepped
      split at stepped <;> cases stepped
      · exact .seesStop ‹_›
      · exact .seesNoStop ‹_›
  | loadIsJoin =>
      simp only [Worker.next] at stepped
      split at stepped <;> cases stepped
      · exact .seesJoin ‹_›
      · exact .seesNoJoin (Bool.eq_false_iff.mpr ‹_›)
  | decrementing => cases stepped

private theorem call_step {call : Call}
    (stepped : call.next queue choice memory = some (after, left)) :
    call.Step queue choice memory after left := by
  cases call with
  | loadMin task priority =>
      simp only [Call.next] at stepped
      split at stepped <;> cases stepped
      · exact .minIsZero task priority ‹_›
      · exact .minIsPositive task priority ‹_›
  | loadActive task priority =>
      cases stepped
      exact .loadsActive task priority
  | loadMax task priority active =>
      simp only [Call.next] at stepped
      split at stepped <;> cases stepped
      · exact .mayNeed task priority active ‹_›
      · exact .noNeed task priority active (Nat.le_of_not_lt ‹_›)
  | getKeepAliveToken task priority =>
      simp only [Call.next] at stepped
      split at stepped <;> cases stepped
      · exact .getsToken task priority ‹_›
      · exact .noToken task priority (Nat.eq_zero_of_not_pos ‹_›)
  | enqueue task priority mayNeed =>
      simp only [Call.next] at stepped
      split at stepped <;> cases stepped
      · exact .enqueues task priority mayNeed _ ‹_›
      · exact .queueFull task priority mayNeed ‹_›
  | post task mayNeed =>
      cases mayNeed with
      | false =>
          cases stepped
          exact .posts task
      | true =>
          simp only [Call.next, if_true] at stepped
          split at stepped <;> cases stepped
          · exact .wakesThread task ‹_›
          · exact .wakesNone task (Bool.eq_false_iff.mpr ‹_›)
  | keepAliveRelease task =>
      cases stepped
      exact .releasesToken task
  | ensureJoined ensurer =>
      simp only [Call.next] at stepped
      split at stepped <;> cases stepped
      · exact .noneToJoin ensurer ‹_›
      · exact .someToJoin ensurer ‹_›
  | ensureActive ensurer =>
      cases stepped
      exact .ensureLoadsActive ensurer
  | ensureActiveMax ensurer active =>
      simp only [Call.next] at stepped
      split at stepped <;> cases stepped
      · exact .enoughActive ensurer active ‹_›
      · exact .tooFewActive ensurer active (Nat.lt_of_not_le ‹_›)
  | maxActive =>
      cases stepped
      exact .maxLoadsActive
  | maxActiveMax active =>
      simp only [Call.next] at stepped
      split at stepped <;> cases stepped
      · exact .belowMax active ‹_›
      · exact .atMax active (Nat.le_of_not_lt ‹_›)
  | joinStoppedThreads n joiner =>
      cases n with
      | zero =>
          cases stepped
          exact .joinsAll joiner
      | succ n =>
          simp only [Call.next] at stepped
          split at stepped <;> cases stepped
          exact .joinsOne n joiner _ _ ‹_›
  | joinKeepAliveOnce isJoin =>
      simp only [Call.next] at stepped
      split at stepped <;> cases stepped
      · exact .joinedBefore isJoin ‹_›
      · exact .joinsKeepAlive isJoin (Bool.eq_false_iff.mpr ‹_›)
  | keepAliveWait isJoin =>
      simp only [Call.next] at stepped
      split at stepped <;> cases stepped
      exact .keepAliveGone isJoin ‹_›
  | checkThreadList isJoin =>
      simp only [Call.next] at stepped
      split at stepped <;> cases stepped
      · exact .noThreadLeft isJoin ‹_›
      · exact .threadLeft isJoin ‹_›
  | checkStopped isJoin =>
      simp only [Call.next] at stepped
      split at stepped <;> cases stepped
      · exact .noStoppedLeft isJoin ‹_›
      · exact .stoppedLeft isJoin ‹_›
  | storeMin second =>
      cases stepped
      exact .constructs second
  | _ => cases stepped

theorem act_step (acted : act queue choice memory agent = some (after, left)) :
    agent.Step queue choice memory after left := by
  unfold act at acted
  split at acted
  · next holder wants =>
      unfold Memory.lock at acted
      split at acted <;> cases acted
      exact .locks agent holder wants ‹_›
  · cases agent with
    | worker thread worker => exact .worker _ _ _ _ (worker_step acted)
    | call call => exact .call _ _ _ (call_step acted)

end Outside

/-! ## Steps of the holder of the lock -/

/-- The steps of a worker that holds the lock. -/
inductive Holder.WorkerStep (queue : TaskQueue) (memory : Memory) (thread : Nat) :
    Holder → Memory → List Agent → Prop where
  | obeys (task : Option CPUTask) (asked : 0 < memory.threadsToStop) :
      WorkerStep queue memory thread (.taskShouldStop thread task)
        { memory with
          threadsToStop := memory.threadsToStop - 1
          threadListLock := some (.stopThread thread true) } []
  | notAsked (poison : CPUTask) (zero : memory.threadsToStop = 0) :
      WorkerStep queue memory thread (.taskShouldStop thread (some poison))
        { memory with threadListLock := none } [loopHead queue thread]
  | maybeIdle (zero : memory.threadsToStop = 0) :
      WorkerStep queue memory thread (.taskShouldStop thread none)
        { memory with threadListLock := some (.minActive thread) } []
  | aboveMin (above : memory.minThreads < memory.activeThreads) :
      WorkerStep queue memory thread (.minActive thread)
        { memory with threadListLock := some (.decrActive thread) } []
  | atMin (below : memory.activeThreads ≤ memory.minThreads) :
      WorkerStep queue memory thread (.minActive thread)
        { memory with threadListLock := none } [loopHead queue thread]
  | decrements :
      WorkerStep queue memory thread (.decrActive thread)
        { memory with
          activeThreads := memory.activeThreads - 1
          threadListLock := some (.pendingAfterTimeout thread 0 0) } []
  | addsPending (index pending : Nat) (inside : index < queue.getNumPriorities) :
      WorkerStep queue memory thread (.pendingAfterTimeout thread index pending)
        { memory with
          threadListLock := some (.pendingAfterTimeout thread (index + 1)
            (pending + memory.tasks.sizeAt queue index)) } []
  | stillPending (index pending : Nat) (outside : queue.getNumPriorities ≤ index)
      (positive : 0 < pending) :
      WorkerStep queue memory thread (.pendingAfterTimeout thread index pending)
        { memory with
          activeThreads := memory.activeThreads + 1
          threadListLock := none } [loopHead queue thread]
  | nonePending (index : Nat) (outside : queue.getNumPriorities ≤ index) :
      WorkerStep queue memory thread (.pendingAfterTimeout thread index 0)
        { memory with
          threadsToJoin := memory.threadsToJoin + 1
          threadListLock := some (.stopThread thread true) } []
  | stops (observed : Bool) (threadList : List Nat)
      (removed : ThreadList.remove memory.threadList thread = some threadList) :
      WorkerStep queue memory thread (.stopThread thread observed)
        { memory with
          threadList := threadList
          stoppedThreads := memory.stoppedThreads ++ [thread]
          notices := memory.notices ++
            (if observed then memory.observers else []).flatMap fun observer =>
              [thread].map fun thread => ⟨observer, .threadStopped, thread⟩
          threadListLock := none } []
  | obeysAfterTask (asked : 0 < memory.threadsToStop) :
      WorkerStep queue memory thread (.tryDecrToStop thread)
        { memory with
          threadsToStop := memory.threadsToStop - 1
          threadListLock := some (.stopThread thread false) } []
  | notAskedAfterTask (zero : memory.threadsToStop = 0) :
      WorkerStep queue memory thread (.tryDecrToStop thread)
        { memory with threadListLock := none } [loopHead queue thread]

/-- The steps of a call that removes threads. -/
inductive Holder.RemovalStep (queue : TaskQueue) (wake : Bool) (memory : Memory)
    (removal : Removal) (n : Nat) : Holder → Memory → List Agent → Prop where
  | storesIsJoin :
      RemovalStep queue wake memory removal n (.removeThreads removal n)
        { memory with
          isJoin := removal.isJoin
          threadListLock := some (.stopThreads removal n) } []
  | raisesToStop :
      RemovalStep queue wake memory removal n (.stopThreads removal n)
        { memory with
          threadsToStop := memory.threadsToStop + n
          threadListLock := some (.enqueuePoison removal n n) } []
  | enqueues (left : Nat) (tasks : Tasks)
      (written : memory.tasks.enqueue queue queue.poisonLevel (.poison removal.isJoin) =
        some tasks) :
      RemovalStep queue wake memory removal n (.enqueuePoison removal n (left + 1))
        { memory with tasks := tasks, threadListLock := some (.postPoison removal n left) } []
  | queueFull (left : Nat)
      (full : memory.tasks.enqueue queue queue.poisonLevel (.poison removal.isJoin) = none) :
      RemovalStep queue wake memory removal n (.enqueuePoison removal n (left + 1))
        { memory with
          threadListLock := none
          history := { memory.history with
            forgone := memory.history.forgone + n
            overhang := memory.history.overhang +
              match removal with
              | .setNumThreads _ _ => n
              | .shutdown _ => 0 } } [.call .queueFull]
  | posts (left : Nat) :
      RemovalStep queue wake memory removal n (.postPoison removal n left)
        { memory with
          tasks := (memory.tasks.post wake).1
          threadListLock := some (.enqueuePoison removal n left) } []

/-- The steps of a call that holds the lock otherwise. -/
inductive Holder.CallStep (queue : TaskQueue) (memory : Memory) :
    Holder → Memory → List Agent → Prop where
  | addsPending (numThreads : Nat) (resizer : Resizer) (index pending : Nat)
      (inside : index < queue.getNumPriorities) :
      CallStep queue memory (.getPending numThreads resizer index pending)
        { memory with
          threadListLock := some (.getPending numThreads resizer (index + 1)
            (pending + memory.tasks.sizeAt queue index)) } []
  | hasPending (numThreads : Nat) (resizer : Resizer) (index pending : Nat)
      (outside : queue.getNumPriorities ≤ index) :
      CallStep queue memory (.getPending numThreads resizer index pending)
        { memory with threadListLock := some (.storeMax numThreads resizer pending) } []
  | storesMax (numThreads : Nat) (resizer : Resizer) (pending : Nat) :
      CallStep queue memory (.storeMax numThreads resizer pending)
        { memory with
          maxThreads := numThreads
          threadListLock := some (.resize numThreads resizer pending) } []
  | shrinks (numThreads : Nat) (resizer : Resizer) (pending : Nat)
      (above : numThreads < memory.activeThreads) :
      CallStep queue memory (.resize numThreads resizer pending)
        { memory with
          minThreads := min memory.minThreads numThreads
          threadListLock := some (.removeThreads (.setNumThreads numThreads resizer)
            (memory.activeThreads - numThreads)) } []
  | grows (numThreads : Nat) (resizer : Resizer) (pending : Nat)
      (below : memory.activeThreads ≤ numThreads)
      (needed : 0 < pending ∨ memory.observers ≠ [] ∨
        memory.activeThreads < min memory.minThreads numThreads) :
      CallStep queue memory (.resize numThreads resizer pending)
        { memory with
          minThreads := min memory.minThreads numThreads
          threadListLock := some (.addThreads
            (numToAdd numThreads memory.activeThreads (min memory.minThreads numThreads) pending
              (!memory.observers.isEmpty))
            [] memory.activeThreads (.joinStoppedThreads 0 (.setNumThreads resizer))) } []
  | keepsSize (numThreads : Nat) (resizer : Resizer)
      (below : memory.activeThreads ≤ numThreads) (unobserved : memory.observers = [])
      (enough : min memory.minThreads numThreads ≤ memory.activeThreads) :
      CallStep queue memory (.resize numThreads resizer 0)
        { memory with
          minThreads := min memory.minThreads numThreads
          threadListLock := none }
        [.call (.joinStoppedThreads 0 (.setNumThreads resizer))]
  | poisonedResize (numThreads : Nat) (resizer : Resizer) (n : Nat) :
      CallStep queue memory (.enqueuePoison (.setNumThreads numThreads resizer) n 0)
        { memory with
          threadListLock := some (.storeActive numThreads
            (.joinStoppedThreads n (.setNumThreads resizer))) } []
  | poisonedShutdown (isJoin : Bool) (n : Nat) :
      CallStep queue memory (.enqueuePoison (.shutdown isJoin) n 0)
        { memory with threadListLock := some (.collectToJoin isJoin n) } []
  | startsThread (left : Nat) (newThreads : List Nat) (active : Nat) (next : Call) :
      CallStep queue memory (.addThreads (left + 1) newThreads active next)
        { memory with
          nextId := memory.nextId + 1
          threadList := ThreadList.add memory.threadList memory.nextId
          threadListLock := some (.addThreads left (newThreads ++ [memory.nextId]) active next) }
        [loopHead queue memory.nextId]
  | startedAll (newThreads : List Nat) (active : Nat) (next : Call) :
      CallStep queue memory (.addThreads 0 newThreads active next)
        { memory with
          notices := memory.notices ++
            memory.observers.flatMap fun observer =>
              newThreads.map fun thread => ⟨observer, .threadStarted, thread⟩
          threadListLock := some (.storeActive (active + newThreads.length) next) } []
  | storesActive (active : Nat) (next : Call) :
      CallStep queue memory (.storeActive active next)
        { memory with activeThreads := active, threadListLock := none } [.call next]
  | clearsMax (isJoin : Bool) :
      CallStep queue memory (.stopMax isJoin)
        { memory with maxThreads := 0, threadListLock := some (.stopActive isJoin) } []
  | clearsActive (isJoin : Bool) :
      CallStep queue memory (.stopActive isJoin)
        { memory with
          activeThreads := 0
          threadListLock := some (.removeThreads (.shutdown isJoin) memory.threadList.length)
          history := { memory.history with overhang := memory.threadsToStop } } []
  | collectsToJoin (isJoin : Bool) (n : Nat) :
      CallStep queue memory (.collectToJoin isJoin n)
        { memory with threadsToJoin := 0, threadListLock := none }
        [.call (.joinStoppedThreads (n + memory.threadsToJoin) (.shutdown isJoin))]
  | collectsJoined (ensurer : Ensurer) :
      CallStep queue memory (.collectJoined ensurer)
        { memory with threadsToJoin := 0, threadListLock := none }
        [.call (.joinStoppedThreads memory.threadsToJoin (.ensureJoined ensurer))]
  | enoughActive (ensurer : Ensurer) (above : memory.maxThreads ≤ memory.activeThreads) :
      CallStep queue memory (.ensureActive ensurer)
        { memory with threadListLock := none } [.call ensurer.next]
  | tooFewActive (ensurer : Ensurer) (below : memory.activeThreads < memory.maxThreads) :
      CallStep queue memory (.ensureActive ensurer)
        { memory with
          threadListLock := some (.addThreads 1 [] memory.activeThreads ensurer.next) } []
  | addsObserver (observer : Nat) :
      CallStep queue memory (.addObserver observer)
        { memory with
          observers := memory.observers ++ [observer]
          notices := memory.notices ++
            [observer].flatMap fun observer =>
              memory.threadList.map fun thread => ⟨observer, .threadPreviouslyStarted, thread⟩
          threadListLock := none } [.call .maxActive]
  | removesObserver (observer : Nat) :
      CallStep queue memory (.removeObserver observer)
        { memory with
          observers := memory.observers.erase observer
          notices := memory.notices ++
            [observer].flatMap fun observer =>
              memory.threadList.map fun thread => ⟨observer, .threadNotYetStopped, thread⟩
          threadListLock := none } []

/-- The steps of whoever holds the lock. -/
inductive Holder.Step (queue : TaskQueue) (wake : Bool) (memory : Memory) :
    Holder → Memory → List Agent → Prop where
  | worker (thread : Nat) (holder : Holder) (after : Memory) (left : List Agent)
      (stepped : holder.WorkerStep queue memory thread after left) :
      Step queue wake memory holder after left
  | removal (removal : Removal) (n : Nat) (holder : Holder) (after : Memory) (left : List Agent)
      (stepped : holder.RemovalStep queue wake memory removal n after left) :
      Step queue wake memory holder after left
  | call (holder : Holder) (after : Memory) (left : List Agent)
      (stepped : holder.CallStep queue memory after left) :
      Step queue wake memory holder after left

theorem hold_step {queue : TaskQueue} {wake : Bool} {memory after : Memory} {left : List Agent}
    {holder : Holder} (stepped : holder.next queue wake memory = some (after, left)) :
    holder.Step queue wake memory after left := by
  cases holder with
  | taskShouldStop thread task =>
      simp only [Holder.next] at stepped
      split at stepped
      · cases stepped
        exact .worker _ _ _ _ (.obeys task ‹_›)
      · next none =>
          cases task with
          | none =>
              cases stepped
              exact .worker _ _ _ _ (.maybeIdle (Nat.eq_zero_of_not_pos none))
          | some poison =>
              cases stepped
              exact .worker _ _ _ _ (.notAsked poison (Nat.eq_zero_of_not_pos none))
  | minActive thread =>
      simp only [Holder.next] at stepped
      split at stepped <;> cases stepped
      · exact .worker _ _ _ _ (.aboveMin ‹_›)
      · exact .worker _ _ _ _ (.atMin (Nat.le_of_not_lt ‹_›))
  | decrActive thread =>
      cases stepped
      exact .worker _ _ _ _ .decrements
  | pendingAfterTimeout thread index pending =>
      simp only [Holder.next] at stepped
      split at stepped
      · cases stepped
        exact .worker _ _ _ _ (.addsPending index pending ‹_›)
      · next outside =>
          cases pending with
          | zero =>
              cases stepped
              exact .worker _ _ _ _ (.nonePending index (Nat.le_of_not_lt outside))
          | succ pending =>
              cases stepped
              exact .worker _ _ _ _
                (.stillPending index _ (Nat.le_of_not_lt outside) (Nat.succ_pos pending))
  | stopThread thread observed =>
      simp only [Holder.next] at stepped
      split at stepped <;> cases stepped
      exact .worker _ _ _ _ (.stops observed _ ‹_›)
  | tryDecrToStop thread =>
      simp only [Holder.next] at stepped
      split at stepped <;> cases stepped
      · exact .worker _ _ _ _ (.obeysAfterTask ‹_›)
      · exact .worker _ _ _ _ (.notAskedAfterTask (Nat.eq_zero_of_not_pos ‹_›))
  | getPending numThreads resizer index pending =>
      simp only [Holder.next] at stepped
      split at stepped <;> cases stepped
      · exact .call _ _ _ (.addsPending numThreads resizer index pending ‹_›)
      · exact .call _ _ _
          (.hasPending numThreads resizer index pending (Nat.le_of_not_lt ‹_›))
  | storeMax numThreads resizer pending =>
      cases stepped
      exact .call _ _ _ (.storesMax numThreads resizer pending)
  | resize numThreads resizer pending =>
      simp only [Holder.next] at stepped
      split at stepped
      · cases stepped
        exact .call _ _ _ (.shrinks numThreads resizer pending ‹_›)
      · next below =>
          have room := Nat.le_of_not_lt below
          split at stepped
          · next needed =>
              cases stepped
              refine .call _ _ _ (.grows numThreads resizer pending room ?_)
              simpa using needed
          · next enough =>
              cases stepped
              simp only [not_or, Nat.not_lt, Nat.le_zero, Bool.not_eq_true', Bool.not_eq_false,
                List.isEmpty_iff] at enough
              obtain ⟨rfl, unobserved, enough⟩ := enough
              exact .call _ _ _ (.keepsSize numThreads resizer room unobserved enough)
  | removeThreads removal n =>
      cases stepped
      exact .removal removal n _ _ _ .storesIsJoin
  | stopThreads removal n =>
      cases stepped
      exact .removal removal n _ _ _ .raisesToStop
  | enqueuePoison removal n count =>
      cases count with
      | zero =>
          cases removal with
          | setNumThreads numThreads resizer =>
              cases stepped
              exact .call _ _ _ (.poisonedResize numThreads resizer n)
          | shutdown isJoin =>
              cases stepped
              exact .call _ _ _ (.poisonedShutdown isJoin n)
      | succ count =>
          simp only [Holder.next] at stepped
          split at stepped
          · cases stepped
            exact .removal removal n _ _ _ (.enqueues count _ ‹_›)
          · next full =>
              cases removal with
              | setNumThreads numThreads resizer =>
                  cases stepped
                  exact .removal _ n _ _ _ (.queueFull count full)
              | shutdown isJoin =>
                  cases stepped
                  exact .removal _ n _ _ _ (.queueFull count full)
  | postPoison removal n count =>
      cases stepped
      exact .removal removal n _ _ _ (.posts count)
  | addThreads count newThreads active next =>
      cases count with
      | zero =>
          cases stepped
          exact .call _ _ _ (.startedAll newThreads active next)
      | succ count =>
          cases stepped
          exact .call _ _ _ (.startsThread count newThreads active next)
  | storeActive active next =>
      cases stepped
      exact .call _ _ _ (.storesActive active next)
  | stopMax isJoin =>
      cases stepped
      exact .call _ _ _ (.clearsMax isJoin)
  | stopActive isJoin =>
      cases stepped
      exact .call _ _ _ (.clearsActive isJoin)
  | collectToJoin isJoin n =>
      cases stepped
      exact .call _ _ _ (.collectsToJoin isJoin n)
  | collectJoined ensurer =>
      cases stepped
      exact .call _ _ _ (.collectsJoined ensurer)
  | ensureActive ensurer =>
      simp only [Holder.next] at stepped
      split at stepped <;> cases stepped
      · exact .call _ _ _ (.enoughActive ensurer ‹_›)
      · exact .call _ _ _ (.tooFewActive ensurer (Nat.lt_of_not_le ‹_›))
  | addObserver observer =>
      cases stepped
      exact .call _ _ _ (.addsObserver observer)
  | removeObserver observer =>
      cases stepped
      exact .call _ _ _ (.removesObserver observer)

end ThreadPoolExec.CPUThreadPoolExecutor
