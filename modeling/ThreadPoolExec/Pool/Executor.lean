import ThreadPoolExec.Interleaving
import ThreadPoolExec.Pool.TaskQueue

/-!
# The thread pool

Workers and calls are agents. Whoever holds `threadListLock_` for writing is
kept beside the lock, with its place in the critical section, so there is one
holder at a time; everybody else goes on while it moves. Each step makes at
most one access that others can see: an atomic load or store, a queue or
semaphore operation, or a change that only the lock lets others see.
-/

set_option autoImplicit false

namespace ThreadPoolExec.CPUThreadPoolExecutor

open Interleaving

/-! ## ThreadList -/

/-- `ThreadList::add` inserts at the lower bound. -/
def ThreadList.add (vec : List Nat) (thread : Nat) : List Nat :=
  vec.takeWhile (· < thread) ++ thread :: vec.dropWhile (· < thread)

/-- `ThreadList::remove`, unless one of its checks fails. -/
def ThreadList.remove (vec : List Nat) (thread : Nat) : Option (List Nat) :=
  match vec.dropWhile (· < thread) with
  | [] => none
  | found :: rest =>
      if found = thread ∧ rest.head? ≠ some thread then
        some (vec.takeWhile (· < thread) ++ rest)
      else none

/-! ## Agents -/

inductive Worker where
  | tryTakeFor (take : Take)
  -- waits for the lock with no task, or with a poison task
  | stopping (task : Option CPUTask)
  | taken (task : Nat)
  -- runTask: until it sets `idle` again, and the callbacks after that
  | runTask (task : Nat)
  | taskStatsCallbacks
  -- threadsToStop_ > 0 && !isJoin_
  | loadToStop
  | loadIsJoin
  | decrementing
deriving DecidableEq, Repr

/-- Who calls `ensureActiveThreads`: an add with its task, or the loop of
`ensureMaxActiveThreads`. -/
inductive Ensurer where
  | add (task : Nat)
  | observer
deriving DecidableEq, Repr

/-- Who calls `setNumThreads`: a client, or the constructor, with
`numThreads.second`. -/
inductive Resizer where
  | client
  | constructor (second : Nat)
deriving DecidableEq, Repr

/-- Who calls `joinStoppedThreads`. -/
inductive Joiner where
  | ensureJoined (ensurer : Ensurer)
  | setNumThreads (resizer : Resizer)
  | shutdown (isJoin : Bool)
deriving DecidableEq, Repr

/-- Where a call is that does not hold the lock. A call of `stop` or `join`
and a call that threw stay to be seen when they have ended. -/
inductive Call where
  -- addImpl
  | loadMin (task : Nat) (priority : Int8)
  | loadActive (task : Nat) (priority : Int8)
  | loadMax (task : Nat) (priority : Int8) (active : Nat)
  | getKeepAliveToken (task : Nat) (priority : Int8)
  | enqueue (task : Nat) (priority : Int8) (mayNeedToAddThreads : Bool)
  | post (task : Nat) (mayNeedToAddThreads : Bool)
  | keepAliveRelease (task : Nat)
  -- ensureJoined and ensureActiveThreads
  | ensureJoined (ensurer : Ensurer)
  | ensureJoinedLock (ensurer : Ensurer)
  | ensureActive (ensurer : Ensurer)
  | ensureActiveMax (ensurer : Ensurer) (active : Nat)
  | ensureActiveLock (ensurer : Ensurer)
  -- ensureMaxActiveThreads
  | maxActive
  | maxActiveMax (active : Nat)
  | setNumThreads (numThreads : Nat) (resizer : Resizer)
  | joinStoppedThreads (n : Nat) (joiner : Joiner)
  -- stop and join
  | joinKeepAliveOnce (isJoin : Bool)
  | keepAliveWait (isJoin : Bool)
  | shutdown (isJoin : Bool)
  | checkThreadList (isJoin : Bool)
  | checkStopped (isJoin : Bool)
  | shutDown (isJoin : Bool)
  -- the end of the constructor
  | storeMin (second : Nat)
  | addObserver (observer : Nat)
  | removeObserver (observer : Nat)
  | queueFull
  | checkFailed
deriving DecidableEq, Repr

/-- What `removeThreads` is called for. -/
inductive Removal where
  | setNumThreads (numThreads : Nat) (resizer : Resizer)
  | shutdown (isJoin : Bool)
deriving DecidableEq, Repr

def Removal.isJoin : Removal → Bool
  | .setNumThreads _ _ => false
  | .shutdown isJoin => isJoin

/-- Where the holder of `threadListLock_` is. -/
inductive Holder where
  -- threadRun, with taskShouldStop and tryTimeoutThread
  | taskShouldStop (thread : Nat) (task : Option CPUTask)
  | minActive (thread : Nat)
  | decrActive (thread : Nat)
  | pendingAfterTimeout (thread index pending : Nat)
  | stopThread (thread : Nat) (observed : Bool)
  | tryDecrToStop (thread : Nat)
  -- setNumThreads
  | getPending (numThreads : Nat) (resizer : Resizer) (index pending : Nat)
  | storeMax (numThreads : Nat) (resizer : Resizer) (pending : Nat)
  | resize (numThreads : Nat) (resizer : Resizer) (pending : Nat)
  -- removeThreads and stopThreads
  | removeThreads (removal : Removal) (n : Nat)
  | stopThreads (removal : Removal) (n : Nat)
  | enqueuePoison (removal : Removal) (n left : Nat)
  | postPoison (removal : Removal) (n left : Nat)
  -- addThreads
  | addThreads (left : Nat) (newThreads : List Nat) (active : Nat) (next : Call)
  | storeActive (active : Nat) (next : Call)
  -- stop and join
  | stopMax (isJoin : Bool)
  | stopActive (isJoin : Bool)
  | collectToJoin (isJoin : Bool) (n : Nat)
  -- ensureJoined and ensureActiveThreads
  | collectJoined (ensurer : Ensurer)
  | ensureActive (ensurer : Ensurer)
  | addObserver (observer : Nat)
  | removeObserver (observer : Nat)
deriving DecidableEq, Repr

inductive Agent where
  | worker (thread : Nat) (at_ : Worker)
  | call (at_ : Call)
deriving DecidableEq, Repr

inductive Event where
  | threadStarted
  | threadStopped
  | threadPreviouslyStarted
  | threadNotYetStopped
deriving DecidableEq, Repr

structure Notice where
  observer : Nat
  event : Event
  thread : Nat
deriving DecidableEq, Repr

/-- The counters that decide how many threads there are. -/
structure Sizing where
  maxThreads : Nat
  minThreads : Nat
  activeThreads : Nat
  threadsToStop : Nat
  isJoin : Bool
deriving DecidableEq, Repr

/-- What a run leaves to be told of it. Tasks have numbers: `returned` are
those whose add has returned, `ran` those handed to `runTask`, `awaited` those
that `stop` or `join` found returned when it was called. `poisonTaken` tells
that a worker has taken a poison task of `join`. `atLock` are the counters as
the holder found them. `overhang` and `forgone` are stops that were asked for
without an active thread to go, and without a caller to join it. -/
structure History where
  nextTask : Nat := 0
  returned : List Nat := []
  ran : List Nat := []
  shutdownCalled : Bool := false
  awaited : List Nat := []
  poisonTaken : Bool := false
  atLock : Sizing := ⟨0, 0, 0, 0, false⟩
  overhang : Nat := 0
  forgone : Nat := 0
deriving DecidableEq, Repr

structure Memory where
  tasks : Tasks
  maxThreads : Nat := 0
  minThreads : Nat
  activeThreads : Nat := 0
  threadsToJoin : Nat := 0
  threadsToStop : Nat := 0
  isJoin : Bool := false
  threadList : List Nat := []
  stoppedThreads : List Nat := []
  nextId : Nat := 0
  observers : List Nat := []
  notices : List Notice := []
  threadListLock : Option Holder := none
  keepAliveCount : Nat := 1
  keepAliveJoined : Bool := false
  constructed : Bool := false
  history : History := {}
deriving DecidableEq, Repr

namespace Memory

variable (memory : Memory)

def sizing : Memory → Sizing := fun memory =>
  ⟨memory.maxThreads, memory.minThreads, memory.activeThreads, memory.threadsToStop,
    memory.isJoin⟩

/-- Take the lock if it is free. -/
def lock (holder : Holder) : Option (Memory × List Agent) :=
  match memory.threadListLock with
  | none =>
      some ({ memory with
          threadListLock := some holder
          history := { memory.history with atLock := memory.sizing } }, [])
  | some _ => none

/-- Go on with the lock. -/
def hold (holder : Holder) : Option (Memory × List Agent) :=
  some ({ memory with threadListLock := some holder }, [])

def unlock (agents : List Agent) : Option (Memory × List Agent) :=
  some ({ memory with threadListLock := none }, agents)

/-- An add returns. -/
def addReturns (task : Nat) : Memory :=
  { memory with history := { memory.history with returned := task :: memory.history.returned } }

def notify (observers threads : List Nat) (event : Event) : Memory :=
  { memory with
    notices := memory.notices ++
      observers.flatMap fun observer => threads.map fun thread => ⟨observer, event, thread⟩ }

end Memory

/-- The head of the loop in `threadRun`. -/
def loopHead (queue : TaskQueue) (thread : Nat) : Agent :=
  .worker thread (.tryTakeFor (.start queue))

/-- Where the caller of `ensureActiveThreads` goes on. -/
def Ensurer.next : Ensurer → Call
  | .add task => .keepAliveRelease task
  | .observer => .maxActive

/-- Where the caller of `joinStoppedThreads` goes on. -/
def Joiner.next : Joiner → List Agent
  | .ensureJoined ensurer => [.call (.ensureActive ensurer)]
  | .setNumThreads .client => []
  | .setNumThreads (.constructor second) => [.call (.storeMin second)]
  | .shutdown isJoin => [.call (.checkThreadList isJoin)]

/-- The place in a critical section that a waiting agent will have. -/
def Agent.wants : Agent → Option Holder
  | .worker thread (.stopping task) => some (.taskShouldStop thread task)
  | .worker thread .decrementing => some (.tryDecrToStop thread)
  | .call (.ensureJoinedLock ensurer) => some (.collectJoined ensurer)
  | .call (.ensureActiveLock ensurer) => some (.ensureActive ensurer)
  | .call (.setNumThreads numThreads resizer) => some (.getPending numThreads resizer 0 0)
  | .call (.shutdown isJoin) => some (.stopMax isJoin)
  | .call (.addObserver observer) => some (.addObserver observer)
  | .call (.removeObserver observer) => some (.removeObserver observer)
  | _ => none

/-- A worker has come back from `try_take_for`. -/
def Memory.taken (memory : Memory) (thread : Nat) : Option CPUTask → Memory × List Agent
  | none => (memory, [.worker thread (.stopping none)])
  | some (.poison byJoin) =>
      ({ memory with
          history := { memory.history with
            poisonTaken := memory.history.poisonTaken || byJoin } },
        [.worker thread (.stopping (some (.poison byJoin)))])
  | some (.func task) => (memory, [.worker thread (.taken task)])

/-- One step of a worker outside the lock. -/
def Worker.next (queue : TaskQueue) (choice : CountingSemaphore.Ending) (memory : Memory)
    (thread : Nat) : Worker → Option (Memory × List Agent)
  | .tryTakeFor take =>
      match take.next queue choice memory.tasks with
      | none => none
      | some (tasks, .inl take) =>
          some ({ memory with tasks := tasks }, [.worker thread (.tryTakeFor take)])
      | some (tasks, .inr task) => some ({ memory with tasks := tasks }.taken thread task)
  | .taken task =>
      some ({ memory with
          history := { memory.history with ran := task :: memory.history.ran } },
        [.worker thread (.runTask task)])
  | .runTask _ => some (memory, [.worker thread .taskStatsCallbacks])
  | .taskStatsCallbacks => some (memory, [.worker thread .loadToStop])
  | .loadToStop =>
      if 0 < memory.threadsToStop then some (memory, [.worker thread .loadIsJoin])
      else some (memory, [loopHead queue thread])
  | .loadIsJoin =>
      if memory.isJoin then some (memory, [loopHead queue thread])
      else some (memory, [.worker thread .decrementing])
  | .stopping _ | .decrementing => none

/-- One step of a call outside the lock. A token is only made while there is
one, as `keepAliveAcquire` checks. -/
def Call.next (queue : TaskQueue) (choice : CountingSemaphore.Ending) (memory : Memory) :
    Call → Option (Memory × List Agent)
  | .loadMin task priority =>
      if memory.minThreads = 0 then some (memory, [.call (.getKeepAliveToken task priority)])
      else some (memory, [.call (.loadActive task priority)])
  | .loadActive task priority =>
      some (memory, [.call (.loadMax task priority memory.activeThreads)])
  | .loadMax task priority active =>
      if active < memory.maxThreads then
        some (memory, [.call (.getKeepAliveToken task priority)])
      else some (memory, [.call (.enqueue task priority false)])
  | .getKeepAliveToken task priority =>
      if 0 < memory.keepAliveCount then
        some ({ memory with keepAliveCount := memory.keepAliveCount + 1 },
          [.call (.enqueue task priority true)])
      else some (memory, [.call .checkFailed])
  | .enqueue task priority mayNeedToAddThreads =>
      match memory.tasks.enqueue queue (queue.level priority) (.func task) with
      | some tasks =>
          some ({ memory with tasks := tasks }, [.call (.post task mayNeedToAddThreads)])
      | none =>
          -- the exception releases the token
          some ({ memory with
              keepAliveCount :=
                if mayNeedToAddThreads then memory.keepAliveCount - 1
                else memory.keepAliveCount },
            [.call .queueFull])
  | .post task mayNeedToAddThreads =>
      let (tasks, reusedThread) := memory.tasks.post (choice = .handoff)
      if mayNeedToAddThreads then
        if reusedThread then
          some ({ memory with tasks := tasks }, [.call (.keepAliveRelease task)])
        else some ({ memory with tasks := tasks }, [.call (.ensureJoined (.add task))])
      else some ({ memory with tasks := tasks }.addReturns task, [])
  | .keepAliveRelease task =>
      some ({ memory with keepAliveCount := memory.keepAliveCount - 1 }.addReturns task, [])
  | .ensureJoined ensurer =>
      if memory.threadsToJoin = 0 then some (memory, [.call (.ensureActive ensurer)])
      else some (memory, [.call (.ensureJoinedLock ensurer)])
  | .ensureActive ensurer =>
      some (memory, [.call (.ensureActiveMax ensurer memory.activeThreads)])
  | .ensureActiveMax ensurer active =>
      if memory.maxThreads ≤ active then some (memory, [.call ensurer.next])
      else some (memory, [.call (.ensureActiveLock ensurer)])
  | .maxActive => some (memory, [.call (.maxActiveMax memory.activeThreads)])
  | .maxActiveMax active =>
      if active < memory.maxThreads then some (memory, [.call (.ensureJoined .observer)])
      else some (memory, [])
  | .joinStoppedThreads 0 joiner => some (memory, joiner.next)
  | .joinStoppedThreads (n + 1) joiner =>
      match memory.stoppedThreads with
      | [] => none
      | _ :: rest =>
          some ({ memory with stoppedThreads := rest }, [.call (.joinStoppedThreads n joiner)])
  | .joinKeepAliveOnce isJoin =>
      if memory.keepAliveJoined then some (memory, [.call (.shutdown isJoin)])
      else
        some ({ memory with
            keepAliveJoined := true
            keepAliveCount := memory.keepAliveCount - 1 }, [.call (.keepAliveWait isJoin)])
  | .keepAliveWait isJoin =>
      if memory.keepAliveCount = 0 then some (memory, [.call (.shutdown isJoin)]) else none
  | .checkThreadList isJoin =>
      if memory.threadList.length = 0 then some (memory, [.call (.checkStopped isJoin)])
      else some (memory, [.call .checkFailed])
  | .checkStopped isJoin =>
      if memory.stoppedThreads.length = 0 then some (memory, [.call (.shutDown isJoin)])
      else some (memory, [.call .checkFailed])
  | .storeMin second =>
      some ({ memory with
          minThreads := if second = 0 then 1 else memory.minThreads
          constructed := true }, [])
  | .ensureJoinedLock _ | .ensureActiveLock _ | .setNumThreads _ _ | .shutdown _
  | .addObserver _ | .removeObserver _ | .shutDown _ | .queueFull | .checkFailed => none

def act (queue : TaskQueue) (choice : CountingSemaphore.Ending) (memory : Memory)
    (agent : Agent) : Option (Memory × List Agent) :=
  match agent.wants with
  | some holder => memory.lock holder
  | none =>
      match agent with
      | .worker thread worker => worker.next queue choice memory thread
      | .call call => call.next queue choice memory

/-! ## Critical sections -/

/-- What follows the last poison task. -/
def Memory.poisoned (memory : Memory) (n : Nat) : Removal → Option (Memory × List Agent)
  | .setNumThreads numThreads resizer =>
      memory.hold (.storeActive numThreads (.joinStoppedThreads n (.setNumThreads resizer)))
  | .shutdown isJoin => memory.hold (.collectToJoin isJoin n)

/-- `QueueFullException` leaves a call that was to stop a number of threads. -/
def Memory.throwQueueFull (memory : Memory) (n : Nat) (removal : Removal) :
    Option (Memory × List Agent) :=
  let history := { memory.history with forgone := memory.history.forgone + n }
  match removal with
  | .setNumThreads _ _ =>
      { memory with history := { history with overhang := history.overhang + n } }.unlock
        [.call .queueFull]
  | .shutdown _ => { memory with history := history }.unlock [.call .queueFull]

/-- The number of threads that `setNumThreads` adds. -/
def numToAdd (numThreads active minthreads pending : Nat) (observed : Bool) : Nat :=
  let numToAdd := if observed then numThreads - active else min pending (numThreads - active)
  if active + numToAdd < minthreads then minthreads - active else numToAdd

/-- One step of the holder of the lock. -/
def Holder.next (queue : TaskQueue) (wake : Bool) (memory : Memory) :
    Holder → Option (Memory × List Agent)
  | .taskShouldStop thread task =>
      if 0 < memory.threadsToStop then
        { memory with threadsToStop := memory.threadsToStop - 1 }.hold (.stopThread thread true)
      else if task.isSome then memory.unlock [loopHead queue thread]
      else memory.hold (.minActive thread)
  | .minActive thread =>
      if memory.minThreads < memory.activeThreads then memory.hold (.decrActive thread)
      else memory.unlock [loopHead queue thread]
  | .decrActive thread =>
      { memory with activeThreads := memory.activeThreads - 1 }.hold
        (.pendingAfterTimeout thread 0 0)
  | .pendingAfterTimeout thread index pending =>
      if index < queue.getNumPriorities then
        memory.hold (.pendingAfterTimeout thread (index + 1)
          (pending + memory.tasks.sizeAt queue index))
      else if 0 < pending then
        { memory with activeThreads := memory.activeThreads + 1 }.unlock [loopHead queue thread]
      else
        { memory with threadsToJoin := memory.threadsToJoin + 1 }.hold (.stopThread thread true)
  | .stopThread thread observed =>
      match ThreadList.remove memory.threadList thread with
      | none => none
      | some threadList =>
          ({ memory with
              threadList := threadList
              stoppedThreads := memory.stoppedThreads ++ [thread] }.notify
            (if observed then memory.observers else []) [thread] .threadStopped).unlock []
  | .tryDecrToStop thread =>
      if 0 < memory.threadsToStop then
        { memory with threadsToStop := memory.threadsToStop - 1 }.hold (.stopThread thread false)
      else memory.unlock [loopHead queue thread]
  | .getPending numThreads resizer index pending =>
      if index < queue.getNumPriorities then
        memory.hold (.getPending numThreads resizer (index + 1)
          (pending + memory.tasks.sizeAt queue index))
      else memory.hold (.storeMax numThreads resizer pending)
  | .storeMax numThreads resizer pending =>
      { memory with maxThreads := numThreads }.hold (.resize numThreads resizer pending)
  | .resize numThreads resizer pending =>
      let active := memory.activeThreads
      let minthreads := min memory.minThreads numThreads
      let observed := !memory.observers.isEmpty
      let resized := { memory with minThreads := minthreads }
      let next := .joinStoppedThreads 0 (.setNumThreads resizer)
      if numThreads < active then
        resized.hold (.removeThreads (.setNumThreads numThreads resizer) (active - numThreads))
      else if 0 < pending ∨ observed ∨ active < minthreads then
        resized.hold
          (.addThreads (numToAdd numThreads active minthreads pending observed) [] active next)
      else resized.unlock [.call next]
  | .removeThreads removal n =>
      { memory with isJoin := removal.isJoin }.hold (.stopThreads removal n)
  | .stopThreads removal n =>
      { memory with threadsToStop := memory.threadsToStop + n }.hold (.enqueuePoison removal n n)
  | .enqueuePoison removal n 0 => memory.poisoned n removal
  | .enqueuePoison removal n (left + 1) =>
      match memory.tasks.enqueue queue queue.poisonLevel (.poison removal.isJoin) with
      | some tasks => { memory with tasks := tasks }.hold (.postPoison removal n left)
      | none => memory.throwQueueFull n removal
  | .postPoison removal n left =>
      { memory with tasks := (memory.tasks.post wake).1 }.hold (.enqueuePoison removal n left)
  | .addThreads 0 newThreads active next =>
      (memory.notify memory.observers newThreads .threadStarted).hold
        (.storeActive (active + newThreads.length) next)
  | .addThreads (left + 1) newThreads active next =>
      some ({ memory with
          nextId := memory.nextId + 1
          threadList := ThreadList.add memory.threadList memory.nextId
          threadListLock :=
            some (.addThreads left (newThreads ++ [memory.nextId]) active next) },
        [loopHead queue memory.nextId])
  | .storeActive active next =>
      { memory with activeThreads := active }.unlock [.call next]
  | .stopMax isJoin => { memory with maxThreads := 0 }.hold (.stopActive isJoin)
  | .stopActive isJoin =>
      { memory with
        activeThreads := 0
        history := { memory.history with overhang := memory.threadsToStop } }.hold
          (.removeThreads (.shutdown isJoin) memory.threadList.length)
  | .collectToJoin isJoin n =>
      { memory with threadsToJoin := 0 }.unlock
        [.call (.joinStoppedThreads (n + memory.threadsToJoin) (.shutdown isJoin))]
  | .collectJoined ensurer =>
      { memory with threadsToJoin := 0 }.unlock
        [.call (.joinStoppedThreads memory.threadsToJoin (.ensureJoined ensurer))]
  | .ensureActive ensurer =>
      if memory.maxThreads ≤ memory.activeThreads then memory.unlock [.call ensurer.next]
      else memory.hold (.addThreads 1 [] memory.activeThreads ensurer.next)
  | .addObserver observer =>
      ({ memory with observers := memory.observers ++ [observer] }.notify [observer]
        memory.threadList .threadPreviouslyStarted).unlock [.call .maxActive]
  | .removeObserver observer =>
      ({ memory with observers := memory.observers.erase observer }.notify [observer]
        memory.threadList .threadNotYetStopped).unlock []

/-! ## The system -/

inductive Operation where
  | add (priority : Int8)
  | setNumThreads (numThreads : Nat)
  | shutdown (isJoin : Bool)
  | addObserver (observer : Nat)
  | removeObserver (observer : Nat)
deriving DecidableEq, Repr

def Memory.invoke (memory : Memory) : Operation → Memory × List Agent
  | .add priority =>
      ({ memory with
          history := { memory.history with nextTask := memory.history.nextTask + 1 } },
        [.call (.loadMin memory.history.nextTask priority)])
  | .setNumThreads numThreads => (memory, [.call (.setNumThreads numThreads .client)])
  | .shutdown isJoin =>
      ({ memory with
          history := { memory.history with
            shutdownCalled := true
            awaited := memory.history.returned } },
        [.call (.joinKeepAliveOnce isJoin)])
  | .addObserver observer => (memory, [.call (.addObserver observer)])
  | .removeObserver observer => (memory, [.call (.removeObserver observer)])

/-- A client makes a call, or the holder of the lock goes on. -/
inductive Move where
  | invoke (operation : Operation)
  | hold (wake : Bool)
deriving DecidableEq, Repr

def env (queue : TaskQueue) (memory : Memory) : Move → Option (Memory × List Agent)
  | .invoke operation => if memory.constructed then some (memory.invoke operation) else none
  | .hold wake =>
      match memory.threadListLock with
      | none => none
      | some holder => holder.next queue wake memory

/-- The constructor runs first, with `numThreads` as its pair. -/
def system (queue : TaskQueue) (numThreads : Nat × Nat) :
    System Memory Agent CountingSemaphore.Ending Move where
  init := ⟨{ tasks := queue.empty, minThreads := numThreads.2 },
    [.call (.setNumThreads numThreads.1 (.constructor numThreads.2))]⟩
  act choice memory agent := act queue choice memory agent
  env move memory := env queue memory move

end ThreadPoolExec.CPUThreadPoolExecutor
