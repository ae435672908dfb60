import Mathlib.Logic.Function.Basic
import ThreadPoolExec.Pool.Accounting

/-!
# Pool statistics

`getPoolStats` loads the idle flags of the listed threads one by one, while the
workers go on. It keeps `threadListLock_` for reading, so the list and the
counters stay, but a worker that has ended its task sets its flag again before
it comes to the lock. A resize stores `activeThreads_` before the workers have
left.
-/

set_option autoImplicit false

namespace ThreadPoolExec.GetPoolStats

open Interleaving
open CPUThreadPoolExecutor (TaskQueue Worker frontActs held)

/-- A difference of `size_t`, which wraps around. -/
def sizeSub (minuend subtrahend : Nat) : Nat :=
  if subtrahend ≤ minuend then minuend - subtrahend else minuend + 2 ^ 64 - subtrahend

structure PoolStats where
  threadCount : Nat := 0
  idleThreadCount : Nat := 0
  activeThreadCount : Nat := 0
  pendingTaskCount : Nat := 0
  totalTaskCount : Nat := 0
deriving DecidableEq, Repr

/-- Where a call is, with its locals. One that has returned tells what it
subtracted. -/
inductive Reader where
  | readHolder
  | loop (activeTasks idleAlive index : Nat)
  | getPendingTaskCount (activeTasks idleAlive index pending : Nat)
  | loadMax (idleAlive : Nat) (stats : PoolStats)
  | loadActive (idleAlive : Nat) (stats : PoolStats)
  | returned (idleAlive activeThreads : Nat) (stats : PoolStats)
deriving DecidableEq, Repr

inductive Agent where
  | pool (agent : CPUThreadPoolExecutor.Agent)
  | reader (number : Nat) (at_ : Reader)
deriving DecidableEq, Repr

def Agent.pool? : Agent → Option CPUThreadPoolExecutor.Agent
  | .pool agent => some agent
  | .reader _ _ => none

structure Memory where
  pool : CPUThreadPoolExecutor.Memory
  idle : Nat → Bool := fun _ => true
  readers : Nat := 0
  nextReader : Nat := 0

/-- `runTask` clears the flag of its thread when it begins, and sets it before
it calls the callbacks for task statistics. -/
def storeIdle (idle : Nat → Bool) : CPUThreadPoolExecutor.Agent → Nat → Bool
  | .worker thread (.taken _) => Function.update idle thread false
  | .worker thread (.runTask _) => Function.update idle thread true
  | _ => idle

/-- One step of `getPoolStats`. -/
def Reader.next (queue : TaskQueue) (memory : Memory) : Reader → Option (Memory × Reader)
  | .readHolder =>
      match memory.pool.threadListLock with
      | some _ => none
      | none => some ({ memory with readers := memory.readers + 1 }, .loop 0 0 0)
  | .loop activeTasks idleAlive index =>
      match memory.pool.threadList[index]? with
      | some thread =>
          if memory.idle thread then some (memory, .loop activeTasks (idleAlive + 1) (index + 1))
          else some (memory, .loop (activeTasks + 1) idleAlive (index + 1))
      | none => some (memory, .getPendingTaskCount activeTasks idleAlive 0 0)
  | .getPendingTaskCount activeTasks idleAlive index pending =>
      if index < queue.getNumPriorities then
        some (memory, .getPendingTaskCount activeTasks idleAlive (index + 1)
          (pending + memory.pool.tasks.sizeAt queue index))
      else
        some (memory, .loadMax idleAlive
          { pendingTaskCount := pending, totalTaskCount := pending + activeTasks })
  | .loadMax idleAlive stats =>
      some (memory, .loadActive idleAlive { stats with threadCount := memory.pool.maxThreads })
  | .loadActive idleAlive stats =>
      let activeThreadCount := sizeSub memory.pool.activeThreads idleAlive
      some ({ memory with readers := memory.readers - 1 },
        .returned idleAlive memory.pool.activeThreads
          { stats with
            activeThreadCount
            idleThreadCount := sizeSub stats.threadCount activeThreadCount })
  | .returned _ _ _ => none

/-- One step of an agent. Whoever wants the lock for writing waits for the
readers. -/
def act (queue : TaskQueue) (choice : CountingSemaphore.Ending) (memory : Memory) :
    Agent → Option (Memory × List Agent)
  | .pool agent =>
      if agent.wants.isSome ∧ 0 < memory.readers then none
      else
        (CPUThreadPoolExecutor.act queue choice memory.pool agent).map fun moved =>
          ({ memory with pool := moved.1, idle := storeIdle memory.idle agent },
            moved.2.map .pool)
  | .reader number at_ =>
      (at_.next queue memory).map fun moved => (moved.1, [.reader number moved.2])

inductive Move where
  | pool (move : CPUThreadPoolExecutor.Move)
  | getPoolStats
deriving DecidableEq, Repr

def env (queue : TaskQueue) (memory : Memory) : Move → Option (Memory × List Agent)
  | .pool move =>
      (CPUThreadPoolExecutor.env queue memory.pool move).map fun moved =>
        ({ memory with pool := moved.1 }, moved.2.map .pool)
  | .getPoolStats =>
      if memory.pool.constructed then
        some ({ memory with nextReader := memory.nextReader + 1 },
          [.reader memory.nextReader .readHolder])
      else none

def system (queue : TaskQueue) (numThreads : Nat × Nat) :
    System Memory Agent CountingSemaphore.Ending Move where
  init :=
    ⟨{ pool := (CPUThreadPoolExecutor.system queue numThreads).init.shared },
      (CPUThreadPoolExecutor.system queue numThreads).init.agents.map .pool⟩
  act choice memory agent := act queue choice memory agent
  env move memory := env queue memory move

/-! ## What is asked of a call -/

/-- Neither subtraction underflows. -/
structure NoWrap (idleAlive activeThreads : Nat) (stats : PoolStats) : Prop where
  idleAlive : idleAlive ≤ activeThreads
  activeThreadCount : stats.activeThreadCount ≤ stats.threadCount
  idleThreadCount : stats.activeThreadCount + stats.idleThreadCount = stats.threadCount

/-- A stop has still to be obeyed, apart from those asked for in excess of the
threads there are. -/
def StopOwed (pool : CPUThreadPoolExecutor.Memory) : Prop :=
  pool.history.overhang < pool.threadsToStop

instance (pool : CPUThreadPoolExecutor.Memory) : Decidable (StopOwed pool) :=
  inferInstanceAs (Decidable (pool.history.overhang < pool.threadsToStop))

def Agent.takesReadLock : Agent → Bool
  | .reader _ .readHolder => true
  | _ => false

/-- The agent that a move is a step of. -/
def moving (state : Global Memory Agent) :
    Label CountingSemaphore.Ending Move → Option Agent
  | .act index _ => state.agents[index]?
  | .env _ => none

/-- No call takes the lock while a stop is owed. -/
def noStopOwed (state : Global Memory Agent) (label : Label CountingSemaphore.Ending Move) :
    Prop :=
  ∀ agent ∈ moving state label, agent.takesReadLock = true → ¬StopOwed state.shared.pool

instance (state : Global Memory Agent) (label : Label CountingSemaphore.Ending Move) :
    Decidable (noStopOwed state label) :=
  inferInstanceAs (Decidable (∀ agent ∈ moving state label,
    agent.takesReadLock = true → ¬StopOwed state.shared.pool))

/-! ## The pool goes on beside the calls -/

section Pool

variable {queue : TaskQueue} {choice : CountingSemaphore.Ending} {memory after : Memory}
  {left : List Agent}

theorem act_pool {agent : CPUThreadPoolExecutor.Agent}
    (acted : act queue choice memory (.pool agent) = some (after, left)) :
    ∃ pool next, CPUThreadPoolExecutor.act queue choice memory.pool agent = some (pool, next) ∧
      (agent.wants.isSome = true → memory.readers = 0) ∧
      after = { memory with pool, idle := storeIdle memory.idle agent } ∧
      left = next.map .pool := by
  simp only [act] at acted
  split at acted
  · cases acted
  · next waits =>
      obtain ⟨⟨pool, next⟩, stepped, same⟩ := Option.map_eq_some_iff.mp acted
      cases same
      refine ⟨pool, next, stepped, fun wants => ?_, rfl, rfl⟩
      exact Nat.eq_zero_of_not_pos fun reading => waits ⟨wants, reading⟩

theorem act_reader {number : Nat} {at_ : Reader}
    (acted : act queue choice memory (.reader number at_) = some (after, left)) :
    ∃ next, at_.next queue memory = some (after, next) ∧ left = [.reader number next] := by
  obtain ⟨⟨moved, next⟩, stepped, same⟩ := Option.map_eq_some_iff.mp acted
  cases same
  exact ⟨next, stepped, rfl⟩

theorem env_pool {move : CPUThreadPoolExecutor.Move}
    (moved : env queue memory (.pool move) = some (after, left)) :
    ∃ pool next, CPUThreadPoolExecutor.env queue memory.pool move = some (pool, next) ∧
      after = { memory with pool } ∧ left = next.map .pool := by
  obtain ⟨⟨pool, next⟩, stepped, same⟩ := Option.map_eq_some_iff.mp moved
  cases same
  exact ⟨pool, next, stepped, rfl, rfl⟩

theorem reader_pool {at_ next : Reader} (stepped : at_.next queue memory = some (after, next)) :
    after.pool = memory.pool ∧ after.idle = memory.idle := by
  cases at_ with
  | readHolder =>
      simp only [Reader.next] at stepped
      split at stepped <;> cases stepped
      exact ⟨rfl, rfl⟩
  | loop activeTasks idleAlive index =>
      simp only [Reader.next] at stepped
      split at stepped
      · split at stepped <;> cases stepped <;> exact ⟨rfl, rfl⟩
      · cases stepped
        exact ⟨rfl, rfl⟩
  | getPendingTaskCount activeTasks idleAlive index pending =>
      simp only [Reader.next] at stepped
      split at stepped <;> cases stepped <;> exact ⟨rfl, rfl⟩
  | loadMax idleAlive stats =>
      cases stepped
      exact ⟨rfl, rfl⟩
  | loadActive idleAlive stats =>
      cases stepped
      exact ⟨rfl, rfl⟩
  | returned idleAlive activeThreads stats => cases stepped

private theorem filterMap_pool (agents : List CPUThreadPoolExecutor.Agent) :
    (agents.map Agent.pool).filterMap Agent.pool? = agents := by
  rw [List.filterMap_map]
  exact List.filterMap_some

/-- The calls do not change what the pool does. -/
theorem hosts (queue : TaskQueue) (numThreads : Nat × Nat) :
    (system queue numThreads).Hosts (CPUThreadPoolExecutor.system queue numThreads)
      Memory.pool Agent.pool? where
  init := rfl
  act {choice memory after agent left} acted := by
    cases agent with
    | pool agent =>
        obtain ⟨pool, next, stepped, -, rfl, rfl⟩ := act_pool acted
        refine .inr ⟨agent, choice, rfl, ?_⟩
        rw [filterMap_pool]
        exact stepped
    | reader number at_ =>
        obtain ⟨next, stepped, rfl⟩ := @act_reader _ choice _ _ _ _ _ acted
        exact .inl ⟨rfl, (reader_pool stepped).1, rfl⟩
  env {move memory after left} moved := by
    cases move with
    | pool move =>
        obtain ⟨pool, next, stepped, rfl, rfl⟩ := env_pool moved
        refine .inr ⟨move, ?_⟩
        rw [filterMap_pool]
        exact stepped
    | getPoolStats =>
        simp only [system, env] at moved
        split at moved <;> cases moved
        exact .inl ⟨rfl, rfl⟩

end Pool

/-! ## What a call relies on -/

/-- Whether an agent has the lock for reading. -/
def Agent.reads : Agent → Bool
  | .reader _ .readHolder | .reader _ (.returned _ _ _) => false
  | .reader _ _ => true
  | .pool _ => false

/-- The flags loaded by now are no more than the active threads, with those to
come. -/
def Reader.Fits (pool : CPUThreadPoolExecutor.Memory) : Reader → Prop
  | .readHolder => True
  | .loop _ idleAlive index => idleAlive + (pool.threadList.length - index) ≤ pool.activeThreads
  | .getPendingTaskCount _ idleAlive _ _ | .loadMax idleAlive _ => idleAlive ≤ pool.activeThreads
  | .loadActive idleAlive stats =>
      idleAlive ≤ pool.activeThreads ∧ stats.threadCount = pool.maxThreads
  | .returned idleAlive activeThreads stats => NoWrap idleAlive activeThreads stats

def Agent.Fits (pool : CPUThreadPoolExecutor.Memory) : Agent → Prop
  | .pool _ => True
  | .reader _ at_ => at_.Fits pool

structure Guarded (memory : Memory) (agents : List Agent) : Prop where
  readers : memory.readers = agents.countP Agent.reads
  free : 0 < memory.readers → memory.pool.threadListLock = none
  calls : ∀ agent ∈ agents, agent.Fits memory.pool

/-- What is loaded under the lock stays. -/
structure Same (pool after : CPUThreadPoolExecutor.Memory) : Prop where
  threadList : after.threadList = pool.threadList
  activeThreads : after.activeThreads = pool.activeThreads
  maxThreads : after.maxThreads = pool.maxThreads

section Guarded

variable {queue : TaskQueue} {choice : CountingSemaphore.Ending} {memory after : Memory}
  {pool : CPUThreadPoolExecutor.Memory} {left agents rest : List Agent} {agent : Agent}

theorem sizeSub_of_le {minuend subtrahend : Nat} (le : subtrahend ≤ minuend) :
    sizeSub minuend subtrahend = minuend - subtrahend :=
  if_pos le

theorem Agent.Fits.same (fits : agent.Fits memory.pool) (same : Same memory.pool pool) :
    agent.Fits pool := by
  obtain ⟨threadList, activeThreads, maxThreads⟩ := same
  cases agent with
  | pool agent => trivial
  | reader number at_ =>
      cases at_ with
      | readHolder => trivial
      | returned idleAlive activeThreads stats => exact fits
      | _ =>
          simp only [Agent.Fits, Reader.Fits, threadList, activeThreads, maxThreads] at fits ⊢
          exact fits

theorem Agent.Fits.waiting (fits : agent.Fits memory.pool) (waits : agent.reads = false) :
    agent.Fits pool := by
  cases agent with
  | pool agent => trivial
  | reader number at_ =>
      cases at_ with
      | readHolder => trivial
      | returned idleAlive activeThreads stats => exact fits
      | _ => cases waits

theorem Guarded.perm {others : List Agent} (same : agents.Perm others)
    (guarded : Guarded memory agents) : Guarded memory others := by
  obtain ⟨readers, free, calls⟩ := guarded
  exact ⟨readers.trans (same.countP_eq _), free, fun agent member =>
    calls agent (same.mem_iff.mpr member)⟩

/-- A step of the pool leaves the lock and what it guards to the readers. -/
theorem Guarded.poolStep {idle : Nat → Bool} {before next : List CPUThreadPoolExecutor.Agent}
    (guarded : Guarded memory (before.map .pool ++ rest))
    (kept : 0 < memory.readers → pool.threadListLock = none ∧ Same memory.pool pool) :
    Guarded { memory with pool, idle } (next.map .pool ++ rest) := by
  have none (agents : List CPUThreadPoolExecutor.Agent) :
      (agents.map Agent.pool).countP Agent.reads = 0 :=
    List.countP_eq_zero.mpr fun agent member => by
      obtain ⟨worker, -, rfl⟩ := List.mem_map.mp member
      exact Bool.false_ne_true
  have count : memory.readers = rest.countP Agent.reads := by
    rw [guarded.readers, List.countP_append, none, Nat.zero_add]
  constructor
  case readers => rw [List.countP_append, none, Nat.zero_add, ← count]
  case free => exact fun reading => (kept reading).1
  case calls =>
    intro agent member
    rcases List.mem_append.mp member with own | other
    · obtain ⟨worker, -, rfl⟩ := List.mem_map.mp own
      trivial
    · have fits := guarded.calls agent (List.mem_append_right _ other)
      by_cases reading : 0 < memory.readers
      · exact fits.same (kept reading).2
      · have nobody := Nat.eq_zero_of_not_pos reading
        rw [count, List.countP_eq_zero] at nobody
        exact fits.waiting (Bool.eq_false_iff.mpr (nobody agent other))

private theorem act_same {next : List CPUThreadPoolExecutor.Agent}
    {agent : CPUThreadPoolExecutor.Agent} (outside : agent.wants.isSome = false)
    (acted : CPUThreadPoolExecutor.act queue choice memory.pool agent = some (pool, next)) :
    pool.threadListLock = memory.pool.threadListLock ∧ Same memory.pool pool := by
  rcases CPUThreadPoolExecutor.act_cases acted with ⟨holder, wants, -⟩ | ⟨call, -, records⟩ |
    ⟨same, -⟩
  · rw [wants] at outside
    cases outside
  · cases records <;> exact ⟨rfl, rfl, rfl, rfl⟩
  · exact ⟨congrArg CPUThreadPoolExecutor.Ledger.threadListLock same,
      congrArg CPUThreadPoolExecutor.Ledger.threadList same,
      congrArg CPUThreadPoolExecutor.Ledger.activeThreads same,
      congrArg CPUThreadPoolExecutor.Ledger.maxThreads same⟩

private theorem env_same {move : CPUThreadPoolExecutor.Move}
    {next : List CPUThreadPoolExecutor.Agent} (free : memory.pool.threadListLock = none)
    (moved : CPUThreadPoolExecutor.env queue memory.pool move = some (pool, next)) :
    pool.threadListLock = none ∧ Same memory.pool pool := by
  rcases CPUThreadPoolExecutor.env_cases moved with ⟨operation, -, -, invoked⟩ |
    ⟨wake, holder, -, locked, -⟩
  · cases operation <;> cases invoked <;> exact ⟨free, rfl, rfl, rfl⟩
  · cases locked.symm.trans free

/-- The counters of the pool when a reader may have the lock. -/
structure Counted (pool : CPUThreadPoolExecutor.Memory) : Prop where
  counted : pool.activeThreads + pool.threadsToStop =
    pool.threadList.length + pool.history.overhang
  within : pool.activeThreads ≤ pool.maxThreads

theorem reachable_counted {numThreads : Nat × Nat} (unbounded : queue.bounded = false)
    {allowed : Global Memory Agent → Label CountingSemaphore.Ending Move → Prop}
    {state : Global Memory Agent} (reached : Reachable (system queue numThreads) allowed state)
    (free : state.shared.pool.threadListLock = none) : Counted state.shared.pool := by
  have inPool := (hosts queue numThreads).reachable reached
  obtain ⟨counted, -, within⟩ := (CPUThreadPoolExecutor.reachable_accounted inPool).free free
  exact ⟨counted, within (CPUThreadPoolExecutor.reachable_forgone unbounded inPool)⟩

/-- What a call computes from counts that fit. -/
theorem noWrap_of_le {idleAlive activeThreads : Nat} {stats : PoolStats}
    (few : idleAlive ≤ activeThreads) (within : activeThreads ≤ stats.threadCount) :
    NoWrap idleAlive activeThreads { stats with
      activeThreadCount := sizeSub activeThreads idleAlive
      idleThreadCount := sizeSub stats.threadCount (sizeSub activeThreads idleAlive) } := by
  have active : activeThreads - idleAlive ≤ stats.threadCount :=
    Nat.le_trans (Nat.sub_le _ _) within
  constructor
  case idleAlive => exact few
  case activeThreadCount =>
    simp only [sizeSub_of_le few]
    exact active
  case idleThreadCount =>
    simp only [sizeSub_of_le few, sizeSub_of_le active]
    exact Nat.add_sub_of_le active

/-- The steps of a call under the lock. -/
private theorem Guarded.readerStep {number : Nat} {at_ next : Reader}
    (counted : memory.pool.threadListLock = none → Counted memory.pool)
    (starts : at_ = .readHolder → ¬StopOwed memory.pool)
    (stepped : at_.next queue memory = some (after, next))
    (guarded : Guarded memory (.reader number at_ :: rest)) :
    Guarded after (.reader number next :: rest) := by
  obtain ⟨readers, free, calls⟩ := guarded
  obtain ⟨own, others⟩ := List.forall_mem_cons.mp calls
  cases at_ with
  | readHolder =>
      simp only [Reader.next] at stepped
      split at stepped <;> cases stepped
      next unlocked =>
        have nothing : ¬StopOwed memory.pool := starts rfl
        have count := (counted unlocked).counted
        refine ⟨?_, fun _ => unlocked, List.forall_mem_cons.mpr ⟨?_, others⟩⟩
        · rw [List.countP_cons_of_neg Bool.false_ne_true] at readers
          rw [List.countP_cons_of_pos rfl, ← readers]
        · simp only [StopOwed, Agent.Fits, Reader.Fits] at nothing ⊢
          omega
  | loop activeTasks idleAlive index =>
      have room : idleAlive + (memory.pool.threadList.length - index) ≤
        memory.pool.activeThreads := own
      simp only [Reader.next] at stepped
      split at stepped
      · next thread listed =>
          have inside := (List.getElem?_eq_some_iff.mp listed).1
          split at stepped <;> cases stepped
          all_goals
            refine ⟨readers, free, List.forall_mem_cons.mpr ⟨?_, others⟩⟩
            simp only [Agent.Fits, Reader.Fits]
            omega
      · cases stepped
        exact ⟨readers, free, List.forall_mem_cons.mpr
          ⟨Nat.le_of_add_right_le room, others⟩⟩
  | getPendingTaskCount activeTasks idleAlive index pending =>
      simp only [Reader.next] at stepped
      split at stepped <;> cases stepped <;>
        exact ⟨readers, free, List.forall_mem_cons.mpr ⟨own, others⟩⟩
  | loadMax idleAlive stats =>
      cases stepped
      exact ⟨readers, free, List.forall_mem_cons.mpr ⟨⟨own, rfl⟩, others⟩⟩
  | loadActive idleAlive stats =>
      cases stepped
      obtain ⟨few, threadCount⟩ := own
      rw [List.countP_cons_of_pos rfl] at readers
      have unlocked := free (readers ▸ Nat.succ_pos _)
      have within := (counted unlocked).within
      refine ⟨?_, fun _ => unlocked, List.forall_mem_cons.mpr ⟨?_, others⟩⟩
      · rw [List.countP_cons_of_neg Bool.false_ne_true, readers, Nat.add_sub_cancel]
      · exact noWrap_of_le few (threadCount ▸ within)
  | returned idleAlive activeThreads stats => cases stepped

theorem reachable_guarded {numThreads : Nat × Nat} (unbounded : queue.bounded = false)
    {state : Global Memory Agent}
    (reached : Reachable (system queue numThreads) noStopOwed state) :
    Guarded state.shared state.agents := by
  refine Reaches.invariant Guarded (fun same => Guarded.perm same) ?_ ?_ ?_ reached
  · refine ⟨rfl, fun _ => rfl, fun agent member => ?_⟩
    obtain ⟨call, -, rfl⟩ := List.mem_map.mp member
    trivial
  · intro before index choice agent after left reaches allowed found acted guarded
    cases agent with
    | pool agent =>
        obtain ⟨pool, next, stepped, waits, rfl, rfl⟩ := act_pool acted
        refine @Guarded.poolStep _ _ _ _ [agent] next guarded fun reading => ?_
        have outside : agent.wants.isSome = false :=
          Bool.eq_false_iff.mpr fun wants => Nat.ne_of_gt reading (waits wants)
        obtain ⟨lock, same⟩ := act_same outside stepped
        exact ⟨lock.trans (guarded.free reading), same⟩
    | reader number at_ =>
        obtain ⟨next, stepped, rfl⟩ := @act_reader _ choice _ _ _ _ _ acted
        refine guarded.readerStep (fun free => reachable_counted unbounded reaches free) ?_ stepped
        rintro rfl
        exact allowed _ found rfl
  · intro before move after left reaches _ moved guarded
    cases move with
    | pool move =>
        obtain ⟨pool, next, stepped, rfl, rfl⟩ := env_pool moved
        exact @Guarded.poolStep _ _ _ _ [] next guarded fun reading =>
          env_same (guarded.free reading) stepped
    | getPoolStats =>
        simp only [system, env] at moved
        split at moved <;> cases moved
        refine ⟨?_, guarded.free, List.forall_mem_cons.mpr ⟨trivial, guarded.calls⟩⟩
        exact guarded.readers.trans (List.countP_cons_of_neg Bool.false_ne_true).symm

end Guarded

/-! ## What can happen when a stop is owed -/

/-- The worker that has cleared the flag of a thread. -/
def Agent.clears (thread : Nat) : Agent → Bool
  | .pool (.worker other (.runTask _)) => other == thread
  | _ => false

def Agent.runsTask : Agent → Bool
  | .pool (.worker _ (.runTask _)) => true
  | _ => false

theorem Agent.runsTask_iff {agent : Agent} :
    agent.runsTask = true ↔ ∃ thread task, agent = .pool (.worker thread (.runTask task)) := by
  constructor
  · intro runs
    cases agent with
    | reader number at_ => cases runs
    | pool agent =>
        cases agent with
        | call at_ => cases runs
        | worker thread at_ =>
            cases at_ with
            | runTask task => exact ⟨thread, task, rfl⟩
            | _ => cases runs
  · rintro ⟨thread, task, rfl⟩
    rfl

theorem Agent.runsTask_of_clears {agent : Agent} {thread : Nat}
    (clears : agent.clears thread = true) : agent.runsTask = true := by
  cases agent with
  | reader number at_ => cases clears
  | pool agent =>
      cases agent with
      | call at_ => cases clears
      | worker other at_ =>
          cases at_ with
          | runTask task => rfl
          | _ => cases clears

/-- A flag is only clear while a worker runs a task on that thread. -/
def Flagged (memory : Memory) (agents : List Agent) : Prop :=
  ∀ thread, memory.idle thread = false → ∃ agent ∈ agents, agent.clears thread = true

section Exact

variable {queue : TaskQueue} {choice : CountingSemaphore.Ending} {numThreads : Nat × Nat}
  {memory after : Memory} {left rest : List Agent} {agent : Agent} {thread : Nat}

theorem act_idle (acted : act queue choice memory agent = some (after, left))
    (clear : after.idle thread = false) :
    (∃ next ∈ left, next.clears thread = true) ∨
      memory.idle thread = false ∧ agent.clears thread = false := by
  cases agent with
  | reader number at_ =>
      obtain ⟨next, stepped, rfl⟩ := act_reader acted
      exact .inr ⟨(reader_pool stepped).2 ▸ clear, rfl⟩
  | pool agent =>
      obtain ⟨pool, next, stepped, -, rfl, rfl⟩ := act_pool acted
      cases agent with
      | call at_ => exact .inr ⟨clear, rfl⟩
      | worker other at_ =>
          cases at_ with
          | taken task =>
              cases stepped
              by_cases own : other = thread
              · exact .inl ⟨_, List.mem_singleton_self _, beq_iff_eq.mpr own⟩
              · simp only [storeIdle, Function.update_of_ne (Ne.symm own)] at clear
                exact .inr ⟨clear, rfl⟩
          | runTask task =>
              by_cases own : other = thread
              · simp only [storeIdle, own, Function.update_self] at clear
                cases clear
              · simp only [storeIdle, Function.update_of_ne (Ne.symm own)] at clear
                exact .inr ⟨clear, beq_eq_false_iff_ne.mpr own⟩
          | _ => exact .inr ⟨clear, rfl⟩

theorem env_idle {move : Move} (moved : env queue memory move = some (after, left)) :
    after.idle = memory.idle := by
  cases move with
  | pool move =>
      obtain ⟨pool, next, -, rfl, rfl⟩ := env_pool moved
      rfl
  | getPoolStats =>
      simp only [env] at moved
      split at moved <;> cases moved
      rfl

theorem reachable_flagged
    {allowed : Global Memory Agent → Label CountingSemaphore.Ending Move → Prop}
    {state : Global Memory Agent} (reached : Reachable (system queue numThreads) allowed state) :
    Flagged state.shared state.agents := by
  refine Reaches.invariant Flagged ?_ ?_ ?_ ?_ reached
  · intro memory agents others same flagged thread clear
    obtain ⟨agent, member, clears⟩ := flagged thread clear
    exact ⟨agent, same.mem_iff.mp member, clears⟩
  · intro thread clear
    cases clear
  · intro before index choice agent after left _ _ _ acted flagged thread clear
    rcases act_idle acted clear with ⟨next, member, clears⟩ | ⟨cleared, other⟩
    · exact ⟨next, List.mem_append_left _ member, clears⟩
    · obtain ⟨worker, member, clears⟩ := flagged thread cleared
      rcases List.mem_cons.mp member with rfl | kept
      · rw [other] at clears
        cases clears
      · exact ⟨worker, List.mem_append_right _ kept, clears⟩
  · intro before move after left _ _ moved flagged thread clear
    obtain ⟨worker, member, clears⟩ := flagged thread (env_idle moved ▸ clear)
    exact ⟨worker, List.mem_append_right _ member, clears⟩

/-- The workers end their tasks: all the flags are set, and nothing else has
changed. -/
theorem tasks_end {state : Global Memory Agent}
    (reached : Reachable (system queue numThreads) anySchedule state) :
    ∃ idle agents, Reaches (system queue numThreads) anySchedule state
        ⟨{ state.shared with idle }, agents⟩ ∧ (∀ thread, idle thread = true) ∧
      ∀ number at_, .reader number at_ ∈ state.agents → .reader number at_ ∈ agents := by
  -- on the number of workers that run a task
  generalize running : state.agents.countP Agent.runsTask = workers
  induction workers generalizing state with
  | zero =>
      refine ⟨state.shared.idle, state.agents, .refl, fun thread => ?_, fun _ _ member => member⟩
      by_contra clear
      obtain ⟨agent, member, clears⟩ :=
        reachable_flagged reached thread (Bool.eq_false_iff.mpr clear)
      exact List.countP_eq_zero.mp running agent member (Agent.runsTask_of_clears clears)
  | succ workers ih =>
      obtain ⟨agent, member, runs⟩ := List.countP_pos_iff.mp (Nat.lt_of_sub_eq_succ running)
      obtain ⟨thread, task, rfl⟩ := Agent.runsTask_iff.mp runs
      have acted : (system queue numThreads).act .handoff state.shared
          (.pool (.worker thread (.runTask task))) =
          some ({ state.shared with idle := Function.update state.shared.idle thread true },
            [.pool (.worker thread .taskStatsCallbacks)]) := rfl
      obtain ⟨rest, same, reaches⟩ := Reaches.refl.act member acted
      rw [same.countP_eq, List.countP_cons_of_pos rfl] at running
      have fewer : ([Agent.pool (.worker thread .taskStatsCallbacks)] ++ rest).countP
          Agent.runsTask = workers :=
        (List.countP_cons_of_neg Bool.false_ne_true).trans (Nat.succ.inj running)
      obtain ⟨idle, agents, later, set, kept⟩ := ih (reached.trans reaches) fewer
      refine ⟨idle, agents, reaches.trans later, set, fun number at_ member => ?_⟩
      have inRest : Agent.reader number at_ ∈ rest := by
        rcases List.mem_cons.mp (same.mem_iff.mp member) with own | other
        · cases own
        · exact other
      exact kept number at_ (List.mem_append_right _ inRest)

/-- Alone, a call that finds all the flags set counts every thread. -/
theorem alone_loop (set : ∀ thread, memory.idle thread = true) (choice : CountingSemaphore.Ending)
    (number activeTasks idleAlive index fuel : Nat) :
    (system queue numThreads).alone choice (memory.pool.threadList.length - index + 1 + fuel) memory
        (.reader number (.loop activeTasks idleAlive index)) =
      (system queue numThreads).alone choice fuel memory (.reader number
        (.getPendingTaskCount activeTasks (idleAlive + (memory.pool.threadList.length - index))
          0 0)) := by
  generalize remaining : memory.pool.threadList.length - index = left
  induction left generalizing index idleAlive with
  | zero =>
      have ended : memory.pool.threadList[index]? = none :=
        List.getElem?_eq_none (Nat.le_of_sub_eq_zero remaining)
      rw [Nat.zero_add, Nat.add_comm]
      refine System.alone_step ?_ fuel
      simp only [system, act, Reader.next, ended, Option.map_some, Nat.add_zero]
  | succ left ih =>
      have inside : index < memory.pool.threadList.length := by omega
      have counted : (system queue numThreads).act choice memory
          (.reader number (.loop activeTasks idleAlive index)) =
          some (memory, [.reader number (.loop activeTasks (idleAlive + 1) (index + 1))]) := by
        simp only [system, act, Reader.next, List.getElem?_eq_getElem inside, set, if_true,
          Option.map_some]
      rw [Nat.add_right_comm left, Nat.add_right_comm _ 1 fuel, System.alone_step counted,
        ih (idleAlive + 1) (index + 1) (by omega), Nat.add_assoc, Nat.add_comm 1 left]

/-- Alone, a call gets through the sizes of the levels. -/
theorem alone_pending (choice : CountingSemaphore.Ending)
    (number activeTasks idleAlive index pending fuel : Nat) :
    ∃ total, (system queue numThreads).alone choice
        (queue.getNumPriorities - index + 1 + fuel) memory
        (.reader number (.getPendingTaskCount activeTasks idleAlive index pending)) =
      (system queue numThreads).alone choice fuel memory (.reader number (.loadMax idleAlive
        { pendingTaskCount := total, totalTaskCount := total + activeTasks })) := by
  generalize remaining : queue.getNumPriorities - index = left
  induction left generalizing index pending with
  | zero =>
      have ended : ¬index < queue.getNumPriorities :=
        Nat.not_lt_of_le (Nat.le_of_sub_eq_zero remaining)
      refine ⟨pending, ?_⟩
      rw [Nat.zero_add, Nat.add_comm]
      refine System.alone_step ?_ fuel
      simp only [system, act, Reader.next, ended, if_false, Option.map_some]
  | succ left ih =>
      have inside : index < queue.getNumPriorities := by omega
      have added : (system queue numThreads).act choice memory
          (.reader number (.getPendingTaskCount activeTasks idleAlive index pending)) =
          some (memory, [.reader number (.getPendingTaskCount activeTasks idleAlive (index + 1)
            (pending + memory.pool.tasks.sizeAt queue index))]) := by
        simp only [system, act, Reader.next, inside, if_true, Option.map_some]
      obtain ⟨total, ends⟩ :=
        ih (index + 1) (pending + memory.pool.tasks.sizeAt queue index) (by omega)
      refine ⟨total, ?_⟩
      rw [Nat.add_right_comm left, Nat.add_right_comm _ 1 fuel, System.alone_step added, ends]

/-- Alone, a call that has the lock returns. -/
theorem alone_returns (set : ∀ thread, memory.idle thread = true)
    (choice : CountingSemaphore.Ending) (number : Nat) :
    ∃ fuel after stats, (system queue numThreads).alone choice fuel memory
        (.reader number (.loop 0 0 0)) =
      (after, .reader number
        (.returned memory.pool.threadList.length memory.pool.activeThreads stats)) := by
  obtain ⟨total, ends⟩ := @alone_pending queue numThreads memory choice number 0
    memory.pool.threadList.length 0 0 2
  have counts := @alone_loop queue numThreads memory set choice number 0 0 0
    (queue.getNumPriorities - 0 + 1 + 2)
  rw [Nat.sub_zero, Nat.zero_add] at counts
  exact ⟨_, _, _, counts.trans ends⟩

end Exact

/-- A call that takes the lock while no stop is owed returns statistics that do
not wrap, whatever the workers do meanwhile. Where one is owed, a call that
comes to the lock can still return statistics that do. -/
theorem getPoolStats_noWrap (queue : TaskQueue) (unbounded : queue.bounded = false)
    (numThreads : Nat × Nat) :
    (∀ state, Reachable (system queue numThreads) noStopOwed state →
      ∀ number idleAlive activeThreads stats,
        .reader number (.returned idleAlive activeThreads stats) ∈ state.agents →
          NoWrap idleAlive activeThreads stats) ∧
    (∀ state number, Reachable (system queue numThreads) anySchedule state →
      .reader number .readHolder ∈ state.agents → state.shared.pool.threadListLock = none →
      StopOwed state.shared.pool →
        ∃ later, Reaches (system queue numThreads) anySchedule state later ∧
          ∃ idleAlive activeThreads stats,
            .reader number (.returned idleAlive activeThreads stats) ∈ later.agents ∧
            ¬NoWrap idleAlive activeThreads stats) := by
  constructor
  · intro state reached number idleAlive activeThreads stats returned
    exact (reachable_guarded unbounded reached).calls _ returned
  · intro state number reached waiting free owed
    obtain ⟨idle, agents, ended, set, kept⟩ := tasks_end reached
    -- the call takes the lock, and nobody else moves until it returns
    have locked : (system queue numThreads).act .handoff { state.shared with idle }
        (.reader number .readHolder) =
        some ({ state.shared with idle, readers := state.shared.readers + 1 },
          [.reader number (.loop 0 0 0)]) := by
      simp only [system, act, Reader.next, free, Option.map_some]
    obtain ⟨rest, -, reads⟩ := ended.act (kept number _ waiting) locked
    obtain ⟨fuel, after, stats, returns⟩ := @alone_returns queue numThreads
      { state.shared with idle, readers := state.shared.readers + 1 } set .handoff number
    obtain ⟨steps, ran⟩ := (system queue numThreads).run_alone .handoff fuel _ _ rest
    rw [returns] at ran
    refine ⟨_, reads.run ran, _, _, stats, List.mem_cons_self, fun noWrap => ?_⟩
    have counted := (reachable_counted unbounded reached free).counted
    have few := noWrap.idleAlive
    simp only [StopOwed] at owed few
    omega

/-- A move of the pool. -/
def ofPool : Label CountingSemaphore.Ending CPUThreadPoolExecutor.Move →
    Label CountingSemaphore.Ending Move
  | .act index choice => .act index choice
  | .env move => .env (.pool move)

/-- `getPoolStats` from its call to its return. -/
def reading : List (Label CountingSemaphore.Ending Move) :=
  .env .getPoolStats :: (frontActs 7).map ofPool

/-- The only worker runs a task, and ends it when the call has the lock. -/
def taskEnds : List (Label CountingSemaphore.Ending Move) :=
  (frontActs 1 ++ held 7 ++ frontActs 2 ++
    [Label.env (CPUThreadPoolExecutor.Move.invoke (.add 0))] ++ frontActs 8).map ofPool ++
    [.env .getPoolStats, .act 0 .handoff, .act 1 .handoff, .act 1 .handoff] ++
    (frontActs 5).map ofPool

/-- The only worker is idle when `setNumThreads(0)` asks it to stop. -/
def shrinkIdle : List (Label CountingSemaphore.Ending Move) :=
  (frontActs 1 ++ held 7 ++ frontActs 2 ++
    [Label.env (CPUThreadPoolExecutor.Move.invoke (.setNumThreads 0))] ++ frontActs 1 ++
    held 10).map ofPool

theorem getPoolStats_noWrap_taskEnds :
    (∃ state, (system .unbounded (1, 1)).run (system .unbounded (1, 1)).init taskEnds =
        some state ∧ .reader 0 (.returned 1 1 ⟨1, 1, 0, 0, 0⟩) ∈ state.agents ∧
        NoWrap 1 1 ⟨1, 1, 0, 0, 0⟩) ∧
      ∃ state later, (system .unbounded (1, 1)).run (system .unbounded (1, 1)).init
          (shrinkIdle ++ [.env .getPoolStats]) = some state ∧
        Reaches (system .unbounded (1, 1)) anySchedule state later ∧
        ∃ idleAlive activeThreads stats,
          .reader 0 (.returned idleAlive activeThreads stats) ∈ later.agents ∧
          ¬NoWrap idleAlive activeThreads stats := by
  constructor
  · have runs : ((system .unbounded (1, 1)).run (system .unbounded (1, 1)).init taskEnds).map
        (fun state => decide (.reader 0 (.returned 1 1 ⟨1, 1, 0, 0, 0⟩) ∈ state.agents)) =
        some true := by
      decide
    obtain ⟨state, replayed, returned⟩ := Option.map_eq_some_iff.mp runs
    have member := of_decide_eq_true returned
    refine ⟨state, replayed, member, ?_⟩
    have reached : Reachable (system .unbounded (1, 1)) noStopOwed state :=
      Reachable.init.replay (by decide) replayed
    exact (getPoolStats_noWrap .unbounded rfl (1, 1)).1 state reached 0 1 1 _ member
  · have runs : ((system .unbounded (1, 1)).run (system .unbounded (1, 1)).init
        (shrinkIdle ++ [.env .getPoolStats])).map (fun state =>
          (decide (.reader 0 .readHolder ∈ state.agents), state.shared.pool.threadListLock,
            decide (StopOwed state.shared.pool))) = some (true, none, true) := by
      decide
    obtain ⟨state, replayed, values⟩ := Option.map_eq_some_iff.mp runs
    simp only [Prod.mk.injEq, decide_eq_true_eq] at values
    obtain ⟨waiting, free, owed⟩ := values
    obtain ⟨later, reaches, wraps⟩ := (getPoolStats_noWrap .unbounded rfl (1, 1)).2 state 0
      (Reachable.init.run replayed) waiting free owed
    exact ⟨state, later, replayed, reaches, wraps⟩

/-- Of no thread at all, 2^64 − 1 are active. -/
theorem not_getPoolStats_noWrap :
    ∃ state, Reachable (system .unbounded (1, 1)) anySchedule state ∧
      .reader 0 (.returned 1 0 ⟨0, 1, 2 ^ 64 - 1, 1, 1⟩) ∈ state.agents ∧
      ¬NoWrap 1 0 ⟨0, 1, 2 ^ 64 - 1, 1, 1⟩ := by
  have runs : ((system .unbounded (1, 1)).run (system .unbounded (1, 1)).init
      (shrinkIdle ++ reading)).map (fun state =>
        decide (.reader 0 (.returned 1 0 ⟨0, 1, 2 ^ 64 - 1, 1, 1⟩) ∈ state.agents)) =
      some true := by
    decide
  obtain ⟨state, replayed, returned⟩ := Option.map_eq_some_iff.mp runs
  refine ⟨state, Reachable.init.run replayed, of_decide_eq_true returned, fun noWrap => ?_⟩
  exact Nat.not_succ_le_zero 0 noWrap.idleAlive

end ThreadPoolExec.GetPoolStats
