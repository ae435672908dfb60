import ThreadPoolExec.Pool.Staff
import ThreadPoolExec.Pool.ThreadList

/-!
# The list of threads over the runs of a pool

`addThreads` makes its threads first; then it starts each of them and adds it
to the list, so a worker runs before it is listed. Calls of `getUsedCpuTime`
hold `threadListLock_` for reading while they go through the list, and the
clocks go on under them.
-/

set_option autoImplicit false

namespace ThreadPoolExec.ThreadPoolExecutor

open Interleaving
open CPUThreadPoolExecutor (Holder Operation TaskQueue loopHead staff)

/-- A call of `getUsedCpuTime` that has returned. `earlier` are the results of
those that had returned when it was made. -/
structure Reading where
  earlier : List Nat
  result : Nat
deriving DecidableEq

inductive Reader where
  | readHolder (earlier : List Nat)
  | loop (earlier : List Nat) (acc index : Nat)
deriving DecidableEq

inductive Agent where
  | pool (agent : CPUThreadPoolExecutor.Agent)
  | reader (at_ : Reader)
deriving DecidableEq

/-- `newThreads` are those that are not in the list yet, the first of which has
been `started` or not. `passed` are the threads that have been moved to
`stoppedThreads_`. -/
structure Memory where
  pool : CPUThreadPoolExecutor.Memory
  pastCpuUsed : Nat := 0
  usedCpuTime : Nat → Nat := fun _ => 0
  readers : Nat := 0
  newThreads : List Nat := []
  started : Bool := false
  passed : List Nat := []
  readings : List Reading := []

namespace Memory

variable (memory : Memory)

def threadList : ThreadList :=
  ⟨memory.pool.threadList, memory.pastCpuUsed⟩

/-- What `getUsedCpuTime` would return at once. -/
def getUsedCpuTime : Nat :=
  memory.threadList.getUsedCpuTime memory.usedCpuTime

/-- The thread that has been started and is not in the list yet. -/
def starting : List Nat :=
  if memory.started then memory.newThreads.take 1 else []

/-- A step of the pool's own. -/
def follow (step : Option (CPUThreadPoolExecutor.Memory × List CPUThreadPoolExecutor.Agent)) :
    Option (Memory × List Agent) :=
  step.map fun moved => ({ memory with pool := moved.1 }, moved.2.map .pool)

/-- `threadList_.remove(thread)` and `stoppedThreads_.add(thread)`. -/
def stopThread (thread : Nat) (observed : Bool) (threadList : ThreadList) : Memory :=
  { memory with
    pool := { ({ memory.pool with
        threadList := threadList.vec
        stoppedThreads := memory.pool.stoppedThreads ++ [thread] }.notify
          (if observed then memory.pool.observers else []) [thread] .threadStopped) with
      threadListLock := none }
    pastCpuUsed := threadList.pastCpuUsed
    passed := thread :: memory.passed }

/-- `threadList_.add(thread)`, with the rest of the threads to come. -/
def addThread (thread : Nat) (rest : List Nat) (holder : Holder) : Memory :=
  { memory with
    pool := { memory.pool with
      threadList := (memory.threadList.add thread).vec
      threadListLock := some holder }
    newThreads := rest
    started := false }

def makeThread : Memory :=
  { memory with
    pool := { memory.pool with nextId := memory.pool.nextId + 1 }
    newThreads := memory.newThreads ++ [memory.pool.nextId] }

/-- The holder of the lock goes on. It does not if a check of `remove` fails. -/
def hold (queue : TaskQueue) (wake : Bool) : Holder → Option (Memory × List Agent)
  | .stopThread thread observed =>
      (memory.threadList.remove memory.usedCpuTime thread).map fun threadList =>
        (memory.stopThread thread observed threadList, [])
  | .addThreads (left + 1) newThreads active next =>
      match memory.newThreads with
      | [] => none
      | thread :: rest =>
          if memory.started then
            some (memory.addThread thread rest
              (.addThreads left (newThreads ++ [thread]) active next), [])
          else none
  | holder => memory.follow (holder.next queue wake memory.pool)

/-- How many threads `addThreads` still has to add. -/
def toAdd : Nat :=
  match memory.pool.threadListLock with
  | some (.addThreads left _ _ _) => left
  | _ => 0

end Memory

/-- One step of an agent. Whoever wants the lock for writing waits for the
readers. -/
def act (queue : TaskQueue) (choice : CountingSemaphore.Ending) (memory : Memory) :
    Agent → Option (Memory × List Agent)
  | .pool agent =>
      if agent.wants.isSome ∧ 0 < memory.readers then none
      else memory.follow (CPUThreadPoolExecutor.act queue choice memory.pool agent)
  | .reader (.readHolder earlier) =>
      match memory.pool.threadListLock with
      | some _ => none
      | none =>
          some ({ memory with readers := memory.readers + 1 },
            [.reader (.loop earlier memory.pastCpuUsed 0)])
  | .reader (.loop earlier acc index) =>
      match memory.pool.threadList[index]? with
      | some thread =>
          some (memory, [.reader (.loop earlier (acc + memory.usedCpuTime thread) (index + 1))])
      | none =>
          some ({ memory with
              readers := memory.readers - 1
              readings := ⟨earlier, acc⟩ :: memory.readings }, [])

/-- What happens of itself, with `addThreads` in its two loops: `makeThread` for
all new threads, then `newThread` before each is added. `otherPool` makes a
thread of another pool, and a clock goes on by `tick`. -/
inductive Move where
  | pool (move : CPUThreadPoolExecutor.Move)
  | makeThread
  | newThread
  | otherPool
  | tick (thread elapsed : Nat)
  | getUsedCpuTime
deriving DecidableEq

def env (queue : TaskQueue) (memory : Memory) : Move → Option (Memory × List Agent)
  | .pool (.invoke operation) =>
      memory.follow (CPUThreadPoolExecutor.env queue memory.pool (.invoke operation))
  | .pool (.hold wake) =>
      match memory.pool.threadListLock with
      | none => none
      | some holder => memory.hold queue wake holder
  | .makeThread =>
      if memory.newThreads.length < memory.toAdd then some (memory.makeThread, []) else none
  | .newThread =>
      match memory.newThreads with
      | [] => none
      | thread :: _ =>
          if memory.newThreads.length = memory.toAdd ∧ memory.started = false then
            some ({ memory with started := true }, [.pool (loopHead queue thread)])
          else none
  | .otherPool =>
      some ({ memory with pool := { memory.pool with nextId := memory.pool.nextId + 1 } }, [])
  | .tick thread elapsed =>
      some ({ memory with
          usedCpuTime := fun other =>
            if other = thread then memory.usedCpuTime other + elapsed
            else memory.usedCpuTime other }, [])
  | .getUsedCpuTime =>
      some (memory, [.reader (.readHolder (memory.readings.map Reading.result))])

def system (queue : TaskQueue) (numThreads : Nat × Nat) :
    System Memory Agent CountingSemaphore.Ending Move where
  init :=
    ⟨{ pool := (CPUThreadPoolExecutor.system queue numThreads).init.shared },
      (CPUThreadPoolExecutor.system queue numThreads).init.agents.map .pool⟩
  act choice memory agent := act queue choice memory agent
  env move memory := env queue memory move

/-- What the list is relied on for. -/
structure Integrity (memory : Memory) : Prop where
  ascending : memory.threadList.Ascending
  contains : ∀ thread, memory.threadList.contains thread = true ↔ thread ∈ memory.threadList.vec
  checks : ∀ thread observed, memory.pool.threadListLock = some (.stopThread thread observed) →
    (memory.threadList.remove memory.usedCpuTime thread).isSome = true
  once : memory.passed.Nodup
  apart : memory.pool.threadListLock = none →
    memory.threadList.vec.Disjoint memory.pool.stoppedThreads
  monotone : ∀ reading ∈ memory.readings, ∀ result ∈ reading.earlier, result ≤ reading.result

/-! ## What a step does with the threads -/

/-- The pool's own steps keep the list, but for those of `Memory.hold`. -/
structure Quiet (pool after : CPUThreadPoolExecutor.Memory)
    (before left : List CPUThreadPoolExecutor.Agent) : Prop where
  threadList : after.threadList = pool.threadList
  nextId : after.nextId = pool.nextId
  stoppedThreads : after.stoppedThreads ⊆ pool.stoppedThreads
  workers : ∀ rest, staff after (left ++ rest) = staff pool (before ++ rest)

/-- One step, with the agent that has made it. -/
inductive Memory.Moves (memory : Memory) : List Agent → Memory → List Agent → Prop where
  | pool (pool : CPUThreadPoolExecutor.Memory) (before left : List CPUThreadPoolExecutor.Agent)
      (quiet : Quiet memory.pool pool before left)
      (unlocked : 0 < memory.readers → memory.pool.threadListLock = none →
        pool.threadListLock = none)
      (adding : 0 < memory.toAdd → pool.threadListLock = memory.pool.threadListLock) :
      Moves memory (before.map .pool) { memory with pool } (left.map .pool)
  | stops (thread : Nat) (observed : Bool) (threadList : ThreadList)
      (locked : memory.pool.threadListLock = some (.stopThread thread observed))
      (removed : memory.threadList.remove memory.usedCpuTime thread = some threadList) :
      Moves memory [] (memory.stopThread thread observed threadList) []
  | adds (holder next : Holder) (thread : Nat) (rest : List Nat)
      (locked : memory.pool.threadListLock = some holder)
      (isCall : holder.thread? = none ∧ next.thread? = none)
      (made : memory.newThreads = thread :: rest) (started : memory.started = true) :
      Moves memory [] (memory.addThread thread rest next) []
  | makes (room : memory.newThreads.length < memory.toAdd) : Moves memory [] memory.makeThread []
  | starts (thread : Nat) (rest : List Nat) (worker : CPUThreadPoolExecutor.Agent)
      (made : memory.newThreads = thread :: rest)
      (all : memory.newThreads.length = memory.toAdd) (unstarted : memory.started = false)
      (isWorker : worker.thread? = some thread) :
      Moves memory [] { memory with started := true } [.pool worker]
  | skips :
      Moves memory [] { memory with pool := { memory.pool with nextId := memory.pool.nextId + 1 } }
        []
  | ticks (usedCpuTime : Nat → Nat)
      (later : ∀ thread, memory.usedCpuTime thread ≤ usedCpuTime thread) :
      Moves memory [] { memory with usedCpuTime } []
  | calls :
      Moves memory [] memory [.reader (.readHolder (memory.readings.map Reading.result))]
  | locks (earlier : List Nat) (free : memory.pool.threadListLock = none) :
      Moves memory [.reader (.readHolder earlier)] { memory with readers := memory.readers + 1 }
        [.reader (.loop earlier memory.pastCpuUsed 0)]
  | reads (earlier : List Nat) (acc index thread : Nat)
      (at_ : memory.pool.threadList[index]? = some thread) :
      Moves memory [.reader (.loop earlier acc index)] memory
        [.reader (.loop earlier (acc + memory.usedCpuTime thread) (index + 1))]
  | returns (earlier : List Nat) (acc index : Nat)
      (ended : memory.pool.threadList[index]? = none) :
      Moves memory [.reader (.loop earlier acc index)]
        { memory with
          readers := memory.readers - 1
          readings := ⟨earlier, acc⟩ :: memory.readings } []

section Moves

variable {queue : TaskQueue} {choice : CountingSemaphore.Ending} {wake : Bool}
  {memory after : Memory} {left : List Agent} {agent : Agent} {holder : Holder}

private theorem quiet_act {pool stepped : CPUThreadPoolExecutor.Memory}
    {worker : CPUThreadPoolExecutor.Agent} {next : List CPUThreadPoolExecutor.Agent}
    (acted : CPUThreadPoolExecutor.act queue choice pool worker = some (stepped, next)) :
    Quiet pool stepped [worker] next := by
  obtain ⟨threadList, nextId, stoppedThreads⟩ := CPUThreadPoolExecutor.act_threads acted
  exact ⟨threadList, nextId, stoppedThreads, CPUThreadPoolExecutor.act_staff acted⟩

private theorem quiet_invoke (pool : CPUThreadPoolExecutor.Memory) (operation : Operation) :
    Quiet pool (pool.invoke operation).1 [] (pool.invoke operation).2 := by
  cases operation <;> exact ⟨rfl, rfl, List.Subset.refl _, fun _ => rfl⟩

/-- The holder leaves the list alone. -/
private theorem quiet_hold {pool stepped : CPUThreadPoolExecutor.Memory}
    {next : List CPUThreadPoolExecutor.Agent} (locked : pool.threadListLock = some holder)
    (moved : holder.next queue wake pool = some (stepped, next))
    (stays : ∀ thread observed, holder ≠ .stopThread thread observed)
    (noneStarts : ∀ toAdd newThreads active call,
      holder ≠ .addThreads (toAdd + 1) newThreads active call) :
    Quiet pool stepped [] next := by
  have workers (same : staff stepped next = holder.thread?.toList) (rest) :
      staff stepped (next ++ rest) = staff pool ([] ++ rest) := by
    rw [CPUThreadPoolExecutor.staff_append, same, List.nil_append, staff, locked]
    rfl
  cases CPUThreadPoolExecutor.hold_step moved with
  | worker thread holder after left step =>
      cases step with
      | stops observed threadList removed => exact absurd rfl (stays _ _)
      | _ => exact ⟨rfl, rfl, List.Subset.refl _, workers rfl⟩
  | removal removal n holder after left step =>
      cases step <;> exact ⟨rfl, rfl, List.Subset.refl _, workers rfl⟩
  | call holder after left step =>
      cases step with
      | startsThread left newThreads active next => exact absurd rfl (noneStarts _ _ _ _)
      | _ => exact ⟨rfl, rfl, List.Subset.refl _, workers rfl⟩

private theorem follow_eq_some
    {step : Option (CPUThreadPoolExecutor.Memory × List CPUThreadPoolExecutor.Agent)}
    (followed : memory.follow step = some (after, left)) :
    ∃ pool next, step = some (pool, next) ∧ after = { memory with pool } ∧
      left = next.map .pool := by
  obtain ⟨⟨pool, next⟩, stepped, same⟩ := Option.map_eq_some_iff.mp followed
  cases same
  exact ⟨pool, next, stepped, rfl, rfl⟩

private theorem toAdd_of_free (free : memory.pool.threadListLock = none) : ¬0 < memory.toAdd := by
  rw [Memory.toAdd, free]
  exact Nat.lt_irrefl 0

theorem act_moves (acted : act queue choice memory agent = some (after, left)) :
    memory.Moves [agent] after left := by
  cases agent with
  | pool agent =>
      simp only [act] at acted
      split at acted
      · cases acted
      · next waits =>
          obtain ⟨pool, next, stepped, rfl, rfl⟩ := follow_eq_some acted
          have lock : pool.threadListLock = memory.pool.threadListLock ∨
              agent.wants.isSome = true ∧ memory.pool.threadListLock = none := by
            rcases CPUThreadPoolExecutor.act_cases stepped with ⟨holder, wants, free, -⟩ |
              ⟨call, -, records⟩ | ⟨same, -⟩
            · exact .inr ⟨wants ▸ rfl, free⟩
            · cases records <;> exact .inl rfl
            · exact .inl (congrArg CPUThreadPoolExecutor.Ledger.threadListLock same)
          refine .pool pool [agent] next (quiet_act stepped) ?_ ?_
          · intro reading free
            rcases lock with same | ⟨wants, -⟩
            · exact same.trans free
            · exact absurd ⟨wants, reading⟩ waits
          · intro adding
            rcases lock with same | ⟨-, free⟩
            · exact same
            · exact absurd adding (toAdd_of_free free)
  | reader at_ =>
      cases at_ with
      | readHolder earlier =>
          simp only [act] at acted
          split at acted
          · cases acted
          · next free =>
              cases acted
              exact .locks earlier free
      | loop earlier acc index =>
          simp only [act] at acted
          split at acted
          · next thread at_ =>
              cases acted
              exact .reads earlier acc index thread at_
          · next ended =>
              cases acted
              exact .returns earlier acc index ended

theorem hold_moves (locked : memory.pool.threadListLock = some holder)
    (stepped : memory.hold queue wake holder = some (after, left)) :
    memory.Moves [] after left := by
  unfold Memory.hold at stepped
  split at stepped
  · next thread observed =>
      obtain ⟨threadList, removed, same⟩ := Option.map_eq_some_iff.mp stepped
      cases same
      exact .stops thread observed threadList locked removed
  · next toAdd newThreads active next =>
      split at stepped
      · cases stepped
      · next thread rest made =>
          split at stepped
          · next started =>
              cases stepped
              exact .adds _ _ thread rest locked ⟨rfl, rfl⟩ made started
          · cases stepped
  · next stays noneStarts =>
      obtain ⟨pool, next, moved, rfl, rfl⟩ := follow_eq_some stepped
      refine .pool pool [] next (quiet_hold locked moved stays noneStarts) ?_ ?_
      · intro _ free
        cases locked.symm.trans free
      · intro adding
        rw [Memory.toAdd, locked] at adding
        split at adding
        · next toAdd newThreads active call same =>
            cases same
            cases toAdd with
            | zero => exact absurd adding (Nat.lt_irrefl 0)
            | succ toAdd => exact absurd rfl (noneStarts _ _ _ _)
        · exact absurd adding (Nat.lt_irrefl 0)

theorem env_moves {move : Move} (moved : env queue memory move = some (after, left)) :
    memory.Moves [] after left := by
  cases move with
  | pool move =>
      cases move with
      | invoke operation =>
          obtain ⟨pool, next, stepped, rfl, rfl⟩ := follow_eq_some moved
          simp only [CPUThreadPoolExecutor.env] at stepped
          split at stepped
          · have invoked : memory.pool.invoke operation = (pool, next) := Option.some.inj stepped
            have quiet := quiet_invoke memory.pool operation
            have lock : (memory.pool.invoke operation).1.threadListLock =
                memory.pool.threadListLock := by
              cases operation <;> rfl
            rw [invoked] at quiet lock
            exact .pool pool [] next quiet (fun _ free => lock.trans free) fun _ => lock
          · cases stepped
      | hold wake =>
          simp only [env] at moved
          split at moved
          · cases moved
          · next holder locked => exact hold_moves locked moved
  | makeThread =>
      simp only [env] at moved
      split at moved
      · next room =>
          cases moved
          exact .makes room
      · cases moved
  | newThread =>
      simp only [env] at moved
      split at moved
      · cases moved
      · next thread rest made =>
          split at moved
          · next ready =>
              cases moved
              exact .starts thread rest _ made ready.1 ready.2 rfl
          · cases moved
  | otherPool =>
      cases moved
      exact .skips
  | tick thread elapsed =>
      cases moved
      refine .ticks _ fun other => ?_
      split
      · exact Nat.le_add_right _ _
      · exact Nat.le_refl _
  | getUsedCpuTime =>
      cases moved
      exact .calls

end Moves

/-! ## Every thread is in one place -/

def Agent.pool? : Agent → Option CPUThreadPoolExecutor.Agent
  | .pool agent => some agent
  | .reader _ => none

/-- The threads of the workers, with the one that has the lock. -/
def workers (memory : Memory) (agents : List Agent) : List Nat :=
  staff memory.pool (agents.filterMap Agent.pool?)

/-- The threads that have been made and not stopped yet, in the order in which
they were made. -/
def Memory.made (memory : Memory) : List Nat :=
  memory.pool.threadList ++ memory.newThreads

structure Listed (memory : Memory) (agents : List Agent) : Prop where
  staffed : (workers memory agents).Perm (memory.pool.threadList ++ memory.starting)
  first : memory.started = true →
    memory.newThreads ≠ [] ∧ memory.newThreads.length = memory.toAdd
  ascending : memory.made.Pairwise (· < ·)
  issued : (memory.passed ++ memory.made).Nodup
  known : ∀ thread ∈ memory.passed ++ memory.made, thread < memory.pool.nextId
  stopped : memory.pool.stoppedThreads ⊆ memory.passed

section Listed

variable {queue : TaskQueue} {memory after : Memory} {before left agents rest : List Agent}

theorem Listed.ascending_list (listed : Listed memory agents) : memory.threadList.Ascending :=
  listed.ascending.sublist (List.sublist_append_left _ _)

theorem Listed.perm {others : List Agent} (same : agents.Perm others)
    (listed : Listed memory agents) : Listed memory others := by
  obtain ⟨staffed, first, ascending, issued, known, stopped⟩ := listed
  refine ⟨?_, first, ascending, issued, known, stopped⟩
  exact (((same.symm.filterMap _).filterMap _).append_left _).trans staffed

theorem Listed.quiet {pool : CPUThreadPoolExecutor.Memory}
    {worked next : List CPUThreadPoolExecutor.Agent}
    (listed : Listed memory (worked.map .pool ++ rest)) (quiet : Quiet memory.pool pool worked next)
    (adding : 0 < memory.toAdd → pool.threadListLock = memory.pool.threadListLock) :
    Listed { memory with pool } (next.map .pool ++ rest) := by
  obtain ⟨staffed, first, ascending, issued, known, stopped⟩ := listed
  have pools (agents : List CPUThreadPoolExecutor.Agent) :
      (agents.map Agent.pool ++ rest).filterMap Agent.pool? =
        agents ++ rest.filterMap Agent.pool? := by
    rw [List.filterMap_append, List.filterMap_map]
    exact congrArg (· ++ _) (List.filterMap_some)
  have made : ({ memory with pool } : Memory).made = memory.made :=
    congrArg (· ++ _) quiet.threadList
  constructor
  case staffed =>
    rw [workers, pools] at staffed ⊢
    rw [quiet.workers, quiet.threadList]
    exact staffed
  case first =>
    intro started
    obtain ⟨some, all⟩ := first started
    have same := adding (all ▸ List.length_pos_of_ne_nil some)
    refine ⟨some, all.trans ?_⟩
    rw [Memory.toAdd, Memory.toAdd, same]
  case ascending => exact made ▸ ascending
  case issued => exact made ▸ issued
  case known =>
    rw [made, quiet.nextId]
    exact known
  case stopped => exact List.Subset.trans quiet.stoppedThreads stopped

theorem Listed.stops {thread : Nat} {observed : Bool} {threadList : ThreadList}
    (listed : Listed memory rest)
    (locked : memory.pool.threadListLock = some (.stopThread thread observed))
    (removed : memory.threadList.remove memory.usedCpuTime thread = some threadList) :
    Listed (memory.stopThread thread observed threadList) rest := by
  obtain ⟨same, sublist, -⟩ := ThreadList.remove_eq_some listed.ascending_list removed
  obtain ⟨staffed, first, ascending, issued, known, stopped⟩ := listed
  have moved : (thread :: memory.passed ++ (threadList.vec ++ memory.newThreads)).Perm
      (memory.passed ++ memory.made) :=
    List.perm_middle.symm.trans ((same.symm.append_right memory.newThreads).append_left _)
  constructor
  case staffed =>
    rw [workers, staff, locked] at staffed
    exact (staffed.trans (same.append_right _)).cons_inv
  case first =>
    intro started
    obtain ⟨some, all⟩ := first started
    rw [Memory.toAdd, locked] at all
    exact absurd (List.length_eq_zero_iff.mp all) some
  case ascending => exact ascending.sublist (sublist.append_right _)
  case issued => exact moved.nodup_iff.mpr issued
  case known => exact fun other member => known other (moved.mem_iff.mp member)
  case stopped =>
    intro other member
    rcases List.mem_append.mp member with before | last
    · exact List.mem_cons_of_mem _ (stopped before)
    · exact List.mem_singleton.mp last ▸ List.mem_cons_self

theorem Listed.adds {holder next : Holder} {thread : Nat} {others : List Nat}
    (listed : Listed memory rest) (locked : memory.pool.threadListLock = some holder)
    (isCall : holder.thread? = none ∧ next.thread? = none)
    (made : memory.newThreads = thread :: others) (started : memory.started = true) :
    Listed (memory.addThread thread others next) rest := by
  have list := listed.ascending_list
  obtain ⟨staffed, first, ascending, issued, known, stopped⟩ := listed
  rw [Memory.made, made] at ascending issued known
  have last : (memory.threadList.add thread).vec = memory.pool.threadList ++ [thread] :=
    ThreadList.add_last list fun other member =>
      (List.pairwise_append.mp ascending).2.2 other member thread List.mem_cons_self
  have same : (memory.addThread thread others next).made =
      memory.pool.threadList ++ thread :: others := by
    rw [Memory.made, Memory.addThread, last, List.append_assoc, List.singleton_append]
  constructor
  case staffed =>
    rw [workers, staff, locked, Option.bind_some, isCall.1, Memory.starting, started, made]
      at staffed
    rw [workers, staff, Memory.addThread, Option.bind_some, isCall.2, last]
    simpa [Memory.starting] using staffed
  case first => exact fun started => by cases started
  case ascending => exact same ▸ ascending
  case issued => exact same ▸ issued
  case known => exact same ▸ known
  case stopped => exact stopped

/-- `makeThread` takes an id above all that have been given. -/
theorem Listed.makes (listed : Listed memory rest)
    (room : memory.newThreads.length < memory.toAdd) : Listed memory.makeThread rest := by
  obtain ⟨staffed, first, ascending, issued, known, stopped⟩ := listed
  have made : memory.makeThread.made = memory.made ++ [memory.pool.nextId] :=
    (List.append_assoc _ _ _).symm
  have unstarted : memory.started = false :=
    Bool.eq_false_iff.mpr fun started => Nat.ne_of_lt room (first started).2
  have starting : memory.makeThread.starting = memory.starting := by
    simp [Memory.starting, Memory.makeThread, unstarted]
  have fresh : memory.pool.nextId ∉ memory.passed ++ memory.made :=
    fun member => Nat.lt_irrefl _ (known _ member)
  constructor
  case staffed => exact starting ▸ staffed
  case first => exact fun started => absurd started (Bool.eq_false_iff.mp unstarted)
  case ascending =>
    rw [made]
    refine List.pairwise_append.mpr ⟨ascending, List.pairwise_singleton _ _, ?_⟩
    intro thread member other last
    rw [List.mem_singleton.mp last]
    exact known thread (List.mem_append_right _ member)
  case issued =>
    have same := List.perm_append_singleton memory.pool.nextId (memory.passed ++ memory.made)
    rw [made, ← List.append_assoc]
    exact same.nodup_iff.mpr (List.nodup_cons.mpr ⟨fresh, issued⟩)
  case known =>
    intro thread member
    rw [made, ← List.append_assoc] at member
    rcases List.mem_append.mp member with before | last
    · exact Nat.lt_succ_of_lt (known thread before)
    · exact List.mem_singleton.mp last ▸ Nat.lt_succ_self _
  case stopped => exact stopped

theorem Listed.starts {thread : Nat} {others : List Nat} {worker : CPUThreadPoolExecutor.Agent}
    (listed : Listed memory rest) (made : memory.newThreads = thread :: others)
    (all : memory.newThreads.length = memory.toAdd) (unstarted : memory.started = false)
    (isWorker : worker.thread? = some thread) :
    Listed { memory with started := true } (.pool worker :: rest) := by
  obtain ⟨staffed, first, ascending, issued, known, stopped⟩ := listed
  refine ⟨?_, ?_, ascending, issued, known, stopped⟩
  · have more : (workers { memory with started := true } (.pool worker :: rest)).Perm
        (thread :: workers memory rest) := by
      have pools : (Agent.pool worker :: rest).filterMap Agent.pool? =
          worker :: rest.filterMap Agent.pool? := rfl
      rw [workers, staff, pools, List.filterMap_cons_some isWorker]
      exact List.perm_middle
    refine more.trans ((staffed.cons thread).trans ?_)
    rw [Memory.starting, unstarted, Memory.starting, made]
    simpa using (List.perm_append_singleton thread memory.pool.threadList).symm
  · exact fun _ => ⟨made ▸ List.cons_ne_nil _ _, all⟩

theorem moves_listed (moves : memory.Moves before after left)
    (listed : Listed memory (before ++ rest)) : Listed after (left ++ rest) := by
  cases moves with
  | pool pool worked next quiet unlocked adding => exact listed.quiet quiet adding
  | stops thread observed threadList locked removed => exact listed.stops locked removed
  | adds holder next thread others locked isCall made started =>
      exact listed.adds locked isCall made started
  | makes room => exact listed.makes room
  | starts thread others worker made all unstarted isWorker =>
      exact listed.starts made all unstarted isWorker
  | skips =>
      obtain ⟨staffed, first, ascending, issued, known, stopped⟩ := listed
      exact ⟨staffed, first, ascending, issued,
        fun thread member => Nat.lt_succ_of_lt (known thread member), stopped⟩
  | _ =>
      obtain ⟨staffed, first, ascending, issued, known, stopped⟩ := listed
      exact ⟨staffed, first, ascending, issued, known, stopped⟩

theorem reachable_listed {numThreads : Nat × Nat}
    {allowed : Global Memory Agent → Label CountingSemaphore.Ending Move → Prop}
    {state : Global Memory Agent} (reached : Reachable (system queue numThreads) allowed state) :
    Listed state.shared state.agents := by
  refine Reaches.invariant Listed (fun same => Listed.perm same) ?_ ?_ ?_ reached
  · exact ⟨List.Perm.nil, nofun, List.Pairwise.nil, List.nodup_nil, nofun, nofun⟩
  · intro state index choice agent shared left _ _ _ acted listed
    exact moves_listed (act_moves acted) listed
  · intro state move shared left _ _ moved listed
    exact moves_listed (env_moves moved) listed

end Listed

/-! ## The CPU time never decreases -/

/-- Whether an agent holds the lock for reading. -/
def Agent.reads : Agent → Bool
  | .reader (.loop _ _ _) => true
  | _ => false

/-- A call has added up no more than its threads have used by now, and what it
has still to add takes it up to the results it came after. -/
def Agent.Metered (memory : Memory) : Agent → Prop
  | .pool _ => True
  | .reader (.readHolder earlier) => ∀ result ∈ earlier, result ≤ memory.getUsedCpuTime
  | .reader (.loop earlier acc index) =>
      acc ≤ ThreadList.accumulate memory.usedCpuTime memory.pastCpuUsed
        (memory.pool.threadList.take index) ∧
      ∀ result ∈ earlier, result ≤
        ThreadList.accumulate memory.usedCpuTime acc (memory.pool.threadList.drop index)

structure Metered (memory : Memory) (agents : List Agent) : Prop where
  readers : memory.readers = agents.countP Agent.reads
  free : 0 < memory.readers → memory.pool.threadListLock = none
  calls : ∀ agent ∈ agents, agent.Metered memory
  results : ∀ reading ∈ memory.readings, reading.result ≤ memory.getUsedCpuTime
  monotone : ∀ reading ∈ memory.readings, ∀ result ∈ reading.earlier, result ≤ reading.result

section Metered

variable {queue : TaskQueue} {memory after : Memory} {agent : Agent}
  {before left agents rest : List Agent}

theorem getUsedCpuTime_later (list : after.threadList = memory.threadList)
    (later : ∀ thread, memory.usedCpuTime thread ≤ after.usedCpuTime thread) :
    memory.getUsedCpuTime ≤ after.getUsedCpuTime := by
  rw [Memory.getUsedCpuTime, Memory.getUsedCpuTime, list]
  exact ThreadList.accumulate_mono (Nat.le_refl _) later

/-- While the list stays, the clocks may go on. -/
theorem Agent.Metered.later (metered : agent.Metered memory)
    (list : after.threadList = memory.threadList)
    (later : ∀ thread, memory.usedCpuTime thread ≤ after.usedCpuTime thread) :
    agent.Metered after := by
  have vec : after.pool.threadList = memory.pool.threadList := congrArg ThreadList.vec list
  have past : after.pastCpuUsed = memory.pastCpuUsed := congrArg ThreadList.pastCpuUsed list
  cases agent with
  | pool agent => trivial
  | reader at_ =>
      cases at_ with
      | readHolder earlier =>
          exact fun result member =>
            Nat.le_trans (metered result member) (getUsedCpuTime_later list later)
      | loop earlier acc index =>
          obtain ⟨added, toCome⟩ := metered
          constructor
          · rw [vec, past]
            exact Nat.le_trans added (ThreadList.accumulate_mono (Nat.le_refl _) later)
          · intro result member
            rw [vec]
            exact Nat.le_trans (toCome result member)
              (ThreadList.accumulate_mono (Nat.le_refl _) later)

theorem Agent.Metered.grow (metered : agent.Metered memory) (waits : agent.reads = false)
    (grows : memory.getUsedCpuTime ≤ after.getUsedCpuTime) : agent.Metered after := by
  cases agent with
  | pool agent => trivial
  | reader at_ =>
      cases at_ with
      | readHolder earlier =>
          exact fun result member => Nat.le_trans (metered result member) grows
      | loop earlier acc index => cases waits

theorem Metered.perm {others : List Agent} (same : agents.Perm others)
    (metered : Metered memory agents) : Metered memory others := by
  obtain ⟨readers, free, calls, results, monotone⟩ := metered
  exact ⟨readers.trans (same.countP_eq _), free, fun agent member =>
    calls agent (same.mem_iff.mpr member), results, monotone⟩

/-- A step that is not a reader's. -/
theorem Metered.goesOn {worked next : List CPUThreadPoolExecutor.Agent}
    (metered : Metered memory (worked.map .pool ++ rest))
    (readers : after.readers = memory.readers) (readings : after.readings = memory.readings)
    (unlocked : 0 < memory.readers → memory.pool.threadListLock = none →
      after.pool.threadListLock = none)
    (grows : memory.getUsedCpuTime ≤ after.getUsedCpuTime)
    (kept : ∀ agent ∈ rest, agent.Metered memory → agent.Metered after) :
    Metered after (next.map .pool ++ rest) := by
  have none (agents : List CPUThreadPoolExecutor.Agent) :
      (agents.map Agent.pool).countP Agent.reads = 0 :=
    List.countP_eq_zero.mpr fun agent member => by
      obtain ⟨worker, -, rfl⟩ := List.mem_map.mp member
      exact Bool.false_ne_true
  constructor
  case readers =>
    rw [readers, metered.readers, List.countP_append, List.countP_append, none, none]
  case free =>
    intro reading
    rw [readers] at reading
    exact unlocked reading (metered.free reading)
  case calls =>
    intro agent member
    rcases List.mem_append.mp member with own | other
    · obtain ⟨worker, -, rfl⟩ := List.mem_map.mp own
      trivial
    · exact kept agent other (metered.calls agent (List.mem_append_right _ other))
  case results =>
    rw [readings]
    exact fun reading member => Nat.le_trans (metered.results reading member) grows
  case monotone => exact readings ▸ metered.monotone

/-- While the lock is held for writing, nobody reads. -/
theorem Metered.holds {holder : Holder} (metered : Metered memory rest)
    (locked : memory.pool.threadListLock = some holder) (readers : after.readers = memory.readers)
    (readings : after.readings = memory.readings)
    (grows : memory.getUsedCpuTime ≤ after.getUsedCpuTime) : Metered after rest := by
  have none : ¬0 < memory.readers := fun reading => by
    cases locked.symm.trans (metered.free reading)
  have idle : ∀ agent ∈ rest, agent.reads = false := by
    have zero := Nat.eq_zero_of_not_pos none
    rw [metered.readers, List.countP_eq_zero] at zero
    exact fun agent member => Bool.eq_false_iff.mpr (zero agent member)
  exact @Metered.goesOn _ _ _ [] [] metered readers readings (fun reading => absurd reading none)
    grows fun agent member metered => metered.grow (idle agent member) grows

theorem Metered.locks {earlier : List Nat}
    (metered : Metered memory (.reader (.readHolder earlier) :: rest))
    (free : memory.pool.threadListLock = none) :
    Metered { memory with readers := memory.readers + 1 }
      (.reader (.loop earlier memory.pastCpuUsed 0) :: rest) := by
  obtain ⟨readers, -, calls, results, monotone⟩ := metered
  obtain ⟨own, others⟩ := List.forall_mem_cons.mp calls
  have one : (Agent.reader (.loop earlier memory.pastCpuUsed 0) :: rest).countP Agent.reads =
      memory.readers + 1 :=
    (List.countP_cons_of_pos rfl).trans (congrArg (· + 1) readers.symm)
  refine ⟨one.symm, fun _ => free, ?_, results, monotone⟩
  refine List.forall_mem_cons.mpr ⟨⟨Nat.le_refl _, own⟩, fun agent member => ?_⟩
  exact (others agent member).later rfl fun _ => Nat.le_refl _

theorem Metered.reads {earlier : List Nat} {acc index thread : Nat}
    (metered : Metered memory (.reader (.loop earlier acc index) :: rest))
    (at_ : memory.pool.threadList[index]? = some thread) :
    Metered memory
      (.reader (.loop earlier (acc + memory.usedCpuTime thread) (index + 1)) :: rest) := by
  obtain ⟨readers, free, calls, results, monotone⟩ := metered
  obtain ⟨⟨added, toCome⟩, others⟩ := List.forall_mem_cons.mp calls
  obtain ⟨inside, rfl⟩ := List.getElem?_eq_some_iff.mp at_
  refine ⟨readers, free, List.forall_mem_cons.mpr ⟨⟨?_, ?_⟩, others⟩, results, monotone⟩
  · rw [List.take_succ_eq_append_getElem inside, ThreadList.accumulate, List.foldl_append]
    exact Nat.add_le_add_right added _
  · rw [List.drop_eq_getElem_cons inside] at toCome
    exact toCome

theorem Metered.returns {earlier : List Nat} {acc index : Nat}
    (metered : Metered memory (.reader (.loop earlier acc index) :: rest))
    (ended : memory.pool.threadList[index]? = none) :
    Metered
      { memory with
        readers := memory.readers - 1
        readings := ⟨earlier, acc⟩ :: memory.readings } rest := by
  obtain ⟨readers, free, calls, results, monotone⟩ := metered
  obtain ⟨⟨added, toCome⟩, others⟩ := List.forall_mem_cons.mp calls
  have past := List.getElem?_eq_none_iff.mp ended
  rw [List.take_of_length_le past] at added
  rw [List.drop_of_length_le past] at toCome
  have one : memory.readers = rest.countP Agent.reads + 1 :=
    readers.trans (List.countP_cons_of_pos rfl)
  constructor
  case readers => exact congrArg Nat.pred one
  case free => exact fun _ => free (one ▸ Nat.succ_pos _)
  case calls =>
    exact fun agent member => (others agent member).later rfl fun _ => Nat.le_refl _
  case results => exact List.forall_mem_cons.mpr ⟨added, results⟩
  case monotone => exact List.forall_mem_cons.mpr ⟨toCome, monotone⟩

theorem moves_metered (ascending : memory.threadList.Ascending)
    (moves : memory.Moves before after left) (metered : Metered memory (before ++ rest)) :
    Metered after (left ++ rest) := by
  cases moves with
  | pool pool worked next quiet unlocked adding =>
      have list : ({ memory with pool } : Memory).threadList = memory.threadList :=
        congrArg (ThreadList.mk · _) quiet.threadList
      exact metered.goesOn rfl rfl unlocked (getUsedCpuTime_later list fun _ => Nat.le_refl _)
        fun agent _ metered => metered.later list fun _ => Nat.le_refl _
  | stops thread observed threadList locked removed =>
      have same := ThreadList.getUsedCpuTime_remove ascending removed
      exact metered.holds locked rfl rfl (Nat.le_of_eq same.symm)
  | adds holder next thread others locked isCall made started =>
      have more := ThreadList.getUsedCpuTime_add memory.usedCpuTime memory.threadList thread
      exact metered.holds locked rfl rfl (Nat.le.intro more.symm)
  | ticks usedCpuTime later =>
      exact @Metered.goesOn _ _ _ [] [] metered rfl rfl (fun _ => id)
        (getUsedCpuTime_later rfl later) fun agent _ metered => metered.later rfl later
  | makes room =>
      exact @Metered.goesOn _ _ _ [] [] metered rfl rfl (fun _ => id) (Nat.le_refl _)
        fun agent _ metered => metered.later rfl fun _ => Nat.le_refl _
  | skips =>
      exact @Metered.goesOn _ _ _ [] [] metered rfl rfl (fun _ => id) (Nat.le_refl _)
        fun agent _ metered => metered.later rfl fun _ => Nat.le_refl _
  | starts thread others worker made all unstarted isWorker =>
      exact @Metered.goesOn _ _ _ [] [worker] metered rfl rfl (fun _ => id) (Nat.le_refl _)
        fun agent _ metered => metered.later rfl fun _ => Nat.le_refl _
  | calls =>
      obtain ⟨readers, free, calls, results, monotone⟩ := metered
      refine ⟨readers, free, List.forall_mem_cons.mpr ⟨?_, calls⟩, results, monotone⟩
      exact List.forall_mem_map.mpr results
  | locks earlier free => exact metered.locks free
  | reads earlier acc index thread at_ => exact metered.reads at_
  | returns earlier acc index ended => exact metered.returns ended

theorem reachable_metered {numThreads : Nat × Nat}
    {allowed : Global Memory Agent → Label CountingSemaphore.Ending Move → Prop}
    {state : Global Memory Agent} (reached : Reachable (system queue numThreads) allowed state) :
    Metered state.shared state.agents := by
  refine Reaches.invariant Metered (fun same => Metered.perm same) ?_ ?_ ?_ reached
  · refine ⟨rfl, fun _ => rfl, ?_, nofun, nofun⟩
    intro agent member
    obtain ⟨call, -, rfl⟩ := List.mem_map.mp member
    trivial
  · intro state index choice agent shared left before _ _ acted metered
    exact moves_metered (reachable_listed before).ascending_list (act_moves acted) metered
  · intro state move shared left before _ moved metered
    exact moves_metered (reachable_listed before).ascending_list (env_moves moved) metered

end Metered

/-! ## The list and the pool -/

/-- The holder does what it does in the pool's own runs, where a new thread
takes its id when it is added. -/
theorem hold_refines {queue : TaskQueue} {wake : Bool} {memory after : Memory} {holder : Holder}
    {left : List Agent} (ascending : memory.threadList.Ascending)
    (stepped : memory.hold queue wake holder = some (after, left)) :
    ∃ id pool next,
      holder.next queue wake { memory.pool with nextId := id } = some (pool, next) ∧
      { after.pool with nextId := pool.nextId } = pool := by
  unfold Memory.hold at stepped
  split at stepped
  · next thread observed =>
      obtain ⟨threadList, removed, same⟩ := Option.map_eq_some_iff.mp stepped
      cases same
      have own : CPUThreadPoolExecutor.ThreadList.remove memory.pool.threadList thread =
          some threadList.vec :=
        (ThreadList.remove_vec ascending).symm.trans (congrArg (Option.map ThreadList.vec) removed)
      refine ⟨memory.pool.nextId, (memory.stopThread thread observed threadList).pool, [], ?_, rfl⟩
      simp only [Holder.next, own]
      rfl
  · next toAdd newThreads active next =>
      split at stepped
      · cases stepped
      · next thread rest made =>
          split at stepped
          · next started =>
              cases stepped
              have own : (memory.threadList.add thread).vec =
                  CPUThreadPoolExecutor.ThreadList.add memory.pool.threadList thread :=
                ThreadList.add_vec ascending
              refine ⟨thread, _, _, rfl, ?_⟩
              simp only [Memory.addThread, own]
          · cases stepped
  · next stays noneStarts =>
      obtain ⟨pool, next, moved, rfl, rfl⟩ := follow_eq_some stepped
      exact ⟨memory.pool.nextId, pool, next, moved, rfl⟩

/-- In every run the list is what it is relied on for. -/
theorem threadList_integrity (queue : TaskQueue) (numThreads : Nat × Nat)
    (state : Global Memory Agent)
    (reached : Reachable (system queue numThreads) anySchedule state) : Integrity state.shared := by
  have listed := reachable_listed reached
  have ascending := listed.ascending_list
  obtain ⟨once, -, others⟩ := List.nodup_append.mp listed.issued
  constructor
  case ascending => exact ascending
  case contains => exact fun thread => ThreadList.contains_iff ascending
  case checks =>
    intro thread observed locked
    have unstarted : state.shared.started = false := by
      refine Bool.eq_false_iff.mpr fun started => ?_
      obtain ⟨some, all⟩ := listed.first started
      rw [Memory.toAdd, locked] at all
      exact some (List.length_eq_zero_iff.mp all)
    have all := listed.staffed
    rw [workers, staff, locked, Memory.starting, unstarted] at all
    have member : thread ∈ state.shared.pool.threadList ++ [] :=
      all.mem_iff.mp List.mem_cons_self
    obtain ⟨index, -, removed⟩ :=
      ThreadList.remove_of_mem state.shared.usedCpuTime ascending (List.append_nil _ ▸ member)
    exact removed ▸ rfl
  case once => exact once
  case apart =>
    intro _ thread member stopped
    exact others thread (listed.stopped stopped) thread (List.mem_append_left _ member) rfl
  case monotone => exact (reachable_metered reached).monotone

private def holds (count : Nat) : List (Label CountingSemaphore.Ending Move) :=
  List.replicate count (Label.env (Move.pool (.hold true)))

private def acts (count : Nat) : List (Label CountingSemaphore.Ending Move) :=
  List.replicate count (Label.act 0 .handoff)

/-- The CPU time of a pool's only thread is read before it is stopped, and
after. -/
private def readAndStop : List (Label CountingSemaphore.Ending Move) :=
  acts 1 ++ holds 4 ++ [Label.env Move.makeThread, Label.env Move.newThread] ++ holds 3 ++
    acts 2 ++ [Label.env (Move.tick 0 5), Label.env Move.getUsedCpuTime] ++ acts 3 ++
    [Label.env (Move.pool (.invoke (.shutdown false)))] ++ acts 3 ++ holds 8 ++
    [Label.act 1 .handoff] ++ acts 2 ++ holds 2 ++ [Label.env Move.getUsedCpuTime] ++ acts 2

theorem threadList_integrity_readAndStop :
    ∃ state, (system .unbounded (1, 1)).run (system .unbounded (1, 1)).init readAndStop =
        some state ∧
      state.shared.passed = [0] ∧ state.shared.readings = [⟨[5], 5⟩, ⟨[], 5⟩] ∧
      Integrity state.shared := by
  have runs : ((system .unbounded (1, 1)).run (system .unbounded (1, 1)).init readAndStop).map
      (fun state => (state.shared.passed, state.shared.readings)) =
      some ([0], [⟨[5], 5⟩, ⟨[], 5⟩]) := by
    decide
  obtain ⟨state, replayed, values⟩ := Option.map_eq_some_iff.mp runs
  obtain ⟨passed, readings⟩ := Prod.mk.inj values
  exact ⟨state, replayed, passed, readings,
    threadList_integrity .unbounded (1, 1) state (Reachable.init.run replayed)⟩

end ThreadPoolExec.ThreadPoolExecutor
