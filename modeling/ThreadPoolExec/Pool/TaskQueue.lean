import ThreadPoolExec.CountingSemaphore
import ThreadPoolExec.Levels
import ThreadPoolExec.MPMCQueue.Slots
import ThreadPoolExec.TaskQueue.Priority

/-!
# The task queue of a pool

The four queues a pool may be built over differ in their levels, in what a
full level does and in whether a taker waits before it probes. A pool sees
them through `addWithPriority` and `try_take_for`, whose steps are given here;
a full level of the bounded queues throws. Levels are numbered in the order in
which a taker probes them.
-/

set_option autoImplicit false

namespace ThreadPoolExec.CPUThreadPoolExecutor

/-- A task to run, or a task that only stops its worker. The code does not
keep which of the pool's calls made a poison task. -/
inductive CPUTask where
  | func (task : Nat)
  | poison (byJoin : Bool)
deriving DecidableEq, Repr

inductive TaskQueue where
  | unbounded
  | priorityUnbounded (numPriorities : UInt8) (positive : 0 < numPriorities.toNat)
  | lifoSem (capacity : Nat)
  | priorityLifoSem (capacities : List Nat) (positive : 0 < capacities.length)
      (small : capacities.length < 256)

namespace TaskQueue

def getNumPriorities : TaskQueue → Nat
  | unbounded | lifoSem _ => 1
  | priorityUnbounded numPriorities _ => numPriorities.toNat
  | priorityLifoSem capacities _ _ => capacities.length

/-- The level of a priority; the two queues without priorities ignore it. -/
def level : TaskQueue → Int8 → Nat
  | unbounded, _ | lifoSem _, _ => 0
  | priorityUnbounded numPriorities positive, priority =>
      (PriorityUnboundedBlockingQueue.level? numPriorities.toNat priority).get
        (PriorityUnboundedBlockingQueue.level?_isSome positive numPriorities.toNat_lt priority)
  | priorityLifoSem capacities positive _, priority =>
      (PriorityLifoSemMPMCQueue.level? capacities.length priority).get
        (PriorityLifoSemMPMCQueue.level?_isSome positive priority)

/-- Poison tasks have the lowest priority. -/
def poisonLevel (queue : TaskQueue) : Nat :=
  queue.level Executor.LO_PRI

/-- The number of items that a level can hold, if there is a bound. -/
def capacity? : TaskQueue → Nat → Option Nat
  | unbounded, _ | priorityUnbounded _ _, _ => none
  | lifoSem capacity, _ => some capacity
  | priorityLifoSem capacities _ _, level => some (capacities.reverse.getD level 0)

def bounded : TaskQueue → Bool
  | unbounded | priorityUnbounded _ _ => false
  | lifoSem _ | priorityLifoSem _ _ _ => true

/-- The level whose size `size()` adds in a given place: the bounded queue goes
through its sub-queues from the one that takers probe last. -/
def sizeLevel (queue : TaskQueue) (index : Nat) : Nat :=
  if queue.bounded then queue.getNumPriorities - 1 - index else index

variable (queue : TaskQueue)

theorem getNumPriorities_pos : 0 < queue.getNumPriorities := by
  cases queue with
  | unbounded => exact Nat.one_pos
  | priorityUnbounded numPriorities positive => exact positive
  | lifoSem capacity => exact Nat.one_pos
  | priorityLifoSem capacities positive small => exact positive

theorem level_lt (priority : Int8) : queue.level priority < queue.getNumPriorities := by
  cases queue with
  | unbounded => exact Nat.one_pos
  | priorityUnbounded numPriorities positive =>
      exact PriorityUnboundedBlockingQueue.level?_lt (Option.some_get _).symm
  | lifoSem capacity => exact Nat.one_pos
  | priorityLifoSem capacities positive small =>
      exact PriorityLifoSemMPMCQueue.level?_lt (Option.some_get _).symm

theorem poisonLevel_eq : queue.poisonLevel = queue.getNumPriorities - 1 := by
  cases queue with
  | unbounded => rfl
  | priorityUnbounded numPriorities positive =>
      simp only [poisonLevel, level, getNumPriorities,
        PriorityUnboundedBlockingQueue.level?_loPri positive numPriorities.toNat_lt, Option.get_some]
  | lifoSem capacity => rfl
  | priorityLifoSem capacities positive small =>
      simp only [poisonLevel, level, getNumPriorities,
        PriorityLifoSemMPMCQueue.level?_loPri positive small, Option.get_some]

end TaskQueue

/-- What `taskQueue_` holds. -/
structure Tasks where
  levels : List (List CPUTask)
  sem : CountingSemaphore := {}
deriving DecidableEq, Repr

def TaskQueue.empty (queue : TaskQueue) : Tasks where
  levels := List.replicate queue.getNumPriorities []

namespace Tasks

def full (tasks : Tasks) (queue : TaskQueue) (level : Nat) : Bool :=
  (queue.capacity? level).any (MPMCQueue.full · (tasks.levels.getD level []).length 0)

/-- The write into a sub-queue; `QueueFullException` where there is none. -/
def enqueue (tasks : Tasks) (queue : TaskQueue) (level : Nat) (task : CPUTask) : Option Tasks :=
  if tasks.full queue level then none
  else some { tasks with levels := Levels.push tasks.levels level task }

/-- The post after it, with `reusedThread`. -/
def post (tasks : Tasks) (wake : Bool) : Tasks × Bool :=
  ({ tasks with sem := (tasks.sem.post wake).1 }, (tasks.sem.post wake).2)

/-- What one step of `size()` adds. -/
def sizeAt (tasks : Tasks) (queue : TaskQueue) (index : Nat) : Nat :=
  (tasks.levels.getD (queue.sizeLevel index) []).length

end Tasks

/-- Where a call of `try_take_for` is. -/
inductive Take where
  | semWait
  | asleep
  | probe (level : Nat)
deriving DecidableEq, Repr

def Take.start (queue : TaskQueue) : Take :=
  if queue.bounded then .probe 0 else .semWait

/-- One step of `try_take_for`, and its result at the end: nothing after a
timeout. The unbounded queues have no step once every level was probed, since
`dequeue` terminates the program there. -/
def Take.next (queue : TaskQueue) (choice : CountingSemaphore.Ending) (tasks : Tasks) :
    Take → Option (Tasks × (Take ⊕ Option CPUTask))
  | .semWait =>
      match tasks.sem.tryWait with
      | some sem => some ({ tasks with sem := sem }, .inl (.probe 0))
      | none => some ({ tasks with sem := tasks.sem.sleep }, .inl .asleep)
  | .asleep =>
      match tasks.sem.endWait true choice with
      | none => none
      | some (sem, true) => some ({ tasks with sem := sem }, .inl (.probe 0))
      | some (sem, false) => some ({ tasks with sem := sem }, .inr none)
  | .probe level =>
      if level < tasks.levels.length then
        match Levels.pop tasks.levels level with
        | some (task, levels) => some ({ tasks with levels := levels }, .inr (some task))
        | none => some (tasks, .inl (.probe (level + 1)))
      else if queue.bounded then some (tasks, .inl .semWait)
      else none

end ThreadPoolExec.CPUThreadPoolExecutor
