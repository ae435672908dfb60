import ThreadPoolExec.Pool.ObserverBalance
import ThreadPoolExec.ProbedLevels

/-!
# Where the tasks are

A task is with its add until it is written, then in the queue, then with a
worker until it is run. No step makes a second one of it, and none that was
written is lost.
-/

set_option autoImplicit false

namespace ThreadPoolExec.CPUThreadPoolExecutor

open Interleaving

/-! ## Tasks and their levels -/

theorem exists_level_of_queued {tasks : Tasks} {task : Nat} (queued : task ∈ tasks.queued) :
    ∃ level, .func task ∈ tasks.levels.getD level [] := by
  obtain ⟨item, inLevels, isTask⟩ := List.mem_filterMap.mp queued
  obtain ⟨level, -, inLevel⟩ := Levels.exists_level_of_mem inLevels
  refine ⟨level, ?_⟩
  cases item with
  | func other =>
      cases isTask
      exact inLevel
  | poison byJoin => cases isTask

theorem queued_of_level {tasks : Tasks} {task level : Nat}
    (member : .func task ∈ tasks.levels.getD level []) : task ∈ tasks.queued := by
  rw [List.getD_eq_getElem?_getD] at member
  cases found : tasks.levels[level]? with
  | none => simp [found] at member
  | some items =>
      rw [found] at member
      exact List.mem_filterMap.mpr
        ⟨_, List.mem_flatten.mpr ⟨items, List.mem_of_getElem? found, member⟩, rfl⟩

/-! ## Nothing is lost or doubled -/

/-- A weight of the task that a worker has taken and not run yet. -/
def Agent.took (weight : Nat → Nat) : Agent → Nat
  | .worker _ (.taken task) => weight task
  | _ => 0

def Ensurer.wrote (weight : Nat → Nat) : Ensurer → Nat
  | .add task => weight task
  | .observer => 0

def Joiner.wrote (weight : Nat → Nat) : Joiner → Nat
  | .ensureJoined ensurer => ensurer.wrote weight
  | _ => 0

/-- A weight of the task of an add that has written it and not returned. -/
def Call.wrote (weight : Nat → Nat) : Call → Nat
  | .post task _ | .keepAliveRelease task => weight task
  | .ensureJoined ensurer | .ensureJoinedLock ensurer | .ensureActive ensurer
  | .ensureActiveMax ensurer _ | .ensureActiveLock ensurer => ensurer.wrote weight
  | .joinStoppedThreads _ joiner => joiner.wrote weight
  | _ => 0

def Agent.wrote (weight : Nat → Nat) : Agent → Nat
  | .worker _ _ => 0
  | .call at_ => at_.wrote weight

def Holder.wrote (weight : Nat → Nat) : Holder → Nat
  | .collectJoined ensurer | .ensureActive ensurer => ensurer.wrote weight
  | .addThreads _ _ _ next | .storeActive _ next => next.wrote weight
  | _ => 0

/-- A weight of the tasks that were written, as their adds tell. -/
def wrote (weight : Nat → Nat) (memory : Memory) (agents : List Agent) : Nat :=
  total weight memory.history.returned + memory.threadListLock.elim 0 (Holder.wrote weight) +
    total (Agent.wrote weight) agents

/-- A weight of the tasks that are in the queue, or were run. -/
def Memory.placed (weight : Nat → Nat) (memory : Memory) : Nat :=
  total weight memory.history.ran + total weight memory.tasks.queued

/-- Every task is in one place at most, and one that was written is in the queue
or past it. -/
structure Placed (memory : Memory) (agents : List Agent) : Prop where
  once : ∀ weight : Nat → Nat, memory.placed weight + total (Agent.inHand weight) agents ≤
    total weight (List.range memory.history.nextTask)
  kept : ∀ weight : Nat → Nat, wrote weight memory agents ≤
    memory.placed weight + total (Agent.took weight) agents

/-- A step makes no second one of a task, and loses none that was written. -/
structure Places (weight : Nat → Nat) (memory after : Memory) (agent : Agent)
    (left : List Agent) : Prop where
  once : after.placed weight + total (Agent.inHand weight) left ≤
    memory.placed weight + agent.inHand weight
  kept : wrote weight after left + (memory.placed weight + agent.took weight) ≤
    wrote weight memory [agent] + (after.placed weight + total (Agent.took weight) left)

section Placed

variable {queue : TaskQueue} {choice : CountingSemaphore.Ending} {wake : Bool}
  {memory after : Memory} {left rest agents others : List Agent} {agent : Agent} {holder : Holder}
  {weight : Nat → Nat} {task : Nat}

private theorem worker_places {thread : Nat} {worker : Worker}
    (step : worker.Step queue choice memory thread after left) :
    Places weight memory after (.worker thread worker) left := by
  cases step with
  | takesTask level task levels popped =>
      have queued : total weight memory.tasks.queued =
          weight task + total weight (Tasks.queued { memory.tasks with levels := levels }) :=
        total_perm (@queued_of_pop _ { memory.tasks with levels := levels } _ _ popped)
      constructor
      · simp only [Memory.placed, queued, Agent.inHand, Agent.inHand?, Option.elim_some,
          Option.elim_none, total_cons, total_nil]
        omega
      · simp only [Memory.placed, queued, wrote, Agent.wrote, Agent.took, total_cons, total_nil]
        omega
  | takesPoison level byJoin levels popped =>
      have queued : total weight memory.tasks.queued =
          total weight (Tasks.queued { memory.tasks with levels := levels }) :=
        total_perm (@queued_of_pop _ { memory.tasks with levels := levels } _ _ popped)
      constructor
      · rw [Memory.placed, Memory.placed, queued]
        exact Nat.le_refl _
      · rw [Memory.placed, Memory.placed, queued]
        exact Nat.le_refl _
  | runsTask task =>
      constructor
      · simp only [Memory.placed, Agent.inHand, Agent.inHand?, Option.elim_some,
          Option.elim_none, total_cons, total_nil]
        omega
      · simp only [Memory.placed, wrote, Agent.wrote, Agent.took, total_cons, total_nil]
        omega
  | _ => exact ⟨Nat.le_refl _, Nat.le_refl _⟩

private theorem returns_places {changed : Memory} {call : Call}
    (history : changed.history = memory.history)
    (lock : changed.threadListLock = memory.threadListLock)
    (levels : changed.tasks.levels = memory.tasks.levels)
    (wrote : call.wrote weight = weight task) :
    Places weight memory (changed.addReturns task) (.call call) [] := by
  have placed : (changed.addReturns task).placed weight = memory.placed weight := by
    rw [Memory.placed, Memory.placed, Tasks.queued, Memory.addReturns, levels, history]
    rfl
  constructor
  · rw [placed]
    exact Nat.add_le_add_left (Nat.zero_le _) _
  · rw [placed]
    simp only [CPUThreadPoolExecutor.wrote, Memory.addReturns, history, lock, Agent.wrote, wrote,
      Agent.took, total_cons, total_nil]
    omega

private theorem call_places {call : Call} (step : call.Step queue choice memory after left)
    (inside : memory.tasks.levels.length = queue.getNumPriorities) :
    Places weight memory after (.call call) left := by
  cases step with
  | noToken task priority joined => exact ⟨Nat.le_add_right _ _, Nat.le_refl _⟩
  | enqueues task priority mayNeed tasks written =>
      have queued : total weight tasks.queued = weight task + total weight memory.tasks.queued :=
        total_perm (queued_of_enqueue (inside ▸ queue.level_lt priority) written)
      constructor
      · simp only [Memory.placed, queued, Agent.inHand, Agent.inHand?, Call.adding?,
          Option.map_some, Option.map_none, Option.elim_some, Option.elim_none, total_cons,
          total_nil]
        omega
      · simp only [Memory.placed, queued, wrote, Agent.wrote, Call.wrote, Agent.took, total_cons,
          total_nil]
        omega
  | queueFull task priority mayNeed full => exact ⟨Nat.le_add_right _ _, Nat.le_refl _⟩
  | posts task => exact returns_places rfl rfl rfl rfl
  | releasesToken task => exact returns_places rfl rfl rfl rfl
  | enoughActive ensurer active above =>
      cases ensurer <;> exact ⟨Nat.le_refl _, Nat.le_refl _⟩
  | joinsAll joiner =>
      cases joiner with
      | ensureJoined ensurer => exact ⟨Nat.le_refl _, Nat.le_refl _⟩
      | setNumThreads resizer => cases resizer <;> exact ⟨Nat.le_refl _, Nat.le_refl _⟩
      | shutdown isJoin => exact ⟨Nat.le_refl _, Nat.le_refl _⟩
  | _ => exact ⟨Nat.le_refl _, Nat.le_refl _⟩

theorem act_places (step : agent.Step queue choice memory after left)
    (inside : memory.tasks.levels.length = queue.getNumPriorities) :
    Places weight memory after agent left := by
  cases step with
  | locks agent holder wants free =>
      have inHand : agent.inHand weight = 0 ∧ agent.took weight = 0 ∧
          holder.wrote weight = agent.wrote weight := by
        unfold Agent.wants at wants
        split at wants <;> cases wants <;> exact ⟨rfl, rfl, rfl⟩
      obtain ⟨inHand, took, wroteSame⟩ := inHand
      constructor
      · exact Nat.le_add_right _ _
      · rw [wrote, wrote, free, took, total_cons, ← wroteSame]
        refine Nat.add_le_add_right ?_ (memory.placed weight)
        change total weight memory.history.returned + holder.wrote weight ≤
          total weight memory.history.returned + 0 + (holder.wrote weight + 0)
        exact Nat.le_refl _
  | worker thread worker after left step => exact worker_places step
  | call call after left step => exact call_places step inside

theorem hold_wrote (step : holder.Step queue wake memory after left) :
    wrote weight after left = total weight memory.history.returned + holder.wrote weight := by
  cases step with
  | worker thread holder after left step => cases step <;> rfl
  | removal removal n holder after left step => cases step <;> rfl
  | call holder after left step =>
      cases step with
      | enoughActive ensurer above => cases ensurer <;> rfl
      | tooFewActive ensurer below => cases ensurer <;> rfl
      | _ => rfl

theorem took_le_inHand (agent : Agent) : agent.took weight ≤ agent.inHand weight := by
  cases agent with
  | call at_ => exact Nat.zero_le _
  | worker thread at_ => cases at_ <;> exact Nat.le_refl _

private theorem wrote_append (memory : Memory) (left rest : List Agent) :
    wrote weight memory (left ++ rest) =
      wrote weight memory left + total (Agent.wrote weight) rest := by
  rw [wrote, wrote, total_append]
  exact (Nat.add_assoc _ _ _).symm

theorem Placed.act (places : ∀ weight, Places weight memory after agent left)
    (nextTask : after.history.nextTask = memory.history.nextTask)
    (placed : Placed memory (agent :: rest)) : Placed after (left ++ rest) := by
  constructor
  case once =>
    intro weight
    have before := placed.once weight
    have step := (places weight).once
    rw [total_cons] at before
    rw [total_append, nextTask]
    omega
  case kept =>
    intro weight
    have before : wrote weight memory ([agent] ++ rest) ≤ _ := placed.kept weight
    have step := (places weight).kept
    rw [wrote_append, total_cons] at before
    rw [wrote_append, total_append]
    omega

theorem Placed.hold (wroteSame : ∀ weight, wrote weight after left = wrote weight memory [])
    (outside : after.outside = memory.outside)
    (queued : after.tasks.queued.Perm memory.tasks.queued)
    (leaves : ∀ next ∈ left, next.inHand? = none) (placed : Placed memory rest) :
    Placed after (left ++ rest) := by
  have ran : after.history.ran = memory.history.ran := congrArg Outside.ran outside
  have nextTask : after.history.nextTask = memory.history.nextTask :=
    congrArg Outside.nextTask outside
  have same (weight : Nat → Nat) : after.placed weight = memory.placed weight := by
    rw [Memory.placed, Memory.placed, ran, total_perm queued]
  have idle (weight : Nat → Nat) : total (Agent.inHand weight) left = 0 := by
    rw [total_eq_zero_iff]
    intro next member
    simp [Agent.inHand, leaves next member]
  constructor
  case once =>
    intro weight
    rw [total_append, idle, same, nextTask, Nat.zero_add]
    exact placed.once weight
  case kept =>
    intro weight
    have before : wrote weight memory ([] ++ rest) ≤ _ := placed.kept weight
    rw [wrote_append] at before
    rw [wrote_append, total_append, wroteSame, same]
    omega

private theorem invoke_inHand (memory : Memory) (operation : Operation) :
    total (Agent.inHand weight) (memory.invoke operation).2 +
        total weight (List.range memory.history.nextTask) =
      total weight (List.range (memory.invoke operation).1.history.nextTask) := by
  cases operation with
  | add priority =>
      change weight memory.history.nextTask + 0 + _ =
        total weight (List.range (memory.history.nextTask + 1))
      rw [List.range_succ, total_append, total_cons, total_nil]
      exact Nat.add_comm _ _
  | _ => exact Nat.zero_add _

theorem Placed.invoke (operation : Operation) (placed : Placed memory agents) :
    Placed (memory.invoke operation).1 ((memory.invoke operation).2 ++ agents) := by
  have same (weight : Nat → Nat) :
      (memory.invoke operation).1.placed weight = memory.placed weight := by
    cases operation <;> rfl
  have wroteSame (weight : Nat → Nat) :
      wrote weight (memory.invoke operation).1 (memory.invoke operation).2 =
        wrote weight memory [] := by
    cases operation <;> rfl
  constructor
  case once =>
    intro weight
    have before := placed.once weight
    have begun := @invoke_inHand weight memory operation
    rw [total_append, same]
    omega
  case kept =>
    intro weight
    have before : wrote weight memory ([] ++ agents) ≤ _ := placed.kept weight
    rw [wrote_append] at before
    rw [wrote_append, wroteSame, total_append, same]
    omega

theorem Placed.perm (same : agents.Perm others) (placed : Placed memory agents) :
    Placed memory others := by
  constructor
  case once =>
    intro weight
    rw [← total_perm same]
    exact placed.once weight
  case kept =>
    intro weight
    rw [wrote, ← total_perm same, ← total_perm same]
    exact placed.kept weight

theorem reachable_placed {numThreads : Nat × Nat}
    {allowed : Global Memory Agent → Label CountingSemaphore.Ending Move → Prop}
    {state : Global Memory Agent} (reached : Reachable (system queue numThreads) allowed state) :
    Placed state.shared state.agents := by
  refine Reaches.invariant Placed Placed.perm ?_ ?_ ?_ reached
  · have empty : queue.empty.queued = [] := by
      simp [TaskQueue.empty, Tasks.queued]
    constructor
    case once =>
      intro weight
      simp [system, Memory.placed, empty, Agent.inHand, Agent.inHand?, Call.adding?]
    case kept =>
      intro weight
      exact Nat.zero_le _
  · intro before index choice agent after left reaches _ _ acted placed
    have step := act_step acted
    exact placed.act (fun weight => act_places step (reachable_levels reaches))
      (act_nextTask step)
  · intro before move after left reaches _ moved placed
    rcases env_cases moved with ⟨operation, -, -, invoked⟩ | ⟨wake, holder, -, locked, stepped⟩
    · have called := placed.invoke operation
      rw [invoked] at called
      exact called
    · have step := hold_step stepped
      have levels := reachable_levels reaches
      obtain ⟨queued, leaves⟩ := hold_moves step (levels ▸ queue.level_lt Executor.LO_PRI)
        (reachable_stored reaches holder locked)
      refine placed.hold (fun weight => ?_) (hold_outside stepped) queued leaves
      rw [hold_wrote step, wrote, locked]
      rfl

/-- A task whose add has returned was run, waits in the queue or is with a
worker, and is nowhere else. -/
theorem Placed.returned (placed : Placed memory agents)
    (returned : task ∈ memory.history.returned) :
    memory.history.ran.count task + memory.tasks.queued.count task +
      total (Agent.took (single task)) agents = 1 ∧
      total (Agent.inHand (single task)) agents = total (Agent.took (single task)) agents := by
  have once := placed.once (single task)
  have kept := placed.kept (single task)
  have past : 0 < memory.history.returned.count task := List.count_pos_iff.mpr returned
  have fewer : total (Agent.took (single task)) agents ≤
      total (Agent.inHand (single task)) agents :=
    total_le_total fun agent _ => took_le_inHand agent
  have known : (List.range memory.history.nextTask).count task ≤ 1 :=
    List.nodup_iff_count_le_one.mp List.nodup_range task
  simp only [wrote, Memory.placed, total_single] at once kept
  omega

/-- An add that has not written its task has not returned. -/
theorem Placed.not_adding {call : Call} {priority : Int8}
    (placed : Placed memory (.call call :: rest)) (adds : call.adding? = some (task, priority)) :
    task ∉ memory.history.returned := by
  intro returned
  have same := (placed.returned returned).2
  have fewer : total (Agent.took (single task)) rest ≤ total (Agent.inHand (single task)) rest :=
    total_le_total fun agent _ => took_le_inHand agent
  have adding : (Agent.call call).inHand? = some task := congrArg (Option.map Prod.fst) adds
  have inHand : (Agent.call call).inHand (single task) = 1 := inHand_single adding
  have took : (Agent.call call).took (single task) = 0 := rfl
  rw [total_cons, total_cons, inHand, took] at same
  omega

end Placed

end ThreadPoolExec.CPUThreadPoolExecutor
