import ThreadPoolExec.Pool.Placement
import ThreadPoolExec.Pool.Shutdown
import ThreadPoolExec.Pool.Staff
import ThreadPoolExec.Pool.Supply

/-!
# What join leaves in the queue

The poison tasks of `join` lie behind everything whose add had returned, and a
worker that takes one finds nothing else left. But a worker obeys a stop whether
it has taken poison or not: one that has timed out leaves what is queued, and if
it is the last, `join` returns without it.
-/

set_option autoImplicit false

namespace ThreadPoolExec.CPUThreadPoolExecutor

open Interleaving

/-- `join` is called once every resize has returned, and takes the lock with a
worker in `threadList_`. -/
def joinsStaffed (state : Global Memory Agent)
    (label : Label CountingSemaphore.Ending Move) : Prop :=
  shutsDownLast state label ∧
    ∀ agent ∈ moving state label, agent = .call (.shutdown true) → state.shared.threadList ≠ []

/-- A worker is about to leave `threadList_` empty, after `join` has stored
`isJoin_`. -/
def Memory.lastLeaves (memory : Memory) : Bool :=
  match memory.threadListLock with
  | some (.stopThread _ _) => memory.isJoin && memory.threadList.length = 1
  | _ => false

/-- The last worker leaves only when a poison task of `join` was taken, or when
there is no task to run in the queue. -/
def lastAfterPoison (state : Global Memory Agent)
    (label : Label CountingSemaphore.Ending Move) : Prop :=
  joinsStaffed state label ∧
    (holding label = true → state.shared.lastLeaves = true →
      state.shared.history.poisonTaken = true ∨ state.shared.tasks.queued = [])

instance (state : Global Memory Agent) (label : Label CountingSemaphore.Ending Move) :
    Decidable (joinsStaffed state label) :=
  inferInstanceAs (Decidable (shutsDownLast state label ∧
    ∀ agent ∈ moving state label, agent = .call (.shutdown true) → state.shared.threadList ≠ []))

instance (state : Global Memory Agent) (label : Label CountingSemaphore.Ending Move) :
    Decidable (lastAfterPoison state label) :=
  inferInstanceAs (Decidable (joinsStaffed state label ∧
    (holding label = true → state.shared.lastLeaves = true →
      state.shared.history.poisonTaken = true ∨ state.shared.tasks.queued = [])))

/-! ## What waits before the poison of join -/

def CPUTask.beforeJoin (item : CPUTask) : Bool :=
  item ≠ .poison true

/-- A task in a level waits before every poison task of `join`: none was taken,
none is before it in its level, and past its level there is something before
them for everyone who probes. -/
structure Waits (memory : Memory) (agents : List Agent) (task level : Nat) : Prop where
  untaken : memory.history.poisonTaken = false
  before : .func task ∉ Levels.behind CPUTask.beforeJoin memory.tasks.levels level
  ahead : Levels.Ahead (Levels.front CPUTask.beforeJoin memory.tasks.levels) (probing agents)
    (level + 1)

structure Drains (memory : Memory) (agents : List Agent) : Prop where
  lowest : ∀ level, .poison true ∈ memory.tasks.levels.getD level [] →
    level + 1 = memory.tasks.levels.length
  uncalled : memory.history.shutdownCalled = false →
    memory.history.poisonTaken = false ∧ ∀ level, .poison true ∉ memory.tasks.levels.getD level []
  awaited : memory.history.awaited ⊆ memory.history.returned
  waits : ∀ task ∈ memory.history.awaited, ∀ level,
    .func task ∈ memory.tasks.levels.getD level [] → Waits memory agents task level

section Waits

variable {memory after : Memory} {agents left rest : List Agent} {agent : Agent}
  {task level position : Nat} {item : CPUTask}

theorem Waits.mono (waits : Waits memory agents task level)
    (untaken : after.history.poisonTaken = memory.history.poisonTaken)
    (levels : after.tasks.levels = memory.tasks.levels)
    (fewer : ∀ position, level < position → probing rest position ≤ probing agents position) :
    Waits after rest task level := by
  constructor
  case untaken => exact untaken.trans waits.untaken
  case before =>
    rw [levels]
    exact waits.before
  case ahead =>
    rw [levels]
    exact waits.ahead.mono fewer

theorem Waits.push (waits : Waits memory agents task level)
    (untaken : after.history.poisonTaken = memory.history.poisonTaken)
    (levels : after.tasks.levels = Levels.push memory.tasks.levels position item)
    (other : item ≠ .func task) (same : probing rest = probing agents) :
    Waits after rest task level := by
  constructor
  case untaken => exact untaken.trans waits.untaken
  case before =>
    rw [levels]
    intro member
    rcases Levels.mem_behind_push member with before | added
    · exact waits.before before
    · exact other added.symm
  case ahead =>
    rw [levels, same]
    intro probed within
    exact Nat.le_trans (waits.ahead probed within) Levels.after_front_push

theorem Waits.pop (waits : Waits memory agents task level)
    (untaken : after.history.poisonTaken = memory.history.poisonTaken)
    (popped : Levels.pop memory.tasks.levels position = some (item, after.tasks.levels))
    (kept : item.beforeJoin = true)
    (probes : ∀ level, probing agents level = Levels.probe position level + probing rest level) :
    Waits after rest task level := by
  constructor
  case untaken => exact untaken.trans waits.untaken
  case before =>
    rw [← Levels.behind_pop popped kept]
    exact waits.before
  case ahead =>
    have ahead := waits.ahead
    rw [show probing agents = _ from funext probes] at ahead
    exact ahead.pop (Levels.pop_front popped kept)

/-- Nobody takes a poison task of `join` while something waits before it. -/
theorem Waits.not_poison {levels : List (List CPUTask)} (waits : Waits memory agents task level)
    (queued : .func task ∈ memory.tasks.levels.getD level [])
    (lowest : ∀ level, .poison true ∈ memory.tasks.levels.getD level [] →
      level + 1 = memory.tasks.levels.length)
    (probes : 0 < probing agents position)
    (popped : Levels.pop memory.tasks.levels position = some (item, levels)) :
    item.beforeJoin = true := by
  cases kept : item.beforeJoin with
  | true => rfl
  | false =>
      obtain ⟨none, behind⟩ := Levels.pop_marked popped kept
      have inside : level < memory.tasks.levels.length := by
        by_contra outside
        simp [List.getD_eq_getElem?_getD, List.getElem?_eq_none (Nat.le_of_not_lt outside)] at queued
      have isPoison : item = .poison true := by
        simpa [CPUTask.beforeJoin] using kept
      have last : position + 1 = memory.tasks.levels.length := by
        apply lowest
        rw [Levels.getD_pop popped, if_pos rfl, isPoison]
        exact List.mem_cons_self
      rcases Nat.lt_or_eq_of_le (Nat.le_of_lt_succ (last ▸ inside)) with above | rfl
      · -- the levels from here on are down to the mark
        have ahead := waits.ahead.pos above probes
        rw [← Levels.after_succ_of_empty none, Levels.after_of_length_le] at ahead
        · exact absurd ahead (Nat.lt_irrefl 0)
        · rw [Levels.front, List.length_map, last]
      · exact absurd (behind.symm ▸ queued) waits.before

end Waits

section Drains

variable {queue : TaskQueue} {choice : CountingSemaphore.Ending} {wake : Bool}
  {memory after : Memory} {left rest agents others : List Agent} {agent : Agent} {holder : Holder}
  {item : CPUTask} {level : Nat}

/-- What a step of an agent does to the history that a drain is about. -/
theorem act_awaits (step : agent.Step queue choice memory after left) :
    after.history.shutdownCalled = memory.history.shutdownCalled ∧
      after.history.awaited = memory.history.awaited ∧
      memory.history.returned ⊆ after.history.returned ∧
      (after.history.poisonTaken = memory.history.poisonTaken ∨
        after.history.poisonTaken = true ∧
          ∃ thread position, agent = .worker thread (.tryTakeFor (.probe position)) ∧
            Levels.pop memory.tasks.levels position =
              some (.poison true, after.tasks.levels)) := by
  cases step with
  | locks agent holder wants free => exact ⟨rfl, rfl, List.Subset.refl _, .inl rfl⟩
  | worker thread worker after left step =>
      cases step with
      | takesPoison level byJoin levels popped =>
          refine ⟨rfl, rfl, List.Subset.refl _, ?_⟩
          cases byJoin with
          | false => exact .inl (Bool.or_false _)
          | true => exact .inr ⟨Bool.or_true _, thread, level, rfl, popped⟩
      | _ => exact ⟨rfl, rfl, List.Subset.refl _, .inl rfl⟩
  | call call after left step =>
      cases step with
      | posts task => exact ⟨rfl, rfl, List.subset_cons_self _ _, .inl rfl⟩
      | releasesToken task => exact ⟨rfl, rfl, List.subset_cons_self _ _, .inl rfl⟩
      | _ => exact ⟨rfl, rfl, List.Subset.refl _, .inl rfl⟩

/-- A task whose add has returned does not come to the queue. -/
theorem Agent.Turns.func_mem {task : Nat} (turns : agent.Turns queue memory after left)
    (placed : Placed memory (agent :: rest)) (returned : task ∈ memory.history.returned)
    (member : .func task ∈ after.tasks.levels.getD level []) :
    .func task ∈ memory.tasks.levels.getD level [] := by
  rcases turns.mem member with queued | ⟨other, priority, mayNeed, rfl, same⟩
  · exact queued
  · cases same
    exact absurd returned (placed.not_adding rfl)

theorem Holder.Turns.func_mem {task : Nat} (turns : holder.Turns queue memory after)
    (member : .func task ∈ after.tasks.levels.getD level []) :
    .func task ∈ memory.tasks.levels.getD level [] := by
  cases turns with
  | adds removal n count written lock =>
      obtain ⟨-, same⟩ := enqueue_eq_some written
      rw [same] at member
      rcases Levels.mem_of_push member with queued | added
      · exact queued
      · cases added
  | posts removal n count levels permits lock => exact levels ▸ member
  | elsewhere holder idle free tasks => exact tasks ▸ member

theorem Waits.act {task : Nat} (waits : Waits memory (agent :: rest) task level)
    (turns : agent.Turns queue memory after left)
    (taken : after.history.poisonTaken = memory.history.poisonTaken ∨
      after.history.poisonTaken = true ∧
        ∃ thread position, agent = .worker thread (.tryTakeFor (.probe position)) ∧
          Levels.pop memory.tasks.levels position = some (.poison true, after.tasks.levels))
    (queued : .func task ∈ memory.tasks.levels.getD level [])
    (lowest : ∀ level, .poison true ∈ memory.tasks.levels.getD level [] →
      level + 1 = memory.tasks.levels.length)
    (written : ∀ priority mayNeed, agent ≠ .call (.enqueue task priority mayNeed)) :
    Waits after (left ++ rest) task level := by
  have untaken : after.history.poisonTaken = memory.history.poisonTaken := by
    rcases taken with same | ⟨-, thread, position, rfl, popped⟩
    · exact same
    · cases waits.not_poison queued lowest (probing_probe_pos thread position rest) popped
  have fewer (idle : ∀ next ∈ left, next.Uninvolved) (position : Nat) :
      probing (left ++ rest) position ≤ probing (agent :: rest) position := by
    rw [probing_append, (total_uninvolved idle).2, Nat.zero_add]
    exact Nat.le_add_left _ _
  cases turns with
  | adds other priority mayNeed same =>
      obtain ⟨-, levels⟩ := enqueue_eq_some same
      refine waits.push untaken (congrArg Tasks.levels levels) ?_ rfl
      rintro ⟨⟩
      exact written priority mayNeed rfl
  | posts other mayNeed left levels permits done =>
      exact waits.mono untaken levels fun position _ => fewer done position
  | passes thread take before levels permits =>
      refine waits.mono untaken levels fun position within => ?_
      have later : Levels.probe 0 position = 0 := if_neg (Nat.not_le.mpr (Nat.zero_lt_of_lt within))
      rw [List.singleton_append, probing_probe, later, Nat.zero_add]
      exact Nat.le_add_left _ _
  | takes thread position item next popped sem done =>
      have kept := waits.not_poison queued lowest (probing_probe_pos thread position rest) popped
      refine waits.pop untaken popped kept fun probed => ?_
      rw [probing_probe, probing_append, (total_uninvolved (List.forall_mem_singleton.mpr done)).2,
        Nat.zero_add]
  | moves thread position empty tasks =>
      have nonempty : level + 1 ≠ position + 1 := by
        intro same
        rw [List.getD_eq_getElem?_getD, Nat.succ.inj same, empty] at queued
        cases queued
      refine ⟨untaken.trans waits.untaken, ?_, ?_⟩
      · rw [tasks]
        exact waits.before
      · rw [tasks]
        exact waits.ahead.move (Levels.front_of_empty empty) (probing_succ_le rest position)
          nonempty
  | elsewhere agent left idle done levels permits =>
      exact waits.mono untaken levels fun position _ => fewer done position

theorem Drains.act (step : agent.Step queue choice memory after left)
    (turns : agent.Turns queue memory after left)
    (placed : Placed memory (agent :: rest)) (drains : Drains memory (agent :: rest)) :
    Drains after (left ++ rest) := by
  obtain ⟨called, awaited, returned, taken⟩ := act_awaits step
  have poison {level : Nat} (member : .poison true ∈ after.tasks.levels.getD level []) :
      .poison true ∈ memory.tasks.levels.getD level [] := by
    rcases turns.mem member with old | ⟨task, priority, mayNeed, -, added⟩
    · exact old
    · cases added
  constructor
  case lowest =>
    intro level member
    rw [turns.length]
    exact drains.lowest level (poison member)
  case uncalled =>
    intro none
    obtain ⟨untaken, clear⟩ := drains.uncalled (called.symm.trans none)
    refine ⟨?_, fun level member => clear level (poison member)⟩
    rcases taken with same | ⟨-, thread, position, rfl, popped⟩
    · exact same.trans untaken
    · refine absurd ?_ (clear position)
      rw [Levels.getD_pop popped, if_pos rfl]
      exact List.mem_cons_self
  case awaited =>
    rw [awaited]
    exact List.Subset.trans drains.awaited returned
  case waits =>
    intro task isAwaited level member
    rw [awaited] at isAwaited
    have hasReturned := drains.awaited isAwaited
    have queued := turns.func_mem placed hasReturned member
    refine (drains.waits task isAwaited level queued).act turns taken queued drains.lowest ?_
    rintro priority mayNeed rfl
    exact placed.not_adding rfl hasReturned

/-- Nothing changes for what waits while the queue stays as it is. -/
theorem Drains.mono (drains : Drains memory agents)
    (levels : after.tasks.levels = memory.tasks.levels)
    (called : after.history.shutdownCalled = memory.history.shutdownCalled)
    (untaken : after.history.poisonTaken = memory.history.poisonTaken)
    (awaited : after.history.awaited = memory.history.awaited)
    (returned : after.history.returned = memory.history.returned)
    (probes : probing others = probing agents) : Drains after others := by
  constructor
  case lowest =>
    rw [levels]
    exact drains.lowest
  case uncalled =>
    rw [called, untaken, levels]
    exact drains.uncalled
  case awaited =>
    rw [awaited, returned]
    exact drains.awaited
  case waits =>
    rw [awaited, levels]
    intro task isAwaited level queued
    exact (drains.waits task isAwaited level queued).mono untaken levels fun position _ =>
      Nat.le_of_eq (congrFun probes position)

/-- Only a call of `join` adds a poison task of `join`. -/
theorem shutsDown_of_isJoin {removal : Removal} (isJoin : removal.isJoin = true) :
    removal.role.shutsDown = 1 := by
  cases removal with
  | setNumThreads numThreads resizer => cases isJoin
  | shutdown isJoin => rfl

theorem Drains.hold (locked : memory.threadListLock = some holder)
    (turns : holder.Turns queue memory after) (done : ∀ next ∈ left, next.Uninvolved)
    (outside : after.outside = memory.outside)
    (within : memory.tasks.levels.length = queue.getNumPriorities)
    (controlled : Controlled memory rest) (drains : Drains memory rest) :
    Drains after (left ++ rest) := by
  have called : after.history.shutdownCalled = memory.history.shutdownCalled :=
    congrArg Outside.shutdownCalled outside
  have untaken : after.history.poisonTaken = memory.history.poisonTaken :=
    congrArg Outside.poisonTaken outside
  have awaited : after.history.awaited = memory.history.awaited := congrArg Outside.awaited outside
  have returned : after.history.returned = memory.history.returned :=
    congrArg Outside.returned outside
  cases turns with
  | posts removal n count levels permits lock =>
      exact drains.mono levels called untaken awaited returned (probing_done done)
  | elsewhere holder idle free tasks =>
      exact drains.mono (congrArg Tasks.levels tasks) called untaken awaited returned
        (probing_done done)
  | adds removal n count written lock =>
      obtain ⟨-, pushed⟩ := enqueue_eq_some written
      have levels : after.tasks.levels = Levels.push memory.tasks.levels queue.poisonLevel
          (.poison removal.isJoin) := congrArg Tasks.levels pushed
      constructor
      case lowest =>
        intro level member
        rw [levels, Levels.getD_push] at member
        rw [levels, Levels.length_push]
        split at member
        · next same =>
            have last := queue.poisonLevel_eq
            have positive := queue.getNumPriorities_pos
            omega
        · exact drains.lowest level member
      case uncalled =>
        intro none
        obtain ⟨before, clear⟩ := drains.uncalled (called.symm.trans none)
        refine ⟨untaken.trans before, fun level member => ?_⟩
        rw [levels] at member
        rcases Levels.mem_of_push member with old | added
        · exact clear level old
        · have isJoin : removal.isJoin = true := (CPUTask.poison.inj added).symm
          have roles := (controlled.uncalled (called.symm.trans none)).1
          rw [countRoles, Memory.holding, locked, Option.elim_some, Holder.role,
            shutsDown_of_isJoin isJoin] at roles
          omega
      case awaited =>
        rw [awaited, returned]
        exact drains.awaited
      case waits =>
        rw [awaited]
        intro task isAwaited level member
        have queued := Holder.Turns.func_mem (.adds removal n count written lock) member
        exact (drains.waits task isAwaited level queued).push untaken levels (by simp)
          (probing_done done)

/-- When `stop` or `join` is called there is no poison of `join`, so all that
waits waits before it. -/
theorem Drains.shutdown (isJoin : Bool) (uncalled : memory.history.shutdownCalled = false)
    (supplied : Supplied memory agents) (drains : Drains memory agents) :
    Drains (memory.invoke (.shutdown isJoin)).1
      ((memory.invoke (.shutdown isJoin)).2 ++ agents) := by
  have probes : probing ((memory.invoke (.shutdown isJoin)).2 ++ agents) = probing agents :=
    probing_done (invoke_uninvolved memory (.shutdown isJoin))
  obtain ⟨untaken, clear⟩ := drains.uncalled uncalled
  have kept : ∀ items ∈ memory.tasks.levels, ∀ item ∈ items, item.beforeJoin = true := by
    intro items level item member
    obtain ⟨index, found⟩ := List.mem_iff_getElem?.mp level
    refine decide_eq_true ?_
    rintro rfl
    apply clear index
    rw [List.getD_eq_getElem?_getD, found]
    exact member
  constructor
  case lowest => exact drains.lowest
  case uncalled => exact fun uncalled => by cases uncalled
  case awaited => exact List.Subset.refl _
  case waits =>
    intro task isAwaited level queued
    constructor
    case untaken => exact untaken
    case before =>
      have none : Levels.behind CPUTask.beforeJoin memory.tasks.levels level = [] :=
        Levels.behind_of_forall kept
      change .func task ∉ Levels.behind CPUTask.beforeJoin memory.tasks.levels level
      rw [none]
      exact List.not_mem_nil
    case ahead =>
      rw [probes]
      have all : Levels.front CPUTask.beforeJoin memory.tasks.levels = memory.tasks.levels :=
        Levels.front_of_forall kept
      change Levels.Ahead (Levels.front CPUTask.beforeJoin memory.tasks.levels) _ _
      rw [all]
      exact fun position _ => supplied.ahead position (Nat.zero_le position)

theorem Drains.invoke {operation : Operation}
    (first : operation.controls = true → memory.history.shutdownCalled = false)
    (supplied : Supplied memory agents) (drains : Drains memory agents) :
    Drains (memory.invoke operation).1 ((memory.invoke operation).2 ++ agents) := by
  have probes : probing ((memory.invoke operation).2 ++ agents) = probing agents :=
    probing_done (invoke_uninvolved memory operation)
  cases operation with
  | shutdown isJoin => exact drains.shutdown isJoin (first rfl) supplied
  | _ => exact drains.mono rfl rfl rfl rfl rfl probes

theorem reachable_drains {numThreads : Nat × Nat}
    {allowed : Global Memory Agent → Label CountingSemaphore.Ending Move → Prop}
    {state : Global Memory Agent} (unbounded : queue.bounded = false)
    (controls : ∀ state label, allowed state label → shutsDownLast state label)
    (reached : Reachable (system queue numThreads) allowed state) :
    Drains state.shared state.agents := by
  refine Reaches.invariant Drains ?_ ?_ ?_ ?_ reached
  · intro memory agents others same drains
    exact drains.mono rfl rfl rfl rfl rfl (probing_perm same).symm
  · have empty (level : Nat) : queue.empty.levels.getD level [] = [] := by
      rw [TaskQueue.empty, List.getD_eq_getElem?_getD, List.getElem?_replicate]
      split <;> rfl
    constructor
    case lowest =>
      intro level member
      exact absurd (empty level ▸ member) List.not_mem_nil
    case uncalled =>
      refine fun _ => ⟨rfl, fun level member => ?_⟩
      exact absurd (empty level ▸ member) List.not_mem_nil
    case awaited => exact List.Subset.refl _
    case waits => exact fun task isAwaited => absurd isAwaited List.not_mem_nil
  · intro before index choice agent after left reaches _ found acted drains
    have step := act_step acted
    have placed := (reachable_placed reaches).perm (perm_of_getElem? found)
    exact drains.act step (act_turns unbounded step) placed
  · intro before move after left reaches allowed moved drains
    rcases env_cases moved with ⟨operation, rfl, -, invoked⟩ | ⟨wake, holder, -, locked, stepped⟩
    · have called := drains.invoke (controls before _ allowed operation rfl).2.1
        (reachable_supplied unbounded reaches)
      rw [invoked] at called
      exact called
    · obtain ⟨turns, done⟩ :=
        hold_turns unbounded (hold_step stepped) (reachable_stored reaches holder locked)
      exact drains.hold locked turns done (hold_outside stepped) (reachable_levels reaches)
        (reachable_controlled unbounded controls reaches)

end Drains

/-! ## Until join returns -/

/-- What `join` knows of its threads after it has given the lock back. -/
def Call.Joins (memory : Memory) : Call → Prop
  | .joinStoppedThreads _ (.shutdown true) | .checkThreadList true => memory.isJoin = true
  | .checkStopped true | .shutDown true => memory.isJoin = true ∧ memory.threadList = []
  | _ => True

def Agent.Joins (memory : Memory) : Agent → Prop
  | .worker _ _ => True
  | .call at_ => at_.Joins memory

/-- What it knows while it has the lock. -/
def Holder.Joins (memory : Memory) : Holder → Prop
  | .stopMax true | .stopActive true | .removeThreads (.shutdown true) _ => memory.threadList ≠ []
  | .collectToJoin true _ => memory.isJoin = true
  | _ => True

/-- No task that `join` is to wait for is in the queue. -/
def Memory.Settled (memory : Memory) : Prop :=
  ∀ task ∈ memory.history.awaited, ∀ level, .func task ∉ memory.tasks.levels.getD level []

structure Joined (memory : Memory) (agents : List Agent) : Prop where
  called : memory.isJoin = true → memory.history.shutdownCalled = true
  calls : ∀ agent ∈ agents, agent.Joins memory
  holds : ∀ holder, memory.threadListLock = some holder → holder.Joins memory
  settled : memory.isJoin = true → memory.threadList = [] → memory.Settled

section Joined

variable {queue : TaskQueue} {choice : CountingSemaphore.Ending} {wake : Bool}
  {memory after : Memory} {left rest agents others : List Agent} {agent : Agent} {holder : Holder}

theorem Agent.Joins.mono (joins : agent.Joins memory) (isJoin : after.isJoin = memory.isJoin)
    (empty : memory.threadList = [] → after.threadList = []) : agent.Joins after := by
  cases agent with
  | worker thread at_ => trivial
  | call at_ =>
      change at_.Joins memory at joins
      change at_.Joins after
      unfold Call.Joins at joins ⊢
      split at joins <;> simp_all

theorem Holder.Joins.congr (joins : holder.Joins memory) (isJoin : after.isJoin = memory.isJoin)
    (threadList : after.threadList = memory.threadList) : holder.Joins after := by
  unfold Holder.Joins at joins ⊢
  split at joins <;> simp_all

private theorem act_joins (step : agent.Step queue choice memory after left)
    (joins : agent.Joins memory) : ∀ next ∈ left, next.Joins after := by
  cases step with
  | locks agent holder wants free => exact List.forall_mem_nil _
  | worker thread worker after left step => cases step <;> simp [loopHead, Agent.Joins]
  | call call after left step =>
      cases step with
      | joinsAll joiner =>
          cases joiner with
          | shutdown isJoin => cases isJoin <;> exact List.forall_mem_singleton.mpr joins
          | ensureJoined ensurer => simp [Joiner.next, Agent.Joins, Call.Joins]
          | setNumThreads resizer =>
              cases resizer <;> simp [Joiner.next, Agent.Joins, Call.Joins]
      | joinsOne n joiner thread stopped first =>
          cases joiner with
          | shutdown isJoin => cases isJoin <;> exact List.forall_mem_singleton.mpr joins
          | _ => simp [Agent.Joins, Call.Joins]
      | noThreadLeft isJoin zero =>
          have none := List.eq_nil_of_length_eq_zero zero
          cases isJoin with
          | false => exact List.forall_mem_singleton.mpr trivial
          | true => exact List.forall_mem_singleton.mpr ⟨joins, none⟩
      | noStoppedLeft isJoin zero =>
          cases isJoin <;> exact List.forall_mem_singleton.mpr joins
      | enoughActive ensurer active above =>
          cases ensurer <;> simp [Ensurer.next, Agent.Joins, Call.Joins]
      | _ => simp [Agent.Joins, Call.Joins]

private theorem joins_of_wants (wants : agent.wants = some holder)
    (starts : agent = .call (.shutdown true) → memory.threadList ≠ []) : holder.Joins memory := by
  unfold Agent.wants at wants
  split at wants <;> cases wants
  case h_6 isJoin =>
    cases isJoin with
    | false => trivial
    | true => exact starts rfl
  all_goals trivial

theorem Memory.Settled.act (settled : memory.Settled)
    (step : agent.Step queue choice memory after left)
    (turns : agent.Turns queue memory after left) (placed : Placed memory (agent :: rest))
    (drains : Drains memory agents) : after.Settled := by
  intro task isAwaited level member
  rw [(act_awaits step).2.1] at isAwaited
  exact settled task isAwaited level
    (turns.func_mem placed (drains.awaited isAwaited) member)

theorem Memory.Settled.hold (settled : memory.Settled) (turns : holder.Turns queue memory after)
    (outside : after.outside = memory.outside) : after.Settled := by
  intro task isAwaited level member
  have awaited : after.history.awaited = memory.history.awaited := congrArg Outside.awaited outside
  rw [awaited] at isAwaited
  exact settled task isAwaited level (turns.func_mem member)

theorem Joined.act (acted : act queue choice memory agent = some (after, left))
    (starts : agent = .call (.shutdown true) → memory.threadList ≠ [])
    (settles : memory.Settled → after.Settled) (joined : Joined memory (agent :: rest)) : Joined after (left ++ rest) := by
  have step := act_step acted
  obtain ⟨threadList, -, -⟩ := act_threads acted
  have isJoin : after.isJoin = memory.isJoin := by
    rcases act_cases acted with ⟨holder, -, -, -, rfl⟩ | ⟨call, -, records⟩ | ⟨same, -⟩
    · rfl
    · cases records <;> rfl
    · exact congrArg Ledger.isJoin same
  constructor
  case called =>
    intro joining
    rw [(act_awaits step).1]
    exact joined.called (isJoin.symm.trans joining)
  case calls =>
    intro other member
    rcases List.mem_append.mp member with new | old
    · exact act_joins step (joined.calls agent List.mem_cons_self) other new
    · exact (joined.calls other (List.mem_cons_of_mem agent old)).mono isJoin threadList.trans
  case holds =>
    intro holder locked
    rcases act_cases acted with ⟨locker, wants, -, -, rfl⟩ | ⟨call, -, records⟩ | ⟨same, -⟩
    · cases locked
      exact (joins_of_wants wants starts).congr isJoin threadList
    · have before : memory.threadListLock = some holder := by
        cases records <;> exact locked
      exact (joined.holds holder before).congr isJoin threadList
    · have lock : after.threadListLock = memory.threadListLock :=
        congrArg Ledger.threadListLock same
      exact (joined.holds holder (lock.symm.trans locked)).congr isJoin threadList
  case settled =>
    intro joining empty
    exact settles (joined.settled (isJoin.symm.trans joining) (threadList.symm.trans empty))

/-- With the lock `join` comes to know what its next place asks. -/
private theorem hold_joins (step : holder.Step queue wake memory after left)
    (stored : holder.Stored memory.history.atLock memory.sizing) (joins : holder.Joins memory) :
    (∀ next ∈ left, next.Joins after) ∧
      ∀ next, after.threadListLock = some next → next.Joins after := by
  cases step with
  | worker thread holder after left step =>
      cases step <;>
        exact ⟨by simp [loopHead, Agent.Joins], fun next holds => by cases holds <;> trivial⟩
  | removal removal n holder after left step =>
      cases step <;>
        exact ⟨by simp [Agent.Joins, Call.Joins], fun next holds => by cases holds <;> trivial⟩
  | call holder after left step =>
      cases step with
      | clearsMax isJoin =>
          refine ⟨List.forall_mem_nil _, fun next holds => ?_⟩
          cases holds
          cases isJoin <;> exact joins
      | clearsActive isJoin =>
          refine ⟨List.forall_mem_nil _, fun next holds => ?_⟩
          cases holds
          cases isJoin <;> exact joins
      | poisonedShutdown isJoin n =>
          have same : memory.isJoin = isJoin := congrArg Sizing.isJoin stored.2
          refine ⟨List.forall_mem_nil _, fun next holds => ?_⟩
          cases holds
          cases isJoin with
          | false => trivial
          | true => exact same
      | collectsToJoin isJoin n =>
          refine ⟨List.forall_mem_singleton.mpr ?_, fun next holds => by cases holds⟩
          cases isJoin <;> exact joins
      | storesActive active next =>
          refine ⟨List.forall_mem_singleton.mpr ?_, fun next holds => by cases holds⟩
          cases next with
          | joinStoppedThreads n joiner => cases joiner <;> trivial
          | keepAliveRelease task => trivial
          | maxActive => trivial
          | _ => cases stored
      | enoughActive ensurer above =>
          refine ⟨List.forall_mem_singleton.mpr ?_, fun next holds => by cases holds⟩
          cases ensurer <;> trivial
      | _ =>
          exact ⟨by simp [loopHead, Agent.Joins, Call.Joins], fun next holds => by
            cases holds <;> trivial⟩

/-- A worker with the lock leaves what `join` knows as it is. -/
private theorem worker_joins {thread : Nat}
    (step : holder.WorkerStep queue memory thread after left) (joins : agent.Joins memory) :
    agent.Joins after := by
  cases step with
  | stops observed threadList removed =>
      refine joins.mono rfl fun empty => ?_
      rw [empty] at removed
      cases removed
  | _ => exact joins.mono rfl id

theorem joins_of_not_closes {call : Call} (open_ : call.closes = false) (memory : Memory) :
    call.Joins memory := by
  unfold Call.Joins
  split <;> first | cases open_ | trivial

/-- When the last worker may leave, nothing that `join` waits for is queued. -/
theorem Drains.settled (drains : Drains memory agents)
    (late : memory.history.poisonTaken = true ∨ memory.tasks.queued = []) : memory.Settled := by
  intro task isAwaited level member
  rcases late with taken | none
  · have untaken := (drains.waits task isAwaited level member).untaken
    cases untaken.symm.trans taken
  · have queued := queued_of_level member
    rw [none] at queued
    cases queued

/-- `threadList_` is not emptied under `join` before that. -/
private theorem hold_settled (step : holder.Step queue wake memory after left)
    (locked : memory.threadListLock = some holder) (joins : holder.Joins memory)
    (late : memory.lastLeaves = true → memory.Settled) (settles : memory.Settled → after.Settled)
    (settled : memory.isJoin = true → memory.threadList = [] → memory.Settled) :
    after.isJoin = true → after.threadList = [] → after.Settled := by
  cases step with
  | worker thread holder after left step =>
      cases step with
      | stops observed threadList removed =>
          rintro joining rfl
          have isJoin : memory.isJoin = true := joining
          have one : memory.threadList.length = 1 := ThreadList.length_of_remove removed
          apply settles
          apply late
          simp [Memory.lastLeaves, locked, isJoin, one]
      | _ => exact fun joining empty => settles (settled joining empty)
  | removal removal n holder after left step =>
      cases step with
      | storesIsJoin =>
          intro joining empty
          cases removal with
          | setNumThreads numThreads resizer => cases joining
          | shutdown isJoin =>
              have same : isJoin = true := joining
              subst same
              exact absurd empty joins
      | _ => exact fun joining empty => settles (settled joining empty)
  | call holder after left step =>
      cases step with
      | startsThread left newThreads active next =>
          intro _ empty
          have more : (ThreadList.add memory.threadList memory.nextId).length = 0 :=
            congrArg List.length empty
          rw [ThreadList.length_add] at more
          cases more
      | _ => exact fun joining empty => settles (settled joining empty)

private theorem hold_called (step : holder.Step queue wake memory after left)
    (locked : memory.threadListLock = some holder) (controlled : Controlled memory rest)
    (called : memory.isJoin = true → memory.history.shutdownCalled = true) :
    after.isJoin = true → memory.history.shutdownCalled = true := by
  cases step with
  | worker thread holder after left step => cases step <;> exact called
  | removal removal n holder after left step =>
      cases step with
      | storesIsJoin =>
          intro joining
          cases uncalled : memory.history.shutdownCalled with
          | true => rfl
          | false =>
              have roles := (controlled.uncalled uncalled).1
              rw [countRoles, Memory.holding, locked, Option.elim_some, Holder.role,
                shutsDown_of_isJoin joining] at roles
              omega
      | _ => exact called
  | call holder after left step => cases step <;> exact called

theorem Joined.hold (locked : memory.threadListLock = some holder)
    (step : holder.Step queue wake memory after left) (outside : after.outside = memory.outside)
    (stored : memory.Stored) (controlled : Controlled memory rest)
    (late : memory.lastLeaves = true → memory.Settled) (settles : memory.Settled → after.Settled)
    (joined : Joined memory rest) : Joined after (left ++ rest) := by
  have joins := joined.holds holder locked
  obtain ⟨leaves, holds⟩ := hold_joins step (stored holder locked) joins
  constructor
  case called =>
    have called : after.history.shutdownCalled = memory.history.shutdownCalled :=
      congrArg Outside.shutdownCalled outside
    rw [called]
    exact hold_called step locked controlled joined.called
  case calls =>
    intro other member
    rcases List.mem_append.mp member with new | old
    · exact leaves other new
    · cases other with
      | worker thread at_ => trivial
      | call at_ =>
          cases closes : at_.closes with
          | false => exact joins_of_not_closes closes after
          | true =>
              obtain ⟨thread, worker⟩ :=
                workerStep_of_thread step (controlled.works stored locked old closes)
              exact worker_joins worker (joined.calls _ old)
  case holds => exact holds
  case settled => exact hold_settled step locked joins late settles joined.settled

theorem Joined.invoke {operation : Operation}
    (first : operation.controls = true → memory.history.shutdownCalled = false)
    (joined : Joined memory agents) :
    Joined (memory.invoke operation).1 ((memory.invoke operation).2 ++ agents) := by
  have fresh : ∀ next ∈ (memory.invoke operation).2, next.Joins (memory.invoke operation).1 := by
    cases operation <;> exact List.forall_mem_singleton.mpr trivial
  have old : ∀ agent ∈ agents, agent.Joins (memory.invoke operation).1 := by
    intro agent member
    cases operation <;> exact (joined.calls agent member).mono rfl id
  constructor
  case called =>
    cases operation with
    | shutdown isJoin => exact fun _ => rfl
    | _ => exact joined.called
  case calls => exact List.forall_mem_append.mpr ⟨fresh, old⟩
  case holds =>
    intro holder locked
    cases operation <;> exact (joined.holds holder locked).congr rfl rfl
  case settled =>
    cases operation with
    | shutdown isJoin =>
        intro joining
        exact absurd ((first rfl).symm.trans (joined.called joining)) Bool.false_ne_true
    | _ => exact joined.settled

theorem reachable_joined {numThreads : Nat × Nat} {state : Global Memory Agent}
    (unbounded : queue.bounded = false)
    (reached : Reachable (system queue numThreads) lastAfterPoison state) :
    Joined state.shared state.agents := by
  refine Reaches.invariant Joined ?_ ?_ ?_ ?_ reached
  · intro memory agents others same joined
    exact ⟨joined.called, fun agent member => joined.calls agent (same.mem_iff.mpr member),
      joined.holds, joined.settled⟩
  · constructor
    case called => exact fun joining => by cases joining
    case calls => exact List.forall_mem_singleton.mpr trivial
    case holds => exact fun holder locked => by cases locked
    case settled => exact fun joining => by cases joining
  · intro before index choice agent after left reaches allowed found acted joined
    have step := act_step acted
    have placed := (reachable_placed reaches).perm (perm_of_getElem? found)
    have drains := reachable_drains unbounded (fun _ _ allowed => allowed.1.1) reaches
    exact joined.act acted (allowed.1.2 agent found) fun settled =>
      settled.act step (act_turns unbounded step) placed drains
  · intro before move after left reaches allowed moved joined
    rcases env_cases moved with ⟨operation, rfl, -, invoked⟩ | ⟨wake, holder, rfl, locked, stepped⟩
    · have called := joined.invoke (allowed.1.1 operation rfl).2.1
      rw [invoked] at called
      exact called
    · have step := hold_step stepped
      have stored : before.shared.Stored := reachable_stored reaches
      have turns := (hold_turns unbounded step (stored holder locked)).1
      have drains := reachable_drains unbounded (fun _ _ allowed => allowed.1.1) reaches
      have outside := hold_outside stepped
      exact joined.hold locked step outside stored
        (reachable_controlled unbounded (fun _ _ allowed => allowed.1.1) reaches)
        (fun leaves => drains.settled (allowed.2 rfl leaves)) fun settled =>
          settled.hold turns outside

end Joined

/-- Every task whose add had returned when `join` was called was handed to
`runTask` once, and is not in the queue. -/
def Memory.Drained (memory : Memory) : Prop :=
  ∀ task ∈ memory.history.awaited,
    memory.history.ran.count task = 1 ∧ task ∉ memory.tasks.queued

instance (memory : Memory) : Decidable memory.Drained :=
  inferInstanceAs (Decidable (∀ task ∈ memory.history.awaited,
    memory.history.ran.count task = 1 ∧ task ∉ memory.tasks.queued))

/-- No worker has a task when there is none. -/
theorem Staffed.took_eq_zero {memory : Memory} {agents : List Agent} {weight : Nat → Nat}
    (staffed : Staffed memory agents) (empty : memory.threadList = []) :
    total (Agent.took weight) agents = 0 := by
  have nobody := staffed.all
  rw [empty, List.perm_nil, staff, List.append_eq_nil_iff] at nobody
  rw [total_eq_zero_iff]
  intro agent member
  cases agent with
  | call at_ => rfl
  | worker thread at_ =>
      have works : thread ∈ agents.filterMap Agent.thread? :=
        List.mem_filterMap.mpr ⟨_, member, rfl⟩
      rw [nobody.2] at works
      cases works

/-- In a run in which the last worker leaves only after a poison task of `join`
was taken, or with no task in the queue, `join` has drained it when it
returns. -/
theorem join_drains (queue : TaskQueue) (unbounded : queue.bounded = false)
    (numThreads : Nat × Nat) (state : Global Memory Agent)
    (reached : Reachable (system queue numThreads) lastAfterPoison state)
    (returns : .call (.shutDown true) ∈ state.agents) : state.shared.Drained := by
  obtain ⟨joining, empty⟩ : state.shared.isJoin = true ∧ state.shared.threadList = [] :=
    (reachable_joined unbounded reached).calls _ returns
  have settled : state.shared.Settled :=
    (reachable_joined unbounded reached).settled joining empty
  have drains : Drains state.shared state.agents :=
    reachable_drains unbounded (fun _ _ allowed => allowed.1.1) reached
  intro task isAwaited
  have notQueued : task ∉ state.shared.tasks.queued := by
    intro queued
    obtain ⟨level, member⟩ := exists_level_of_queued queued
    exact settled task isAwaited level member
  have placed := ((reachable_placed reached).returned (drains.awaited isAwaited)).1
  rw [List.count_eq_zero_of_not_mem notQueued,
    (reachable_staffed reached).took_eq_zero empty] at placed
  exact ⟨placed, notQueued⟩

/-- `join` is called with a task in the queue, and the worker takes it before
the poison. -/
private def joinBehindTask : List (Label CountingSemaphore.Ending Move) :=
  frontActs 1 ++ held 7 ++ frontActs 2 ++ [Label.env (Move.invoke (.add 0))] ++ frontActs 5 ++
    [Label.env (Move.invoke (.shutdown true))] ++ frontActs 3 ++ held 8 ++
    [Label.act 1 .handoff] ++ frontActs 9 ++ held 2 ++ frontActs 4

theorem join_drains_behindTask :
    ∃ state : Global Memory Agent,
      (system .unbounded (1, 1)).run (system .unbounded (1, 1)).init joinBehindTask = some state ∧
      state.shared.history.awaited = [0] ∧ state.shared.Drained := by
  have runs : ((system .unbounded (1, 1)).run (system .unbounded (1, 1)).init joinBehindTask).map
      (fun state => (state.shared.history.awaited,
        decide (.call (.shutDown true) ∈ state.agents))) = some ([0], true) := by
    decide
  obtain ⟨state, replayed, values⟩ := Option.map_eq_some_iff.mp runs
  simp only [Prod.mk.injEq, decide_eq_true_eq] at values
  obtain ⟨awaited, returns⟩ := values
  have reached : Reachable (system .unbounded (1, 1)) lastAfterPoison state :=
    Reachable.init.replay (by decide) replayed
  exact ⟨state, replayed, awaited, join_drains .unbounded rfl (1, 1) state reached returns⟩

/-- The only worker has timed out when a task is added, and comes to the lock
after `join`. -/
private def joinAfterTimeout : List (Label CountingSemaphore.Ending Move) :=
  frontActs 1 ++ held 7 ++ frontActs 3 ++ [Label.act 0 .timeout] ++
    [Label.env (Move.invoke (.add 0))] ++ frontActs 5 ++
    [Label.env (Move.invoke (.shutdown true))] ++ frontActs 3 ++ held 8 ++
    [Label.act 1 .handoff] ++ held 2 ++ frontActs 4

/-- `join` returns and leaves a task whose add had returned. -/
theorem not_join_drains :
    ∃ state : Global Memory Agent,
      Reachable (system .unbounded (1, 1)) joinsStaffed state ∧
      .call (.shutDown true) ∈ state.agents ∧ state.shared.history.awaited = [0] ∧
      state.shared.history.ran = [] ∧ state.shared.tasks.queued = [0] ∧
      ¬ state.shared.Drained := by
  have runs : ((system .unbounded (1, 1)).run (system .unbounded (1, 1)).init
      joinAfterTimeout).map (fun state => (state.shared.history.awaited,
        state.shared.history.ran, state.shared.tasks.queued,
        decide (.call (.shutDown true) ∈ state.agents))) = some ([0], [], [0], true) := by
    decide
  obtain ⟨state, replayed, values⟩ := Option.map_eq_some_iff.mp runs
  simp only [Prod.mk.injEq, decide_eq_true_eq] at values
  obtain ⟨awaited, ran, queued, returns⟩ := values
  refine ⟨state, Reachable.init.replay (by decide) replayed, returns, awaited, ran, queued, ?_⟩
  intro drained
  have left : 0 ∉ state.shared.tasks.queued :=
    (drained 0 (awaited ▸ List.mem_cons_self)).2
  exact left (queued ▸ List.mem_cons_self)

end ThreadPoolExec.CPUThreadPoolExecutor
