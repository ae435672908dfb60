import ThreadPoolExec.Pool.QueueFull

/-!
# Room for the poison tasks of a join

Where no task is added at the level of the poison tasks, that level holds only
poison tasks, those of earlier calls among them: a worker that left after a
task, or with nothing in hand, has left one behind. Whether `stop` and `join`
meet a full queue is decided when they take the lock.
-/

set_option autoImplicit false

namespace ThreadPoolExec.CPUThreadPoolExecutor

open Interleaving

/-- The level that poison tasks are added to. -/
def Tasks.lowest (tasks : Tasks) (queue : TaskQueue) : List CPUTask :=
  tasks.levels.getD queue.poisonLevel []

/-- The lowest level has room for a number of tasks. Its capacity is compared as
a signed number: from 2^63 on there is no room for any. -/
def Tasks.Room (tasks : Tasks) (queue : TaskQueue) (count : Nat) : Prop :=
  ∀ capacity ∈ queue.capacity? queue.poisonLevel,
    0 < count → ((tasks.lowest queue).length : Int) + count ≤ MPMCQueue.ssize capacity

instance (tasks : Tasks) (queue : TaskQueue) (count : Nat) : Decidable (tasks.Room queue count) :=
  inferInstanceAs (Decidable (∀ capacity ∈ queue.capacity? queue.poisonLevel,
    0 < count → ((tasks.lowest queue).length : Int) + count ≤ MPMCQueue.ssize capacity))

/-- The poison tasks that `stop` and `join` are still to add. -/
def Holder.toPoison (threads : Nat) : Holder → Nat
  | .stopMax _ | .stopActive _ => threads
  | .removeThreads (.shutdown _) n | .stopThreads (.shutdown _) n => n
  | .enqueuePoison (.shutdown _) _ left | .postPoison (.shutdown _) _ left => left
  | _ => 0

/-- A task that has yet to be added at a level. -/
def Call.addsAt (queue : TaskQueue) (level : Nat) : Call → Nat
  | .loadMin _ priority | .loadActive _ priority | .loadMax _ priority _
  | .getKeepAliveToken _ priority | .enqueue _ priority _ =>
      if queue.level priority = level then 1 else 0
  | _ => 0

def Agent.addsAt (queue : TaskQueue) (level : Nat) : Agent → Nat
  | .worker _ _ => 0
  | .call at_ => at_.addsAt queue level

/-! ## Conditions on a run -/

def Operation.addsAt (queue : TaskQueue) (level : Nat) : Operation → Bool
  | .add priority => queue.level priority = level
  | _ => false

/-- No task is added at the level of the poison tasks, and `stop` and `join`
take the lock only while that level has room for all threads. -/
def roomToJoin (queue : TaskQueue) (state : Global Memory Agent)
    (label : Label CountingSemaphore.Ending Move) : Prop :=
  (∀ operation ∈ invoked label, operation.addsAt queue queue.poisonLevel = false) ∧
    ∀ agent ∈ moving state label, agent.startsShutdown = true →
      state.shared.tasks.Room queue state.shared.threadList.length

instance (queue : TaskQueue) (state : Global Memory Agent)
    (label : Label CountingSemaphore.Ending Move) : Decidable (roomToJoin queue state label) :=
  inferInstanceAs (Decidable ((∀ operation ∈ invoked label,
    operation.addsAt queue queue.poisonLevel = false) ∧
    ∀ agent ∈ moving state label, agent.startsShutdown = true →
      state.shared.tasks.Room queue state.shared.threadList.length))

/-- `stop` or `join` is to add a poison task to a full level. -/
def JoinMeetsFull (queue : TaskQueue) (memory : Memory) : Prop :=
  ∃ isJoin n left,
    memory.threadListLock = some (.enqueuePoison (.shutdown isJoin) n (left + 1)) ∧
    memory.tasks.enqueue queue queue.poisonLevel (.poison isJoin) = none

/-! ## What steps do to the lowest level -/

section Lowest

variable {queue : TaskQueue} {choice : CountingSemaphore.Ending} {wake : Bool}
  {memory after : Memory} {left rest : List Agent} {agent : Agent} {holder next : Holder}
  {tasks written : Tasks} {level : Nat} {task : CPUTask}

theorem enqueue_eq_some (writes : tasks.enqueue queue level task = some written) :
    tasks.full queue level = false ∧
      written = { tasks with levels := Levels.push tasks.levels level task } := by
  unfold Tasks.enqueue at writes
  split at writes
  · cases writes
  · next room => exact ⟨Bool.eq_false_iff.mpr room, (Option.some.inj writes).symm⟩

theorem enqueue_eq_none (full : tasks.enqueue queue level task = none) :
    ∃ capacity ∈ queue.capacity? level,
      MPMCQueue.ssize capacity ≤ (tasks.levels.getD level []).length := by
  unfold Tasks.enqueue at full
  split at full
  · next isFull =>
      rw [Tasks.full, Option.any_eq_true] at isFull
      simpa [MPMCQueue.full] using isFull
  · cases full

theorem Tasks.room_zero (tasks : Tasks) (queue : TaskQueue) : tasks.Room queue 0 :=
  fun _ _ some => absurd some (Nat.lt_irrefl 0)

theorem Tasks.Room.of_le {count fewer : Nat} (room : tasks.Room queue count)
    (still : fewer ≤ count)
    (le : (written.lowest queue).length + fewer ≤ (tasks.lowest queue).length + count) :
    written.Room queue fewer := by
  intro capacity bounded some
  have := room capacity bounded (Nat.lt_of_lt_of_le some still)
  omega

private theorem lowest_push (tasks : Tasks) (queue : TaskQueue) (level : Nat) (task : CPUTask) :
    (Tasks.lowest { tasks with levels := Levels.push tasks.levels level task } queue).length ≤
      (tasks.lowest queue).length + if level = queue.poisonLevel then 1 else 0 := by
  simp only [Tasks.lowest, Levels.getD_push]
  split_ifs <;> simp_all

private theorem lowest_pop {levels : List (List CPUTask)}
    (popped : Levels.pop tasks.levels level = some (task, levels)) :
    (Tasks.lowest { tasks with levels := levels } queue).length ≤
      (tasks.lowest queue).length := by
  have split : tasks.levels.getD queue.poisonLevel [] = _ := Levels.getD_pop popped
  simp only [Tasks.lowest, split]
  split_ifs <;> simp

private theorem joiner_addsAt (queue : TaskQueue) (level : Nat) (joiner : Joiner) :
    total (Agent.addsAt queue level) joiner.next = 0 := by
  cases joiner with
  | ensureJoined ensurer => rfl
  | setNumThreads resizer => cases resizer <;> rfl
  | shutdown isJoin => rfl

private theorem ensurer_addsAt (queue : TaskQueue) (level : Nat) (ensurer : Ensurer) :
    ensurer.next.addsAt queue level = 0 := by
  cases ensurer <;> rfl

private theorem act_lowest (step : agent.Step queue choice memory after left)
    (clear : agent.addsAt queue queue.poisonLevel = 0) :
    (after.tasks.lowest queue).length ≤ (memory.tasks.lowest queue).length ∧
      total (Agent.addsAt queue queue.poisonLevel) left = 0 := by
  cases step with
  | locks agent holder wants free => exact ⟨Nat.le_refl _, rfl⟩
  | worker thread worker after left step =>
      cases step with
      | takesTask level task levels popped => exact ⟨lowest_pop popped, rfl⟩
      | takesPoison level byJoin levels popped => exact ⟨lowest_pop popped, rfl⟩
      | _ => exact ⟨Nat.le_refl _, rfl⟩
  | call call after left step =>
      cases step with
      | minIsZero task priority zero => exact ⟨Nat.le_refl _, clear⟩
      | minIsPositive task priority positive => exact ⟨Nat.le_refl _, clear⟩
      | loadsActive task priority => exact ⟨Nat.le_refl _, clear⟩
      | mayNeed task priority active below => exact ⟨Nat.le_refl _, clear⟩
      | noNeed task priority active above => exact ⟨Nat.le_refl _, clear⟩
      | getsToken task priority alive => exact ⟨Nat.le_refl _, clear⟩
      | enqueues task priority mayNeed tasks written =>
          obtain ⟨-, rfl⟩ := enqueue_eq_some written
          have elsewhere : queue.level priority ≠ queue.poisonLevel := by
            intro same
            simp [Agent.addsAt, Call.addsAt, same] at clear
          have added := lowest_push memory.tasks queue (queue.level priority) (.func task)
          rw [if_neg elsewhere] at added
          exact ⟨added, rfl⟩
      | enoughActive ensurer active above =>
          refine ⟨Nat.le_refl _, ?_⟩
          simp [Agent.addsAt, ensurer_addsAt]
      | joinsAll joiner => exact ⟨Nat.le_refl _, joiner_addsAt queue _ joiner⟩
      | _ => exact ⟨Nat.le_refl _, rfl⟩

end Lowest

/-! ## The room is kept -/

/-- The lowest level has room for what the holder of the lock is to add to it,
and nobody else adds to it. -/
structure Fits (queue : TaskQueue) (memory : Memory) (agents : List Agent) : Prop where
  room : ∀ holder, memory.threadListLock = some holder →
    memory.tasks.Room queue (holder.toPoison memory.threadList.length)
  adds : total (Agent.addsAt queue queue.poisonLevel) agents = 0

section Fits

variable {queue : TaskQueue} {choice : CountingSemaphore.Ending} {wake : Bool}
  {memory after : Memory} {left rest : List Agent} {agent : Agent} {holder next : Holder}

/-- Only `stop` and `join` come to the lock with poison tasks to add. -/
private theorem toPoison_of_wants (wants : agent.wants = some holder) (threads : Nat) :
    holder.toPoison threads = 0 ∨
      agent.startsShutdown = true ∧ holder.toPoison threads = threads := by
  unfold Agent.wants at wants
  split at wants <;> cases wants
  case h_6 isJoin => exact .inr ⟨rfl, rfl⟩
  all_goals exact .inl rfl

private theorem Fits.act (acted : act queue choice memory agent = some (after, left))
    (starts : agent.startsShutdown = true →
      memory.tasks.Room queue memory.threadList.length)
    (fits : Fits queue memory (agent :: rest)) : Fits queue after (left ++ rest) := by
  have adds := fits.adds
  rw [total_cons] at adds
  obtain ⟨fewer, none⟩ := act_lowest (act_step acted) (by omega)
  refine ⟨fun next holds => ?_, by rw [total_append]; omega⟩
  rcases act_cases acted with ⟨holder, wants, -, -, rfl⟩ | ⟨call, rfl, records⟩ | ⟨same, -⟩
  · cases holds
    rcases toPoison_of_wants wants memory.threadList.length with nothing | ⟨shuts, all⟩
    · rw [nothing]
      exact memory.tasks.room_zero queue
    · rw [all]
      exact starts shuts
  · cases records with
    | take n joiner thread stopped stoppedIs => exact fits.room next holds
    | construct second => exact fits.room next holds
  · have threads : after.threadList = memory.threadList := congrArg Ledger.threadList same
    have lock : after.threadListLock = memory.threadListLock :=
      congrArg Ledger.threadListLock same
    rw [threads]
    exact (fits.room next (lock.symm.trans holds)).of_le (Nat.le_refl _) (by omega)

private theorem Fits.hold (locked : memory.threadListLock = some holder)
    (stepped : holder.next queue wake memory = some (after, left))
    (stored : memory.Stored) (fits : Fits queue memory rest) :
    Fits queue after (left ++ rest) := by
  have known := stored holder locked
  have room := fits.room holder locked
  have keeps : total (Agent.addsAt queue queue.poisonLevel) left = 0 →
      total (Agent.addsAt queue queue.poisonLevel) (left ++ rest) = 0 := by
    intro none
    rw [total_append, none, fits.adds]
  cases hold_step stepped with
  | worker thread holder after left step =>
      cases step <;>
        exact ⟨fun next holds => by cases holds <;> exact Tasks.room_zero _ queue, keeps rfl⟩
  | removal removal n holder after left step =>
      cases step with
      | storesIsJoin =>
          refine ⟨fun next holds => ?_, keeps rfl⟩
          cases holds
          cases removal <;> exact room
      | raisesToStop =>
          refine ⟨fun next holds => ?_, keeps rfl⟩
          cases holds
          cases removal <;> exact room
      | enqueues left tasks written =>
          refine ⟨fun next holds => ?_, keeps rfl⟩
          cases holds
          cases removal with
          | setNumThreads numThreads resizer => exact Tasks.room_zero _ queue
          | shutdown isJoin =>
              obtain ⟨-, rfl⟩ := enqueue_eq_some written
              have added := lowest_push memory.tasks queue queue.poisonLevel (.poison isJoin)
              rw [if_pos rfl] at added
              refine room.of_le (Nat.le_succ left) ?_
              simp only [Holder.toPoison, Removal.isJoin] at added ⊢
              omega
      | queueFull left full => exact ⟨nofun, keeps rfl⟩
      | posts left =>
          refine ⟨fun next holds => ?_, keeps rfl⟩
          cases holds
          cases removal <;> exact room
  | call holder after left step =>
      cases step with
      | clearsMax isJoin =>
          refine ⟨fun next holds => ?_, keeps rfl⟩
          cases holds
          exact room
      | clearsActive isJoin =>
          refine ⟨fun next holds => ?_, keeps rfl⟩
          cases holds
          exact room
      | storesActive active next =>
          refine ⟨nofun, keeps ?_⟩
          cases next <;> first | rfl | cases known
      | enoughActive ensurer above =>
          refine ⟨nofun, keeps ?_⟩
          simp [Agent.addsAt, ensurer_addsAt]
      | _ =>
          exact ⟨fun next holds => by cases holds <;> exact Tasks.room_zero _ queue, keeps rfl⟩

theorem reachable_fits {numThreads : Nat × Nat} {state : Global Memory Agent}
    (reached : Reachable (system queue numThreads) (roomToJoin queue) state) :
    Fits queue state.shared state.agents := by
  have start : Fits queue (system queue numThreads).init.shared
      (system queue numThreads).init.agents := by
    refine ⟨?_, rfl⟩
    intro holder holds
    cases holds
  refine Reaches.invariant (Fits queue) ?_ start ?_ ?_ reached
  · intro memory agents others same fits
    exact ⟨fits.room, total_perm same ▸ fits.adds⟩
  · intro before index choice agent after left _ allowed found acted fits
    exact fits.act acted fun starts => allowed.2 agent found starts
  · intro before move after left reaches allowed moved fits
    rcases env_cases moved with ⟨operation, rfl, -, invoked⟩ | ⟨wake, holder, -, locked, stepped⟩
    · have elsewhere := allowed.1 operation rfl
      have none : total (Agent.addsAt queue queue.poisonLevel) left = 0 := by
        cases operation with
        | add priority =>
            cases invoked
            simp only [Operation.addsAt, decide_eq_false_iff_not] at elsewhere
            simp [Agent.addsAt, Call.addsAt, elsewhere]
        | _ =>
            cases invoked
            rfl
      refine ⟨?_, by rw [total_append, none, fits.adds]⟩
      cases operation <;> cases invoked <;> exact fits.room
    · exact fits.hold locked stepped (reachable_stored reaches)

theorem Fits.not_joinMeetsFull {agents : List Agent} (fits : Fits queue memory agents) :
    ¬JoinMeetsFull queue memory := by
  rintro ⟨isJoin, n, left, locked, full⟩
  obtain ⟨capacity, bounded, few⟩ := enqueue_eq_none full
  have enough := fits.room _ locked capacity bounded (Nat.succ_pos left)
  simp only [Holder.toPoison, Tasks.lowest] at enough
  omega

end Fits

/-! ## What a join without room can meet -/

/-- How a step changes the task queue. -/
inductive Tasks.Change (queue : TaskQueue) (tasks : Tasks) : Tasks → Prop where
  | sem (sem : CountingSemaphore) : Change queue tasks { tasks with sem := sem }
  | takes (level : Nat) (task : CPUTask) (levels : List (List CPUTask))
      (popped : Levels.pop tasks.levels level = some (task, levels)) :
      Change queue tasks { tasks with levels := levels }
  | enqueues (level : Nat) (task : CPUTask) (written : Tasks)
      (writes : tasks.enqueue queue level task = some written) : Change queue tasks written

section Levels

variable {queue : TaskQueue} {choice : CountingSemaphore.Ending} {wake : Bool}
  {memory after : Memory} {left : List Agent} {agent : Agent} {holder : Holder}
  {tasks changed : Tasks}

theorem act_tasks (step : agent.Step queue choice memory after left) :
    memory.tasks.Change queue after.tasks := by
  cases step with
  | locks agent holder wants free => exact .sem _
  | worker thread worker after left step =>
      cases step with
      | takesTask level task levels popped => exact .takes _ _ _ popped
      | takesPoison level byJoin levels popped => exact .takes _ _ _ popped
      | _ => exact .sem _
  | call call after left step =>
      cases step with
      | enqueues task priority mayNeed tasks written => exact .enqueues _ _ _ written
      | _ => exact .sem _

theorem hold_tasks (step : holder.Step queue wake memory after left) :
    memory.tasks.Change queue after.tasks := by
  cases step with
  | worker thread holder after left step => cases step <;> exact .sem _
  | removal removal n holder after left step =>
      cases step with
      | enqueues left tasks written => exact .enqueues _ _ _ written
      | _ => exact .sem _
  | call holder after left step => cases step <;> exact .sem _

private theorem length_change (change : tasks.Change queue changed) :
    changed.levels.length = tasks.levels.length := by
  cases change with
  | sem sem => rfl
  | takes level task levels popped => exact Levels.length_pop popped
  | enqueues level task written writes =>
      obtain ⟨-, rfl⟩ := enqueue_eq_some writes
      exact Levels.length_push

/-- There are as many levels as priorities. -/
theorem reachable_levels {numThreads : Nat × Nat}
    {allowed : Global Memory Agent → Label CountingSemaphore.Ending Move → Prop}
    {state : Global Memory Agent}
    (reached : Reachable (system queue numThreads) allowed state) :
    state.shared.tasks.levels.length = queue.getNumPriorities := by
  refine Reaches.invariant (fun memory _ => memory.tasks.levels.length = queue.getNumPriorities)
    ?_ List.length_replicate ?_ ?_ reached
  · intro memory agents others _ same
    exact same
  · intro before index choice agent after left _ _ _ acted same
    exact (length_change (act_tasks (act_step acted))).trans same
  · intro before move after left _ _ moved same
    rcases env_cases moved with ⟨operation, -, -, invoked⟩ | ⟨wake, holder, -, -, stepped⟩
    · cases operation <;> cases invoked <;> exact same
    · exact (length_change (hold_tasks (hold_step stepped))).trans same

end Levels

section Overfull

variable {queue : TaskQueue} {numThreads : Nat × Nat} {first state : Global Memory Agent}

theorem Reaches.hold {memory : Memory} {left : List Agent} {holder : Holder} (wake : Bool)
    (reached : Reaches (system queue numThreads) anySchedule first state)
    (locked : state.shared.threadListLock = some holder)
    (stepped : holder.next queue wake state.shared = some (memory, left)) :
    Reaches (system queue numThreads) anySchedule first ⟨memory, left ++ state.agents⟩ := by
  have moved : (system queue numThreads).step state (.env (.hold wake)) =
      some ⟨memory, left ++ state.agents⟩ := by
    simp only [System.step, system, env, locked, stepped]
  exact .step reached trivial moved

/-- With more poison tasks to add than there is room for, the level is full
before the last of them. -/
private theorem overfull_poison {isJoin : Bool} {n capacity : Nat}
    (bounded : queue.capacity? queue.poisonLevel = some capacity) (left : Nat)
    (reached : Reaches (system queue numThreads) anySchedule first state)
    (levels : state.shared.tasks.levels.length = queue.getNumPriorities)
    (locked : state.shared.threadListLock = some (.enqueuePoison (.shutdown isJoin) n (left + 1)))
    (more : MPMCQueue.ssize capacity < (state.shared.tasks.lowest queue).length + (left + 1)) :
    ∃ later, Reaches (system queue numThreads) anySchedule first later ∧
      JoinMeetsFull queue later.shared := by
  induction left generalizing state with
  | zero =>
      -- the last one finds the level full
      have test : MPMCQueue.full capacity (state.shared.tasks.lowest queue).length 0 = true :=
        decide_eq_true (by omega)
      have full : state.shared.tasks.full queue queue.poisonLevel = true := by
        simp only [Tasks.full, bounded, Option.any_some]
        exact test
      exact ⟨state, reached, isJoin, n, 0, locked, if_pos full⟩
  | succ left ih =>
      cases writes : state.shared.tasks.enqueue queue queue.poisonLevel (.poison isJoin) with
      | none => exact ⟨state, reached, isJoin, n, left + 1, locked, writes⟩
      | some tasks =>
          have stepped : (Holder.enqueuePoison (.shutdown isJoin) n (left + 2)).next queue true
              state.shared = some ({ state.shared with
                tasks := tasks
                threadListLock := some (.postPoison (.shutdown isJoin) n (left + 1)) }, []) := by
            simp only [Holder.next, Removal.isJoin, writes, Memory.hold]
          have enqueued := Reaches.hold true reached locked stepped
          have posted := Reaches.hold true enqueued rfl rfl
          have same := (length_change (.enqueues _ _ _ writes)).trans levels
          obtain ⟨-, rfl⟩ := enqueue_eq_some writes
          refine ih posted same rfl ?_
          have inside : queue.poisonLevel < state.shared.tasks.levels.length := by
            rw [levels]
            exact queue.level_lt _
          simp only [Tasks.lowest, Tasks.post, Levels.getD_push, inside, and_self, if_true,
            List.length_append, List.length_singleton] at more ⊢
          omega

theorem exists_joinMeetsFull {isJoin : Bool}
    (reached : Reachable (system queue numThreads) anySchedule state)
    (locked : state.shared.threadListLock = some (.stopMax isJoin))
    (overfull : ¬state.shared.tasks.Room queue state.shared.threadList.length) :
    ∃ later, Reaches (system queue numThreads) anySchedule state later ∧
      JoinMeetsFull queue later.shared := by
  have levels := reachable_levels reached
  simp only [Tasks.Room, not_forall, Int.not_le] at overfull
  obtain ⟨capacity, bounded, positive, more⟩ := overfull
  obtain ⟨left, threads⟩ : ∃ left, state.shared.threadList.length = left + 1 :=
    Nat.exists_eq_add_one.mpr positive
  have start : Reaches (system queue numThreads) anySchedule state state := .refl
  have maxCleared := Reaches.hold true start locked rfl
  have activeCleared := Reaches.hold true maxCleared rfl rfl
  have isJoinStored := Reaches.hold true activeCleared rfl rfl
  have toStopRaised := Reaches.hold true isJoinStored rfl rfl
  rw [threads] at more
  have adding : some (Holder.enqueuePoison (.shutdown isJoin) state.shared.threadList.length
      state.shared.threadList.length) =
        some (.enqueuePoison (.shutdown isJoin) state.shared.threadList.length (left + 1)) := by
    rw [threads]
  exact overfull_poison bounded left toStopRaised levels adding more

end Overfull

/-- `join` meets no full queue in a run in which no task is added at the lowest
level, if that level has room for all threads when it takes the lock; where it
has not, there is an order of steps in which `join` meets one. -/
theorem join_never_meets_full (queue : TaskQueue) (numThreads : Nat × Nat) :
    (∀ state, Reachable (system queue numThreads) (roomToJoin queue) state →
      ¬JoinMeetsFull queue state.shared) ∧
    ∀ state isJoin, Reachable (system queue numThreads) anySchedule state →
      state.shared.threadListLock = some (.stopMax isJoin) →
      ¬state.shared.tasks.Room queue state.shared.threadList.length →
      ∃ later, Reaches (system queue numThreads) anySchedule state later ∧
        JoinMeetsFull queue later.shared :=
  ⟨fun _ reached => (reachable_fits reached).not_joinMeetsFull,
    fun _ _ reached locked overfull => exists_joinMeetsFull reached locked overfull⟩

/-- Two levels, the lower one for the poison task of one thread. -/
private def oneOverEight : TaskQueue :=
  .priorityLifoSem [1, 8] (by decide) (by decide)

/-- The worker leaves `setNumThreads(0)` after a task; the one that
`setNumThreads(1)` starts has a task when `join()` comes. -/
private def joinBehindPoison : List (Label CountingSemaphore.Ending Move) :=
  frontActs 1 ++ held 8 ++ frontActs 2 ++ [Label.env (Move.invoke (.add 127))] ++ frontActs 7 ++
    [Label.env (Move.invoke (.setNumThreads 0))] ++ frontActs 1 ++ held 11 ++
    [Label.act 1 .handoff] ++ frontActs 4 ++ held 2 ++ frontActs 2 ++
    [Label.env (Move.invoke (.setNumThreads 1))] ++ frontActs 1 ++ held 8 ++ frontActs 1 ++
    [Label.env (Move.invoke (.add 127))] ++ frontActs 9 ++
    [Label.env (Move.invoke (.shutdown true))] ++ frontActs 3 ++ held 4

theorem join_meets_full_behind_poison :
    (∀ label ∈ joinBehindPoison, ∀ operation ∈ invoked label,
      operation.addsAt oneOverEight oneOverEight.poisonLevel = false) ∧
    oneOverEight.capacity? oneOverEight.poisonLevel = some 1 ∧
    ∃ state : Global Memory Agent,
      (system oneOverEight (1, 1)).run (system oneOverEight (1, 1)).init joinBehindPoison =
        some state ∧
      JoinMeetsFull oneOverEight state.shared := by
  have runs : ((system oneOverEight (1, 1)).run (system oneOverEight (1, 1)).init
      joinBehindPoison).map (fun state => (state.shared.threadListLock,
        state.shared.tasks.enqueue oneOverEight oneOverEight.poisonLevel (.poison true))) =
      some (some (.enqueuePoison (.shutdown true) 1 1), none) := by decide
  obtain ⟨state, replayed, values⟩ := Option.map_eq_some_iff.mp runs
  rw [Prod.mk.injEq] at values
  exact ⟨by decide, by decide, state, replayed, true, 1, 0, values⟩

/-- `join()` straight after the constructor. -/
private def joinAtOnce : List (Label CountingSemaphore.Ending Move) :=
  frontActs 1 ++ held 8 ++ frontActs 2 ++ [Label.env (Move.invoke (.shutdown true))] ++
    frontActs 3 ++ held 4

theorem join_never_meets_full_atOnce :
    ∃ state : Global Memory Agent,
      (system oneOverEight (1, 1)).run (system oneOverEight (1, 1)).init joinAtOnce = some state ∧
      state.shared.threadListLock = some (.enqueuePoison (.shutdown true) 1 1) ∧
      ¬JoinMeetsFull oneOverEight state.shared := by
  have runs : ((system oneOverEight (1, 1)).run (system oneOverEight (1, 1)).init
      joinAtOnce).map (fun state => state.shared.threadListLock) =
      some (some (.enqueuePoison (.shutdown true) 1 1)) := by decide
  obtain ⟨state, replayed, locked⟩ := Option.map_eq_some_iff.mp runs
  have reached : Reachable (system oneOverEight (1, 1)) (roomToJoin oneOverEight) state :=
    Reachable.init.replay (by decide) replayed
  exact ⟨state, replayed, locked, (join_never_meets_full oneOverEight (1, 1)).1 state reached⟩

end ThreadPoolExec.CPUThreadPoolExecutor
