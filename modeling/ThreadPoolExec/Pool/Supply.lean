import ThreadPoolExec.Pool.Capacity
import ThreadPoolExec.ProbedLevels

/-!
# An item for every permit

An unbounded queue ends the program when a taker has probed every level in
vain. In the pool no taker does: adds and removals write before they post, and
takers wait before they probe.
-/

set_option autoImplicit false

namespace ThreadPoolExec.CPUThreadPoolExecutor

open Interleaving

/-! ## What the queue owes -/

/-- The permit that an add has still to give for what it wrote. -/
def Call.posting : Call → Nat
  | .post _ _ => 1
  | _ => 0

def Agent.posting : Agent → Nat
  | .worker _ _ => 0
  | .call at_ => at_.posting

/-- The permit that a removal has still to give for its poison task. -/
def Holder.posting : Holder → Nat
  | .postPoison _ _ _ => 1
  | _ => 0

/-- Whether a worker is past the semaphore with no level left before a given
one. -/
def Worker.probing (level : Nat) : Worker → Nat
  | .tryTakeFor (.probe position) => Levels.probe position level
  | _ => 0

def Agent.probing (level : Nat) : Agent → Nat
  | .worker _ at_ => at_.probing level
  | .call _ => 0

/-- How many workers are past the semaphore with no level left before a given
one. -/
def probing (agents : List Agent) (level : Nat) : Nat :=
  total (Agent.probing level) agents

/-- There is a task in the queue for every permit, for every worker that probes
and for everyone who has still to post. -/
def Supplied (memory : Memory) (agents : List Agent) : Prop :=
  Levels.Backed memory.tasks.levels memory.tasks.sem.permits
    (memory.threadListLock.elim 0 Holder.posting + total Agent.posting agents) (probing agents)

section Owes

variable {agents others : List Agent} {agent : Agent} {holder : Holder} {level : Nat}

theorem probing_perm (same : agents.Perm others) : probing agents = probing others :=
  funext fun _ => total_perm same

theorem probing_probe (thread position : Nat) (rest : List Agent) (level : Nat) :
    probing (.worker thread (.tryTakeFor (.probe position)) :: rest) level =
      Levels.probe position level + probing rest level :=
  total_cons

theorem probing_probe_pos (thread position : Nat) (rest : List Agent) :
    0 < probing (.worker thread (.tryTakeFor (.probe position)) :: rest) position := by
  rw [probing_probe, Levels.probe, if_pos (Nat.le_refl position)]
  omega

theorem probing_succ_le (agents : List Agent) (level : Nat) :
    probing agents (level + 1) ≤ probing agents level := by
  refine total_le_total fun agent _ => ?_
  cases agent with
  | call at_ => exact Nat.le_refl 0
  | worker thread at_ =>
      simp only [Agent.probing, Worker.probing]
      split
      · simp only [Levels.probe]
        split_ifs <;> omega
      · exact Nat.le_refl 0

end Owes

/-! ## What a step does with the queue -/

/-- An agent that has neither a permit to give nor levels to probe. -/
def Agent.Uninvolved (agent : Agent) : Prop :=
  agent.posting = 0 ∧ ∀ level, agent.probing level = 0

inductive Agent.Turns (queue : TaskQueue) (memory after : Memory) : Agent → List Agent → Prop where
  | adds (task : Nat) (priority : Int8) (mayNeed : Bool)
      (written : memory.tasks.enqueue queue (queue.level priority) (.func task) =
        some after.tasks) :
      Turns queue memory after (.call (.enqueue task priority mayNeed))
        [.call (.post task mayNeed)]
  | posts (task : Nat) (mayNeed : Bool) (left : List Agent)
      (levels : after.tasks.levels = memory.tasks.levels)
      (permits : after.tasks.sem.permits = memory.tasks.sem.permits + 1)
      (done : ∀ next ∈ left, next.Uninvolved) :
      Turns queue memory after (.call (.post task mayNeed)) left
  | passes (thread : Nat) (take : Take) (before : take = .semWait ∨ take = .asleep)
      (levels : after.tasks.levels = memory.tasks.levels)
      (permits : memory.tasks.sem.permits = after.tasks.sem.permits + 1) :
      Turns queue memory after (.worker thread (.tryTakeFor take))
        [.worker thread (.tryTakeFor (.probe 0))]
  | takes (thread position : Nat) (item : CPUTask) (next : Agent)
      (popped : Levels.pop memory.tasks.levels position = some (item, after.tasks.levels))
      (sem : after.tasks.sem = memory.tasks.sem) (done : next.Uninvolved) :
      Turns queue memory after (.worker thread (.tryTakeFor (.probe position))) [next]
  | moves (thread position : Nat) (empty : memory.tasks.levels[position]? = some [])
      (tasks : after.tasks = memory.tasks) :
      Turns queue memory after (.worker thread (.tryTakeFor (.probe position)))
        [.worker thread (.tryTakeFor (.probe (position + 1)))]
  | elsewhere (agent : Agent) (left : List Agent) (idle : agent.Uninvolved)
      (done : ∀ next ∈ left, next.Uninvolved)
      (levels : after.tasks.levels = memory.tasks.levels)
      (permits : after.tasks.sem.permits = memory.tasks.sem.permits) :
      Turns queue memory after agent left

section Turns

variable {queue : TaskQueue} {choice : CountingSemaphore.Ending} {wake : Bool}
  {memory after : Memory} {left rest : List Agent} {agent : Agent} {holder : Holder}
  {item : CPUTask} {level : Nat}

private theorem uninvolved_of_wants (wants : agent.wants = some holder) :
    agent.Uninvolved ∧ holder.posting = 0 := by
  unfold Agent.wants at wants
  split at wants <;> cases wants <;> exact ⟨⟨rfl, fun _ => rfl⟩, rfl⟩

private theorem uninvolved_call {call : Call} (idle : call.posting = 0) :
    ∀ next ∈ [Agent.call call], next.Uninvolved :=
  List.forall_mem_singleton.mpr ⟨idle, fun _ => rfl⟩

private theorem uninvolved_joiner (joiner : Joiner) : ∀ next ∈ joiner.next, next.Uninvolved := by
  cases joiner with
  | ensureJoined ensurer => exact uninvolved_call rfl
  | setNumThreads resizer =>
      cases resizer with
      | client => exact List.forall_mem_nil _
      | constructor second => exact uninvolved_call rfl
  | shutdown isJoin => exact uninvolved_call rfl

theorem uninvolved_loopHead (unbounded : queue.bounded = false) (thread : Nat) :
    (loopHead queue thread).Uninvolved := by
  refine ⟨rfl, fun level => ?_⟩
  simp [loopHead, Take.start, unbounded, Agent.probing, Worker.probing]

private theorem worker_turns {thread : Nat} {worker : Worker} (unbounded : queue.bounded = false)
    (step : worker.Step queue choice memory thread after left) :
    (Agent.worker thread worker).Turns queue memory after left := by
  have idle (next : Worker) (none : ∀ level, next.probing level = 0) :
      ∀ agent ∈ [Agent.worker thread next], agent.Uninvolved :=
    List.forall_mem_singleton.mpr ⟨rfl, none⟩
  have loops : ∀ agent ∈ [loopHead queue thread], agent.Uninvolved :=
    List.forall_mem_singleton.mpr (uninvolved_loopHead unbounded thread)
  cases step with
  | waits sem passed => exact .passes _ _ (.inl rfl) rfl (CountingSemaphore.tryWait_permits passed)
  | sleeps blocked => exact .elsewhere _ _ ⟨rfl, fun _ => rfl⟩ (idle _ fun _ => rfl) rfl rfl
  | resumes sem ended => exact .passes _ _ (.inr rfl) rfl (CountingSemaphore.endWait_permits ended)
  | timesOut sem ended =>
      have permits := CountingSemaphore.endWait_permits ended
      exact .elsewhere _ _ ⟨rfl, fun _ => rfl⟩ (idle _ fun _ => rfl) rfl permits.symm
  | takesTask level task levels popped => exact .takes _ _ _ _ popped rfl ⟨rfl, fun _ => rfl⟩
  | takesPoison level byJoin levels popped =>
      exact .takes _ _ _ _ popped rfl ⟨rfl, fun _ => rfl⟩
  | passesLevel level inside empty =>
      exact .moves _ _ ((Levels.pop_eq_none_iff.mp empty).resolve_left (by simpa using inside)) rfl
  | probedAll level outside bounded =>
      exact absurd (unbounded.symm.trans bounded) Bool.false_ne_true
  | runsTask task => exact .elsewhere _ _ ⟨rfl, fun _ => rfl⟩ (idle _ fun _ => rfl) rfl rfl
  | finishesTask task => exact .elsewhere _ _ ⟨rfl, fun _ => rfl⟩ (idle _ fun _ => rfl) rfl rfl
  | callsBack => exact .elsewhere _ _ ⟨rfl, fun _ => rfl⟩ (idle _ fun _ => rfl) rfl rfl
  | seesStop asked => exact .elsewhere _ _ ⟨rfl, fun _ => rfl⟩ (idle _ fun _ => rfl) rfl rfl
  | seesNoStop zero => exact .elsewhere _ _ ⟨rfl, fun _ => rfl⟩ loops rfl rfl
  | seesJoin isJoin => exact .elsewhere _ _ ⟨rfl, fun _ => rfl⟩ loops rfl rfl
  | seesNoJoin isJoin => exact .elsewhere _ _ ⟨rfl, fun _ => rfl⟩ (idle _ fun _ => rfl) rfl rfl

private theorem call_turns {call : Call} (step : call.Step queue choice memory after left) :
    (Agent.call call).Turns queue memory after left := by
  cases step with
  | enqueues task priority mayNeed tasks written => exact .adds _ _ _ written
  | posts task =>
      exact .posts _ _ _ rfl (CountingSemaphore.post_permits _) (List.forall_mem_nil _)
  | wakesThread task woke =>
      exact .posts _ _ _ rfl (CountingSemaphore.post_permits _) (uninvolved_call rfl)
  | wakesNone task woke =>
      exact .posts _ _ _ rfl (CountingSemaphore.post_permits _) (uninvolved_call rfl)
  | joinsAll joiner => exact .elsewhere _ _ ⟨rfl, fun _ => rfl⟩ (uninvolved_joiner joiner) rfl rfl
  | enoughActive ensurer active above =>
      refine .elsewhere _ _ ⟨rfl, fun _ => rfl⟩ (uninvolved_call ?_) rfl rfl
      cases ensurer <;> rfl
  | releasesToken task =>
      exact .elsewhere _ _ ⟨rfl, fun _ => rfl⟩ (List.forall_mem_nil _) rfl rfl
  | atMax active above => exact .elsewhere _ _ ⟨rfl, fun _ => rfl⟩ (List.forall_mem_nil _) rfl rfl
  | constructs second => exact .elsewhere _ _ ⟨rfl, fun _ => rfl⟩ (List.forall_mem_nil _) rfl rfl
  | _ => exact .elsewhere _ _ ⟨rfl, fun _ => rfl⟩ (uninvolved_call rfl) rfl rfl

theorem act_turns (unbounded : queue.bounded = false)
    (step : agent.Step queue choice memory after left) : agent.Turns queue memory after left := by
  cases step with
  | locks agent holder wants free =>
      exact .elsewhere _ _ (uninvolved_of_wants wants).1 (List.forall_mem_nil _) rfl rfl
  | worker thread worker after left step => exact worker_turns unbounded step
  | call call after left step => exact call_turns step

/-- Only adds bring new items. -/
theorem Agent.Turns.mem (turns : agent.Turns queue memory after left)
    (member : item ∈ after.tasks.levels.getD level []) :
    item ∈ memory.tasks.levels.getD level [] ∨
      ∃ task priority mayNeed, agent = .call (.enqueue task priority mayNeed) ∧
        item = .func task := by
  cases turns with
  | adds task priority mayNeed written =>
      obtain ⟨-, same⟩ := enqueue_eq_some written
      rw [same] at member
      exact (Levels.mem_of_push member).imp_right fun added => ⟨_, _, _, rfl, added⟩
  | takes thread position item next popped sem done => exact .inl (Levels.mem_of_pop popped member)
  | moves thread position empty tasks => exact .inl (tasks ▸ member)
  | posts task mayNeed left levels permits done => exact .inl (levels ▸ member)
  | passes thread take before levels permits => exact .inl (levels ▸ member)
  | elsewhere agent left idle done levels permits => exact .inl (levels ▸ member)

theorem Agent.Turns.length (turns : agent.Turns queue memory after left) :
    after.tasks.levels.length = memory.tasks.levels.length := by
  cases turns with
  | adds task priority mayNeed written =>
      obtain ⟨-, same⟩ := enqueue_eq_some written
      rw [same]
      exact Levels.length_push
  | takes thread position item next popped sem done => exact Levels.length_pop popped
  | moves thread position empty tasks => rw [tasks]
  | posts task mayNeed left levels permits done => rw [levels]
  | passes thread take before levels permits => rw [levels]
  | elsewhere agent left idle done levels permits => rw [levels]

/-- What the holder of the lock does with the queue. -/
inductive Holder.Turns (queue : TaskQueue) (memory after : Memory) : Holder → Prop where
  | adds (removal : Removal) (n left : Nat)
      (written : memory.tasks.enqueue queue queue.poisonLevel (.poison removal.isJoin) =
        some after.tasks)
      (locked : after.threadListLock = some (.postPoison removal n left)) :
      Turns queue memory after (.enqueuePoison removal n (left + 1))
  | posts (removal : Removal) (n left : Nat) (levels : after.tasks.levels = memory.tasks.levels)
      (permits : after.tasks.sem.permits = memory.tasks.sem.permits + 1)
      (locked : after.threadListLock = some (.enqueuePoison removal n left)) :
      Turns queue memory after (.postPoison removal n left)
  | elsewhere (holder : Holder) (idle : holder.posting = 0)
      (done : after.threadListLock.elim 0 Holder.posting = 0)
      (tasks : after.tasks = memory.tasks) : Turns queue memory after holder

theorem hold_turns (unbounded : queue.bounded = false)
    (step : holder.Step queue wake memory after left)
    (stored : holder.Stored memory.history.atLock memory.sizing) :
    holder.Turns queue memory after ∧ ∀ next ∈ left, next.Uninvolved := by
  have loops (thread : Nat) : ∀ agent ∈ [loopHead queue thread], agent.Uninvolved :=
    List.forall_mem_singleton.mpr (uninvolved_loopHead unbounded thread)
  cases step with
  | worker thread holder after left step =>
      refine ⟨by cases step <;> exact .elsewhere _ rfl rfl rfl, ?_⟩
      cases step with
      | notAsked poison zero => exact loops thread
      | atMin below => exact loops thread
      | stillPending index pending outside positive => exact loops thread
      | notAskedAfterTask zero => exact loops thread
      | _ => exact List.forall_mem_nil _
  | removal removal n holder after left step =>
      cases step with
      | storesIsJoin => exact ⟨.elsewhere _ rfl rfl rfl, List.forall_mem_nil _⟩
      | raisesToStop => exact ⟨.elsewhere _ rfl rfl rfl, List.forall_mem_nil _⟩
      | enqueues left tasks written => exact ⟨.adds _ _ _ written rfl, List.forall_mem_nil _⟩
      | queueFull left full => exact ⟨.elsewhere _ rfl rfl rfl, uninvolved_call rfl⟩
      | posts left =>
          exact ⟨.posts _ _ _ rfl (CountingSemaphore.post_permits _) rfl, List.forall_mem_nil _⟩
  | call holder after left step =>
      refine ⟨by cases step <;> exact .elsewhere _ rfl rfl rfl, ?_⟩
      cases step with
      | keepsSize numThreads resizer below unobserved enough => exact uninvolved_call rfl
      | startsThread left newThreads active next => exact loops memory.nextId
      | storesActive active next =>
          apply uninvolved_call
          cases next <;> first | rfl | cases stored
      | collectsToJoin isJoin n => exact uninvolved_call rfl
      | collectsJoined ensurer => exact uninvolved_call rfl
      | enoughActive ensurer above =>
          apply uninvolved_call
          cases ensurer <;> rfl
      | addsObserver observer => exact uninvolved_call rfl
      | _ => exact List.forall_mem_nil _

end Turns

/-! ## Every taker is supplied -/

section Supplied

variable {queue : TaskQueue} {choice : CountingSemaphore.Ending} {wake : Bool}
  {memory after : Memory} {left rest agents others : List Agent} {agent : Agent} {holder : Holder}

theorem total_uninvolved (done : ∀ next ∈ left, next.Uninvolved) :
    total Agent.posting left = 0 ∧ probing left = fun _ => 0 :=
  ⟨total_eq_zero_iff.mpr fun next member => (done next member).1,
    funext fun level => total_eq_zero_iff.mpr fun next member => (done next member).2 level⟩

theorem probing_append (left rest : List Agent) (level : Nat) :
    probing (left ++ rest) level = probing left level + probing rest level :=
  total_append

/-- Agents with nothing to probe do not count. -/
theorem probing_done (done : ∀ next ∈ left, next.Uninvolved) :
    probing (left ++ rest) = probing rest := by
  funext level
  rw [probing_append, (total_uninvolved done).2, Nat.zero_add]

private theorem Supplied.act (within : memory.tasks.levels.length = queue.getNumPriorities)
    (turns : agent.Turns queue memory after left)
    (lock : after.threadListLock.elim 0 Holder.posting =
      memory.threadListLock.elim 0 Holder.posting)
    (supplied : Supplied memory (agent :: rest)) : Supplied after (left ++ rest) := by
  unfold Supplied at supplied ⊢
  rw [lock, total_append]
  rw [total_cons] at supplied
  cases turns with
  | adds task priority mayNeed written =>
      obtain ⟨-, same⟩ := enqueue_eq_some written
      have inside : queue.level priority < memory.tasks.levels.length :=
        within ▸ queue.level_lt priority
      rw [same]
      refine (supplied.push inside).mono ?_ fun level => Nat.le_refl _
      simp only [Agent.posting, Call.posting, total_cons, total_nil]
      omega
  | posts task mayNeed left levels permits done =>
      have posted : Levels.Backed memory.tasks.levels (memory.tasks.sem.permits + 1)
          (memory.threadListLock.elim 0 Holder.posting + total Agent.posting rest) _ :=
        (supplied.mono (by simp only [Agent.posting, Call.posting]; omega)
          fun level => Nat.le_refl _).post
      rw [levels, permits, (total_uninvolved done).1, probing_done done]
      exact posted.mono (by omega) fun level => Nat.le_add_left _ _
  | passes thread take before levels permits =>
      rw [permits] at supplied
      have waits : ∀ level, probing rest level ≤
          probing (.worker thread (.tryTakeFor take) :: rest) level :=
        fun level => Nat.le_add_left _ _
      rw [levels]
      exact (supplied.mono (Nat.le_refl _) waits).pass
  | takes thread position item next popped sem done =>
      have taken : Levels.Backed after.tasks.levels memory.tasks.sem.permits
          (memory.threadListLock.elim 0 Holder.posting + (0 + total Agent.posting rest))
          (probing rest) := supplied.pop popped
      rw [sem, total_cons, done.1, probing_done (List.forall_mem_singleton.mpr done)]
      exact taken
  | moves thread position empty tasks =>
      rw [tasks]
      exact supplied.move empty (probing_succ_le rest position)
  | elsewhere agent left idle done levels permits =>
      rw [levels, permits, (total_uninvolved done).1, probing_done done]
      exact supplied.mono (by omega) fun level => Nat.le_add_left _ _

private theorem Supplied.hold (within : memory.tasks.levels.length = queue.getNumPriorities)
    (locked : memory.threadListLock = some holder) (turns : holder.Turns queue memory after)
    (done : ∀ next ∈ left, next.Uninvolved) (supplied : Supplied memory rest) :
    Supplied after (left ++ rest) := by
  unfold Supplied at supplied ⊢
  rw [locked, Option.elim_some] at supplied
  rw [total_append, (total_uninvolved done).1, probing_done done]
  cases turns with
  | adds removal n count written lock =>
      obtain ⟨-, same⟩ := enqueue_eq_some written
      have inside : queue.poisonLevel < memory.tasks.levels.length :=
        within ▸ queue.level_lt Executor.LO_PRI
      rw [same, lock]
      refine (supplied.push inside).mono ?_ fun level => Nat.le_refl _
      simp only [Option.elim_some, Holder.posting]
      omega
  | posts removal n count levels permits lock =>
      have posted : Levels.Backed memory.tasks.levels (memory.tasks.sem.permits + 1)
          (total Agent.posting rest) _ :=
        (supplied.mono (by simp only [Holder.posting]; omega) fun level => Nat.le_refl _).post
      rw [levels, permits, lock]
      refine posted.mono ?_ fun level => Nat.le_refl _
      simp only [Option.elim_some, Holder.posting]
      omega
  | elsewhere holder idle free tasks =>
      rw [tasks, free]
      exact supplied.mono (by omega) fun level => Nat.le_refl _

theorem act_posting (acted : act queue choice memory agent = some (after, left)) :
    after.threadListLock.elim 0 Holder.posting =
      memory.threadListLock.elim 0 Holder.posting := by
  rcases act_cases acted with ⟨holder, wants, free, -, rfl⟩ | ⟨call, -, records⟩ | ⟨same, -⟩
  · rw [free]
    exact (uninvolved_of_wants wants).2
  · cases records <;> rfl
  · have lock : after.threadListLock = memory.threadListLock :=
      congrArg Ledger.threadListLock same
    rw [lock]

theorem invoke_uninvolved (memory : Memory) (operation : Operation) :
    ∀ next ∈ (memory.invoke operation).2, next.Uninvolved := by
  cases operation <;> exact uninvolved_call rfl

private theorem Supplied.invoke (operation : Operation) (supplied : Supplied memory agents) :
    Supplied (memory.invoke operation).1 ((memory.invoke operation).2 ++ agents) := by
  have done := invoke_uninvolved memory operation
  have same : (memory.invoke operation).1.tasks = memory.tasks ∧
      (memory.invoke operation).1.threadListLock = memory.threadListLock := by
    cases operation <;> exact ⟨rfl, rfl⟩
  unfold Supplied at supplied ⊢
  rw [same.1, same.2, total_append, (total_uninvolved done).1, Nat.zero_add, probing_done done]
  exact supplied

theorem reachable_supplied {numThreads : Nat × Nat}
    {allowed : Global Memory Agent → Label CountingSemaphore.Ending Move → Prop}
    {state : Global Memory Agent} (unbounded : queue.bounded = false)
    (reached : Reachable (system queue numThreads) allowed state) :
    Supplied state.shared state.agents := by
  refine Reaches.invariant Supplied ?_ ?_ ?_ ?_ reached
  · intro memory agents others same supplied
    rw [Supplied, ← total_perm same, ← probing_perm same]
    exact supplied
  · refine ⟨Nat.zero_le _, fun level _ => Nat.zero_le _⟩
  · intro before index choice agent after left reaches _ _ acted supplied
    exact supplied.act (reachable_levels reaches) (act_turns unbounded (act_step acted))
      (act_posting acted)
  · intro before move after left reaches _ moved supplied
    rcases env_cases moved with ⟨operation, -, -, invoked⟩ | ⟨wake, holder, -, locked, stepped⟩
    · have called := supplied.invoke operation
      rw [invoked] at called
      exact called
    · obtain ⟨turns, done⟩ :=
        hold_turns unbounded (hold_step stepped) (reachable_stored reaches holder locked)
      exact supplied.hold (reachable_levels reaches) locked turns done

/-- A worker past the semaphore still has a level to probe: `dequeue` never
ends the program. -/
theorem probe_inside {numThreads : Nat × Nat}
    {allowed : Global Memory Agent → Label CountingSemaphore.Ending Move → Prop}
    {state : Global Memory Agent} {thread level : Nat} (unbounded : queue.bounded = false)
    (reached : Reachable (system queue numThreads) allowed state)
    (member : .worker thread (.tryTakeFor (.probe level)) ∈ state.agents) :
    level < state.shared.tasks.levels.length := by
  have supplied : Supplied state.shared state.agents := reachable_supplied unbounded reached
  have probes := weight_le_total (Agent.probing level) member
  simp only [Agent.probing, Worker.probing, Levels.probe, Nat.le_refl, if_true] at probes
  have task := supplied.ahead.pos (Nat.zero_le level) probes
  by_contra outside
  rw [Levels.after_of_length_le (Nat.le_of_not_lt outside)] at task
  exact Nat.lt_irrefl 0 task

end Supplied

end ThreadPoolExec.CPUThreadPoolExecutor
