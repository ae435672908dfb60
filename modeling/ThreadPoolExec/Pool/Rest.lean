import ThreadPoolExec.Pool.Placement
import ThreadPoolExec.Pool.Shutdown
import ThreadPoolExec.Pool.Sleepers
import ThreadPoolExec.Pool.Staff
import ThreadPoolExec.Pool.ThreadList
import ThreadPoolExec.Quiescence

/-!
# A pool at rest

Where nobody has a step, but for new calls and timeouts, nobody waits in vain:
the lock is free, the workers sleep because the queue is empty, and every call
has returned, `stop` and `join` among them.
-/

set_option autoImplicit false

namespace ThreadPoolExec.CPUThreadPoolExecutor

open Interleaving

/-- A step of what goes on in the pool: neither a new call nor a timeout. -/
def unprompted : Label CountingSemaphore.Ending Move → Prop
  | .act _ choice => choice ≠ .timeout
  | .env (.hold _) => True
  | .env (.invoke _) => False

/-! ## The list of threads -/

section Ascending

variable {queue : TaskQueue} {choice : CountingSemaphore.Ending} {wake : Bool}
  {memory after : Memory} {left : List Agent} {holder : Holder} {vec rest : List Nat}
  {thread : Nat}

theorem ThreadList.isSome_remove (ascending : vec.Pairwise (· < ·)) (member : thread ∈ vec) :
    (ThreadList.remove vec thread).isSome := by
  have order : (⟨vec, 0⟩ : ThreadPoolExecutor.ThreadList).Ascending := ascending
  obtain ⟨index, -, removed⟩ :=
    ThreadPoolExecutor.ThreadList.remove_of_mem (fun _ => 0) order member
  have same := @ThreadPoolExecutor.ThreadList.remove_vec (fun _ => 0) ⟨vec, 0⟩ thread order
  rw [removed, Option.map_some] at same
  rw [← same]
  rfl

theorem ThreadList.sublist_of_remove (removed : ThreadList.remove vec thread = some rest) :
    rest.Sublist vec := by
  have split : vec.takeWhile (· < thread) ++ vec.dropWhile (· < thread) = vec :=
    List.takeWhile_append_dropWhile
  unfold ThreadList.remove at removed
  cases behind : vec.dropWhile (· < thread) with
  | nil => simp [behind] at removed
  | cons found others =>
      simp only [behind] at removed
      split at removed
      · cases removed
        rw [behind] at split
        have shorter := (List.sublist_cons_self found others).append_left
          (vec.takeWhile (· < thread))
        rwa [split] at shorter
      · cases removed

private theorem ascending_hold (known : ∀ thread ∈ memory.threadList, thread < memory.nextId)
    (stepped : holder.next queue wake memory = some (after, left))
    (ascending : memory.threadList.Pairwise (· < ·)) : after.threadList.Pairwise (· < ·) := by
  cases hold_staffs stepped with
  | same threadList nextId kept => exact threadList ▸ ascending
  | stops thread isWorker removed nextId gone =>
      exact ascending.sublist (ThreadList.sublist_of_remove removed)
  | starts threadList nextId isCall started =>
      have order : (⟨memory.threadList, 0⟩ : ThreadPoolExecutor.ThreadList).Ascending := ascending
      rw [threadList, ← ThreadPoolExecutor.ThreadList.add_vec order,
        ThreadPoolExecutor.ThreadList.add_last order known]
      refine List.pairwise_append.mpr ⟨ascending, List.pairwise_singleton _ _, ?_⟩
      intro thread member other isNew
      rw [List.mem_singleton.mp isNew]
      exact known thread member

theorem reachable_ascending {numThreads : Nat × Nat}
    {allowed : Global Memory Agent → Label CountingSemaphore.Ending Move → Prop}
    {state : Global Memory Agent} (reached : Reachable (system queue numThreads) allowed state) :
    state.shared.threadList.Pairwise (· < ·) := by
  refine Reaches.invariant (fun memory _ => memory.threadList.Pairwise (· < ·)) ?_ ?_ ?_ ?_ reached
  · intro memory agents others _ ascending
    exact ascending
  · exact List.Pairwise.nil
  · intro before index choice agent after left _ _ _ acted ascending
    rw [(act_threads acted).1]
    exact ascending
  · intro before move after left reaches _ moved ascending
    rcases env_cases moved with ⟨operation, -, -, invoked⟩ | ⟨wake, holder, -, locked, stepped⟩
    · have same : (before.shared.invoke operation).1.threadList = before.shared.threadList := by
        cases operation <;> rfl
      rw [invoked] at same
      rw [show after.threadList = _ from same]
      exact ascending
    · exact ascending_hold (reachable_staffed reaches).known stepped ascending

end Ascending

/-! ## As many items as permits -/

/-- There is a permit for every item of the queue, unless somebody is still to
post it, or is past the semaphore. -/
def Stocked (memory : Memory) (agents : List Agent) : Prop :=
  Levels.size memory.tasks.levels = memory.tasks.sem.permits +
    (memory.threadListLock.elim 0 Holder.posting + total Agent.posting agents) +
      probing agents 0

section Stocked

variable {queue : TaskQueue} {choice : CountingSemaphore.Ending} {wake : Bool}
  {memory after : Memory} {left rest : List Agent} {agent : Agent} {holder : Holder}

private theorem Stocked.act (within : memory.tasks.levels.length = queue.getNumPriorities)
    (turns : agent.Turns queue memory after left)
    (lock : after.threadListLock.elim 0 Holder.posting =
      memory.threadListLock.elim 0 Holder.posting)
    (stocked : Stocked memory (agent :: rest)) : Stocked after (left ++ rest) := by
  unfold Stocked at stocked ⊢
  rw [lock, total_append]
  rw [total_cons] at stocked
  cases turns with
  | adds task priority mayNeed written =>
      obtain ⟨-, same⟩ := enqueue_eq_some written
      have inside : queue.level priority < memory.tasks.levels.length :=
        within ▸ queue.level_lt priority
      have idle : probing (.call (.enqueue task priority mayNeed) :: rest) 0 =
          probing rest 0 := Nat.zero_add _
      have posts : probing ([.call (.post task mayNeed)] ++ rest) 0 = probing rest 0 :=
        Nat.zero_add _
      rw [same, Levels.size_push inside, posts]
      rw [idle] at stocked
      simp only [Agent.posting, Call.posting, total_cons, total_nil] at stocked ⊢
      omega
  | posts task mayNeed left levels permits done =>
      have idle : probing (.call (.post task mayNeed) :: rest) 0 = probing rest 0 :=
        Nat.zero_add _
      rw [levels, permits, (total_uninvolved done).1, probing_done done]
      rw [idle] at stocked
      simp only [Agent.posting, Call.posting] at stocked
      omega
  | passes thread take before levels permits =>
      have waits : probing (.worker thread (.tryTakeFor take) :: rest) 0 = probing rest 0 := by
        rcases before with rfl | rfl <;> exact Nat.zero_add _
      have past : probing ([.worker thread (.tryTakeFor (.probe 0))] ++ rest) 0 =
          1 + probing rest 0 := rfl
      rw [levels, past]
      rw [permits, waits] at stocked
      simp only [Agent.posting, total_cons, total_nil] at stocked ⊢
      omega
  | takes thread position item next popped sem done =>
      have probes : probing (.worker thread (.tryTakeFor (.probe position)) :: rest) 0 =
          1 + probing rest 0 := rfl
      rw [sem, total_cons, done.1, probing_done (List.forall_mem_singleton.mpr done)]
      rw [probes, Levels.size_pop popped] at stocked
      simp only [Agent.posting, total_nil] at stocked ⊢
      omega
  | moves thread position empty tasks =>
      rw [tasks]
      exact stocked
  | elsewhere agent left idle done levels permits =>
      have quiet : probing (agent :: rest) 0 = probing rest 0 := by
        rw [probing, total_cons, idle.2 0, Nat.zero_add]
        rfl
      rw [levels, permits, (total_uninvolved done).1, probing_done done]
      rw [idle.1, quiet] at stocked
      exact stocked

private theorem Stocked.hold (within : memory.tasks.levels.length = queue.getNumPriorities)
    (locked : memory.threadListLock = some holder) (turns : holder.Turns queue memory after)
    (done : ∀ next ∈ left, next.Uninvolved) (stocked : Stocked memory rest) :
    Stocked after (left ++ rest) := by
  unfold Stocked at stocked ⊢
  rw [locked, Option.elim_some] at stocked
  rw [total_append, (total_uninvolved done).1, probing_done done]
  cases turns with
  | adds removal n count written lock =>
      obtain ⟨-, same⟩ := enqueue_eq_some written
      have inside : queue.poisonLevel < memory.tasks.levels.length :=
        within ▸ queue.level_lt Executor.LO_PRI
      rw [same, lock, Levels.size_push inside]
      simp only [Option.elim_some, Holder.posting] at stocked ⊢
      omega
  | posts removal n count levels permits lock =>
      rw [levels, permits, lock]
      simp only [Option.elim_some, Holder.posting] at stocked ⊢
      omega
  | elsewhere holder idle free tasks =>
      rw [tasks, free]
      rw [idle] at stocked
      omega

theorem reachable_stocked {numThreads : Nat × Nat}
    {allowed : Global Memory Agent → Label CountingSemaphore.Ending Move → Prop}
    {state : Global Memory Agent} (unbounded : queue.bounded = false)
    (reached : Reachable (system queue numThreads) allowed state) :
    Stocked state.shared state.agents := by
  refine Reaches.invariant Stocked ?_ ?_ ?_ ?_ reached
  · intro memory agents others same stocked
    rw [Stocked, ← total_perm same, ← probing_perm same]
    exact stocked
  · have empty : Levels.size queue.empty.levels = 0 := by
      simp [Levels.size, TaskQueue.empty]
    exact empty
  · intro before index choice agent after left reaches _ _ acted stocked
    exact stocked.act (reachable_levels reaches) (act_turns unbounded (act_step acted))
      (act_posting acted)
  · intro before move after left reaches _ moved stocked
    rcases env_cases moved with ⟨operation, -, -, invoked⟩ | ⟨wake, holder, -, locked, stepped⟩
    · have done := invoke_uninvolved before.shared operation
      have same : (before.shared.invoke operation).1.tasks = before.shared.tasks ∧
          (before.shared.invoke operation).1.threadListLock = before.shared.threadListLock := by
        cases operation <;> exact ⟨rfl, rfl⟩
      rw [invoked] at done same
      unfold Stocked at stocked ⊢
      rw [same.1, same.2, total_append, (total_uninvolved done).1, Nat.zero_add, probing_done done]
      exact stocked
    · obtain ⟨turns, done⟩ :=
        hold_turns unbounded (hold_step stepped) (reachable_stored reaches holder locked)
      exact stocked.hold (reachable_levels reaches) locked turns done

end Stocked

/-! ## No add is lost -/

/-- A weight of the task of an add that has not returned. -/
def Agent.unreturned (weight : Nat → Nat) : Agent → Nat
  | .worker _ _ => 0
  | .call at_ => at_.adding?.elim 0 (weight ·.1) + at_.wrote weight

/-- A weight of the tasks whose adds have returned, or go on. -/
def begun (weight : Nat → Nat) (memory : Memory) (agents : List Agent) : Nat :=
  total weight memory.history.returned + memory.threadListLock.elim 0 (Holder.wrote weight) +
    total (Agent.unreturned weight) agents

/-- No call has failed, and no task is without its add before that returns. -/
structure Unfailed (memory : Memory) (agents : List Agent) : Prop where
  alive : memory.keepAliveJoined = false
  calls : ∀ agent ∈ agents, agent.role ≠ .failed
  begun : ∀ weight, total weight (List.range memory.history.nextTask) = begun weight memory agents

section Unfailed

variable {queue : TaskQueue} {choice : CountingSemaphore.Ending} {wake : Bool}
  {memory after : Memory} {left rest agents others : List Agent} {agent : Agent} {holder : Holder}
  {weight : Nat → Nat}

theorem Unfailed.perm (same : agents.Perm others) (unfailed : Unfailed memory agents) :
    Unfailed memory others := by
  refine ⟨unfailed.alive, fun agent member => unfailed.calls agent (same.mem_iff.mpr member),
    fun weight => ?_⟩
  rw [CPUThreadPoolExecutor.begun, ← total_perm same]
  exact unfailed.begun weight

/-- `stop` or `join` is about to fail a check. -/
def Agent.fails (memory : Memory) : Agent → Prop
  | .call (.checkThreadList _) => memory.threadList ≠ []
  | .call (.checkStopped _) => memory.stoppedThreads ≠ []
  | _ => False

/-- With an unbounded queue, calls fail only for the checks of a shutdown. -/
private theorem act_calls (unbounded : queue.bounded = false)
    (step : agent.Step queue choice memory after left) :
    ∀ next ∈ left, next.role = .failed →
      next = .call .checkFailed ∧ (memory.keepAliveCount = 0 ∨ agent.fails memory) := by
  have goesOn {call : Call} (role : call.role ≠ .failed) :
      ∀ next ∈ [Agent.call call], next.role = .failed →
        next = .call .checkFailed ∧ (memory.keepAliveCount = 0 ∨ agent.fails memory) :=
    List.forall_mem_singleton.mpr fun failed => absurd failed role
  cases step with
  | locks agent holder wants free => exact List.forall_mem_nil _
  | worker thread worker after left step =>
      cases step <;> exact List.forall_mem_singleton.mpr (fun failed => by cases failed)
  | call call after left step =>
      cases step with
      | noToken task priority joined =>
          exact List.forall_mem_singleton.mpr fun _ => ⟨rfl, .inl joined⟩
      | queueFull task priority mayNeed full => simp [enqueue_isSome_of_unbounded unbounded] at full
      | threadLeft isJoin positive =>
          refine List.forall_mem_singleton.mpr fun _ => ⟨rfl, .inr fun none => positive ?_⟩
          rw [none, List.length_nil]
      | stoppedLeft isJoin positive =>
          refine List.forall_mem_singleton.mpr fun _ => ⟨rfl, .inr fun none => positive ?_⟩
          rw [none, List.length_nil]
      | noneToJoin ensurer none => cases ensurer <;> exact goesOn (fun failed => by cases failed)
      | someToJoin ensurer some => cases ensurer <;> exact goesOn (fun failed => by cases failed)
      | ensureLoadsActive ensurer => cases ensurer <;> exact goesOn (fun failed => by cases failed)
      | enoughActive ensurer active above =>
          cases ensurer <;> exact goesOn (fun failed => by cases failed)
      | tooFewActive ensurer active below =>
          cases ensurer <;> exact goesOn (fun failed => by cases failed)
      | joinsOne n joiner thread stopped first =>
          cases joiner with
          | ensureJoined ensurer => cases ensurer <;> exact goesOn (fun failed => by cases failed)
          | setNumThreads resizer => cases resizer <;> exact goesOn (fun failed => by cases failed)
          | shutdown isJoin => exact goesOn (fun failed => by cases failed)
      | joinsAll joiner =>
          cases joiner with
          | ensureJoined ensurer => cases ensurer <;> exact goesOn (fun failed => by cases failed)
          | setNumThreads resizer =>
              cases resizer with
              | client => exact List.forall_mem_nil _
              | constructor second => exact goesOn (fun failed => by cases failed)
          | shutdown isJoin => exact goesOn (fun failed => by cases failed)
      | posts task => exact List.forall_mem_nil _
      | releasesToken task => exact List.forall_mem_nil _
      | atMax active above => exact List.forall_mem_nil _
      | constructs second => exact List.forall_mem_nil _
      | _ => exact goesOn (fun failed => by cases failed)

private theorem hold_calls (unbounded : queue.bounded = false)
    (stored : holder.Stored memory.history.atLock memory.sizing)
    (step : holder.Step queue wake memory after left) : ∀ next ∈ left, next.role ≠ .failed := by
  have goesOn {call : Call} (role : call.role ≠ .failed) :
      ∀ next ∈ [Agent.call call], next.role ≠ .failed := List.forall_mem_singleton.mpr role
  have loops (thread : Nat) : ∀ next ∈ [loopHead queue thread], next.role ≠ .failed :=
    List.forall_mem_singleton.mpr (fun failed => by cases failed)
  cases step with
  | worker thread holder after left step =>
      cases step with
      | notAsked poison zero => exact loops thread
      | atMin below => exact loops thread
      | stillPending index pending outside positive => exact loops thread
      | notAskedAfterTask zero => exact loops thread
      | _ => exact List.forall_mem_nil _
  | removal removal n holder after left step =>
      cases step with
      | queueFull left full => simp [enqueue_isSome_of_unbounded unbounded] at full
      | _ => exact List.forall_mem_nil _
  | call holder after left step =>
      cases step with
      | keepsSize numThreads resizer below unobserved enough =>
          cases resizer <;> exact goesOn (fun failed => by cases failed)
      | startsThread left newThreads active next => exact loops memory.nextId
      | storesActive active next =>
          refine goesOn fun failed => ?_
          cases next with
          | queueFull => cases stored
          | checkFailed => cases stored
          | ensureJoined ensurer => cases stored
          | ensureJoinedLock ensurer => cases stored
          | ensureActive ensurer => cases stored
          | ensureActiveMax ensurer active => cases stored
          | ensureActiveLock ensurer => cases stored
          | setNumThreads numThreads resizer => cases stored
          | joinStoppedThreads n joiner =>
              cases joiner with
              | setNumThreads resizer => cases resizer <;> cases failed
              | _ => cases stored
          | _ => cases failed
      | collectsToJoin isJoin n => exact goesOn (fun failed => by cases failed)
      | collectsJoined ensurer => cases ensurer <;> exact goesOn (fun failed => by cases failed)
      | enoughActive ensurer above => cases ensurer <;> exact goesOn (fun failed => by cases failed)
      | addsObserver observer => exact goesOn (fun failed => by cases failed)
      | _ => exact List.forall_mem_nil _

private theorem begun_append (memory : Memory) (left rest : List Agent) :
    begun weight memory (left ++ rest) =
      begun weight memory left + total (Agent.unreturned weight) rest := by
  rw [begun, begun, total_append]
  exact (Nat.add_assoc _ _ _).symm

/-- An add that goes on keeps its task. -/
private theorem act_begun (step : agent.Step queue choice memory after left)
    (unfailed : ∀ next ∈ left, next.role ≠ .failed) :
    begun weight after left = begun weight memory [agent] := by
  cases step with
  | locks agent holder wants free =>
      have same : agent.unreturned weight = holder.wrote weight := by
        unfold Agent.wants at wants
        split at wants <;> cases wants <;> first | rfl | exact Nat.zero_add _
      rw [begun, begun, free, total_cons, same]
      change total weight memory.history.returned + holder.wrote weight + 0 =
        total weight memory.history.returned + 0 + (holder.wrote weight + 0)
      rfl
  | worker thread worker after left step => cases step <;> rfl
  | call call after left step =>
      have returns (memory changed : Memory) (task : Nat) (call : Call)
          (history : changed.history = memory.history)
          (lock : changed.threadListLock = memory.threadListLock)
          (carries : (Agent.call call).unreturned weight = weight task) :
          begun weight (changed.addReturns task) [] = begun weight memory [.call call] := by
        simp only [begun, Memory.addReturns, history, lock, carries, total_cons, total_nil]
        omega
      cases step with
      | noToken task priority joined => exact absurd rfl (unfailed _ List.mem_cons_self)
      | queueFull task priority mayNeed full => exact absurd rfl (unfailed _ List.mem_cons_self)
      | posts task => exact returns memory _ task _ rfl rfl (Nat.zero_add _)
      | releasesToken task => exact returns memory _ task _ rfl rfl (Nat.zero_add _)
      | enqueues task priority mayNeed tasks written =>
          have carries : (Agent.call (.post task mayNeed)).unreturned weight = weight task :=
            Nat.zero_add _
          rw [begun, begun, total_cons, total_cons, carries]
          rfl
      | enoughActive ensurer active above => cases ensurer <;> rfl
      | joinsAll joiner =>
          cases joiner with
          | ensureJoined ensurer => rfl
          | setNumThreads resizer => cases resizer <;> rfl
          | shutdown isJoin => rfl
      | _ => rfl

private theorem hold_begun (stored : holder.Stored memory.history.atLock memory.sizing)
    (step : holder.Step queue wake memory after left) :
    begun weight after left = total weight memory.history.returned + holder.wrote weight := by
  have same : total (Agent.unreturned weight) left = total (Agent.wrote weight) left := by
    have plain {call : Call} (none : call.adding? = none) :
        total (Agent.unreturned weight) [.call call] = total (Agent.wrote weight) [.call call] := by
      simp only [Agent.unreturned, Agent.wrote, none, Option.elim_none, total_cons, total_nil,
        Nat.zero_add]
    cases step with
    | worker thread holder after left step => cases step <;> rfl
    | removal removal n holder after left step =>
        cases step with
        | queueFull left full => exact plain rfl
        | _ => rfl
    | call holder after left step =>
        cases step with
        | storesActive active next =>
            apply plain
            cases next <;> first | rfl | cases stored
        | enoughActive ensurer above =>
            apply plain
            cases ensurer <;> rfl
        | keepsSize numThreads resizer below unobserved enough => exact plain rfl
        | collectsToJoin isJoin n => exact plain rfl
        | collectsJoined ensurer => exact plain rfl
        | addsObserver observer => exact plain rfl
        | _ => rfl
  rw [begun, same]
  exact hold_wrote step

private theorem act_alive (quiet : agent.role.shutsDown = 0) (alive : memory.keepAliveJoined = false)
    (step : agent.Step queue choice memory after left) : after.keepAliveJoined = false := by
  cases step with
  | locks agent holder wants free => exact alive
  | worker thread worker after left step => cases step <;> exact alive
  | call call after left step =>
      cases step with
      | joinsKeepAlive isJoin joined => cases quiet
      | _ => exact alive

private theorem hold_alive (step : holder.Step queue wake memory after left) :
    after.keepAliveJoined = memory.keepAliveJoined := by
  cases step with
  | worker thread holder after left step => cases step <;> rfl
  | removal removal n holder after left step => cases step <;> rfl
  | call holder after left step => cases step <;> rfl

private theorem Unfailed.invoke (operation : Operation) (unfailed : Unfailed memory agents) :
    Unfailed (memory.invoke operation).1 ((memory.invoke operation).2 ++ agents) := by
  obtain ⟨alive, calls, begun⟩ := unfailed
  refine ⟨?_, fun agent member => ?_, fun weight => ?_⟩
  · cases operation <;> exact alive
  · rcases List.mem_append.mp member with new | old
    · cases operation <;> rw [List.mem_singleton.mp new] <;> exact fun failed => by cases failed
    · exact calls agent old
  · have before : total weight (List.range memory.history.nextTask) =
        CPUThreadPoolExecutor.begun weight memory ([] ++ agents) := begun weight
    rw [begun_append] at before
    rw [begun_append]
    cases operation with
    | add priority =>
        change total weight (List.range (memory.history.nextTask + 1)) =
          total weight memory.history.returned + memory.threadListLock.elim 0 (Holder.wrote weight) +
            (weight memory.history.nextTask + 0 + 0) + _
        rw [List.range_succ, total_append, total_cons, total_nil, before]
        simp only [CPUThreadPoolExecutor.begun, total_nil]
        omega
    | _ => exact before

theorem reachable_unfailed {numThreads : Nat × Nat} {state : Global Memory Agent}
    (unbounded : queue.bounded = false)
    (reached : Reachable (system queue numThreads) noShutdown state) :
    Unfailed state.shared state.agents := by
  refine Reaches.invariant Unfailed Unfailed.perm ?_ ?_ ?_ reached
  · refine ⟨rfl, List.forall_mem_singleton.mpr (fun failed => by cases failed), fun weight => rfl⟩
  · intro before index choice agent after left reaches _ found acted unfailed
    have step := act_step acted
    have roles := (reachable_quiet unbounded reaches).roles
    have quiet : agent.role.shutsDown = 0 := by
      have weight := weight_le_total (fun agent : Agent => agent.role.shutsDown)
        (List.mem_of_getElem? found)
      rw [countRoles] at roles
      omega
    obtain ⟨alive, calls, begun⟩ := unfailed
    have kept : KeptAlive before.shared before.agents := reachable_keptAlive reaches
    rw [KeptAlive, alive, if_neg Bool.false_ne_true] at kept
    have passes : ¬ agent.fails before.shared := by
      intro fails
      unfold Agent.fails at fails
      split at fails <;> first | cases quiet | cases fails
    have left : ∀ next ∈ left, next.role ≠ .failed := by
      intro next member failed
      rcases (act_calls unbounded step next member failed).2 with gone | fails
      · omega
      · exact passes fails
    refine ⟨act_alive quiet alive step, fun other member => ?_, fun weight => ?_⟩
    · rcases List.mem_append.mp member with new | old
      · exact left other new
      · exact calls other (List.mem_cons_of_mem _ old)
    · have same : total weight (List.range before.shared.history.nextTask) =
          CPUThreadPoolExecutor.begun weight before.shared
            ([agent] ++ before.agents.eraseIdx index) := begun weight
      rw [begun_append] at same
      rw [begun_append, act_begun step left, act_nextTask step]
      exact same
  · intro before move after left reaches _ moved unfailed
    rcases env_cases moved with ⟨operation, -, -, invoked⟩ | ⟨wake, holder, -, locked, stepped⟩
    · have called := unfailed.invoke operation
      rw [invoked] at called
      exact called
    · have step := hold_step stepped
      have stored := reachable_stored reaches holder locked
      obtain ⟨alive, calls, begun⟩ := unfailed
      have nextTask : after.history.nextTask = before.shared.history.nextTask :=
        congrArg Outside.nextTask (hold_outside stepped)
      refine ⟨(hold_alive step).trans alive, fun other member => ?_, fun weight => ?_⟩
      · rcases List.mem_append.mp member with new | old
        · exact hold_calls unbounded stored step other new
        · exact calls other old
      · rw [begun_append, hold_begun stored step, nextTask, begun weight,
          CPUThreadPoolExecutor.begun, locked, Option.elim_some]

theorem reachable_notFull {numThreads : Nat × Nat}
    {allowed : Global Memory Agent → Label CountingSemaphore.Ending Move → Prop}
    {state : Global Memory Agent} (unbounded : queue.bounded = false)
    (reached : Reachable (system queue numThreads) allowed state) :
    .call .queueFull ∉ state.agents := by
  refine Reaches.invariant (fun _ agents => Agent.call .queueFull ∉ agents) ?_ ?_ ?_ ?_ reached
  · intro memory agents others same notFull
    rwa [← same.mem_iff]
  · exact fun member => by cases List.mem_singleton.mp member
  · intro before index choice agent after left _ _ _ acted notFull member
    rcases List.mem_append.mp member with new | old
    · cases (act_calls unbounded (act_step acted) _ new rfl).1
    · exact notFull (List.mem_cons_of_mem _ old)
  · intro before move after left reaches _ moved notFull member
    rcases List.mem_append.mp member with new | old
    · rcases env_cases moved with ⟨operation, -, -, invoked⟩ | ⟨wake, holder, -, locked, stepped⟩
      · cases operation <;> cases invoked <;> cases List.mem_singleton.mp new
      · exact hold_calls unbounded (reachable_stored reaches holder locked) (hold_step stepped) _ new
          rfl
    · exact notFull old

end Unfailed

/-! ## A shutdown goes on -/

section Shutdown

variable {queue : TaskQueue} {choice : CountingSemaphore.Ending} {wake : Bool}
  {memory after : Memory} {left rest : List Agent} {agent : Agent} {holder : Holder}

private theorem act_shutsDown (unbounded : queue.bounded = false) (passes : ¬ agent.fails memory)
    (step : agent.Step queue choice memory after left) :
    countRoles Role.shutsDown memory (agent :: rest) ≤
      countRoles Role.shutsDown after (left ++ rest) := by
  rw [countRoles, countRoles, total_cons, total_append]
  cases step with
  | locks agent holder wants free =>
      rw [Memory.holding, Memory.holding, free, Option.elim_none, Option.elim_some,
        (wants_role wants).1, total_nil]
      omega
  | worker thread worker after left step =>
      have same : after.threadListLock = memory.threadListLock := by cases step <;> rfl
      rw [Memory.holding, Memory.holding, same]
      exact Nat.add_le_add_left (Nat.add_le_add_right (Nat.zero_le _) _) _
  | call call after left step =>
      have same : after.threadListLock = memory.threadListLock := by cases step <;> rfl
      rw [Memory.holding, Memory.holding, same]
      refine Nat.add_le_add_left (Nat.add_le_add_right ?_ _) _
      cases step with
      | threadLeft isJoin positive =>
          exact absurd (fun none => positive (by rw [none, List.length_nil])) passes
      | stoppedLeft isJoin positive =>
          exact absurd (fun none => positive (by rw [none, List.length_nil])) passes
      | queueFull task priority mayNeed full => simp [enqueue_isSome_of_unbounded unbounded] at full
      | enoughActive ensurer active above => cases ensurer <;> exact Nat.le_refl _
      | joinsAll joiner =>
          cases joiner with
          | ensureJoined ensurer => exact Nat.le_refl _
          | setNumThreads resizer => cases resizer <;> exact Nat.zero_le _
          | shutdown isJoin => exact Nat.le_refl _
      | _ => exact Nat.le_refl _

private theorem hold_shutsDown (unbounded : queue.bounded = false)
    (locked : memory.threadListLock = some holder)
    (step : holder.Step queue wake memory after left) :
    countRoles Role.shutsDown memory rest ≤ countRoles Role.shutsDown after (left ++ rest) := by
  rw [countRoles, countRoles, Memory.holding, Memory.holding, locked, Option.elim_some,
    total_append, ← Nat.add_assoc]
  refine Nat.add_le_add_right ?_ _
  cases step with
  | worker thread holder after left step => cases step <;> exact Nat.zero_le _
  | removal removal n holder after left step =>
      cases step with
      | queueFull left full => simp [enqueue_isSome_of_unbounded unbounded] at full
      | _ => exact Nat.le_refl _
  | call holder after left step =>
      cases step with
      | enoughActive ensurer above => cases ensurer <;> exact Nat.le_refl _
      | tooFewActive ensurer below => cases ensurer <;> exact Nat.le_refl _
      | keepsSize numThreads resizer below unobserved enough =>
          cases resizer <;> exact Nat.le_refl _
      | collectsJoined ensurer => cases ensurer <;> exact Nat.le_refl _
      | removesObserver observer => exact Nat.zero_le _
      | storesActive active next =>
          change next.role.shutsDown ≤ 0 + (next.role.shutsDown + 0)
          omega
      | _ => exact Nat.le_refl _

theorem reachable_shuttingDown {numThreads : Nat × Nat} {state : Global Memory Agent}
    (unbounded : queue.bounded = false)
    (reached : Reachable (system queue numThreads) noStopPending state) :
    state.shared.history.shutdownCalled = true →
      1 ≤ countRoles Role.shutsDown state.shared state.agents := by
  refine Reaches.invariant (fun memory agents => memory.history.shutdownCalled = true →
    1 ≤ countRoles Role.shutsDown memory agents) ?_ ?_ ?_ ?_ reached
  · intro memory agents others same goesOn called
    rw [countRoles, ← total_perm same]
    exact goesOn called
  · exact fun called => by cases called
  · intro before index choice agent after left reaches _ found acted goesOn called
    have step := act_step acted
    have member := List.mem_of_getElem? found
    have controlled : Controlled before.shared before.agents :=
      reachable_controlled unbounded
        (fun _ _ allowed => shutsDownLast_of_oneController allowed.1) reaches
    have takes {call : Call} (closing : agent = .call call) (closes : call.closes = true)
        (none : call.owed = 0) :
        before.shared.threadList = [] ∧ before.shared.stoppedThreads = [] := by
      have all := (controlled.takes (reachable_accounted reaches) (reachable_stored reaches)
        (reachable_forgone unbounded reaches) (reachable_obeyed unbounded reaches).overhang
        (closing ▸ member) closes).1
      exact ⟨List.eq_nil_of_length_eq_zero (by omega), List.eq_nil_of_length_eq_zero (by omega)⟩
    have passes : ¬ agent.fails before.shared := by
      intro fails
      unfold Agent.fails at fails
      split at fails
      · exact fails (takes rfl rfl rfl).1
      · exact fails (takes rfl rfl rfl).2
      · exact fails
    have same : after.history.shutdownCalled = before.shared.history.shutdownCalled :=
      (act_sizes acted).2.2.2
    rw [same] at called
    exact Nat.le_trans (goesOn called) (act_shutsDown unbounded passes step)
  · intro before move after left reaches _ moved goesOn called
    rcases env_cases moved with ⟨operation, -, -, invoked⟩ | ⟨wake, holder, -, locked, stepped⟩
    · have roles : countRoles Role.shutsDown _ (_ ++ before.agents) = _ :=
        countRoles_invoke before.shared operation before.agents
      rw [invoked] at roles
      rw [roles]
      cases operation with
      | shutdown isJoin => exact Nat.le_add_right 1 _
      | _ =>
          cases invoked
          exact Nat.le_trans (goesOn called) (Nat.le_add_left _ _)
    · have same : after.history.shutdownCalled = before.shared.history.shutdownCalled :=
        congrArg Outside.shutdownCalled (hold_outside stepped)
      rw [same] at called
      exact Nat.le_trans (goesOn called) (hold_shutsDown unbounded locked (hold_step stepped))

end Shutdown

/-! ## Who has no step -/

/-- The places in which an agent may have no step but a timeout. -/
inductive Stuck (memory : Memory) : Agent → Prop where
  | asleep (thread : Nat) (woken : memory.tasks.sem.woken = 0)
      (value : 0 < memory.tasks.sem.sleeping → memory.tasks.sem.value = 0) :
      Stuck memory (.worker thread (.tryTakeFor .asleep))
  | probedAll (thread level : Nat) (outside : memory.tasks.levels.length ≤ level) :
      Stuck memory (.worker thread (.tryTakeFor (.probe level)))
  | joins (n : Nat) (joiner : Joiner) (none : memory.stoppedThreads = []) :
      Stuck memory (.call (.joinStoppedThreads (n + 1) joiner))
  | awaits (isJoin : Bool) (kept : memory.keepAliveCount ≠ 0) :
      Stuck memory (.call (.keepAliveWait isJoin))
  | shutDown (isJoin : Bool) : Stuck memory (.call (.shutDown isJoin))
  | queueFull : Stuck memory (.call .queueFull)
  | checkFailed : Stuck memory (.call .checkFailed)

section Stuck

variable {queue : TaskQueue} {wake : Bool} {memory : Memory} {agents : List Agent} {agent : Agent}
  {holder : Holder}

private theorem stuck_worker {thread : Nat} {worker : Worker}
    (outside : (Agent.worker thread worker).wants = none)
    (none : ∀ choice, choice ≠ .timeout →
      worker.next queue choice memory thread = .none) : Stuck memory (.worker thread worker) := by
  have handoff := none .handoff (by decide)
  cases worker with
  | tryTakeFor take =>
      cases take with
      | semWait =>
          cases passed : memory.tasks.sem.tryWait <;> simp [Worker.next, Take.next, passed] at handoff
      | asleep =>
          refine .asleep thread ?_ fun sleeping => ?_
          · by_contra woken
            simp [Worker.next, Take.next, CountingSemaphore.endWait, CountingSemaphore.resume,
              Nat.pos_of_ne_zero woken] at handoff
          · by_contra positive
            have value := none .value (by decide)
            simp [Worker.next, Take.next, CountingSemaphore.endWait, CountingSemaphore.claim,
              Nat.pos_of_ne_zero positive, sleeping] at value
      | probe level =>
          refine .probedAll thread level (Nat.le_of_not_lt fun inside => ?_)
          cases popped : Levels.pop memory.tasks.levels level with
          | none => simp [Worker.next, Take.next, inside, popped] at handoff
          | some result => simp [Worker.next, Take.next, inside, popped] at handoff
  | stopping task => cases outside
  | taken task => cases handoff
  | runTask task => cases handoff
  | taskStatsCallbacks => cases handoff
  | loadToStop =>
      simp only [Worker.next] at handoff
      split at handoff <;> cases handoff
  | loadIsJoin =>
      simp only [Worker.next] at handoff
      split at handoff <;> cases handoff
  | decrementing => cases outside

private theorem stuck_call {call : Call} {choice : CountingSemaphore.Ending}
    (outside : (Agent.call call).wants = none)
    (none : call.next queue choice memory = .none) : Stuck memory (.call call) := by
  cases call with
  | post task mayNeed =>
      cases mayNeed with
      | false => cases none
      | true =>
          simp only [Call.next, if_true] at none
          split at none <;> cases none
  | joinStoppedThreads n joiner =>
      cases n with
      | zero => cases none
      | succ n =>
          simp only [Call.next] at none
          split at none
          · exact .joins n joiner ‹_›
          · cases none
  | keepAliveWait isJoin =>
      simp only [Call.next] at none
      split at none
      · cases none
      · exact .awaits isJoin ‹_›
  | shutDown isJoin => exact .shutDown isJoin
  | queueFull => exact .queueFull
  | checkFailed => exact .checkFailed
  | ensureJoinedLock ensurer => cases outside
  | ensureActiveLock ensurer => cases outside
  | setNumThreads numThreads resizer => cases outside
  | shutdown isJoin => cases outside
  | addObserver observer => cases outside
  | removeObserver observer => cases outside
  | loadActive task priority => cases none
  | keepAliveRelease task => cases none
  | ensureActive ensurer => cases none
  | maxActive => cases none
  | storeMin second => cases none
  | _ =>
      simp only [Call.next] at none
      split at none <;> cases none

theorem stuck_of_none (free : memory.threadListLock = none)
    (none : ∀ choice, choice ≠ .timeout → act queue choice memory agent = .none) :
    Stuck memory agent := by
  have outside : agent.wants = .none := by
    cases wants : agent.wants with
    | none => rfl
    | some holder =>
        have locks := none .handoff (by decide)
        simp [act, wants, Memory.lock, free] at locks
  simp only [act, outside] at none
  cases agent with
  | worker thread worker => exact stuck_worker outside none
  | call call => exact stuck_call outside (none .handoff (by decide))

/-- Whoever has the lock goes on, as its thread is in the list. -/
theorem next_ne_none
    (listed : ∀ thread ∈ holder.thread?, (ThreadList.remove memory.threadList thread).isSome) :
    holder.next queue wake memory ≠ none := by
  intro none
  cases holder with
  | stopThread thread observed =>
      obtain ⟨threadList, removed⟩ := Option.isSome_iff_exists.mp (listed thread rfl)
      simp [Holder.next, removed, Memory.unlock] at none
  | taskShouldStop thread task =>
      simp only [Holder.next] at none
      split at none
      · cases none
      · split at none <;> cases none
  | pendingAfterTimeout thread index pending =>
      simp only [Holder.next] at none
      split at none
      · cases none
      · split at none <;> cases none
  | resize numThreads resizer pending =>
      simp only [Holder.next] at none
      split at none
      · cases none
      · split at none <;> cases none
  | enqueuePoison removal n count =>
      cases count with
      | zero => cases removal <;> cases none
      | succ count =>
          simp only [Holder.next] at none
          split at none
          · cases none
          · cases removal <;> cases none
  | addThreads count newThreads active next => cases count <;> cases none
  | minActive thread =>
      simp only [Holder.next] at none
      split at none <;> cases none
  | tryDecrToStop thread =>
      simp only [Holder.next] at none
      split at none <;> cases none
  | getPending numThreads resizer index pending =>
      simp only [Holder.next] at none
      split at none <;> cases none
  | ensureActive ensurer =>
      simp only [Holder.next] at none
      split at none <;> cases none
  | _ => cases none

/-! ## The pool at rest -/

/-- What is left when nobody has a step. -/
structure Rested (memory : Memory) (agents : List Agent) : Prop where
  unlocked : memory.threadListLock = none
  toStop : memory.threadsToStop = 0
  empty : memory.threadList ≠ [] → memory.tasks.levels.flatten = []
  agents : ∀ agent ∈ agents, (∃ thread, agent = .worker thread (.tryTakeFor .asleep)) ∨
    (∃ isJoin, agent = .call (.keepAliveWait isJoin) ∧ memory.keepAliveCount ≠ 0) ∨
    (∃ isJoin, agent = .call (.shutDown isJoin)) ∨ agent = .call .checkFailed

private theorem unlocked_of_atRest {numThreads : Nat × Nat}
    {allowed : Global Memory Agent → Label CountingSemaphore.Ending Move → Prop}
    {state : Global Memory Agent} (reached : Reachable (system queue numThreads) allowed state)
    (rests : (system queue numThreads).AtRest unprompted state) :
    state.shared.threadListLock = none := by
  cases locked : state.shared.threadListLock with
  | none => rfl
  | some holder =>
      have staffed := reachable_staffed reached
      have listed : ∀ thread ∈ holder.thread?,
          (ThreadList.remove state.shared.threadList thread).isSome := by
        intro thread isWorker
        refine ThreadList.isSome_remove (reachable_ascending reached) ?_
        refine staffed.all.mem_iff.mp (List.mem_append_left _ ?_)
        rw [locked, Option.bind_some, isWorker]
        exact List.mem_singleton_self thread
      have still : env queue state.shared (.hold true) = none :=
        @System.AtRest.env_of_own _ _ _ _ _ _ _ rests (.hold true) trivial
      simp only [env, locked] at still
      exact absurd still (next_ne_none listed)

theorem rested_of_atRest {numThreads : Nat × Nat}
    {allowed : Global Memory Agent → Label CountingSemaphore.Ending Move → Prop}
    {state : Global Memory Agent} (unbounded : queue.bounded = false)
    (reached : Reachable (system queue numThreads) allowed state)
    (overhang : state.shared.history.overhang = 0)
    (rests : (system queue numThreads).AtRest unprompted state) :
    Rested state.shared state.agents := by
  have unlocked := unlocked_of_atRest reached rests
  have stuck : ∀ agent ∈ state.agents, Stuck state.shared agent := by
    intro agent member
    obtain ⟨index, found⟩ := List.mem_iff_getElem?.mp member
    exact @stuck_of_none queue _ _ unlocked fun choice inTime =>
      @System.AtRest.act_of_own _ _ _ _ _ _ _ rests index choice inTime _ found
  have supplied {thread level : Nat}
      (member : .worker thread (.tryTakeFor (.probe level)) ∈ state.agents) :
      level < state.shared.tasks.levels.length := probe_inside unbounded reached member
  have idle : ∀ agent ∈ state.agents, agent.posting = 0 ∧ agent.probing 0 = 0 ∧
      agent.poison = 0 := by
    intro agent member
    cases stuck agent member with
    | probedAll thread level outside => exact absurd (supplied member) (Nat.not_lt.mpr outside)
    | _ => exact ⟨rfl, rfl, rfl⟩
  have counted := reachable_counted unbounded reached
  have accounted := (reachable_accounted reached).free unlocked
  have staffed := (reachable_staffed reached).all
  rw [staff, unlocked, Option.bind_none, Option.toList_none, List.nil_append] at staffed
  -- as long as there is a thread, it sleeps, so that there is no permit and no item
  have empty : state.shared.threadList ≠ [] → state.shared.tasks.levels.flatten = [] := by
    intro threads
    obtain ⟨thread, listed⟩ := List.exists_mem_of_ne_nil _ threads
    obtain ⟨agent, member, works⟩ := List.mem_filterMap.mp (staffed.mem_iff.mpr listed)
    have stocked : Stocked state.shared state.agents := reachable_stocked unbounded reached
    have posting : total Agent.posting state.agents = 0 :=
      total_eq_zero_iff.mpr fun agent member => (idle agent member).1
    have none : probing state.agents 0 = 0 :=
      total_eq_zero_iff.mpr fun agent member => (idle agent member).2.1
    have permits : state.shared.tasks.sem.permits = 0 := by
      cases stuck agent member with
      | probedAll thread level outside => exact absurd (supplied member) (Nat.not_lt.mpr outside)
      | asleep thread woken value =>
          have sleeps := weight_le_total Agent.asleep member
          rw [← counted.asleep, woken] at sleeps
          simp only [Agent.asleep, Worker.asleep] at sleeps
          rw [CountingSemaphore.permits, woken, value (by omega)]
      | _ => cases works
    rw [Stocked, permits, unlocked, posting, none] at stocked
    exact List.flatten_eq_nil_iff.mpr fun items member => Levels.size_eq_zero_iff.mp stocked items member
  have toStop : state.shared.threadsToStop = 0 := by
    by_cases threads : state.shared.threadList = []
    · have active := accounted.1
      rw [threads, List.length_nil] at active
      omega
    · have stops := counted.toStop
      have poison : total Agent.poison state.agents = 0 :=
        total_eq_zero_iff.mpr fun agent member => (idle agent member).2.2
      rw [Tasks.poison, empty threads, unlocked, poison] at stops
      exact Nat.le_zero.mp stops
  refine ⟨unlocked, toStop, empty, fun agent member => ?_⟩
  cases stuck agent member with
  | asleep thread woken value => exact .inl ⟨thread, rfl⟩
  | probedAll thread level outside => exact absurd (supplied member) (Nat.not_lt.mpr outside)
  | joins n joiner none =>
      have owes := weight_le_total Agent.owed member
      have joins := accounted.2.1
      have forgone := reachable_forgone unbounded reached
      rw [none, toStop, forgone] at joins
      simp only [Agent.owed, Call.owed, List.length_nil] at owes joins
      omega
  | awaits isJoin kept => exact .inr (.inl ⟨isJoin, rfl, kept⟩)
  | shutDown isJoin => exact .inr (.inr (.inl ⟨isJoin, rfl⟩))
  | queueFull => exact absurd member (reachable_notFull unbounded reached)
  | checkFailed => exact .inr (.inr (.inr rfl))

end Stuck

/-- Every call has returned and every worker sleeps. As long as there is one of
them, every task was run. -/
structure Idle (memory : Memory) (agents : List Agent) : Prop where
  unlocked : memory.threadListLock = none
  asleep : ∀ agent ∈ agents, ∃ thread, agent = .worker thread (.tryTakeFor .asleep)
  threads : (agents.filterMap Agent.thread?).Perm memory.threadList
  active : memory.activeThreads = memory.threadList.length
  toStop : memory.threadsToStop = 0
  toJoin : memory.stoppedThreads.length = memory.threadsToJoin
  returned : memory.history.returned.Perm (List.range memory.history.nextTask)
  ran : memory.threadList ≠ [] → memory.history.ran.Perm (List.range memory.history.nextTask)

section Idle

variable {queue : TaskQueue} {memory : Memory} {agents : List Agent} {state : Global Memory Agent}

private theorem returned_of_unfailed (unfailed : Unfailed memory agents)
    (unlocked : memory.threadListLock = none)
    (asleep : ∀ agent ∈ agents, ∃ thread, agent = .worker thread (.tryTakeFor .asleep)) :
    memory.history.returned.Perm (List.range memory.history.nextTask) := by
  refine List.perm_iff_count.mpr fun task => ?_
  have begun := unfailed.begun (single task)
  have none : total (Agent.unreturned (single task)) agents = 0 := by
    refine total_eq_zero_iff.mpr fun agent member => ?_
    obtain ⟨thread, rfl⟩ := asleep agent member
    rfl
  rw [CPUThreadPoolExecutor.begun, unlocked, none, total_single, total_single] at begun
  exact begun.symm

private theorem ran_of_placed (placed : Placed memory agents)
    (returned : memory.history.returned.Perm (List.range memory.history.nextTask))
    (empty : memory.tasks.levels.flatten = [])
    (asleep : ∀ agent ∈ agents, ∃ thread, agent = .worker thread (.tryTakeFor .asleep)) :
    memory.history.ran.Perm (List.range memory.history.nextTask) := by
  have queued : memory.tasks.queued = [] := by rw [Tasks.queued, empty, List.filterMap_nil]
  refine List.perm_iff_count.mpr fun task => ?_
  by_cases known : task ∈ memory.history.returned
  · have took : total (Agent.took (single task)) agents = 0 := by
      refine total_eq_zero_iff.mpr fun agent member => ?_
      obtain ⟨thread, rfl⟩ := asleep agent member
      rfl
    have once := (placed.returned known).1
    rw [queued, took, List.count_nil] at once
    rw [List.nodup_range.count, if_pos (returned.mem_iff.mp known)]
    exact once
  · have unknown : (List.range memory.history.nextTask).count task = 0 :=
      List.count_eq_zero_of_not_mem fun member => known (returned.mem_iff.mpr member)
    have once := placed.once (single task)
    rw [Memory.placed, total_single, total_single, total_single, unknown] at once
    rw [unknown]
    omega

/-- A pool that was not shut down comes to rest only when every call has
returned and, if it has a thread left, every task was run once. -/
theorem idle_of_atRest (unbounded : queue.bounded = false) (numThreads : Nat × Nat)
    (reached : Reachable (system queue numThreads) noShutdown state)
    (rests : (system queue numThreads).AtRest unprompted state) :
    Idle state.shared state.agents := by
  have quiet := reachable_quiet unbounded reached
  have unfailed := reachable_unfailed unbounded reached
  obtain ⟨unlocked, toStop, empty, agents⟩ :=
    rested_of_atRest unbounded reached quiet.overhang rests
  have asleep : ∀ agent ∈ state.agents, ∃ thread,
      agent = .worker thread (.tryTakeFor .asleep) := by
    intro agent member
    have role := weight_le_total (fun agent : Agent => agent.role.shutsDown) member
    have roles := quiet.roles
    rw [countRoles] at roles
    rcases agents agent member with sleeps | ⟨isJoin, rfl, -⟩ | ⟨isJoin, rfl⟩ | rfl
    · exact sleeps
    · exact absurd (show 1 ≤ _ from role) (by omega)
    · exact absurd (show 1 ≤ _ from role) (by omega)
    · exact absurd rfl (unfailed.calls _ member)
  have staffed := (reachable_staffed reached).all
  rw [staff, unlocked, Option.bind_none, Option.toList_none, List.nil_append] at staffed
  obtain ⟨counted, joins, -⟩ := (reachable_accounted reached).free unlocked
  have owed : total Agent.owed state.agents = 0 := by
    refine total_eq_zero_iff.mpr fun agent member => ?_
    obtain ⟨thread, rfl⟩ := asleep agent member
    rfl
  have forgone := reachable_forgone unbounded reached
  rw [toStop, quiet.overhang] at counted
  rw [toStop, owed, forgone] at joins
  have returned := returned_of_unfailed unfailed unlocked asleep
  exact ⟨unlocked, asleep, staffed, counted, toStop, joins, returned,
    fun threads => ran_of_placed (reachable_placed reached) returned (empty threads) asleep⟩

/-- Workers that sleep without a permit have no step but a timeout. -/
private theorem atRest_of_asleep {numThreads : Nat × Nat} {thread : Nat}
    (unlocked : state.shared.threadListLock = none)
    (sem : state.shared.tasks.sem = { sleeping := 1 })
    (agents : state.agents = [.worker thread (.tryTakeFor .asleep)]) :
    (system queue numThreads).AtRest unprompted state := by
  intro label own
  cases label with
  | env move =>
      cases move with
      | invoke operation => cases own
      | hold wake => simp [System.step, system, env, unlocked]
  | act index choice =>
      cases index with
      | succ index => simp [System.step, agents]
      | zero =>
          cases choice with
          | timeout => exact absurd rfl own
          | _ =>
              simp [System.step, agents, system, act, Agent.wants, Worker.next, Take.next, sem,
                CountingSemaphore.endWait, CountingSemaphore.resume, CountingSemaphore.claim]

/-- A pool of one thread runs one task. -/
private def runOneTask : List (Label CountingSemaphore.Ending Move) :=
  frontActs 1 ++ held 7 ++ frontActs 2 ++ [Label.env (Move.invoke (.add 0))] ++ frontActs 5 ++
    frontActs 7

theorem idle_of_atRest_oneTask :
    ∃ state : Global Memory Agent,
      (system .unbounded (1, 1)).run (system .unbounded (1, 1)).init runOneTask = some state ∧
      state.shared.history.ran = [0] ∧ Idle state.shared state.agents := by
  have runs : ((system .unbounded (1, 1)).run (system .unbounded (1, 1)).init runOneTask).map
      (fun state => (state.shared.threadListLock, state.shared.tasks.sem, state.agents,
        state.shared.history.ran)) =
      some (none, { sleeping := 1 }, [.worker 0 (.tryTakeFor .asleep)], [0]) := by
    decide
  obtain ⟨state, replayed, values⟩ := Option.map_eq_some_iff.mp runs
  simp only [Prod.mk.injEq] at values
  obtain ⟨unlocked, sem, agents, ran⟩ := values
  have reached : Reachable (system .unbounded (1, 1)) noShutdown state :=
    Reachable.init.replay (by decide) replayed
  exact ⟨state, replayed, ran,
    idle_of_atRest rfl (1, 1) reached (atRest_of_asleep unlocked sem agents)⟩

end Idle

/-- `stop` or `join` has returned and no thread is left. Of the other calls only
adds are there, which were refused since. -/
structure ShutDown (memory : Memory) (agents : List Agent) : Prop where
  unlocked : memory.threadListLock = none
  returns : ∃ isJoin, .call (.shutDown isJoin) ∈ agents
  calls : ∀ agent ∈ agents, agent = .call .checkFailed ∨ ∃ isJoin, agent = .call (.shutDown isJoin)
  threadList : memory.threadList = []
  stoppedThreads : memory.stoppedThreads = []
  threadsToStop : memory.threadsToStop = 0

section ShutDown

variable {queue : TaskQueue} {memory : Memory} {agents : List Agent} {state : Global Memory Agent}

/-- With the keep-alive joined and no add under way, nobody waits for it. -/
private theorem Rested.returns (rested : Rested memory agents) (kept : KeptAlive memory agents)
    (knows : ∀ agent ∈ agents, agent.Knows memory)
    (goesOn : 1 ≤ countRoles Role.shutsDown memory agents) :
    ∃ isJoin, .call (.shutDown isJoin) ∈ agents := by
  rw [countRoles, Memory.holding, rested.unlocked, Option.elim_none, Nat.zero_add] at goesOn
  obtain ⟨agent, member, shutsDown⟩ := total_pos_iff.mp goesOn
  rcases rested.agents agent member with ⟨thread, rfl⟩ | ⟨isJoin, rfl, notGone⟩ | ⟨isJoin, rfl⟩ | rfl
  · cases shutsDown
  · have joined : memory.keepAliveJoined = true := knows _ member
    have tokens : total Agent.tokens agents = 0 := by
      refine total_eq_zero_iff.mpr fun other present => ?_
      rcases rested.agents other present with ⟨thread, rfl⟩ | ⟨isJoin, rfl, -⟩ | ⟨isJoin, rfl⟩ | rfl
        <;> rfl
    rw [KeptAlive, tokens, rested.unlocked, joined] at kept
    exact absurd kept notGone
  · exact ⟨isJoin, member⟩
  · cases shutsDown

/-- Where no stop is pending when `stop` or `join` takes the lock, the pool comes
to rest only when it has returned. -/
theorem shutDown_of_atRest (unbounded : queue.bounded = false) (numThreads : Nat × Nat)
    (reached : Reachable (system queue numThreads) noStopPending state)
    (called : state.shared.history.shutdownCalled = true)
    (rests : (system queue numThreads).AtRest unprompted state) :
    ShutDown state.shared state.agents := by
  have overhang := (reachable_obeyed unbounded reached).overhang
  have rested := rested_of_atRest unbounded reached overhang rests
  have controlled : Controlled state.shared state.agents :=
    reachable_controlled unbounded
      (fun _ _ allowed => shutsDownLast_of_oneController allowed.1) reached
  obtain ⟨byJoin, returns⟩ := rested.returns controlled.kept controlled.calls
    (reachable_shuttingDown unbounded reached called)
  have none : 0 = state.shared.stoppedThreads.length + state.shared.threadList.length :=
    (controlled.takes (reachable_accounted reached) (reachable_stored reached)
      (reachable_forgone unbounded reached) overhang returns rfl).1
  have threadList : state.shared.threadList = [] := List.eq_nil_of_length_eq_zero (by omega)
  have staffed := (reachable_staffed reached).all
  rw [threadList, List.perm_nil, staff, List.append_eq_nil_iff] at staffed
  refine ⟨rested.unlocked, ⟨byJoin, returns⟩, fun agent member => ?_, threadList,
    List.eq_nil_of_length_eq_zero (by omega), rested.toStop⟩
  rcases rested.agents agent member with ⟨thread, rfl⟩ | ⟨isJoin, rfl, notGone⟩ | ends | failed
  · have works : thread ∈ state.agents.filterMap Agent.thread? :=
      List.mem_filterMap.mpr ⟨_, member, rfl⟩
    rw [staffed.2] at works
    cases works
  · have single := (controlled.perm (List.perm_cons_erase returns)).single
    have other : .call (.keepAliveWait isJoin) ∈ state.agents.erase (.call (.shutDown byJoin)) :=
      (List.mem_erase_of_ne (by simp)).mpr member
    have both := weight_le_total (fun agent : Agent => agent.role.controls) other
    rw [countRoles, total_cons] at single
    exact absurd (single called) (by
      change 1 ≤ _ at both
      change ¬ _ + (1 + _) ≤ 1
      omega)
  · exact .inr ends
  · exact .inl failed

/-- `join` on a pool of one thread. -/
private def joinOne : List (Label CountingSemaphore.Ending Move) :=
  frontActs 1 ++ held 7 ++ frontActs 2 ++ [Label.env (Move.invoke (.shutdown true))] ++
    frontActs 3 ++ held 8 ++ [Label.act 1 .handoff] ++ frontActs 2 ++ held 2 ++ frontActs 4

theorem shutDown_of_atRest_oneThread :
    ∃ state : Global Memory Agent,
      (system .unbounded (1, 1)).run (system .unbounded (1, 1)).init joinOne = some state ∧
      ShutDown state.shared state.agents := by
  have runs : ((system .unbounded (1, 1)).run (system .unbounded (1, 1)).init joinOne).map
      (fun state => (state.shared.threadListLock, state.shared.history.shutdownCalled,
        state.agents)) =
      some (none, true, [.call (.shutDown true)]) := by
    decide
  obtain ⟨state, replayed, values⟩ := Option.map_eq_some_iff.mp runs
  simp only [Prod.mk.injEq] at values
  obtain ⟨unlocked, called, agents⟩ := values
  have reached : Reachable (system .unbounded (1, 1)) noStopPending state :=
    Reachable.init.replay (by decide) replayed
  refine ⟨state, replayed, shutDown_of_atRest rfl (1, 1) reached called fun label own => ?_⟩
  cases label with
  | env move =>
      cases move with
      | invoke operation => cases own
      | hold wake => simp [System.step, system, env, unlocked]
  | act index choice =>
      cases index with
      | succ index => simp [System.step, agents]
      | zero => simp [System.step, agents, system, act, Agent.wants, Call.next]

end ShutDown

end ThreadPoolExec.CPUThreadPoolExecutor
