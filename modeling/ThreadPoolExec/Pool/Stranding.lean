import ThreadPoolExec.Pool.Placement
import ThreadPoolExec.Pool.Sleepers
import ThreadPoolExec.Pool.Staff

/-!
# A task that nobody takes

An add that may need a thread looks at `activeThreads_` after its write, and a
worker that times out looks at the queue after it has left `activeThreads_`, so
one of the two sees the other. A resize is no part of this: it may count the
tasks before a write and allow threads after the add has looked, and it changes
what an add has decided before its write.
-/

set_option autoImplicit false

namespace ThreadPoolExec.CPUThreadPoolExecutor

open Interleaving

/-! ## Who looks -/

/-- Whether an add has written its task and is still to look for a thread. -/
def Call.looks : Call → Bool
  | .post _ true | .ensureJoined _ | .ensureJoinedLock _ | .joinStoppedThreads _ (.ensureJoined _)
  | .ensureActive _ | .ensureActiveMax _ 0 | .ensureActiveLock _ => true
  | _ => false

def Agent.looks : Agent → Bool
  | .worker _ _ => false
  | .call at_ => at_.looks

/-- Whether the holder of the lock is about to make a thread active. -/
def Holder.starts : Holder → Bool
  | .pendingAfterTimeout _ _ pending | .resize _ _ pending => 0 < pending
  | .addThreads left newThreads active _ => 0 < active + newThreads.length + left
  | .storeActive active _ => 0 < active
  | _ => false

def Holder.looks : Holder → Bool
  | .collectJoined _ | .ensureActive _ => true
  | holder => holder.starts

/-- Somebody will see that there is no active thread. -/
def Attended (memory : Memory) (agents : List Agent) : Prop :=
  (∃ agent ∈ agents, agent.looks = true) ∨ memory.threadListLock.any Holder.looks = true

instance (memory : Memory) (agents : List Agent) : Decidable (Attended memory agents) :=
  inferInstanceAs (Decidable ((∃ agent ∈ agents, agent.looks = true) ∨
    memory.threadListLock.any Holder.looks = true))

/-! ## Conditions on a run -/

def Operation.addsOrResizes : Operation → Bool
  | .add _ | .setNumThreads _ => true
  | _ => false

/-- Clients only add tasks and resize the pool. -/
def addsAndResizes (_ : Global Memory Agent) (label : Label CountingSemaphore.Ending Move) : Prop :=
  ∀ operation ∈ invoked label, operation.addsOrResizes = true

/-- An add has decided that it needs no thread, and is about to write its task. -/
def Agent.skipsLook : Agent → Bool
  | .call (.enqueue _ _ false) => true
  | _ => false

/-- A resize that has counted no task is about to allow threads. -/
def Holder.allowsUnasked : Holder → Bool
  | .storeMax numThreads _ 0 => 0 < numThreads
  | _ => false

/-- Somebody looks whenever, with no thread active, an add writes that will not
look, or a resize that has counted no task allows threads for one. -/
def looksInTime (state : Global Memory Agent)
    (label : Label CountingSemaphore.Ending Move) : Prop :=
  addsAndResizes state label ∧
    (∀ agent ∈ moving state label, agent.skipsLook = true → state.shared.activeThreads = 0 →
      0 < state.shared.maxThreads → Attended state.shared state.agents) ∧
    (holding label = true → state.shared.threadListLock.any Holder.allowsUnasked = true →
      state.shared.activeThreads = 0 → state.shared.tasks.queued ≠ [] →
      Attended state.shared state.agents)

instance (state : Global Memory Agent) (label : Label CountingSemaphore.Ending Move) :
    Decidable (addsAndResizes state label) :=
  inferInstanceAs (Decidable (∀ operation ∈ invoked label, operation.addsOrResizes = true))

instance (state : Global Memory Agent) (label : Label CountingSemaphore.Ending Move) :
    Decidable (looksInTime state label) :=
  inferInstanceAs (Decidable (addsAndResizes state label ∧
    (∀ agent ∈ moving state label, agent.skipsLook = true → state.shared.activeThreads = 0 →
      0 < state.shared.maxThreads → Attended state.shared state.agents) ∧
    (holding label = true → state.shared.threadListLock.any Holder.allowsUnasked = true →
      state.shared.activeThreads = 0 → state.shared.tasks.queued ≠ [] →
      Attended state.shared state.agents)))

/-- Every call has returned, threads are allowed and a task is queued, but as
many threads are to stop as there are. -/
structure Stranded (memory : Memory) (agents : List Agent) : Prop where
  returned : countRoles Role.calls memory agents = 0
  allowed : 0 < memory.maxThreads
  waits : memory.tasks.queued ≠ []
  stops : memory.threadList.length = memory.threadsToStop

/-! ## What a step does -/

/-- What decides whether a task needs a thread. -/
def Memory.demand (memory : Memory) : Nat × Nat × List (List CPUTask) :=
  (memory.activeThreads, memory.maxThreads, memory.tasks.levels)

/-- Whether the holder of the lock counts tasks, with a thread left out of
`activeThreads_`, or is about to make a thread active. -/
def Holder.counts : Holder → Bool
  | .pendingAfterTimeout _ _ _ => true
  | holder => holder.starts

/-- What a step of the holder of the lock does about a queue without an active
thread. -/
inductive Holder.Affects (queue : TaskQueue) (memory after : Memory) :
    Holder → List Agent → Prop where
  | elsewhere (holder : Holder) (left : List Agent) (counts : holder.counts = false)
      (looks : holder.looks = false) (same : after.demand = memory.demand) :
      Affects queue memory after holder left
  | active (holder : Holder) (left : List Agent) (positive : 0 < after.activeThreads) :
      Affects queue memory after holder left
  | closed (holder : Holder) (left : List Agent) (zero : after.maxThreads = 0) :
      Affects queue memory after holder left
  | starts (holder next : Holder) (left : List Agent) (locked : after.threadListLock = some next)
      (starting : next.starts = true) : Affects queue memory after holder left
  | decrements (thread : Nat)
      (locked : after.threadListLock = some (.pendingAfterTimeout thread 0 0)) :
      Affects queue memory after (.decrActive thread) []
  | reads (thread index : Nat) (same : after.demand = memory.demand)
      (empty : memory.tasks.sizeAt queue index = 0)
      (locked : after.threadListLock = some (.pendingAfterTimeout thread (index + 1) 0)) :
      Affects queue memory after (.pendingAfterTimeout thread index 0) []
  | leaves (thread index : Nat) (outside : queue.getNumPriorities ≤ index)
      (same : after.demand = memory.demand) :
      Affects queue memory after (.pendingAfterTimeout thread index 0) []
  | allows (numThreads : Nat) (resizer : Resizer)
      (same : after.demand = (memory.activeThreads, numThreads, memory.tasks.levels)) :
      Affects queue memory after (.storeMax numThreads resizer 0) []
  | stores (next : Call) (same : after.demand = (0, memory.maxThreads, memory.tasks.levels)) :
      Affects queue memory after (.storeActive 0 next) [.call next]
  | looks (ensurer : Ensurer) (n : Nat) (same : after.demand = memory.demand) :
      Affects queue memory after (.collectJoined ensurer)
        [.call (.joinStoppedThreads n (.ensureJoined ensurer))]

section Affects

variable {queue : TaskQueue} {choice : CountingSemaphore.Ending} {wake : Bool}
  {memory after : Memory} {left rest agents others : List Agent} {agent : Agent} {holder : Holder}

theorem numToAdd_pos {numThreads minthreads pending : Nat} (allowed : 0 < numThreads)
    (tasks : 0 < pending) (observed : Bool) :
    0 < numToAdd numThreads 0 minthreads pending observed := by
  simp only [numToAdd]
  split_ifs <;> omega

private theorem worker_affects {thread : Nat}
    (step : holder.WorkerStep queue memory thread after left) :
    holder.Affects queue memory after left := by
  cases step with
  | decrements => exact .decrements _ rfl
  | addsPending index pending inside =>
      rcases Nat.eq_zero_or_pos (pending + memory.tasks.sizeAt queue index) with none | some
      · obtain ⟨rfl, empty⟩ := Nat.add_eq_zero_iff.mp none
        exact .reads _ _ rfl empty (by rw [none])
      · exact .starts _ _ _ rfl (decide_eq_true some)
  | nonePending index outside => exact .leaves _ _ outside rfl
  | stillPending index pending outside positive => exact .active _ _ (Nat.succ_pos _)
  | _ => exact .elsewhere _ _ rfl rfl rfl

private theorem removal_affects {removal : Removal} {n : Nat}
    (step : holder.RemovalStep queue wake memory removal n after left)
    (ok : holder.Ok memory.maxThreads memory.activeThreads memory.history.forgone)
    (stored : holder.Stored memory.history.atLock memory.sizing) :
    holder.Affects queue memory after left := by
  cases step with
  | enqueues left tasks written =>
      cases removal with
      | setNumThreads numThreads resizer =>
          obtain ⟨max, active⟩ := ok
          rcases Nat.eq_zero_or_pos numThreads with zero | positive
          · exact .closed _ _ (max.trans zero)
          · refine .active _ _ ?_
            simp only
            omega
      | shutdown isJoin => exact .closed _ _ (congrArg Sizing.maxThreads stored.2)
  | _ => exact .elsewhere _ _ rfl rfl rfl

private theorem call_affects (step : holder.CallStep queue memory after left)
    (ok : holder.Ok memory.maxThreads memory.activeThreads memory.history.forgone)
    (stored : holder.Stored memory.history.atLock memory.sizing) :
    holder.Affects queue memory after left := by
  cases step with
  | storesMax numThreads resizer pending =>
      rcases Nat.eq_zero_or_pos pending with rfl | positive
      · exact .allows _ _ rfl
      · exact .starts _ _ _ rfl (decide_eq_true positive)
  | shrinks numThreads resizer pending above => exact .active _ _ (Nat.zero_lt_of_lt above)
  | grows numThreads resizer pending below needed =>
      rcases Nat.eq_zero_or_pos pending with rfl | positive
      · exact .elsewhere _ _ rfl rfl rfl
      · rcases Nat.eq_zero_or_pos memory.activeThreads with none | active
        · rcases Nat.eq_zero_or_pos numThreads with zero | allowed
          · exact .closed _ _ (Eq.trans ok zero)
          · have more := @numToAdd_pos _ (min memory.minThreads numThreads) _ allowed positive
              (!memory.observers.isEmpty)
            refine .starts _ _ _ rfl (decide_eq_true ?_)
            rw [none]
            omega
        · exact .active _ _ active
  | startsThread left newThreads active next =>
      refine .starts _ _ _ rfl ?_
      simp only [Holder.starts, List.length_append, List.length_singleton, decide_eq_true_eq]
      omega
  | startedAll newThreads active next =>
      rcases Nat.eq_zero_or_pos (active + newThreads.length) with none | positive
      · refine .elsewhere _ _ ?_ ?_ rfl <;> simp [Holder.counts, Holder.looks, Holder.starts, none]
      · exact .starts _ _ _ rfl (decide_eq_true positive)
  | storesActive active next =>
      rcases Nat.eq_zero_or_pos active with rfl | positive
      · exact .stores _ rfl
      · exact .active _ _ positive
  | clearsMax isJoin => exact .closed _ _ rfl
  | clearsActive isJoin => exact .closed _ _ (congrArg Sizing.maxThreads stored)
  | collectsJoined ensurer => exact .looks _ _ rfl
  | enoughActive ensurer above =>
      rcases Nat.eq_zero_or_pos memory.activeThreads with none | positive
      · exact .closed _ _ (Nat.le_zero.mp (none ▸ above))
      · exact .active _ _ positive
  | tooFewActive ensurer below =>
      refine .starts _ _ _ rfl ?_
      simp only [Holder.starts, decide_eq_true_eq]
      omega
  | _ => exact .elsewhere _ _ rfl rfl rfl

theorem hold_affects (step : holder.Step queue wake memory after left)
    (ok : holder.Ok memory.maxThreads memory.activeThreads memory.history.forgone)
    (stored : holder.Stored memory.history.atLock memory.sizing) :
    holder.Affects queue memory after left := by
  cases step with
  | worker thread holder after left step => exact worker_affects step
  | removal removal n holder after left step => exact removal_affects step ok stored
  | call holder after left step => exact call_affects step ok stored

end Affects

/-! ## What the holder of the lock has found -/

def CPUTask.isTask (item : CPUTask) : Bool :=
  !item.isPoison

/-- What the holder knows of the stops and of the levels it has read. -/
def Holder.Found (memory : Memory) : Holder → Prop
  | .minActive _ | .decrActive _ => memory.threadsToStop = 0
  | .pendingAfterTimeout _ index pending => memory.threadsToStop = 0 ∧
      (pending = 0 → Levels.ClearBefore CPUTask.isPoison memory.tasks.levels index)
  | .getPending _ _ index pending =>
      pending = 0 → Levels.ClearBefore CPUTask.isPoison memory.tasks.levels index
  | .storeMax _ _ pending => pending = 0 →
      Levels.ClearBefore CPUTask.isPoison memory.tasks.levels memory.tasks.levels.length
  | .storeActive active _ => active < memory.activeThreads → memory.maxThreads = active
  | _ => True

section Found

variable {queue : TaskQueue} {choice : CountingSemaphore.Ending} {wake : Bool}
  {memory after : Memory} {left rest agents others : List Agent} {agent : Agent}
  {holder next : Holder} {tasks : Tasks} {index : Nat}

theorem length_of_sizeAt (unbounded : queue.bounded = false)
    (empty : tasks.sizeAt queue index = 0) : (tasks.levels.getD index []).length = 0 := by
  simpa [Tasks.sizeAt, TaskQueue.sizeLevel, unbounded] using empty

theorem queued_eq_nil
    (clear : Levels.ClearBefore CPUTask.isTask tasks.levels tasks.levels.length) :
    tasks.queued = [] := by
  refine List.filterMap_eq_nil_iff.mpr fun item member => ?_
  have unmarked := clear.forall_flatten item member
  cases item with
  | func task => cases unmarked
  | poison byJoin => rfl

theorem poison_eq_zero
    (clear : Levels.ClearBefore CPUTask.isPoison tasks.levels tasks.levels.length) :
    tasks.poison = 0 := by
  refine List.countP_eq_zero.mpr fun item member => ?_
  simp [clear.forall_flatten item member]

/-- Agents add no poison task. -/
theorem Agent.Turns.unpoisoned (turns : agent.Turns queue memory after left)
    (clear : Levels.ClearBefore CPUTask.isPoison memory.tasks.levels index) :
    Levels.ClearBefore CPUTask.isPoison after.tasks.levels index := by
  refine clear.mono fun level item member => ?_
  rcases turns.mem member with before | ⟨task, priority, mayNeed, -, rfl⟩
  · exact .inl before
  · exact .inr rfl

theorem hold_found (unbounded : queue.bounded = false)
    (step : holder.Step queue wake memory after left)
    (ok : holder.Ok memory.maxThreads memory.activeThreads memory.history.forgone)
    (inside : memory.tasks.levels.length = queue.getNumPriorities)
    (found : holder.Found memory) (holds : after.threadListLock = some next) :
    next.Found after := by
  cases step with
  | worker thread holder after left step =>
      cases step with
      | maybeIdle zero =>
          cases holds
          exact zero
      | aboveMin above =>
          cases holds
          exact found
      | decrements =>
          cases holds
          exact ⟨found, fun _ => .zero⟩
      | addsPending index pending inside =>
          cases holds
          refine ⟨found.1, fun none => ?_⟩
          obtain ⟨rfl, empty⟩ := Nat.add_eq_zero_iff.mp none
          exact (found.2 rfl).succ (length_of_sizeAt unbounded empty)
      | _ => cases holds <;> trivial
  | removal removal n holder after left step => cases step <;> cases holds <;> trivial
  | call holder after left step =>
      cases step with
      | addsPending numThreads resizer index pending inside =>
          cases holds
          intro none
          obtain ⟨rfl, empty⟩ := Nat.add_eq_zero_iff.mp none
          exact (found rfl).succ (length_of_sizeAt unbounded empty)
      | hasPending numThreads resizer index pending outside =>
          cases holds
          exact fun none => (found none).of_length_le (inside ▸ outside)
      | poisonedResize numThreads resizer n =>
          cases holds
          exact fun _ => ok.1
      | startedAll newThreads active next =>
          cases holds
          intro fewer
          obtain ⟨rfl, -⟩ := ok
          exact absurd fewer (Nat.not_lt.mpr (Nat.le_add_right _ _))
      | _ => cases holds <;> trivial

theorem Holder.Found.mono (found : holder.Found memory)
    (active : after.activeThreads = memory.activeThreads)
    (max : after.maxThreads = memory.maxThreads)
    (toStop : after.threadsToStop = memory.threadsToStop)
    (length : after.tasks.levels.length = memory.tasks.levels.length)
    (clear : ∀ index, Levels.ClearBefore CPUTask.isPoison memory.tasks.levels index →
      Levels.ClearBefore CPUTask.isPoison after.tasks.levels index) : holder.Found after := by
  cases holder with
  | minActive thread => exact toStop.trans found
  | decrActive thread => exact toStop.trans found
  | pendingAfterTimeout thread index pending =>
      exact ⟨toStop.trans found.1, fun none => clear _ (found.2 none)⟩
  | getPending numThreads resizer index pending => exact fun none => clear _ (found none)
  | storeMax numThreads resizer pending =>
      intro none
      rw [length]
      exact clear _ (found none)
  | storeActive stored next =>
      intro fewer
      rw [max]
      exact found (active ▸ fewer)
  | _ => trivial

theorem found_of_wants (wants : agent.wants = some holder) : holder.Found memory := by
  unfold Agent.wants at wants
  split at wants <;> cases wants <;> try trivial
  exact fun _ => .zero

end Found

/-! ## Somebody looks -/

/-- A worker that times out reads the queue and has passed no task. -/
def Memory.Unread (memory : Memory) : Prop :=
  ∃ thread index, memory.threadListLock = some (.pendingAfterTimeout thread index 0) ∧
    Levels.ClearBefore CPUTask.isTask memory.tasks.levels index

/-- While no thread is active and threads are allowed, no poison task keeps a
worker from the others, and for a task in the queue there is somebody who looks,
or who is still to read it. -/
structure Served (memory : Memory) (agents : List Agent) : Prop where
  found : ∀ holder, memory.threadListLock = some holder → holder.Found memory
  unpoisoned : memory.activeThreads = 0 → 0 < memory.maxThreads →
    memory.threadListLock.any Holder.counts = false →
    Levels.ClearBefore CPUTask.isPoison memory.tasks.levels memory.tasks.levels.length
  attended : memory.activeThreads = 0 → 0 < memory.maxThreads → memory.tasks.queued ≠ [] →
    Attended memory agents ∨ memory.Unread

section Served

variable {queue : TaskQueue} {choice : CountingSemaphore.Ending} {wake : Bool}
  {memory after : Memory} {left rest agents others : List Agent} {agent : Agent}
  {holder next : Holder}

theorem Attended.perm (same : agents.Perm others) (attended : Attended memory agents) :
    Attended memory others :=
  attended.imp_left fun ⟨agent, member, looks⟩ => ⟨agent, same.mem_iff.mp member, looks⟩

theorem Served.perm (same : agents.Perm others) (served : Served memory agents) :
    Served memory others :=
  ⟨served.found, served.unpoisoned, fun none allowed waits =>
    (served.attended none allowed waits).imp_left (Attended.perm same)⟩

theorem demand_eq {active max : Nat} {levels : List (List CPUTask)}
    (same : after.demand = (active, max, levels)) :
    after.activeThreads = active ∧ after.maxThreads = max ∧ after.tasks.levels = levels := by
  simpa only [Memory.demand, Prod.mk.injEq] using same

theorem queued_congr {tasks changed : Tasks} (levels : changed.levels = tasks.levels) :
    changed.queued = tasks.queued := by
  rw [Tasks.queued, levels]
  rfl

theorem Holder.looks_of_starts (starts : holder.starts = true) : holder.looks = true := by
  cases holder <;> first | rfl | exact starts

theorem Holder.counts_of_starts (starts : holder.starts = true) : holder.counts = true := by
  cases holder <;> first | rfl | exact starts

/-- Agents that look while the holder of the lock goes on still do. -/
private theorem attended_of_rest (looking : ∃ agent ∈ rest, agent.looks = true) :
    Attended after (left ++ rest) :=
  have ⟨agent, member, looks⟩ := looking
  .inl ⟨agent, List.mem_append_right _ member, looks⟩

/-- With the lock held, who looks is the holder or one of the agents. -/
private theorem Served.attended_held (locked : memory.threadListLock = some holder)
    (served : Served memory rest) (looks : holder.looks = false)
    (none : memory.activeThreads = 0) (allowed : 0 < memory.maxThreads)
    (waits : memory.tasks.queued ≠ []) :
    (∃ agent ∈ rest, agent.looks = true) ∨
      ∃ thread index, holder = .pendingAfterTimeout thread index 0 ∧
        Levels.ClearBefore CPUTask.isTask memory.tasks.levels index := by
  rcases served.attended none allowed waits with (looking | held) | ⟨thread, index, lock, clear⟩
  · exact .inl looking
  · rw [locked, Option.any_some, looks] at held
    cases held
  · exact .inr ⟨thread, index, Option.some.inj (locked.symm.trans lock), clear⟩

theorem hold_unpoisoned (locked : memory.threadListLock = some holder)
    (affects : holder.Affects queue memory after left)
    (inside : memory.tasks.levels.length = queue.getNumPriorities)
    (served : Served memory rest) (none : after.activeThreads = 0)
    (allowed : 0 < after.maxThreads) (idle : after.threadListLock.any Holder.counts = false) :
    Levels.ClearBefore CPUTask.isPoison after.tasks.levels after.tasks.levels.length := by
  have found := served.found holder locked
  have keeps (counts : holder.counts = false) (same : after.demand = memory.demand) :
      Levels.ClearBefore CPUTask.isPoison after.tasks.levels after.tasks.levels.length := by
    obtain ⟨active, max, levels⟩ := demand_eq same
    rw [levels]
    refine served.unpoisoned (active.symm.trans none) (max ▸ allowed) ?_
    rw [locked]
    exact counts
  cases affects with
  | elsewhere holder left counts looks same => exact keeps counts same
  | active holder left positive => exact absurd none (Nat.ne_of_gt positive)
  | closed holder left zero => exact absurd zero (Nat.ne_of_gt allowed)
  | starts holder next left lock starting =>
      rw [lock, Option.any_some, Holder.counts_of_starts starting] at idle
      cases idle
  | decrements thread lock =>
      rw [lock] at idle
      cases idle
  | reads thread index same empty lock =>
      rw [lock] at idle
      cases idle
  | leaves thread index outside same =>
      obtain ⟨-, -, levels⟩ := demand_eq same
      rw [levels]
      exact (found.2 rfl).of_length_le (inside ▸ outside)
  | allows numThreads resizer same =>
      obtain ⟨-, -, levels⟩ := demand_eq same
      rw [levels]
      exact found rfl
  | stores next same =>
      obtain ⟨-, max, levels⟩ := demand_eq same
      have zero : memory.activeThreads = 0 := by
        by_contra positive
        have closed : memory.maxThreads = 0 := found (Nat.pos_of_ne_zero positive)
        omega
      rw [levels]
      refine served.unpoisoned zero (max ▸ allowed) ?_
      rw [locked]
      rfl
  | looks ensurer n same => exact keeps rfl same

theorem hold_attended (unbounded : queue.bounded = false)
    (locked : memory.threadListLock = some holder)
    (affects : holder.Affects queue memory after left)
    (inside : memory.tasks.levels.length = queue.getNumPriorities)
    (served : Served memory rest)
    (asked : holder.allowsUnasked = true → memory.activeThreads = 0 → memory.tasks.queued ≠ [] →
      Attended memory rest)
    (none : after.activeThreads = 0) (allowed : 0 < after.maxThreads)
    (waits : after.tasks.queued ≠ []) : Attended after (left ++ rest) ∨ after.Unread := by
  have found := served.found holder locked
  have starting (next : Holder) (lock : after.threadListLock = some next)
      (starts : next.starts = true) : Attended after (left ++ rest) := by
    refine .inr ?_
    rw [lock]
    exact Holder.looks_of_starts starts
  cases affects with
  | elsewhere holder left counts looks same =>
      obtain ⟨active, max, levels⟩ := demand_eq same
      rw [queued_congr levels] at waits
      rcases served.attended_held locked looks (active ▸ none) (max ▸ allowed) waits with
        looking | ⟨thread, index, rfl, -⟩
      · exact .inl (attended_of_rest looking)
      · cases counts
  | active holder left positive => exact absurd none (Nat.ne_of_gt positive)
  | closed holder left zero => exact absurd zero (Nat.ne_of_gt allowed)
  | starts holder next left lock starts => exact .inl (starting next lock starts)
  | decrements thread lock => exact .inr ⟨thread, 0, lock, .zero⟩
  | reads thread index same empty lock =>
      obtain ⟨active, max, levels⟩ := demand_eq same
      rw [queued_congr levels] at waits
      rcases served.attended_held locked rfl (active ▸ none) (max ▸ allowed) waits with
        looking | ⟨_, _, same, clear⟩
      · exact .inl (attended_of_rest looking)
      · cases same
        refine .inr ⟨thread, index + 1, lock, ?_⟩
        rw [levels]
        exact clear.succ (length_of_sizeAt unbounded empty)
  | leaves thread index outside same =>
      obtain ⟨active, max, levels⟩ := demand_eq same
      rw [queued_congr levels] at waits
      rcases served.attended_held locked rfl (active ▸ none) (max ▸ allowed) waits with
        looking | ⟨_, _, same, clear⟩
      · exact .inl (attended_of_rest looking)
      · -- a worker that has read all levels has passed every task
        cases same
        exact absurd (queued_eq_nil (clear.of_length_le (inside ▸ outside))) waits
  | allows numThreads resizer same =>
      obtain ⟨active, max, levels⟩ := demand_eq same
      rw [queued_congr levels] at waits
      have positive : (Holder.storeMax numThreads resizer 0).allowsUnasked = true :=
        decide_eq_true (max ▸ allowed)
      rcases asked positive (active ▸ none) waits with looking | held
      · exact .inl (attended_of_rest looking)
      · rw [locked] at held
        cases held
  | stores next same =>
      obtain ⟨-, max, levels⟩ := demand_eq same
      rw [queued_congr levels] at waits
      have zero : memory.activeThreads = 0 := by
        by_contra positive
        have closed : memory.maxThreads = 0 := found (Nat.pos_of_ne_zero positive)
        omega
      rcases served.attended_held locked rfl zero (max ▸ allowed) waits with
        looking | ⟨_, _, same, -⟩
      · exact .inl (attended_of_rest looking)
      · cases same
  | looks ensurer n same =>
      exact .inl (.inl ⟨_, List.mem_append_left _ List.mem_cons_self, rfl⟩)

/-- Whoever looks goes on to look, while no thread is active and no worker sleeps
whom its post could wake. -/
theorem act_looks (step : agent.Step queue choice memory after left) (looks : agent.looks = true)
    (none : memory.activeThreads = 0) (allowed : 0 < memory.maxThreads)
    (awake : memory.tasks.sem.sleeping = 0) : Attended after left := by
  cases step with
  | locks agent holder wants free =>
      refine .inr ?_
      unfold Agent.wants at wants
      split at wants <;> cases wants <;> first | rfl | cases looks
  | worker thread worker after left step => cases looks
  | call call after left step =>
      cases step with
      | wakesThread task woke =>
          have asleep := CountingSemaphore.sleeping_of_post woke
          omega
      | enoughActive ensurer active above =>
          cases active with
          | zero => omega
          | succ active => cases looks
      | joinsOne n joiner thread stopped first =>
          cases joiner with
          | ensureJoined ensurer => exact .inl ⟨_, List.mem_singleton_self _, rfl⟩
          | _ => cases looks
      | joinsAll joiner =>
          cases joiner with
          | ensureJoined ensurer => exact .inl ⟨_, List.mem_singleton_self _, rfl⟩
          | _ => cases looks
      | ensureLoadsActive ensurer =>
          rw [none]
          exact .inl ⟨_, List.mem_singleton_self _, rfl⟩
      | wakesNone task woke => exact .inl ⟨_, List.mem_singleton_self _, rfl⟩
      | noneToJoin ensurer zero => exact .inl ⟨_, List.mem_singleton_self _, rfl⟩
      | someToJoin ensurer positive => exact .inl ⟨_, List.mem_singleton_self _, rfl⟩
      | tooFewActive ensurer active below => exact .inl ⟨_, List.mem_singleton_self _, rfl⟩
      | _ => cases looks

/-- An agent leaves the counters alone, but may take the lock. -/
private theorem act_same (acted : act queue choice memory agent = some (after, left)) :
    after.activeThreads = memory.activeThreads ∧ after.maxThreads = memory.maxThreads ∧
      after.threadsToStop = memory.threadsToStop ∧
      (after.threadListLock = memory.threadListLock ∨ ∃ holder, agent.wants = some holder ∧
        memory.threadListLock = none ∧ after.threadListLock = some holder) := by
  rcases act_cases acted with ⟨holder, wants, free, -, rfl⟩ | ⟨call, -, records⟩ | ⟨same, -⟩
  · exact ⟨rfl, rfl, rfl, .inr ⟨holder, wants, free, rfl⟩⟩
  · cases records <;> exact ⟨rfl, rfl, rfl, .inl rfl⟩
  · exact ⟨congrArg Ledger.activeThreads same, congrArg Ledger.maxThreads same,
      congrArg Ledger.threadsToStop same, .inl (congrArg Ledger.threadListLock same)⟩

/-- A write of a task that its add will look after, or somebody else does. -/
private theorem enqueue_attended {task : Nat} {priority : Int8} {mayNeed : Bool}
    (unbounded : queue.bounded = false)
    (step : (Agent.call (.enqueue task priority mayNeed)).Step queue choice memory after left)
    (attended : mayNeed = false →
      Attended memory (.call (.enqueue task priority mayNeed) :: rest)) :
    Attended after (left ++ rest) := by
  cases step with
  | locks agent holder wants free => cases wants
  | call call after left step =>
      cases step with
      | enqueues task priority mayNeed tasks written =>
          cases mayNeed with
          | true => exact .inl ⟨_, List.mem_append_left _ (List.mem_singleton_self _), rfl⟩
          | false =>
              rcases attended rfl with ⟨agent, member, looks⟩ | held
              · rcases List.mem_cons.mp member with rfl | inRest
                · cases looks
                · exact .inl ⟨agent, List.mem_append_right _ inRest, looks⟩
              · exact .inr held
      | queueFull task priority mayNeed full =>
          simp [enqueue_isSome_of_unbounded unbounded] at full

theorem act_attended (unbounded : queue.bounded = false)
    (acted : act queue choice memory agent = some (after, left))
    (awake : memory.threadListLock.any Holder.starts = false → memory.tasks.sem.sleeping = 0)
    (skips : agent.skipsLook = true → Attended memory (agent :: rest))
    (served : Served memory (agent :: rest)) (none : memory.activeThreads = 0)
    (allowed : 0 < memory.maxThreads) (waits : after.tasks.queued ≠ []) :
    Attended after (left ++ rest) ∨ after.Unread := by
  have step := act_step acted
  have turns := act_turns unbounded step
  obtain ⟨-, -, -, lock⟩ := act_same acted
  have held {p : Holder → Bool} (some : memory.threadListLock.any p = true) :
      after.threadListLock = memory.threadListLock := by
    rcases lock with same | ⟨-, -, free, -⟩
    · exact same
    · rw [free] at some
      cases some
  by_cases adds : ∃ task priority mayNeed, agent = .call (.enqueue task priority mayNeed)
  · obtain ⟨task, priority, mayNeed, rfl⟩ := adds
    refine .inl (enqueue_attended unbounded step ?_)
    rintro rfl
    exact skips rfl
  · have old (level : Nat) (item : CPUTask) (member : item ∈ after.tasks.levels.getD level []) :
        item ∈ memory.tasks.levels.getD level [] := by
      rcases turns.mem member with before | ⟨task, priority, mayNeed, same, -⟩
      · exact before
      · exact absurd ⟨task, priority, mayNeed, same⟩ adds
    have waited : memory.tasks.queued ≠ [] := by
      obtain ⟨task, queued⟩ := List.exists_mem_of_ne_nil _ waits
      obtain ⟨level, member⟩ := exists_level_of_queued queued
      exact List.ne_nil_of_mem (queued_of_level (old level _ member))
    rcases served.attended none allowed waited with
      (⟨looker, member, looks⟩ | holds) | ⟨thread, index, locked, clear⟩
    · rcases List.mem_cons.mp member with rfl | inRest
      · cases starting : memory.threadListLock.any Holder.starts with
        | true =>
            refine .inl (.inr ?_)
            obtain ⟨holder, locked, starts⟩ := (Option.any_eq_true _ _).mp starting
            rw [held starting, locked]
            exact Holder.looks_of_starts starts
        | false =>
            rcases act_looks step looks none allowed (awake starting) with
              ⟨next, stays, still⟩ | holds
            · exact .inl (.inl ⟨next, List.mem_append_left _ stays, still⟩)
            · exact .inl (.inr holds)
      · exact .inl (.inl ⟨looker, List.mem_append_right _ inRest, looks⟩)
    · refine .inl (.inr ?_)
      rw [held holds]
      exact holds
    · have same : after.threadListLock = memory.threadListLock :=
        @held (fun _ => true) (by rw [locked]; rfl)
      exact .inr ⟨thread, index, same.trans locked, clear.mono fun level item member =>
        .inl (old level item member)⟩

theorem act_unpoisoned (acted : act queue choice memory agent = some (after, left))
    (turns : agent.Turns queue memory after left) (served : Served memory rest)
    (none : memory.activeThreads = 0) (allowed : 0 < memory.maxThreads)
    (idle : after.threadListLock.any Holder.counts = false) :
    Levels.ClearBefore CPUTask.isPoison after.tasks.levels after.tasks.levels.length := by
  obtain ⟨-, -, -, lock⟩ := act_same acted
  rw [turns.length]
  refine turns.unpoisoned (served.unpoisoned none allowed ?_)
  rcases lock with same | ⟨-, -, free, -⟩
  · rw [← same]
    exact idle
  · rw [free]
    rfl

private theorem Served.act (unbounded : queue.bounded = false)
    (acted : act queue choice memory agent = some (after, left))
    (awake : memory.activeThreads = 0 → 0 < memory.maxThreads →
      memory.threadListLock.any Holder.starts = false → memory.tasks.sem.sleeping = 0)
    (skips : agent.skipsLook = true → memory.activeThreads = 0 → 0 < memory.maxThreads →
      Attended memory (agent :: rest))
    (served : Served memory (agent :: rest)) : Served after (left ++ rest) := by
  have turns := act_turns unbounded (act_step acted)
  obtain ⟨active, max, toStop, lock⟩ := act_same acted
  constructor
  case found =>
    intro holder holds
    rcases lock with same | ⟨other, wants, -, locked⟩
    · exact (served.found holder (same ▸ holds)).mono active max toStop turns.length
        fun _ => turns.unpoisoned
    · cases locked.symm.trans holds
      exact found_of_wants wants
  case unpoisoned =>
    intro none allowed idle
    exact act_unpoisoned acted turns served (active ▸ none) (max ▸ allowed) idle
  case attended =>
    rw [active, max]
    intro none allowed waits
    exact act_attended unbounded acted (awake none allowed)
      (fun skipping => skips skipping none allowed) served none allowed waits

private theorem Served.hold (unbounded : queue.bounded = false)
    (locked : memory.threadListLock = some holder)
    (step : holder.Step queue wake memory after left)
    (ok : holder.Ok memory.maxThreads memory.activeThreads memory.history.forgone)
    (stored : holder.Stored memory.history.atLock memory.sizing)
    (inside : memory.tasks.levels.length = queue.getNumPriorities)
    (asked : holder.allowsUnasked = true → memory.activeThreads = 0 → memory.tasks.queued ≠ [] →
      Attended memory rest)
    (served : Served memory rest) : Served after (left ++ rest) where
  found _ holds := hold_found unbounded step ok inside (served.found holder locked) holds
  unpoisoned := hold_unpoisoned locked (hold_affects step ok stored) inside served
  attended := hold_attended unbounded locked (hold_affects step ok stored) inside served asked

/-! ## Nobody sleeps without an active thread -/

private theorem asleep_add_poison_le (agents : List Agent) :
    total Agent.asleep agents + total Agent.poison agents ≤
      (agents.filterMap Agent.thread?).length := by
  induction agents with
  | nil => exact Nat.le_refl 0
  | cons agent agents ih =>
      have one : agent.asleep + agent.poison ≤ agent.thread?.toList.length := by
        cases agent with
        | call at_ => exact Nat.le_refl 0
        | worker thread at_ =>
            cases at_ with
            | tryTakeFor take => cases take <;> exact Nat.le_of_ble_eq_true rfl
            | stopping task => cases task <;> exact Nat.le_of_ble_eq_true rfl
            | _ => exact Nat.zero_le _
      rw [total_cons, total_cons, List.filterMap_cons]
      cases thread : agent.thread? with
      | none =>
          rw [thread, Option.toList_none, List.length_nil] at one
          simp only
          omega
      | some thread =>
          rw [thread, Option.toList_some, List.length_singleton] at one
          simp only [List.length_cons]
          omega

/-- Without an active thread, whoever has the lock and makes none active is
itself the only one that is counted. -/
private theorem counted_add_poison_le (none : memory.activeThreads = 0)
    (allowed : 0 < memory.maxThreads) (idle : holder.starts = false)
    (client : holder.role.shutsDown = 0)
    (ok : holder.Ok memory.maxThreads memory.activeThreads memory.history.forgone) :
    holder.counted memory.activeThreads + holder.poison ≤ holder.thread?.toList.length := by
  rw [none] at ok ⊢
  cases holder with
  | taskShouldStop thread task => cases task <;> exact Nat.le_of_ble_eq_true rfl
  | removeThreads removal n =>
      cases removal with
      | setNumThreads numThreads resizer => exact Nat.le_refl 0
      | shutdown isJoin => cases client
  | stopThreads removal n =>
      cases removal with
      | setNumThreads numThreads resizer => exact Nat.le_refl 0
      | shutdown isJoin => cases client
  | enqueuePoison removal n left =>
      cases removal with
      | setNumThreads numThreads resizer =>
          obtain ⟨max, active⟩ := ok
          omega
      | shutdown isJoin => cases client
  | postPoison removal n left =>
      cases removal with
      | setNumThreads numThreads resizer =>
          obtain ⟨max, active⟩ := ok
          omega
      | shutdown isJoin => cases client
  | addThreads left newThreads active next =>
      simp only [Holder.starts, decide_eq_false_iff_not] at idle
      simp only [Holder.counted, Holder.poison]
      omega
  | storeActive active next =>
      simp only [Holder.starts, decide_eq_false_iff_not] at idle
      simp only [Holder.counted, Holder.poison]
      omega
  | _ => exact Nat.le_of_ble_eq_true rfl

private theorem eq_pendingAfterTimeout (counts : holder.counts = true)
    (idle : holder.starts = false) :
    ∃ thread index pending, holder = .pendingAfterTimeout thread index pending := by
  cases holder with
  | pendingAfterTimeout thread index pending => exact ⟨thread, index, pending, rfl⟩
  | _ => cases counts.symm.trans idle

/-- A worker that sleeps is active: one that is to stop has its poison task, and
there is none in the queue. -/
theorem Served.nobodyAsleep {owed : Nat} (served : Served memory agents)
    (accounted : Accounted memory.ledger owed) (quiet : Quiet memory agents)
    (staffed : Staffed memory agents) (counted : Counted memory agents)
    (none : memory.activeThreads = 0) (allowed : 0 < memory.maxThreads)
    (idle : memory.threadListLock.any Holder.starts = false) :
    memory.tasks.sem.sleeping = 0 := by
  obtain ⟨sleepers, stops⟩ := counted
  have workers := asleep_add_poison_le agents
  have threads := staffed.all.length_eq
  rw [staff, List.length_append] at threads
  cases locked : memory.threadListLock with
  | none =>
      obtain ⟨active, -, -⟩ := accounted.free locked
      have clear := served.unpoisoned none allowed (by rw [locked]; rfl)
      rw [locked, Option.elim_none, poison_eq_zero clear] at stops
      rw [quiet.overhang] at active
      omega
  | some holder =>
      obtain ⟨active, -, ok⟩ := accounted.held locked
      have roles := quiet.roles
      rw [countRoles, Memory.holding, locked, Option.elim_some] at roles
      rw [locked, Option.any_some] at idle
      have few := counted_add_poison_le none allowed idle (by omega) ok
      rw [locked, Option.bind_some] at threads
      rw [locked, Option.elim_some] at stops
      rw [quiet.overhang] at active
      cases counts : holder.counts with
      | true =>
          obtain ⟨thread, index, pending, rfl⟩ := eq_pendingAfterTimeout counts idle
          have zero := (served.found _ locked).1
          omega
      | false =>
          have clear := served.unpoisoned none allowed (by rw [locked]; exact counts)
          rw [poison_eq_zero clear] at stops
          omega

private theorem Served.invoke (operation : Operation) (served : Served memory agents) :
    Served (memory.invoke operation).1 ((memory.invoke operation).2 ++ agents) := by
  have same : (memory.invoke operation).1.demand = memory.demand ∧
      (memory.invoke operation).1.threadsToStop = memory.threadsToStop ∧
      (memory.invoke operation).1.threadListLock = memory.threadListLock := by
    cases operation <;> exact ⟨rfl, rfl, rfl⟩
  obtain ⟨demand, toStop, lock⟩ := same
  obtain ⟨active, max, levels⟩ := demand_eq demand
  constructor
  case found =>
    intro holder holds
    refine (served.found holder (lock ▸ holds)).mono active max toStop (by rw [levels]) ?_
    rw [levels]
    exact fun _ clear => clear
  case unpoisoned =>
    rw [active, max, lock, levels]
    exact served.unpoisoned
  case attended =>
    rw [active, max, queued_congr levels]
    intro none allowed waits
    rcases served.attended none allowed waits with (looking | held) | ⟨thread, index, locked, clear⟩
    · exact .inl (attended_of_rest looking)
    · exact .inl (.inr (lock ▸ held))
    · exact .inr ⟨thread, index, lock.trans locked, levels ▸ clear⟩

theorem noShutdown_of_looksInTime {state : Global Memory Agent}
    {label : Label CountingSemaphore.Ending Move} (inTime : looksInTime state label) :
    noShutdown state label := by
  intro isJoin shutdown
  cases inTime.1 (.shutdown isJoin) shutdown

theorem reachable_served {numThreads : Nat × Nat} {state : Global Memory Agent}
    (unbounded : queue.bounded = false)
    (reached : Reachable (system queue numThreads) looksInTime state) :
    Served state.shared state.agents := by
  have start : Served (system queue numThreads).init.shared
      (system queue numThreads).init.agents := by
    refine ⟨?_, ?_, ?_⟩
    · intro holder holds
      cases holds
    · intro _ allowed
      cases allowed
    · intro _ allowed
      cases allowed
  refine Reaches.invariant Served Served.perm start ?_ ?_ reached
  · intro before index choice agent after left reaches inTime found acted served
    have same := perm_of_getElem? found
    have quiet : Quiet before.shared before.agents :=
      reachable_quiet unbounded (reaches.mono fun _ _ => noShutdown_of_looksInTime)
    refine served.act unbounded acted ?_ ?_
    · exact (served.perm same.symm).nobodyAsleep (reachable_accounted reaches) quiet
        (reachable_staffed reaches) (reachable_counted unbounded reaches)
    · intro skips none allowed
      exact (inTime.2.1 agent found skips none allowed).perm same
  · intro before move after left reaches inTime moved served
    rcases env_cases moved with ⟨operation, rfl, -, invoked⟩ | ⟨wake, holder, rfl, locked, stepped⟩
    · have called := served.invoke operation
      rw [invoked] at called
      exact called
    · refine served.hold unbounded locked (hold_step stepped)
        ((reachable_accounted reaches).held locked).2.2 (reachable_stored reaches holder locked)
        (reachable_levels reaches) ?_
      intro unasked
      exact inTime.2.2 rfl (by rw [locked]; exact unasked)

end Served

/-! ## No task is stranded -/

section Stranded

variable {memory : Memory} {agents : List Agent} {agent : Agent} {holder : Holder}

theorem calls_of_looks (looks : agent.looks = true) : agent.role.calls = 1 := by
  cases agent with
  | worker thread at_ => cases looks
  | call at_ =>
      simp only [Agent.looks, Call.looks] at looks
      split at looks
      case h_1 => rfl
      case h_8 => cases looks
      all_goals next ensurer => cases ensurer <;> rfl

private theorem tokens_of_calls {call : Call} (ended : call.role.calls = 0) : call.tokens = 0 := by
  cases call with
  | enqueue task priority mayNeed => cases ended
  | post task mayNeed => cases ended
  | keepAliveRelease task => cases ended
  | ensureJoined ensurer => cases ensurer <;> cases ended
  | ensureJoinedLock ensurer => cases ensurer <;> cases ended
  | ensureActive ensurer => cases ensurer <;> cases ended
  | ensureActiveMax ensurer active => cases ensurer <;> cases ended
  | ensureActiveLock ensurer => cases ensurer <;> cases ended
  | joinStoppedThreads n joiner =>
      cases joiner with
      | ensureJoined ensurer => cases ensurer <;> cases ended
      | _ => rfl
  | _ => rfl

private theorem thread_of_calls {found now : Sizing} (ended : holder.role.calls = 0)
    (stored : holder.Stored found now) : holder.thread?.isSome = true := by
  refine thread_of_roles stored ?_ ?_ ?_
  · cases role : holder.role <;> rw [role] at ended <;> first | rfl | cases ended
  · cases role : holder.role <;> rw [role] at ended <;> first | rfl | cases ended
  · cases holder with
    | collectJoined ensurer => cases ensurer <;> cases ended
    | ensureActive ensurer => cases ensurer <;> cases ended
    | addThreads left newThreads active next => exact tokens_of_calls ended
    | storeActive active next => exact tokens_of_calls ended
    | _ => rfl

/-- A worker that has the lock and is to stop is not about to count tasks. -/
private theorem idle_of_thread (works : holder.thread?.isSome = true)
    (none : holder.counted memory.activeThreads = 0) :
    memory.activeThreads = 0 ∧ holder.counts = false ∧ holder.looks = false := by
  cases holder with
  | taskShouldStop thread task => exact ⟨none, rfl, rfl⟩
  | minActive thread => exact ⟨none, rfl, rfl⟩
  | decrActive thread => exact ⟨none, rfl, rfl⟩
  | tryDecrToStop thread => exact ⟨none, rfl, rfl⟩
  | pendingAfterTimeout thread index pending => cases none
  | stopThread thread observed => cases none
  | _ => cases works

/-- When as many threads are to stop as there are, no thread is active, and
whoever has the lock makes none active. -/
private theorem Stranded.idle {owed : Nat} (stranded : Stranded memory agents)
    (accounted : Accounted memory.ledger owed) (quiet : Quiet memory agents)
    (stored : memory.Stored) :
    memory.activeThreads = 0 ∧ memory.threadListLock.any Holder.counts = false ∧
      memory.threadListLock.any Holder.looks = false := by
  have stops := stranded.stops
  cases locked : memory.threadListLock with
  | none =>
      obtain ⟨active, -, -⟩ := accounted.free locked
      rw [quiet.overhang] at active
      exact ⟨by omega, rfl, rfl⟩
  | some holder =>
      obtain ⟨active, -, -⟩ := accounted.held locked
      rw [quiet.overhang] at active
      have calls := stranded.returned
      rw [countRoles, Memory.holding, locked, Option.elim_some] at calls
      have works := thread_of_calls (by omega) (stored holder locked)
      exact idle_of_thread works (by omega)

end Stranded

/-- No task is stranded in a run in which somebody looks whenever no thread is
active and an add writes that will not look, or a resize that has counted no
task allows threads for one. -/
theorem no_task_stranded (queue : TaskQueue) (unbounded : queue.bounded = false)
    (numThreads : Nat × Nat) (state : Global Memory Agent)
    (reached : Reachable (system queue numThreads) looksInTime state) :
    ¬Stranded state.shared state.agents := by
  intro stranded
  have quiet : Quiet state.shared state.agents :=
    reachable_quiet unbounded (reached.mono fun _ _ => noShutdown_of_looksInTime)
  obtain ⟨none, counts, looks⟩ :=
    stranded.idle (reachable_accounted reached) quiet (reachable_stored reached)
  rcases (reachable_served unbounded reached).attended none stranded.allowed stranded.waits with
    (⟨agent, member, looking⟩ | held) | ⟨thread, index, locked, -⟩
  · have returned := stranded.returned
    have calls := weight_le_total (fun agent => Role.calls agent.role) member
    rw [countRoles] at returned
    simp only [calls_of_looks looking] at calls
    omega
  · cases held.symm.trans looks
  · rw [locked] at counts
    cases counts

/-- The worker is stopped by `setNumThreads(0)` and threads are allowed again
before a task is added. -/
private def addAfterResizes : List (Label CountingSemaphore.Ending Move) :=
  frontActs 1 ++ held 7 ++ frontActs 2 ++ [Label.env (Move.invoke (.setNumThreads 0))] ++
    frontActs 1 ++ held 10 ++ [Label.act 1 .handoff] ++ frontActs 2 ++ held 2 ++ frontActs 2 ++
    [Label.env (Move.invoke (.setNumThreads 1))] ++ frontActs 1 ++ held 4 ++ frontActs 1 ++
    [Label.env (Move.invoke (.add 0))] ++ frontActs 8 ++ held 4 ++ frontActs 1

theorem no_task_stranded_addAfterResizes :
    ∃ state : Global Memory Agent,
      (system .unbounded (1, 1)).run (system .unbounded (1, 1)).init addAfterResizes =
        some state ∧
      countRoles Role.calls state.shared state.agents = 0 ∧ state.shared.maxThreads = 1 ∧
      state.shared.tasks.queued = [0] ∧ ¬Stranded state.shared state.agents := by
  have runs : ((system .unbounded (1, 1)).run (system .unbounded (1, 1)).init
      addAfterResizes).map (fun state => (countRoles Role.calls state.shared state.agents,
        state.shared.maxThreads, state.shared.tasks.queued)) = some (0, 1, [0]) := by
    decide
  obtain ⟨state, replayed, values⟩ := Option.map_eq_some_iff.mp runs
  simp only [Prod.mk.injEq] at values
  obtain ⟨returned, allowed, queued⟩ := values
  have reached : Reachable (system .unbounded (1, 1)) looksInTime state :=
    Reachable.init.replay (by decide) replayed
  exact ⟨state, replayed, returned, allowed, queued,
    no_task_stranded .unbounded rfl (1, 1) state reached⟩

/-- An add decides that it needs no thread, and writes its task when
`setNumThreads(0)` has stopped the worker and `setNumThreads(1)` has found no
task to start one for. -/
private def writeAfterResizes : List (Label CountingSemaphore.Ending Move) :=
  frontActs 1 ++ held 7 ++ frontActs 2 ++ [Label.env (Move.invoke (.add 0))] ++ frontActs 3 ++
    [Label.env (Move.invoke (.setNumThreads 0))] ++ frontActs 1 ++ held 10 ++
    [Label.act 2 .handoff] ++ frontActs 2 ++ held 2 ++ frontActs 2 ++
    [Label.env (Move.invoke (.setNumThreads 1))] ++ frontActs 1 ++ held 4 ++ frontActs 3

/-- A task is stranded, though only adds and resizes were called. -/
theorem exists_stranded :
    ∃ state : Global Memory Agent,
      Reachable (system .unbounded (1, 1)) addsAndResizes state ∧
      Stranded state.shared state.agents := by
  have runs : ((system .unbounded (1, 1)).run (system .unbounded (1, 1)).init
      writeAfterResizes).map (fun state => (countRoles Role.calls state.shared state.agents,
        state.shared.maxThreads, state.shared.tasks.queued, state.shared.threadList,
        state.shared.threadsToStop)) = some (0, 1, [0], [], 0) := by
    decide
  obtain ⟨state, replayed, values⟩ := Option.map_eq_some_iff.mp runs
  simp only [Prod.mk.injEq] at values
  obtain ⟨returned, allowed, queued, threads, toStop⟩ := values
  refine ⟨state, Reachable.init.replay (by decide) replayed, ?_⟩
  constructor
  case returned => exact returned
  case allowed => rw [allowed]; exact Nat.one_pos
  case waits => simp [queued]
  case stops => rw [threads, toStop]; rfl

end ThreadPoolExec.CPUThreadPoolExecutor
