import ThreadPoolExec.Pool.Frames

/-!
# Thread accounting

What the counters of the pool have to do with its two lists of threads. The
holder of the lock changes them one by one, so each place of a critical
section has its own count of the active threads, of the threads on their way
to `stoppedThreads_`, and of the threads still to be joined.
-/

set_option autoImplicit false

namespace ThreadPoolExec.CPUThreadPoolExecutor

open Interleaving

/-- The active threads as they are once the holder has stored them. -/
def Holder.counted (active : Nat) : Holder → Nat
  | .pendingAfterTimeout _ _ _ | .stopThread _ _ => active + 1
  | .removeThreads (.shutdown _) n | .stopThreads (.shutdown _) n => active + n
  | .enqueuePoison (.setNumThreads numThreads _) _ _
  | .postPoison (.setNumThreads numThreads _) _ _ => numThreads
  | .addThreads _ newThreads active _ => active + newThreads.length
  | .storeActive active _ => active
  | _ => active

/-- A thread that is no longer to be stopped and not yet stopped. -/
def Holder.leaving : Holder → Nat
  | .stopThread _ _ => 1
  | _ => 0

/-- The takes that the holder will owe after the lock. -/
def Holder.owed : Holder → Nat
  | .enqueuePoison _ n _ | .postPoison _ n _ | .collectToJoin _ n => n
  | .addThreads _ _ _ next | .storeActive _ next => next.owed
  | _ => 0

/-- Unless a call threw, there are at most as many active threads as allowed. -/
def Within (maxThreads activeThreads forgone : Nat) : Prop :=
  forgone = 0 → activeThreads ≤ maxThreads

/-- What the holder of the lock knows. -/
def Holder.Ok (maxThreads activeThreads forgone : Nat) : Holder → Prop
  | .decrActive _ => 0 < activeThreads ∧ Within maxThreads activeThreads forgone
  | .pendingAfterTimeout _ _ _ => Within maxThreads (activeThreads + 1) forgone
  | .resize numThreads _ _ => maxThreads = numThreads
  | .removeThreads (.setNumThreads numThreads _) n
  | .stopThreads (.setNumThreads numThreads _) n
  | .enqueuePoison (.setNumThreads numThreads _) n _
  | .postPoison (.setNumThreads numThreads _) n _ =>
      maxThreads = numThreads ∧ activeThreads = numThreads + n
  | .addThreads left newThreads active _ =>
      active = activeThreads ∧ active + newThreads.length + left ≤ maxThreads
  | .storeActive active _ => active ≤ maxThreads
  | .stopActive _ => True
  | _ => Within maxThreads activeThreads forgone

namespace Ledger

variable (ledger : Ledger)

def counted : Nat :=
  ledger.threadListLock.elim ledger.activeThreads (Holder.counted ledger.activeThreads)

def leaving : Nat :=
  ledger.threadListLock.elim 0 Holder.leaving

def owed : Nat :=
  ledger.threadListLock.elim 0 Holder.owed

def Settled : Prop :=
  match ledger.threadListLock with
  | none => Within ledger.maxThreads ledger.activeThreads ledger.forgone
  | some holder =>
      holder.Ok ledger.maxThreads ledger.activeThreads ledger.forgone

end Ledger

/-- The counters account for every thread, and for every take that calls owe. -/
structure Accounted (ledger : Ledger) (owed : Nat) : Prop where
  counted : ledger.counted + ledger.threadsToStop = ledger.threadList.length + ledger.overhang
  joins : ledger.stoppedThreads.length + ledger.threadsToStop + ledger.leaving =
    ledger.threadsToJoin + (ledger.owed + owed) + ledger.forgone
  settled : ledger.Settled

/-! ## The accounts are kept -/

section Keep

variable {queue : TaskQueue} {choice : CountingSemaphore.Ending} {wake : Bool}
  {memory after : Memory} {left rest : List Agent} {agent : Agent} {holder : Holder} {owed : Nat}

theorem add_numToAdd_le {numThreads active minthreads : Nat} (room : active ≤ numThreads)
    (reduced : minthreads ≤ numThreads) (pending : Nat) (observed : Bool) :
    active + numToAdd numThreads active minthreads pending observed ≤ numThreads := by
  simp only [numToAdd]
  split_ifs <;> omega

theorem Accounted.free (accounted : Accounted memory.ledger owed)
    (free : memory.threadListLock = none) :
    memory.activeThreads + memory.threadsToStop =
        memory.threadList.length + memory.history.overhang ∧
      memory.stoppedThreads.length + memory.threadsToStop =
        memory.threadsToJoin + owed + memory.history.forgone ∧
      Within memory.maxThreads memory.activeThreads memory.history.forgone := by
  obtain ⟨counted, joins, settled⟩ := accounted
  simp only [Ledger.counted, Ledger.leaving, Ledger.owed, Ledger.Settled, Memory.ledger, free,
    Option.elim_none, Nat.add_zero, Nat.zero_add] at counted joins settled
  exact ⟨counted, joins, settled⟩

theorem Accounted.held (accounted : Accounted memory.ledger owed)
    (locked : memory.threadListLock = some holder) :
    holder.counted memory.activeThreads + memory.threadsToStop =
        memory.threadList.length + memory.history.overhang ∧
      memory.stoppedThreads.length + memory.threadsToStop + holder.leaving =
        memory.threadsToJoin + (holder.owed + owed) + memory.history.forgone ∧
      holder.Ok memory.maxThreads memory.activeThreads memory.history.forgone := by
  obtain ⟨counted, joins, settled⟩ := accounted
  simp only [Ledger.counted, Ledger.leaving, Ledger.owed, Ledger.Settled, Memory.ledger, locked,
    Option.elim_some] at counted joins settled
  exact ⟨counted, joins, settled⟩

private theorem accounted_of_free (free : memory.threadListLock = none)
    (counted : memory.activeThreads + memory.threadsToStop =
      memory.threadList.length + memory.history.overhang)
    (joins : memory.stoppedThreads.length + memory.threadsToStop =
      memory.threadsToJoin + owed + memory.history.forgone)
    (within : Within memory.maxThreads memory.activeThreads memory.history.forgone) :
    Accounted memory.ledger owed := by
  refine ⟨?_, ?_, ?_⟩ <;>
    simpa only [Ledger.counted, Ledger.leaving, Ledger.owed, Ledger.Settled, Memory.ledger, free,
      Option.elim_none, Nat.add_zero, Nat.zero_add]

private theorem accounted_of_held (locked : memory.threadListLock = some holder)
    (counted : holder.counted memory.activeThreads + memory.threadsToStop =
      memory.threadList.length + memory.history.overhang)
    (joins : memory.stoppedThreads.length + memory.threadsToStop + holder.leaving =
      memory.threadsToJoin + (owed + holder.owed) + memory.history.forgone)
    (ok : holder.Ok memory.maxThreads memory.activeThreads memory.history.forgone) :
    Accounted memory.ledger owed := by
  rw [Nat.add_comm owed] at joins
  refine ⟨?_, ?_, ?_⟩ <;>
    simpa only [Ledger.counted, Ledger.leaving, Ledger.owed, Ledger.Settled, Memory.ledger, locked,
      Option.elim_some]

/-- Whoever takes the lock starts with the counters as they are. -/
private theorem wants_entry (wants : agent.wants = some holder) (memory : Memory)
    (within : Within memory.maxThreads memory.activeThreads memory.history.forgone) :
    holder.counted memory.activeThreads = memory.activeThreads ∧
      holder.leaving = 0 ∧ holder.owed = 0 ∧
      holder.Ok memory.maxThreads memory.activeThreads memory.history.forgone := by
  unfold Agent.wants at wants
  split at wants <;> cases wants <;> exact ⟨rfl, rfl, rfl, within⟩

/-- The step of a worker that gives up the lock. -/
private theorem accounted_loopHead {thread : Nat}
    (accounted : Accounted memory.ledger (total Agent.owed rest)) :
    Accounted memory.ledger (total Agent.owed ([loopHead queue thread] ++ rest)) := by
  simpa only [loopHead, List.singleton_append, total_cons, Agent.owed, Nat.zero_add]

/-- A call resumes without the lock and owes what the holder owed. -/
private theorem accounted_resumes {call : Call} (free : memory.threadListLock = none)
    (counted : memory.activeThreads + memory.threadsToStop =
      memory.threadList.length + memory.history.overhang)
    (joins : memory.stoppedThreads.length + memory.threadsToStop =
      memory.threadsToJoin + (total Agent.owed rest + call.owed) + memory.history.forgone)
    (within : Within memory.maxThreads memory.activeThreads memory.history.forgone) :
    Accounted memory.ledger (total Agent.owed ([.call call] ++ rest)) := by
  rw [List.singleton_append, total_cons, Nat.add_comm]
  exact accounted_of_free free counted joins within

/-! What the holder of the lock has counted decides what it leaves. -/

section Step

variable (counted : holder.counted memory.activeThreads + memory.threadsToStop =
    memory.threadList.length + memory.history.overhang)
  (joins : memory.stoppedThreads.length + memory.threadsToStop + holder.leaving =
    memory.threadsToJoin + (total Agent.owed rest + holder.owed) + memory.history.forgone)
  (ok : holder.Ok memory.maxThreads memory.activeThreads memory.history.forgone)

include counted joins ok

private theorem accounted_worker {thread : Nat}
    (step : holder.WorkerStep queue memory thread after left) :
    Accounted after.ledger (total Agent.owed (left ++ rest)) := by
  cases step with
  | obeys task asked =>
      simp only [Holder.counted, Holder.leaving, Holder.owed] at counted joins
      refine accounted_of_held rfl ?_ ?_ ok <;>
        simp only [Holder.counted, Holder.leaving, Holder.owed, List.nil_append] <;> omega
  | notAsked poison zero => exact accounted_loopHead (accounted_of_free rfl counted joins ok)
  | maybeIdle zero => exact accounted_of_held rfl counted joins ok
  | aboveMin above => exact accounted_of_held rfl counted joins ⟨Nat.zero_lt_of_lt above, ok⟩
  | atMin below => exact accounted_loopHead (accounted_of_free rfl counted joins ok)
  | decrements =>
      obtain ⟨above, within⟩ := ok
      have restored : memory.activeThreads - 1 + 1 = memory.activeThreads := by omega
      refine accounted_of_held rfl ?_ joins ?_
      · simpa only [Holder.counted, restored]
      · simpa only [Holder.Ok, restored]
  | addsPending index pending inside => exact accounted_of_held rfl counted joins ok
  | stillPending index pending outside positive =>
      exact accounted_loopHead (accounted_of_free rfl counted joins ok)
  | nonePending index outside =>
      refine accounted_of_held rfl counted ?_ fun none => Nat.le_of_succ_le (ok none)
      simp only [Holder.leaving, Holder.owed, List.nil_append] at joins ⊢
      omega
  | stops observed threadList removed =>
      have shorter := ThreadList.length_of_remove removed
      simp only [Holder.counted, Holder.leaving, Holder.owed] at counted joins
      refine accounted_of_free rfl ?_ ?_ ok
      · simp only
        omega
      · simp only [List.length_append, List.length_singleton, List.nil_append]
        omega
  | obeysAfterTask asked =>
      simp only [Holder.counted, Holder.leaving, Holder.owed] at counted joins
      refine accounted_of_held rfl ?_ ?_ ok <;>
        simp only [Holder.counted, Holder.leaving, Holder.owed, List.nil_append] <;> omega
  | notAskedAfterTask zero => exact accounted_loopHead (accounted_of_free rfl counted joins ok)

private theorem accounted_removal {removal : Removal} {n : Nat}
    (step : holder.RemovalStep queue wake memory removal n after left) :
    Accounted after.ledger (total Agent.owed (left ++ rest)) := by
  cases step with
  | storesIsJoin => cases removal <;> exact accounted_of_held rfl counted joins ok
  | raisesToStop =>
      simp only [Holder.leaving, Holder.owed] at joins
      cases removal with
      | setNumThreads numThreads resizer =>
          have split := ok.2
          simp only [Holder.counted] at counted
          refine accounted_of_held rfl ?_ ?_ ok <;>
            simp only [Holder.counted, Holder.leaving, Holder.owed, List.nil_append] <;> omega
      | shutdown isJoin =>
          simp only [Holder.counted] at counted
          refine accounted_of_held rfl ?_ ?_ ok <;>
            simp only [Holder.counted, Holder.leaving, Holder.owed, List.nil_append] <;> omega
  | enqueues left tasks written =>
      cases removal <;> exact accounted_of_held rfl counted joins ok
  | queueFull left full =>
      simp only [Holder.leaving, Holder.owed] at joins
      have thrown : memory.stoppedThreads.length + memory.threadsToStop =
          memory.threadsToJoin + total Agent.owed ([.call .queueFull] ++ rest) +
            (memory.history.forgone + n) := by
        simp only [List.singleton_append, total_cons, Agent.owed, Call.owed]
        omega
      cases removal with
      | setNumThreads numThreads resizer =>
          obtain ⟨allowed, stopped⟩ := ok
          simp only [Holder.counted] at counted
          refine accounted_of_free rfl ?_ thrown fun none => ?_
          · simp only
            omega
          · simp only at none ⊢
            omega
      | shutdown isJoin =>
          refine accounted_of_free rfl counted thrown fun none => ok ?_
          exact (Nat.add_eq_zero_iff.mp none).1
  | posts left => cases removal <;> exact accounted_of_held rfl counted joins ok

private theorem accounted_call (step : holder.CallStep queue memory after left) :
    Accounted after.ledger (total Agent.owed (left ++ rest)) := by
  cases step with
  | addsPending numThreads resizer index pending inside =>
      exact accounted_of_held rfl counted joins ok
  | hasPending numThreads resizer index pending outside =>
      exact accounted_of_held rfl counted joins ok
  | storesMax numThreads resizer pending => exact accounted_of_held rfl counted joins rfl
  | shrinks numThreads resizer pending above =>
      exact accounted_of_held rfl counted joins ⟨ok, (Nat.add_sub_of_le (Nat.le_of_lt above)).symm⟩
  | grows numThreads resizer pending below needed =>
      have fits := add_numToAdd_le below (Nat.min_le_right memory.minThreads numThreads) pending
        (!memory.observers.isEmpty)
      exact accounted_of_held rfl counted joins ⟨rfl, Nat.le_trans fits (Nat.le_of_eq ok.symm)⟩
  | keepsSize numThreads resizer below unobserved enough =>
      exact accounted_resumes rfl counted joins fun _ => Nat.le_trans below (Nat.le_of_eq ok.symm)
  | poisonedResize numThreads resizer n =>
      exact accounted_of_held rfl counted joins (Nat.le_of_eq ok.1.symm)
  | poisonedShutdown isJoin n => exact accounted_of_held rfl counted joins ok
  | startsThread left newThreads active next =>
      obtain ⟨activeIs, room⟩ := ok
      simp only [Holder.counted, Holder.leaving, Holder.owed] at counted joins
      refine accounted_loopHead (accounted_of_held rfl ?_ joins ⟨activeIs, ?_⟩)
      · simp only [Holder.counted, ThreadList.length_add, List.length_append, List.length_singleton]
        omega
      · simp only [List.length_append, List.length_singleton]
        omega
  | startedAll newThreads active next => exact accounted_of_held rfl counted joins ok.2
  | storesActive active next => exact accounted_resumes rfl counted joins fun _ => ok
  | clearsMax isJoin => exact accounted_of_held rfl counted joins trivial
  | clearsActive isJoin =>
      refine accounted_of_held rfl ?_ joins fun _ => Nat.zero_le _
      simp only [Holder.counted]
      omega
  | collectsToJoin isJoin n =>
      refine accounted_resumes rfl counted ?_ ok
      simp only [Holder.leaving, Holder.owed, Call.owed] at joins ⊢
      omega
  | collectsJoined ensurer =>
      refine accounted_resumes rfl counted ?_ ok
      simp only [Holder.leaving, Holder.owed, Call.owed] at joins ⊢
      omega
  | enoughActive ensurer above =>
      refine accounted_resumes rfl counted ?_ ok
      rw [ensurer.next_owed]
      exact joins
  | tooFewActive ensurer below =>
      refine accounted_of_held rfl counted ?_ ⟨rfl, below⟩
      rw [Holder.owed, ensurer.next_owed]
      exact joins
  | addsObserver observer => exact accounted_resumes rfl counted joins ok
  | removesObserver observer => exact accounted_of_free rfl counted joins ok

end Step

private theorem accounted_hold (locked : memory.threadListLock = some holder)
    (stepped : holder.next queue wake memory = some (after, left))
    (accounted : Accounted memory.ledger (total Agent.owed rest)) :
    Accounted after.ledger (total Agent.owed (left ++ rest)) := by
  obtain ⟨counted, joins, ok⟩ := accounted.held locked
  rw [Nat.add_comm holder.owed] at joins
  cases hold_step stepped with
  | worker thread holder after left step => exact accounted_worker counted joins ok step
  | removal removal n holder after left step => exact accounted_removal counted joins ok step
  | call holder after left step => exact accounted_call counted joins ok step

private theorem follows_owed (follows : Follows agent left) :
    total Agent.owed left = agent.owed := by
  cases follows with
  | worker thread before after => rfl
  | call before after role owed => simp [Agent.owed, owed]
  | returns before owed => simp [Agent.owed, owed]

private theorem accounted_act (acted : act queue choice memory agent = some (after, left))
    (accounted : Accounted memory.ledger (total Agent.owed (agent :: rest))) :
    Accounted after.ledger (total Agent.owed (left ++ rest)) := by
  rcases act_cases acted with ⟨holder, wants, free, rfl, rfl⟩ | ⟨call, rfl, records⟩ |
    ⟨same, follows⟩
  · obtain ⟨counted, joins, within⟩ := accounted.free free
    obtain ⟨counts, leaving, owes, ok⟩ := wants_entry wants memory within
    rw [total_cons, (wants_role wants).2.2, Nat.zero_add] at joins
    refine accounted_of_held rfl ?_ ?_ ok
    · rw [counts]
      exact counted
    · rw [leaving, owes]
      simpa only [Nat.zero_add, List.nil_append]
  · cases records with
    | take n joiner thread stopped stoppedIs =>
        refine ⟨accounted.counted, ?_, accounted.settled⟩
        have joins := accounted.joins
        simp only [Ledger.leaving, Ledger.owed, Memory.ledger, stoppedIs, List.length_cons,
          List.singleton_append, total_cons, Agent.owed, Call.owed] at joins ⊢
        omega
    | construct second =>
        refine ⟨accounted.counted, ?_, accounted.settled⟩
        have joins := accounted.joins
        simp only [total_cons, Agent.owed, Call.owed, Nat.zero_add] at joins
        exact joins
  · rw [same, total_append, follows_owed follows, ← total_cons]
    exact accounted

/-- A call is made: it owes nothing yet, and the counters stay. -/
theorem invoke_ledger (memory : Memory) (operation : Operation) :
    total Agent.owed (memory.invoke operation).2 = 0 ∧
      (memory.invoke operation).1.ledger =
        { memory.ledger with
          shutdownCalled := (memory.invoke operation).1.history.shutdownCalled } := by
  cases operation <;> exact ⟨rfl, rfl⟩

theorem env_hold (moved : env queue memory (.hold wake) = some (after, left)) :
    ∃ holder, memory.threadListLock = some holder ∧
      holder.next queue wake memory = some (after, left) := by
  simp only [env] at moved
  split at moved
  · cases moved
  · exact ⟨_, ‹_›, moved⟩

theorem env_cases {move : Move} (moved : env queue memory move = some (after, left)) :
    (∃ operation, move = .invoke operation ∧ memory.constructed = true ∧
      memory.invoke operation = (after, left)) ∨
    ∃ wake holder, move = .hold wake ∧ memory.threadListLock = some holder ∧
      holder.next queue wake memory = some (after, left) := by
  cases move with
  | invoke operation =>
      simp only [env] at moved
      split at moved
      · next constructed => exact .inl ⟨operation, rfl, constructed, Option.some.inj moved⟩
      · cases moved
  | hold wake =>
      obtain ⟨holder, locked, stepped⟩ := env_hold moved
      exact .inr ⟨wake, holder, rfl, locked, stepped⟩

theorem reachable_accounted {numThreads : Nat × Nat}
    {allowed : Global Memory Agent → Label CountingSemaphore.Ending Move → Prop}
    {state : Global Memory Agent}
    (reached : Reachable (system queue numThreads) allowed state) :
    Accounted state.shared.ledger (total Agent.owed state.agents) := by
  refine Reaches.invariant (fun memory agents => Accounted memory.ledger (total Agent.owed agents))
    ?_ ?_ (fun _ _ _ acted accounted => accounted_act acted accounted) ?_ reached
  · intro memory agents others same accounted
    rw [← total_perm same]
    exact accounted
  · exact ⟨rfl, rfl, fun _ => Nat.le_refl _⟩
  · intro before move after left _ _ moved accounted
    rcases env_cases moved with ⟨operation, -, -, invoked⟩ | ⟨wake, holder, -, locked, stepped⟩
    · obtain ⟨owed, same⟩ := invoke_ledger before.shared operation
      rw [invoked] at owed same
      simp only at owed same
      rw [same, total_append, owed, Nat.zero_add]
      exact ⟨accounted.counted, accounted.joins, accounted.settled⟩
    · exact accounted_hold locked stepped accounted

end Keep

/-! ## Runs without stop and join -/

/-- The call that a move makes. -/
def invoked : Label CountingSemaphore.Ending Move → Option Operation
  | .env (.invoke operation) => some operation
  | _ => none

/-- `stop` or `join` is about to take the lock. -/
def Agent.startsShutdown : Agent → Bool
  | .call (.shutdown _) => true
  | _ => false

/-- The agent that a move is a step of. -/
def moving (state : Global Memory Agent) : Label CountingSemaphore.Ending Move → Option Agent
  | .act index _ => state.agents[index]?
  | .env _ => none

/-- The holder of the lock that a move is a step of. -/
def holding (label : Label CountingSemaphore.Ending Move) : Bool :=
  match label with
  | .env (.hold _) => true
  | _ => false

/-- The holder of the lock goes on, its posts waking sleepers. -/
def held (count : Nat) : List (Label CountingSemaphore.Ending Move) :=
  List.replicate count (.env (.hold true))

/-- The first agent goes on. -/
def frontActs (count : Nat) : List (Label CountingSemaphore.Ending Move) :=
  List.replicate count (.act 0 .handoff)

/-- Neither `stop` nor `join` is called. -/
def noShutdown (_ : Global Memory Agent) (label : Label CountingSemaphore.Ending Move) : Prop :=
  ∀ isJoin, invoked label ≠ some (.shutdown isJoin)

instance (state : Global Memory Agent) (label : Label CountingSemaphore.Ending Move) :
    Decidable (noShutdown state label) :=
  inferInstanceAs (Decidable (∀ isJoin, invoked label ≠ some (.shutdown isJoin)))

/-- The weight of `stop` and `join`. -/
def Role.shutsDown : Role → Nat
  | .shutdown => 1
  | _ => 0

theorem enqueue_isSome_of_unbounded {queue : TaskQueue} (unbounded : queue.bounded = false)
    (tasks : Tasks) (level : Nat) (task : CPUTask) :
    tasks.enqueue queue level task =
      some { tasks with levels := Levels.push tasks.levels level task } := by
  cases queue with
  | unbounded => rfl
  | priorityUnbounded numPriorities positive => rfl
  | lifoSem capacity => cases unbounded
  | priorityLifoSem capacities positive small => cases unbounded

section Quiet

variable {queue : TaskQueue} {choice : CountingSemaphore.Ending} {wake : Bool}
  {memory after : Memory} {left : List Agent} {agent : Agent} {holder : Holder}

/-- Only `stop` and `join` ask for stops without an active thread to go, and
only an exception leaves stops without a caller to join them. -/
theorem hold_history (unbounded : queue.bounded = false)
    (stepped : holder.next queue wake memory = some (after, left)) :
    after.history.forgone = memory.history.forgone ∧
      (after.history.overhang = memory.history.overhang ∨
        ∃ isJoin, holder = .stopActive isJoin ∧
          after.history.overhang = memory.threadsToStop) := by
  cases hold_step stepped with
  | worker thread holder after left step => cases step <;> exact ⟨rfl, .inl rfl⟩
  | removal removal n holder after left step =>
      cases step with
      | queueFull left full => simp [enqueue_isSome_of_unbounded unbounded] at full
      | _ => exact ⟨rfl, .inl rfl⟩
  | call holder after left step =>
      cases step with
      | clearsActive isJoin => exact ⟨rfl, .inr ⟨isJoin, rfl, rfl⟩⟩
      | _ => exact ⟨rfl, .inl rfl⟩

theorem act_history (acted : act queue choice memory agent = some (after, left)) :
    after.history.forgone = memory.history.forgone ∧
      after.history.overhang = memory.history.overhang := by
  rcases act_cases acted with ⟨holder, -, -, -, rfl⟩ | ⟨call, -, records⟩ | ⟨same, -⟩
  · exact ⟨rfl, rfl⟩
  · cases records <;> exact ⟨rfl, rfl⟩
  · exact ⟨congrArg Ledger.forgone same, congrArg Ledger.overhang same⟩

theorem invoke_history (memory : Memory) (operation : Operation) :
    (memory.invoke operation).1.history.forgone = memory.history.forgone ∧
      (memory.invoke operation).1.history.overhang = memory.history.overhang := by
  cases operation <;> exact ⟨rfl, rfl⟩

theorem reachable_forgone {numThreads : Nat × Nat}
    {allowed : Global Memory Agent → Label CountingSemaphore.Ending Move → Prop}
    {state : Global Memory Agent} (unbounded : queue.bounded = false)
    (reached : Reachable (system queue numThreads) allowed state) :
    state.shared.history.forgone = 0 := by
  refine Reaches.invariant (fun memory _ => memory.history.forgone = 0) ?_ rfl ?_ ?_ reached
  · intro memory agents others _ none
    exact none
  · intro before index choice agent after left _ _ _ acted none
    exact (act_history acted).1.trans none
  · intro before move after left _ _ moved none
    rcases env_cases moved with ⟨operation, -, -, invoked⟩ | ⟨wake, holder, -, -, stepped⟩
    · have same := (invoke_history before.shared operation).1
      rw [invoked] at same
      exact same.trans none
    · exact (hold_history unbounded stepped).1.trans none

/-- `stop` and `join` have no part in the run so far. -/
structure Quiet (memory : Memory) (agents : List Agent) : Prop where
  roles : countRoles Role.shutsDown memory agents = 0
  overhang : memory.history.overhang = 0

theorem reachable_quiet {numThreads : Nat × Nat} {state : Global Memory Agent}
    (unbounded : queue.bounded = false)
    (reached : Reachable (system queue numThreads) noShutdown state) :
    Quiet state.shared state.agents := by
  refine Reaches.invariant Quiet ?_ ⟨rfl, rfl⟩ ?_ ?_ reached
  · intro memory agents others same quiet
    refine ⟨?_, quiet.overhang⟩
    rw [countRoles, ← total_perm same]
    exact quiet.roles
  · intro before index choice agent after left _ _ _ acted quiet
    have roles : countRoles Role.shutsDown after (left ++ before.agents.eraseIdx index) ≤
        countRoles Role.shutsDown before.shared (agent :: before.agents.eraseIdx index) :=
      countRoles_act rfl acted
    rw [quiet.roles] at roles
    exact ⟨Nat.le_zero.mp roles, (act_history acted).2.trans quiet.overhang⟩
  · intro before move after left _ allowed moved quiet
    rcases env_cases moved with ⟨operation, rfl, -, invoked⟩ | ⟨wake, holder, -, locked, stepped⟩
    · have roles : countRoles Role.shutsDown _ (_ ++ before.agents) = _ :=
        countRoles_invoke before.shared operation before.agents
      have overhang := (invoke_history before.shared operation).2
      have calm : Role.shutsDown operation.role = 0 := by
        cases operation with
        | shutdown isJoin => exact absurd rfl (allowed isJoin)
        | _ => rfl
      rw [quiet.roles, calm, invoked] at roles
      rw [invoked] at overhang
      exact ⟨roles, overhang.trans quiet.overhang⟩
    · have roles : countRoles Role.shutsDown after (left ++ before.agents) ≤
          countRoles Role.shutsDown before.shared before.agents :=
        countRoles_hold rfl rfl locked stepped
      rw [quiet.roles] at roles
      refine ⟨Nat.le_zero.mp roles, ?_⟩
      rcases (hold_history unbounded stepped).2 with same | ⟨isJoin, rfl, -⟩
      · exact same.trans quiet.overhang
      · have none := quiet.roles
        rw [countRoles, Memory.holding, locked, Option.elim_some] at none
        simp only [Holder.role, Role.shutsDown] at none
        omega

end Quiet

/-- The accounts as they are whenever the lock is free. -/
structure ThreadsAccounted (memory : Memory) (agents : List Agent) : Prop where
  threads : memory.activeThreads + memory.threadsToStop = memory.threadList.length
  allowed : memory.activeThreads ≤ memory.maxThreads
  stopped : memory.stoppedThreads.length + memory.threadsToStop =
    memory.threadsToJoin + total Agent.owed agents

/-- Nothing underflows in `setNumThreads` and `tryTimeoutThread`, and the
assertion in the former holds. -/
structure NoUnderflow (memory : Memory) : Prop where
  numThreadsToJoin : ∀ numThreads resizer pending,
    memory.threadListLock = some (.resize numThreads resizer pending) →
    numThreads < memory.activeThreads →
      min memory.minThreads numThreads ≤ memory.activeThreads ∧
        memory.activeThreads - numThreads ≤
          memory.activeThreads - min memory.minThreads numThreads
  numToAdd : ∀ numThreads resizer pending,
    memory.threadListLock = some (.resize numThreads resizer pending) →
    ¬numThreads < memory.activeThreads →
      memory.activeThreads ≤ numThreads ∧
        ∀ added, memory.activeThreads + added < min memory.minThreads numThreads →
          memory.activeThreads ≤ min memory.minThreads numThreads
  activeThreads : ∀ thread, memory.threadListLock = some (.decrActive thread) →
    1 ≤ memory.activeThreads

/-- Without `stop` and `join` every thread is active or to be stopped, and
every stopped one is counted once as to be joined. -/
theorem threads_accounted (queue : TaskQueue) (unbounded : queue.bounded = false)
    (numThreads : Nat × Nat) (state : Global Memory Agent)
    (reached : Reachable (system queue numThreads) noShutdown state) :
    (state.shared.threadListLock = none → ThreadsAccounted state.shared state.agents) ∧
      NoUnderflow state.shared := by
  have accounted := reachable_accounted reached
  have quiet := reachable_quiet unbounded reached
  refine ⟨fun free => ?_, ?_, ?_, ?_⟩
  · obtain ⟨counted, joins, within⟩ := accounted.free free
    have forgone := reachable_forgone unbounded reached
    rw [quiet.overhang] at counted
    rw [forgone] at joins
    exact ⟨counted, within forgone, joins⟩
  · intro numThreads resizer pending locked above
    omega
  · intro numThreads resizer pending locked below
    exact ⟨Nat.le_of_not_lt below, fun added more => by omega⟩
  · intro thread locked
    exact (accounted.held locked).2.2.1

/-- The one worker of a pool is asked to stop and has not gone yet. -/
private def shrinkToNone : List (Label CountingSemaphore.Ending Move) :=
  frontActs 1 ++ held 7 ++ frontActs 2 ++ [Label.env (Move.invoke (.setNumThreads 0))] ++
    frontActs 1 ++ held 10

theorem threads_accounted_shrinkToNone :
    ∃ state : Global Memory Agent,
      (system .unbounded (1, 1)).run (system .unbounded (1, 1)).init shrinkToNone = some state ∧
      state.shared.threadsToStop = 1 ∧ ThreadsAccounted state.shared state.agents := by
  have runs : ((system .unbounded (1, 1)).run (system .unbounded (1, 1)).init
      shrinkToNone).isSome := by decide
  have stops : ((system .unbounded (1, 1)).run (system .unbounded (1, 1)).init
      shrinkToNone).map (fun state => (state.shared.threadListLock, state.shared.threadsToStop)) =
      some (none, 1) := by decide
  obtain ⟨state, replayed⟩ := Option.isSome_iff_exists.mp runs
  rw [replayed, Option.map_some, Option.some.injEq, Prod.mk.injEq] at stops
  have reached : Reachable (system .unbounded (1, 1)) noShutdown state :=
    Reachable.init.replay (by decide) replayed
  exact ⟨state, replayed, stops.2, (threads_accounted .unbounded rfl (1, 1) state reached).1 stops.1⟩

end ThreadPoolExec.CPUThreadPoolExecutor
