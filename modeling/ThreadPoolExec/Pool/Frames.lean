import ThreadPoolExec.Pool.Steps

/-!
# What the steps of the pool leave alone

A step outside the lock changes neither the counters nor the lists of threads,
except that joined threads leave `stoppedThreads_` and that the constructor
ends. A call keeps its role in all its steps, with the lock and without.
-/

set_option autoImplicit false

namespace ThreadPoolExec.CPUThreadPoolExecutor

open Interleaving

namespace ThreadList

variable {vec rest : List Nat} {thread : Nat}

theorem perm_add (vec : List Nat) (thread : Nat) : (add vec thread).Perm (thread :: vec) := by
  have split : vec.takeWhile (· < thread) ++ vec.dropWhile (· < thread) = vec :=
    List.takeWhile_append_dropWhile
  refine List.perm_middle.trans ?_
  rw [split]

theorem perm_of_remove (removed : remove vec thread = some rest) :
    vec.Perm (thread :: rest) := by
  have split : vec.takeWhile (· < thread) ++ vec.dropWhile (· < thread) = vec :=
    List.takeWhile_append_dropWhile
  unfold remove at removed
  cases behind : vec.dropWhile (· < thread) with
  | nil => simp [behind] at removed
  | cons found others =>
      simp only [behind] at removed
      split at removed
      · next alone =>
          cases removed
          rw [behind, alone.1] at split
          exact (List.Perm.of_eq split.symm).trans List.perm_middle
      · cases removed

theorem length_add (vec : List Nat) (thread : Nat) : (add vec thread).length = vec.length + 1 :=
  (perm_add vec thread).length_eq

theorem length_of_remove (removed : remove vec thread = some rest) :
    vec.length = rest.length + 1 :=
  (perm_of_remove removed).length_eq

end ThreadList

/-- What only the holder of the lock changes, but for `stoppedThreads_` and the
end of the constructor. -/
structure Ledger where
  maxThreads : Nat
  minThreads : Nat
  activeThreads : Nat
  threadsToJoin : Nat
  threadsToStop : Nat
  isJoin : Bool
  threadList : List Nat
  stoppedThreads : List Nat
  nextId : Nat
  observers : List Nat
  threadListLock : Option Holder
  constructed : Bool
  shutdownCalled : Bool
  atLock : Sizing
  overhang : Nat
  forgone : Nat

def Memory.ledger (memory : Memory) : Ledger :=
  ⟨memory.maxThreads, memory.minThreads, memory.activeThreads, memory.threadsToJoin,
    memory.threadsToStop, memory.isJoin, memory.threadList, memory.stoppedThreads,
    memory.nextId, memory.observers, memory.threadListLock, memory.constructed,
    memory.history.shutdownCalled, memory.history.atLock, memory.history.overhang,
    memory.history.forgone⟩

def Ledger.sizing (ledger : Ledger) : Sizing :=
  ⟨ledger.maxThreads, ledger.minThreads, ledger.activeThreads, ledger.threadsToStop,
    ledger.isJoin⟩

/-- What the holder of the lock leaves to the others. -/
structure Outside where
  keepAliveCount : Nat
  keepAliveJoined : Bool
  constructed : Bool
  nextTask : Nat
  returned : List Nat
  ran : List Nat
  shutdownCalled : Bool
  awaited : List Nat
  poisonTaken : Bool
  atLock : Sizing

def Memory.outside (memory : Memory) : Outside :=
  ⟨memory.keepAliveCount, memory.keepAliveJoined, memory.constructed, memory.history.nextTask,
    memory.history.returned, memory.history.ran, memory.history.shutdownCalled,
    memory.history.awaited, memory.history.poisonTaken, memory.history.atLock⟩

/-! ## Agents and their roles -/

inductive Role where
  | worker
  | add
  | observer
  | resize
  | construct
  | shutdown
  | failed
deriving DecidableEq, Repr

def Ensurer.role : Ensurer → Role
  | .add _ => .add
  | .observer => .observer

def Resizer.role : Resizer → Role
  | .client => .resize
  | .constructor _ => .construct

def Joiner.role : Joiner → Role
  | .ensureJoined ensurer => ensurer.role
  | .setNumThreads resizer => resizer.role
  | .shutdown _ => .shutdown

def Call.role : Call → Role
  | .loadMin _ _ | .loadActive _ _ | .loadMax _ _ _ | .getKeepAliveToken _ _ | .enqueue _ _ _
  | .post _ _ | .keepAliveRelease _ => .add
  | .ensureJoined ensurer | .ensureJoinedLock ensurer | .ensureActive ensurer
  | .ensureActiveMax ensurer _ | .ensureActiveLock ensurer => ensurer.role
  | .maxActive | .maxActiveMax _ | .addObserver _ | .removeObserver _ => .observer
  | .setNumThreads _ resizer => resizer.role
  | .storeMin _ => .construct
  | .joinStoppedThreads _ joiner => joiner.role
  | .joinKeepAliveOnce _ | .keepAliveWait _ | .shutdown _ | .checkThreadList _
  | .checkStopped _ | .shutDown _ => .shutdown
  | .queueFull | .checkFailed => .failed

def Agent.role : Agent → Role
  | .worker _ _ => .worker
  | .call at_ => at_.role

def Removal.role : Removal → Role
  | .setNumThreads _ resizer => resizer.role
  | .shutdown _ => .shutdown

def Holder.role : Holder → Role
  | .taskShouldStop _ _ | .minActive _ | .decrActive _ | .pendingAfterTimeout _ _ _
  | .stopThread _ _ | .tryDecrToStop _ => .worker
  | .getPending _ resizer _ _ | .storeMax _ resizer _ | .resize _ resizer _ => resizer.role
  | .removeThreads removal _ | .stopThreads removal _ | .enqueuePoison removal _ _
  | .postPoison removal _ _ => removal.role
  | .addThreads _ _ _ next | .storeActive _ next => next.role
  | .stopMax _ | .stopActive _ | .collectToJoin _ _ => .shutdown
  | .collectJoined ensurer | .ensureActive ensurer => ensurer.role
  | .addObserver _ | .removeObserver _ => .observer

def Operation.role : Operation → Role
  | .add _ => .add
  | .setNumThreads _ => .resize
  | .shutdown _ => .shutdown
  | .addObserver _ | .removeObserver _ => .observer

def Agent.thread? : Agent → Option Nat
  | .worker thread _ => some thread
  | .call _ => none

/-- The thread of a worker that holds the lock. -/
def Holder.thread? : Holder → Option Nat
  | .taskShouldStop thread _ | .minActive thread | .decrActive thread
  | .pendingAfterTimeout thread _ _ | .stopThread thread _ | .tryDecrToStop thread => some thread
  | _ => none

/-- The takes that a call of `joinStoppedThreads` still owes. -/
def Call.owed : Call → Nat
  | .joinStoppedThreads n _ => n
  | _ => 0

def Agent.owed : Agent → Nat
  | .worker _ _ => 0
  | .call at_ => at_.owed

/-- How an agent goes on after a step that is its own concern. -/
inductive Follows : Agent → List Agent → Prop where
  | worker (thread : Nat) (before after : Worker) :
      Follows (.worker thread before) [.worker thread after]
  | call (before after : Call) (role : after.role = before.role ∨ after.role = .failed)
      (owed : after.owed = before.owed) : Follows (.call before) [.call after]
  | returns (before : Call) (owed : before.owed = 0) : Follows (.call before) []

/-! ## Steps outside the lock -/

/-- A step of a call that has its effect on the ledger: it takes a stopped
thread, or ends the constructor. -/
inductive Call.Records : Call → Memory → Memory → List Agent → Prop where
  | take {memory : Memory} (n : Nat) (joiner : Joiner) (thread : Nat) (stopped : List Nat)
      (stoppedIs : memory.stoppedThreads = thread :: stopped) :
      Records (.joinStoppedThreads (n + 1) joiner) memory
        { memory with stoppedThreads := stopped } [.call (.joinStoppedThreads n joiner)]
  | construct {memory : Memory} (second : Nat) :
      Records (.storeMin second) memory
        { memory with
          minThreads := if second = 0 then 1 else memory.minThreads
          constructed := true } []

section Steps

variable {queue : TaskQueue} {choice : CountingSemaphore.Ending} {wake : Bool}
  {memory after : Memory} {left rest : List Agent} {agent : Agent} {holder : Holder}

theorem Ensurer.next_owed (ensurer : Ensurer) : ensurer.next.owed = 0 := by
  cases ensurer <;> rfl

theorem Ensurer.next_role (ensurer : Ensurer) : ensurer.next.role = ensurer.role := by
  cases ensurer <;> rfl

private theorem worker_follows {thread : Nat} {worker : Worker}
    (step : worker.Step queue choice memory thread after left) :
    after.ledger = memory.ledger ∧ Follows (.worker thread worker) left := by
  cases step <;> exact ⟨rfl, .worker ..⟩

private theorem joiner_follows (joiner : Joiner) :
    Follows (.call (.joinStoppedThreads 0 joiner)) joiner.next := by
  cases joiner with
  | ensureJoined ensurer => exact .call _ _ (.inl rfl) rfl
  | setNumThreads resizer =>
      cases resizer with
      | client => exact .returns _ rfl
      | constructor second => exact .call _ _ (.inl rfl) rfl
  | shutdown isJoin => exact .call _ _ (.inl rfl) rfl

private theorem call_follows {call : Call} (step : call.Step queue choice memory after left) :
    call.Records memory after left ∨ after.ledger = memory.ledger ∧ Follows (.call call) left := by
  cases step with
  | joinsOne n joiner thread stopped first => exact .inl (.take _ _ _ _ first)
  | constructs second => exact .inl (.construct second)
  | joinsAll joiner => exact .inr ⟨rfl, joiner_follows joiner⟩
  | enoughActive ensurer active above =>
      exact .inr ⟨rfl, .call _ _ (.inl ensurer.next_role) ensurer.next_owed⟩
  | posts task => exact .inr ⟨rfl, .returns _ rfl⟩
  | releasesToken task => exact .inr ⟨rfl, .returns _ rfl⟩
  | atMax active above => exact .inr ⟨rfl, .returns _ rfl⟩
  | noToken task priority joined => exact .inr ⟨rfl, .call _ _ (.inr rfl) rfl⟩
  | queueFull task priority mayNeed full => exact .inr ⟨rfl, .call _ _ (.inr rfl) rfl⟩
  | threadLeft isJoin positive => exact .inr ⟨rfl, .call _ _ (.inr rfl) rfl⟩
  | stoppedLeft isJoin positive => exact .inr ⟨rfl, .call _ _ (.inr rfl) rfl⟩
  | _ => exact .inr ⟨rfl, .call _ _ (.inl rfl) rfl⟩

/-- What an agent can do to the ledger. -/
theorem act_cases (acted : act queue choice memory agent = some (after, left)) :
    (∃ holder, agent.wants = some holder ∧ memory.threadListLock = none ∧ left = [] ∧
      after = { memory with
        threadListLock := some holder
        history := { memory.history with atLock := memory.sizing } }) ∨
    (∃ call, agent = .call call ∧ call.Records memory after left) ∨
    (after.ledger = memory.ledger ∧ Follows agent left) := by
  cases act_step acted with
  | locks agent holder wants free => exact .inl ⟨holder, wants, free, rfl, rfl⟩
  | worker thread worker after left step => exact .inr (.inr (worker_follows step))
  | call call after left step =>
      rcases call_follows step with records | unchanged
      · exact .inr (.inl ⟨call, rfl, records⟩)
      · exact .inr (.inr unchanged)

/-- Whoever takes the lock keeps its role and its thread. -/
theorem wants_role (wants : agent.wants = some holder) :
    holder.role = agent.role ∧ holder.thread? = agent.thread? ∧ agent.owed = 0 := by
  unfold Agent.wants at wants
  split at wants <;> cases wants <;> exact ⟨rfl, rfl, rfl⟩

/-! ## Steps of the holder -/

/-- How the holder goes on: with the lock, while a new worker may start, or
without it. -/
inductive Continues (after : Memory) (holder : Holder) : List Agent → Prop where
  | holds (next : Holder) (locked : after.threadListLock = some next)
      (role : next.role = holder.role) : Continues after holder []
  | starts (next : Holder) (thread : Nat) (worker : Worker)
      (locked : after.threadListLock = some next) (role : next.role = holder.role) :
      Continues after holder [.worker thread worker]
  | resumes (agent : Agent) (free : after.threadListLock = none)
      (role : agent.role = holder.role ∨ agent.role = .failed) :
      Continues after holder [agent]
  | unlocks (free : after.threadListLock = none) : Continues after holder []

theorem hold_continues (stepped : holder.next queue wake memory = some (after, left)) :
    Continues after holder left := by
  cases hold_step stepped with
  | worker thread holder after left step =>
      cases step with
      | stops observed threadList removed => exact .unlocks rfl
      | notAsked poison zero => exact .resumes _ rfl (.inl rfl)
      | atMin below => exact .resumes _ rfl (.inl rfl)
      | stillPending index pending outside positive => exact .resumes _ rfl (.inl rfl)
      | notAskedAfterTask zero => exact .resumes _ rfl (.inl rfl)
      | _ => exact .holds _ rfl rfl
  | removal removal n holder after left step =>
      cases step with
      | queueFull left full => exact .resumes _ rfl (.inr rfl)
      | _ => exact .holds _ rfl rfl
  | call holder after left step =>
      cases step with
      | keepsSize numThreads resizer below unobserved enough => exact .resumes _ rfl (.inl rfl)
      | startsThread left newThreads active next => exact .starts _ _ _ rfl rfl
      | storesActive active next => exact .resumes _ rfl (.inl rfl)
      | collectsToJoin isJoin n => exact .resumes _ rfl (.inl rfl)
      | collectsJoined ensurer => exact .resumes _ rfl (.inl rfl)
      | enoughActive ensurer above => exact .resumes _ rfl (.inl ensurer.next_role)
      | tooFewActive ensurer below => exact .holds _ rfl ensurer.next_role
      | addsObserver observer => exact .resumes _ rfl (.inl rfl)
      | removesObserver observer => exact .unlocks rfl
      | _ => exact .holds _ rfl rfl

theorem hold_outside (stepped : holder.next queue wake memory = some (after, left)) :
    after.outside = memory.outside := by
  cases hold_step stepped with
  | worker thread holder after left step => cases step <;> rfl
  | removal removal n holder after left step => cases step <;> rfl
  | call holder after left step => cases step <;> rfl

end Steps

/-! ## Counting by role -/

/-- The calls of a role, with the one that has the lock. -/
def Memory.holding (memory : Memory) (weight : Role → Nat) : Nat :=
  memory.threadListLock.elim 0 fun holder => weight holder.role

def countRoles (weight : Role → Nat) (memory : Memory) (agents : List Agent) : Nat :=
  memory.holding weight + total (fun agent => weight agent.role) agents

section Counting

variable {queue : TaskQueue} {choice : CountingSemaphore.Ending} {wake : Bool}
  {memory after : Memory} {left rest : List Agent} {agent : Agent} {holder : Holder}
  {weight heavier : Role → Nat}

theorem countRoles_mono (le : ∀ role, weight role ≤ heavier role) (memory : Memory)
    (agents : List Agent) : countRoles weight memory agents ≤ countRoles heavier memory agents := by
  have calls : total (fun agent => weight agent.role) agents ≤
      total (fun agent => heavier agent.role) agents := total_le_total fun agent _ => le agent.role
  have holds : memory.holding weight ≤ memory.holding heavier := by
    unfold Memory.holding
    cases memory.threadListLock with
    | none => exact Nat.le_refl 0
    | some holder => exact le holder.role
  exact Nat.add_le_add holds calls

private theorem follows_roles (failed : weight .failed = 0) (follows : Follows agent left) :
    total (fun agent => weight agent.role) left ≤ weight agent.role := by
  cases follows with
  | worker thread before after => simp [Agent.role]
  | call before after role owed =>
      rcases role with same | same <;> simp [Agent.role, same, failed]
  | returns before owed => simp

/-- No step adds a call of any role. -/
theorem countRoles_act (failed : weight .failed = 0)
    (acted : act queue choice memory agent = some (after, left)) :
    countRoles weight after (left ++ rest) ≤ countRoles weight memory (agent :: rest) := by
  rcases act_cases acted with ⟨holder, wants, free, rfl, rfl⟩ | ⟨call, rfl, records⟩ |
    ⟨same, follows⟩
  · simp only [countRoles, Memory.holding, free, Option.elim_some, Option.elim_none,
      (wants_role wants).1, List.nil_append, total_cons]
    omega
  · cases records with
    | take n joiner thread stopped stoppedIs =>
        exact Nat.le_of_eq rfl
    | construct second =>
        simp only [countRoles, Memory.holding, List.nil_append, total_cons]
        omega
  · have lock : after.threadListLock = memory.threadListLock := congrArg Ledger.threadListLock same
    have fewer := follows_roles failed follows
    simp only [countRoles, Memory.holding, lock, total_append, total_cons]
    omega

theorem countRoles_hold (failed : weight .failed = 0) (started : weight .worker = 0)
    (locked : memory.threadListLock = some holder)
    (stepped : holder.next queue wake memory = some (after, left)) :
    countRoles weight after (left ++ rest) ≤ countRoles weight memory rest := by
  have before : memory.holding weight = weight holder.role := by
    rw [Memory.holding, locked, Option.elim_some]
  have held : ∀ {next : Holder}, after.threadListLock = some next → next.role = holder.role →
      after.holding weight = weight holder.role := by
    intro next lock role
    rw [Memory.holding, lock, Option.elim_some, role]
  have freed : after.threadListLock = none → after.holding weight = 0 := by
    intro free
    rw [Memory.holding, free, Option.elim_none]
  cases hold_continues stepped with
  | holds next lock role =>
      refine Nat.le_of_eq ?_
      rw [countRoles, countRoles, before, held lock role, List.nil_append]
  | starts next thread worker lock role =>
      refine Nat.le_of_eq ?_
      rw [countRoles, countRoles, before, held lock role, List.singleton_append, total_cons,
        Agent.role, started, Nat.zero_add]
  | resumes agent free role =>
      rw [countRoles, countRoles, before, freed free, List.singleton_append, total_cons]
      rcases role with same | same
      · rw [same]
        omega
      · rw [same, failed]
        omega
  | unlocks free =>
      rw [countRoles, countRoles, before, freed free, List.nil_append]
      omega

theorem countRoles_invoke (memory : Memory) (operation : Operation) (agents : List Agent) :
    countRoles weight (memory.invoke operation).1 ((memory.invoke operation).2 ++ agents) =
      weight operation.role + countRoles weight memory agents := by
  cases operation <;>
    simp [countRoles, Memory.invoke, Memory.holding, Operation.role, Agent.role, Call.role,
      Resizer.role] <;> omega

end Counting

end ThreadPoolExec.CPUThreadPoolExecutor
