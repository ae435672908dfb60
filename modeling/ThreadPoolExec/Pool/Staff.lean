import ThreadPoolExec.Pool.Accounting

/-!
# The workers and the list of threads

Threads come and go under the lock only, so the list names every worker once:
a worker keeps its thread over its own steps.
-/

set_option autoImplicit false

namespace ThreadPoolExec.CPUThreadPoolExecutor

open Interleaving

/-- The threads of the workers, with the one that has the lock. -/
def staff (memory : Memory) (agents : List Agent) : List Nat :=
  (memory.threadListLock.bind Holder.thread?).toList ++ agents.filterMap Agent.thread?

/-- The list of threads names every worker once. -/
structure Staffed (memory : Memory) (agents : List Agent) : Prop where
  all : (staff memory agents).Perm memory.threadList
  nodup : memory.threadList.Nodup
  known : ∀ thread ∈ memory.threadList, thread < memory.nextId

/-- How a step of the holder changes the threads. -/
inductive Holder.Staffs (memory after : Memory) (left : List Agent) (holder : Holder) : Prop where
  | same (threadList : after.threadList = memory.threadList) (nextId : after.nextId = memory.nextId)
      (kept : staff after left = holder.thread?.toList)
  | stops (thread : Nat) (isWorker : holder.thread? = some thread)
      (removed : ThreadList.remove memory.threadList thread = some after.threadList)
      (nextId : after.nextId = memory.nextId) (gone : staff after left = [])
  | starts (threadList : after.threadList = ThreadList.add memory.threadList memory.nextId)
      (nextId : after.nextId = memory.nextId + 1) (isCall : holder.thread? = none)
      (started : staff after left = [memory.nextId])

section Staff

variable {queue : TaskQueue} {choice : CountingSemaphore.Ending} {wake : Bool}
  {memory after : Memory} {left rest : List Agent} {agent : Agent} {holder : Holder}

theorem hold_staffs (stepped : holder.next queue wake memory = some (after, left)) :
    holder.Staffs memory after left := by
  cases hold_step stepped with
  | worker thread holder after left step =>
      cases step with
      | stops observed threadList removed => exact .stops thread rfl removed rfl rfl
      | _ => exact .same rfl rfl rfl
  | removal removal n holder after left step => cases step <;> exact .same rfl rfl rfl
  | call holder after left step =>
      cases step with
      | startsThread left newThreads active next => exact .starts rfl rfl rfl rfl
      | _ => exact .same rfl rfl rfl

theorem follows_threads (follows : Follows agent left) :
    left.filterMap Agent.thread? = agent.thread?.toList := by
  cases follows <;> rfl

theorem staff_append (memory : Memory) (agents rest : List Agent) :
    staff memory (agents ++ rest) = staff memory agents ++ rest.filterMap Agent.thread? := by
  rw [staff, staff, List.filterMap_append, List.append_assoc]

theorem Staffed.congr {agents others : List Agent} (staffed : Staffed memory agents)
    (threadList : after.threadList = memory.threadList) (nextId : after.nextId = memory.nextId)
    (same : staff after others = staff memory agents) : Staffed after others := by
  constructor
  case all =>
    rw [same, threadList]
    exact staffed.all
  case nodup => exact threadList ▸ staffed.nodup
  case known =>
    rw [threadList, nextId]
    exact staffed.known

theorem staffed_hold (locked : memory.threadListLock = some holder)
    (stepped : holder.next queue wake memory = some (after, left))
    (staffed : Staffed memory rest) : Staffed after (left ++ rest) := by
  obtain ⟨all, nodup, known⟩ := staffed
  cases hold_staffs stepped with
  | same threadList nextId kept =>
      apply Staffed.congr ⟨all, nodup, known⟩ threadList nextId
      rw [staff_append, kept, staff, locked, Option.bind_some]
  | stops thread isWorker removed nextId gone =>
      have same := ThreadList.perm_of_remove removed
      rw [staff, locked, Option.bind_some, isWorker, Option.toList_some, List.singleton_append]
        at all
      constructor
      case all =>
        rw [staff_append, gone, List.nil_append]
        exact (all.trans same).cons_inv
      case nodup => exact (List.nodup_cons.mp (same.nodup_iff.mp nodup)).2
      case known =>
        intro other member
        rw [nextId]
        exact known other (same.mem_iff.mpr (List.mem_cons_of_mem _ member))
  | starts threadList nextId isCall started =>
      have same := ThreadList.perm_add memory.threadList memory.nextId
      have unlisted : memory.nextId ∉ memory.threadList := fun member =>
        Nat.lt_irrefl _ (known _ member)
      rw [staff, locked, Option.bind_some, isCall, Option.toList_none, List.nil_append] at all
      constructor
      case all =>
        rw [staff_append, started, threadList, List.singleton_append]
        exact (all.cons _).trans same.symm
      case nodup =>
        rw [threadList, same.nodup_iff]
        exact List.nodup_cons.mpr ⟨unlisted, nodup⟩
      case known =>
        intro other member
        rw [threadList, same.mem_iff] at member
        rw [nextId]
        rcases List.mem_cons.mp member with rfl | before
        · exact Nat.lt_succ_self _
        · exact Nat.lt_succ_of_lt (known other before)

/-- Outside the lock, threads are only taken to be joined. -/
theorem act_threads (acted : act queue choice memory agent = some (after, left)) :
    after.threadList = memory.threadList ∧ after.nextId = memory.nextId ∧
      after.stoppedThreads ⊆ memory.stoppedThreads := by
  rcases act_cases acted with ⟨holder, -, -, -, rfl⟩ | ⟨call, -, records⟩ | ⟨same, -⟩
  · exact ⟨rfl, rfl, List.Subset.refl _⟩
  · cases records with
    | take n joiner thread stopped stoppedIs =>
        exact ⟨rfl, rfl, stoppedIs ▸ List.subset_cons_self thread stopped⟩
    | construct second => exact ⟨rfl, rfl, List.Subset.refl _⟩
  · have stopped : after.stoppedThreads = memory.stoppedThreads :=
      congrArg Ledger.stoppedThreads same
    exact ⟨congrArg Ledger.threadList same, congrArg Ledger.nextId same,
      stopped ▸ List.Subset.refl _⟩

theorem act_staff (acted : act queue choice memory agent = some (after, left))
    (rest : List Agent) : staff after (left ++ rest) = staff memory (agent :: rest) := by
  rcases act_cases acted with ⟨holder, wants, free, rfl, rfl⟩ | ⟨call, rfl, records⟩ |
    ⟨same, follows⟩
  · rw [staff, staff, free, Option.bind_some, (wants_role wants).2.1]
    cases agent <;> rfl
  · cases records <;> rfl
  · have lock : after.threadListLock = memory.threadListLock :=
      congrArg Ledger.threadListLock same
    rw [staff_append, staff, lock, follows_threads follows, ← List.singleton_append, staff_append]
    cases agent <;> rfl

theorem staffed_act (acted : act queue choice memory agent = some (after, left))
    (staffed : Staffed memory (agent :: rest)) : Staffed after (left ++ rest) := by
  obtain ⟨threadList, nextId, -⟩ := act_threads acted
  exact staffed.congr threadList nextId (act_staff acted rest)

theorem staffed_invoke {operation : Operation} (staffed : Staffed memory rest) :
    Staffed (memory.invoke operation).1 ((memory.invoke operation).2 ++ rest) := by
  cases operation <;> exact staffed.congr rfl rfl rfl

theorem reachable_staffed {numThreads : Nat × Nat}
    {allowed : Global Memory Agent → Label CountingSemaphore.Ending Move → Prop}
    {state : Global Memory Agent}
    (reached : Reachable (system queue numThreads) allowed state) :
    Staffed state.shared state.agents := by
  refine Reaches.invariant Staffed ?_ ?_ (fun _ _ _ acted => staffed_act acted) ?_ reached
  · intro memory agents others same staffed
    refine ⟨?_, staffed.nodup, staffed.known⟩
    exact ((same.symm.filterMap _).append_left _).trans staffed.all
  · exact ⟨List.Perm.nil, List.nodup_nil, nofun⟩
  · intro before move after left _ _ moved staffed
    rcases env_cases moved with ⟨operation, -, -, invoked⟩ | ⟨wake, holder, -, locked, stepped⟩
    · have kept : Staffed (before.shared.invoke operation).1 _ := staffed_invoke staffed
      rw [invoked] at kept
      exact kept
    · exact staffed_hold locked stepped staffed

end Staff

end ThreadPoolExec.CPUThreadPoolExecutor
