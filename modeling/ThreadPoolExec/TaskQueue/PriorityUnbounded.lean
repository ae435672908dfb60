import ThreadPoolExec.CountingSemaphore
import ThreadPoolExec.Interleaving
import ThreadPoolExec.ProbedLevels
import ThreadPoolExec.TaskQueue.Priority

/-!
# The unbounded priority queue

Every call on one `PriorityUnboundedBlockingQueue` is an agent. A taker waits
for the semaphore first and then probes the levels one by one, each probe
being atomic on its level only.
-/

set_option autoImplicit false

namespace ThreadPoolExec.PriorityUnboundedBlockingQueue

open Interleaving

universe u

variable {τ : Type u}

/-- `sem_` and `queue_`, the latter from priority zero on. -/
structure Memory (τ : Type u) where
  sem : CountingSemaphore := {}
  queue : List (List τ)

/-- The three ways to take, which differ in their wait for the semaphore. -/
inductive Take where
  | take
  | tryTake
  | tryTakeFor
deriving DecidableEq, Repr

/-- Where a call is. -/
inductive Call (τ : Type u) where
  | addWithPriority (item : τ) (priority : Int8)
  | post
  | semWait (kind : Take)
  | asleep (kind : Take)
  | tryDequeue (level : Nat)
  | added
  | outOfRange
  | returned (result : Option τ)
  | terminated
deriving DecidableEq, Repr

/-- The calls a client may make. -/
inductive Invocation (τ : Type u) where
  | add (item : τ)
  | addWithPriority (item : τ) (priority : Int8)
  | take (kind : Take)

def invoke : Invocation τ → Call τ
  | .add item => .addWithPriority item Executor.MID_PRI
  | .addWithPriority item priority => .addWithPriority item priority
  | .take kind => .semWait kind

/-- One step of a call. A post may raise the value although a waiter sleeps. -/
def act (choice : CountingSemaphore.Ending) (memory : Memory τ) :
    Call τ → Option (Memory τ × List (Call τ))
  | .addWithPriority item priority =>
      match level? memory.queue.length priority with
      | none => some (memory, [.outOfRange])
      | some level =>
          some ({ memory with queue := Levels.push memory.queue level item }, [.post])
  | .post =>
      some ({ memory with sem := (memory.sem.post (choice = .handoff)).1 }, [.added])
  | .semWait kind =>
      match memory.sem.tryWait with
      | some sem => some ({ memory with sem := sem }, [.tryDequeue 0])
      | none =>
          if kind = .tryTake then some (memory, [.returned none])
          else some ({ memory with sem := memory.sem.sleep }, [.asleep kind])
  | .asleep kind =>
      match memory.sem.endWait (kind = .tryTakeFor) choice with
      | none => none
      | some (sem, true) => some ({ memory with sem := sem }, [.tryDequeue 0])
      | some (sem, false) => some ({ memory with sem := sem }, [.returned none])
  | .tryDequeue level =>
      if level < memory.queue.length then
        match Levels.pop memory.queue level with
        | some (item, queue) =>
            some ({ memory with queue := queue }, [.returned (some item)])
        | none => some (memory, [.tryDequeue (level + 1)])
      -- every level was probed: "bug in task queue"
      else some (memory, [.terminated])
  | .added | .outOfRange | .returned _ | .terminated => none

def system (numPriorities : UInt8) :
    System (Memory τ) (Call τ) CountingSemaphore.Ending (Invocation τ) where
  init := ⟨{ queue := List.replicate numPriorities.toNat [] }, []⟩
  act := act
  env invocation memory := some (memory, [invoke invocation])

/-- Adds between their `enqueue` and their `post`. -/
def Call.posting : Call τ → Nat
  | .post => 1
  | _ => 0

/-- Takers past the semaphore that have still to probe only levels from a
given one on. -/
def Call.probing (level : Nat) : Call τ → Nat
  | .tryDequeue position => if level ≤ position then 1 else 0
  | .terminated => 1
  | _ => 0

/-- From every level on, the queue holds an item for each taker that has only
those levels left. -/
structure Balanced (numPriorities : Nat) (memory : Memory τ) (calls : List (Call τ)) : Prop where
  levels : memory.queue.length = numPriorities
  permits : memory.sem.permits + total Call.posting calls + total (Call.probing 0) calls ≤
    Levels.size memory.queue
  ahead : ∀ level, total (Call.probing level) calls ≤ Levels.after memory.queue level

private theorem balanced_reorder {numPriorities : Nat} {memory : Memory τ}
    {calls others : List (Call τ)} (same : calls.Perm others)
    (balanced : Balanced numPriorities memory calls) : Balanced numPriorities memory others where
  levels := balanced.levels
  permits := by
    rw [← total_perm same, ← total_perm same]
    exact balanced.permits
  ahead level := by
    rw [← total_perm same]
    exact balanced.ahead level

private theorem probing_succ_le (calls : List (Call τ)) (level : Nat) :
    total (Call.probing (level + 1)) calls ≤ total (Call.probing level) calls := by
  refine total_le_total fun call _ => ?_
  cases call with
  | tryDequeue position =>
      simp only [Call.probing]
      split_ifs <;> omega
  | _ => exact Nat.le_refl _

section Balanced

variable {numPriorities : Nat} {memory next : Memory τ} {rest left : List (Call τ)}
  {call other : Call τ}

theorem Balanced.backed (balanced : Balanced numPriorities memory rest) :
    Levels.Backed memory.queue memory.sem.permits (total Call.posting rest)
      (fun level => total (Call.probing level) rest) :=
  ⟨balanced.permits, fun level _ => balanced.ahead level⟩

private theorem balanced_of_backed (levels : memory.queue.length = numPriorities)
    (backed : Levels.Backed memory.queue memory.sem.permits (total Call.posting rest)
      (fun level => total (Call.probing level) rest)) : Balanced numPriorities memory rest :=
  ⟨levels, backed.permits, fun level => backed.ahead level (Nat.zero_le level)⟩

/-- A call with neither an item in the queue nor a permit in hand may come and
go. -/
private theorem balanced_replace (balanced : Balanced numPriorities memory (call :: rest))
    (posting : other.posting ≤ call.posting)
    (probing : ∀ level, other.probing level ≤ call.probing level) :
    Balanced numPriorities memory (other :: rest) := by
  refine balanced_of_backed balanced.levels (balanced.backed.mono ?_ fun level => ?_)
  · exact Nat.add_le_add_right posting _
  · exact Nat.add_le_add_right (probing level) _

/-- A taker passes the semaphore: its permit was for an item in the queue. -/
private theorem balanced_pass {sem : CountingSemaphore}
    (passed : memory.sem.permits = sem.permits + 1)
    (balanced : Balanced numPriorities memory (call :: rest)) :
    Balanced numPriorities { memory with sem := sem } (.tryDequeue 0 :: rest) := by
  have backed := balanced.backed
  rw [passed] at backed
  have waits : Levels.Backed memory.queue (sem.permits + 1) (0 + total Call.posting rest)
      (fun level => total (Call.probing level) rest) :=
    backed.mono (Nat.add_le_add_right (Nat.zero_le _) _) fun level => Nat.le_add_left _ _
  exact balanced_of_backed balanced.levels waits.pass

private theorem balanced_add {item : τ} {level : Nat} {priority : Int8}
    (inside : level < memory.queue.length)
    (balanced : Balanced numPriorities memory (.addWithPriority item priority :: rest)) :
    Balanced numPriorities { memory with queue := Levels.push memory.queue level item }
      (.post :: rest) := by
  refine balanced_of_backed (Levels.length_push.trans balanced.levels) ?_
  refine (balanced.backed.push inside).mono ?_ fun level => Nat.le_refl _
  simp only [total_cons, Call.posting]
  omega

private theorem balanced_post {wake : Bool}
    (balanced : Balanced numPriorities memory (.post :: rest)) :
    Balanced numPriorities { memory with sem := (memory.sem.post wake).1 } (.added :: rest) := by
  have backed : Levels.Backed memory.queue memory.sem.permits (total Call.posting rest + 1)
      (fun level => total (Call.probing level) rest) :=
    balanced.backed.mono (Nat.le_of_eq (Nat.add_comm _ _)) fun level => Nat.le_add_left _ _
  refine balanced_of_backed balanced.levels ?_
  rw [CountingSemaphore.post_permits]
  refine backed.post.mono (Nat.le_of_eq (Nat.zero_add _)) fun level => ?_
  exact Nat.le_of_eq (Nat.zero_add _)

private theorem balanced_pop {item : τ} {level : Nat} {queue : List (List τ)}
    (popped : Levels.pop memory.queue level = some (item, queue))
    (balanced : Balanced numPriorities memory (.tryDequeue level :: rest)) :
    Balanced numPriorities { memory with queue := queue } (.returned (some item) :: rest) := by
  refine balanced_of_backed ((Levels.length_pop popped).trans balanced.levels) ?_
  have taken : Levels.Backed queue memory.sem.permits (total Call.posting (.tryDequeue level :: rest))
      (fun level => total (Call.probing level) rest) := balanced.backed.pop popped
  exact taken.mono (Nat.le_refl _) fun level => Nat.le_of_eq (Nat.zero_add _)

private theorem balanced_move {level : Nat} (empty : memory.queue[level]? = some [])
    (balanced : Balanced numPriorities memory (.tryDequeue level :: rest)) :
    Balanced numPriorities memory (.tryDequeue (level + 1) :: rest) :=
  balanced_of_backed balanced.levels
    (balanced.backed.move empty (probing_succ_le rest level))

private theorem balanced_act {choice : CountingSemaphore.Ending}
    (acted : act choice memory call = some (next, left))
    (balanced : Balanced numPriorities memory (call :: rest)) :
    Balanced numPriorities next (left ++ rest) := by
  cases call with
  | addWithPriority item priority =>
      simp only [act] at acted
      cases found : level? memory.queue.length priority with
      | none =>
          simp only [found, Option.some.injEq, Prod.mk.injEq] at acted
          obtain ⟨rfl, rfl⟩ := acted
          exact balanced_replace balanced (Nat.le_refl _) (fun _ => Nat.le_refl _)
      | some level =>
          simp only [found, Option.some.injEq, Prod.mk.injEq] at acted
          obtain ⟨rfl, rfl⟩ := acted
          exact balanced_add (level?_lt found) balanced
  | post =>
      simp only [act, Option.some.injEq, Prod.mk.injEq] at acted
      obtain ⟨rfl, rfl⟩ := acted
      exact balanced_post balanced
  | semWait kind =>
      simp only [act] at acted
      cases waited : memory.sem.tryWait with
      | some sem =>
          simp only [waited, Option.some.injEq, Prod.mk.injEq] at acted
          obtain ⟨rfl, rfl⟩ := acted
          exact balanced_pass (CountingSemaphore.tryWait_permits waited) balanced
      | none =>
          simp only [waited] at acted
          split at acted
          all_goals
            simp only [Option.some.injEq, Prod.mk.injEq] at acted
            obtain ⟨rfl, rfl⟩ := acted
          · exact balanced_replace balanced (Nat.le_refl _) (fun _ => Nat.le_refl _)
          · have asleep : Balanced numPriorities memory (.asleep kind :: rest) :=
              balanced_replace balanced (Nat.le_refl _) (fun _ => Nat.le_refl _)
            exact ⟨asleep.levels, asleep.permits, asleep.ahead⟩
  | asleep kind =>
      simp only [act] at acted
      split at acted
      · cases acted
      · next sem ended =>
          cases acted
          exact balanced_pass (CountingSemaphore.endWait_permits ended) balanced
      · next sem ended =>
          cases acted
          have unchanged := CountingSemaphore.endWait_permits ended
          have replaced : Balanced numPriorities memory (.returned none :: rest) :=
            balanced_replace balanced (Nat.le_refl _) (fun _ => Nat.le_refl _)
          refine ⟨replaced.levels, ?_, replaced.ahead⟩
          have permits := replaced.permits
          simp only [Bool.false_eq_true, if_false] at unchanged
          simp only [List.singleton_append]
          omega
  | tryDequeue level =>
      simp only [act] at acted
      split at acted
      · next inside =>
          cases popped : Levels.pop memory.queue level with
          | some result =>
              obtain ⟨item, queue⟩ := result
              simp only [popped, Option.some.injEq, Prod.mk.injEq] at acted
              obtain ⟨rfl, rfl⟩ := acted
              exact balanced_pop popped balanced
          | none =>
              simp only [popped, Option.some.injEq, Prod.mk.injEq] at acted
              obtain ⟨rfl, rfl⟩ := acted
              exact balanced_move
                ((Levels.pop_eq_none_iff.mp popped).resolve_left (by simpa using inside)) balanced
      · next outside =>
          have ahead := balanced.ahead level
          rw [Levels.after_of_length_le (Nat.le_of_not_lt outside)] at ahead
          simp [Call.probing] at ahead
  | added => cases acted
  | outOfRange => cases acted
  | returned result => cases acted
  | terminated => cases acted

end Balanced

theorem reachable_balanced {numPriorities : UInt8} {state : Global (Memory τ) (Call τ)}
    (reached : Reachable (system numPriorities) anySchedule state) :
    Balanced numPriorities.toNat state.shared state.agents := by
  refine Reaches.invariant (Balanced numPriorities.toNat) balanced_reorder ?_
    (fun _ _ _ acted balanced => balanced_act acted balanced) ?_ reached
  · refine ⟨by simp [system], ?_, fun level => ?_⟩
    · simp [system, CountingSemaphore.permits]
    · simp [system]
  · intro before invocation shared left _ _ acted balanced
    simp only [system, Option.some.injEq, Prod.mk.injEq] at acted
    obtain ⟨rfl, rfl⟩ := acted
    have outside : (invoke invocation).posting = 0 ∧ ∀ level,
        (invoke invocation).probing level = 0 := by
      cases invocation <;> exact ⟨rfl, fun _ => rfl⟩
    refine ⟨balanced.levels, ?_, fun level => ?_⟩
    · have permits := balanced.permits
      simp only [List.singleton_append, total_cons, outside.1, outside.2]
      omega
    · have ahead := balanced.ahead level
      simp only [List.singleton_append, total_cons, outside.2]
      omega

/-- A taker that is past the semaphore has an item ahead of it. -/
theorem Balanced.ahead_pos {numPriorities : Nat} {memory : Memory τ} {calls : List (Call τ)}
    {level : Nat} (balanced : Balanced numPriorities memory calls)
    (member : .tryDequeue level ∈ calls) : 0 < Levels.after memory.queue level := by
  have weight := weight_le_total (Call.probing level) member
  have ahead := balanced.ahead level
  simp only [Call.probing, Nat.le_refl, if_true] at weight
  omega

/-- No taker reports a bug in the task queue: each one past the semaphore
still has a level to probe, and its probe ends the call with an item or leaves
another level. -/
theorem dequeue_obtains_item (numPriorities : UInt8) (state : Global (Memory τ) (Call τ))
    (reached : Reachable (system numPriorities) anySchedule state) :
    .terminated ∉ state.agents ∧
      ∀ level, .tryDequeue level ∈ state.agents → ∀ choice,
        (∃ item queue, Levels.pop state.shared.queue level = some (item, queue) ∧
          act choice state.shared (.tryDequeue level) =
            some ({ state.shared with queue := queue }, [.returned (some item)])) ∨
        (level + 1 < numPriorities.toNat ∧
          act choice state.shared (.tryDequeue level) =
            some (state.shared, [.tryDequeue (level + 1)])) := by
  have balanced := reachable_balanced reached
  refine ⟨fun member => ?_, fun level member choice => ?_⟩
  · have weight := weight_le_total (Call.probing state.shared.queue.length) member
    have ahead := balanced.ahead state.shared.queue.length
    rw [Levels.after_of_length_le (Nat.le_refl _)] at ahead
    simp only [Call.probing] at weight
    omega
  · have pending := balanced.ahead_pos member
    have inside : level < state.shared.queue.length := by
      by_contra outside
      rw [Levels.after_of_length_le (Nat.le_of_not_lt outside)] at pending
      omega
    cases popped : Levels.pop state.shared.queue level with
    | some result => exact .inl ⟨result.1, result.2, rfl, by simp [act, inside, popped]⟩
    | none =>
        refine .inr ⟨?_, by simp [act, inside, popped]⟩
        have empty : state.shared.queue[level]? = some [] :=
          (Levels.pop_eq_none_iff.mp popped).resolve_left (by simpa using inside)
        rw [← Levels.after_succ_of_empty empty] at pending
        by_contra last
        rw [Levels.after_of_length_le (by have := balanced.levels; omega)] at pending
        omega

theorem dequeue_obtains_item_of_low_add :
    ∃ state : Global (Memory Nat) (Call Nat),
      (system 2).run (system 2).init
        [.env (.addWithPriority 7 Executor.LO_PRI), .act 0 .handoff, .act 0 .handoff,
          .env (.take .take), .act 0 .handoff] = some state ∧
      .tryDequeue 0 ∈ state.agents ∧ .terminated ∉ state.agents := by
  have replayed : (system 2).run (system 2).init
      [.env (.addWithPriority 7 Executor.LO_PRI), .act 0 .handoff, .act 0 .handoff,
        .env (.take .take), .act 0 .handoff] =
      some ⟨{ queue := [[], [7]] }, [.tryDequeue 0, .added]⟩ := by rfl
  exact ⟨_, replayed, List.mem_cons_self, (dequeue_obtains_item 2 _ (Reachable.init.run replayed)).1⟩

end ThreadPoolExec.PriorityUnboundedBlockingQueue
