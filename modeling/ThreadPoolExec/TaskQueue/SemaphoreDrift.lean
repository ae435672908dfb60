import Mathlib.Data.List.InsertIdx
import ThreadPoolExec.TaskQueue.PriorityLifoSem

/-!
# The value of the semaphore of the bounded queue

Every add posts, but a taker that finds an item at once does not wait. The value
of the semaphore is bounded by what the queue holds and by the takers that left
without it, and by nothing less.
-/

set_option autoImplicit false

namespace ThreadPoolExec.PriorityLifoSemMPMCQueue

open Interleaving

universe u

variable {τ : Type u}

/-- Calls that have not returned. -/
def Call.inProgress : Call τ → Nat
  | .added _ | .queueFull _ | .returned _ => 0
  | _ => 1

/-- A call, and whether it has passed the semaphore. -/
structure Tracked (τ : Type u) where
  call : Call τ
  passed : Bool := false

def passes : Call τ → Call τ → Bool
  | .semWait _, .nonBlockingTake _ _ | .asleep _, .nonBlockingTake _ _ => true
  | _, _ => false

/-- The queue, with a record of the calls that have passed the semaphore. -/
def tracked (behavior : QueueBehaviorIfFull) (capacities : List Nat) :
    System (Memory τ) (Tracked τ) CountingSemaphore.Ending (Invocation τ) where
  init := ⟨(system behavior capacities).init.shared, []⟩
  act choice memory agent :=
    (act choice memory agent.call).map fun moved =>
      (moved.1, moved.2.map fun next => ⟨next, agent.passed || passes agent.call next⟩)
  env invocation memory :=
    some ((invoke memory invocation).1, (invoke memory invocation).2.map (⟨·, false⟩))

/-- Takes that have returned an item without having passed the semaphore. -/
def Tracked.unpaid (agent : Tracked τ) : Nat :=
  match agent.call, agent.passed with
  | .returned (some _), false => 1
  | _, _ => 0

/-! ## Steps -/

/-- What a step of a call does. -/
inductive Step (memory : Memory τ) : Memory τ → Call τ → Call τ → Prop where
  | pushes {number level : Nat} {item : τ} {priority : Int8} : level < memory.queues.length →
      Step memory { memory with queues := Levels.push memory.queues level (number, item) }
        (.addWithPriority number item priority) (.enqueue number level)
  | refuses {number : Nat} {item : τ} {priority : Int8} :
      Step memory memory (.addWithPriority number item priority) (.queueFull number)
  | slotted {number level : Nat} : memory.slotted number level = true →
      Step memory memory (.enqueue number level) (.post number)
  | posts {number : Nat} {sem : CountingSemaphore} : sem.permits = memory.sem.permits + 1 →
      Step memory { memory with sem := sem } (.post number) (.added number)
  | takes {timed : Bool} {level : Nat} {entry : Nat × τ} {queues : List (List (Nat × τ))} :
      Levels.pop memory.queues level = some (entry, queues) →
      Step memory { memory with queues := queues } (.nonBlockingTake timed level)
        (.returned (some entry))
  | scans {timed : Bool} {level : Nat} :
      Step memory memory (.nonBlockingTake timed level) (.nonBlockingTake timed (level + 1))
  | ends {timed : Bool} {level : Nat} :
      Step memory memory (.nonBlockingTake timed level) (.semWait timed)
  | waits {timed : Bool} {sem : CountingSemaphore} : memory.sem.permits = sem.permits + 1 →
      Step memory { memory with sem := sem } (.semWait timed) (.nonBlockingTake timed 0)
  | sleeps {timed : Bool} {sem : CountingSemaphore} : memory.sem.permits = sem.permits →
      Step memory { memory with sem := sem } (.semWait timed) (.asleep timed)
  | wakes {timed : Bool} {sem : CountingSemaphore} : memory.sem.permits = sem.permits + 1 →
      Step memory { memory with sem := sem } (.asleep timed) (.nonBlockingTake timed 0)
  | expires {timed : Bool} {sem : CountingSemaphore} : memory.sem.permits = sem.permits →
      Step memory { memory with sem := sem } (.asleep timed) (.returned none)

theorem step_of_act {choice : CountingSemaphore.Ending} {memory after : Memory τ} {call : Call τ}
    {left : List (Call τ)} (acted : act choice memory call = some (after, left)) :
    ∃ next, left = [next] ∧ Step memory after call next := by
  cases call with
  | addWithPriority number item priority =>
      simp only [act] at acted
      split at acted
      · cases acted
      · next level found =>
          split at acted
          · cases acted
            exact ⟨_, rfl, .refuses⟩
          · cases acted
            exact ⟨_, rfl, .pushes (level?_lt found)⟩
  | enqueue number level =>
      simp only [act] at acted
      split at acted
      · next free =>
          cases acted
          exact ⟨_, rfl, .slotted free⟩
      · cases acted
  | post number =>
      cases acted
      exact ⟨_, rfl, .posts (CountingSemaphore.post_permits _)⟩
  | nonBlockingTake timed level =>
      simp only [act] at acted
      split at acted
      · split at acted
        · next popped =>
            cases acted
            exact ⟨_, rfl, .takes popped⟩
        · cases acted
          exact ⟨_, rfl, .scans⟩
      · cases acted
        exact ⟨_, rfl, .ends⟩
  | semWait timed =>
      simp only [act] at acted
      split at acted
      · next passed =>
          cases acted
          exact ⟨_, rfl, .waits (CountingSemaphore.tryWait_permits passed)⟩
      · cases acted
        exact ⟨_, rfl, .sleeps CountingSemaphore.sleep_permits.symm⟩
  | asleep timed =>
      simp only [act] at acted
      split at acted
      · cases acted
      · next ended =>
          cases acted
          exact ⟨_, rfl, .wakes (CountingSemaphore.endWait_permits ended)⟩
      · next ended =>
          cases acted
          exact ⟨_, rfl, .expires (CountingSemaphore.endWait_permits ended)⟩
  | added number => cases acted
  | queueFull number => cases acted
  | returned result => cases acted

/-! ## Permits -/

def Tracked.flag (agent : Tracked τ) : Nat :=
  agent.passed.toNat

def Tracked.posting (agent : Tracked τ) : Nat :=
  agent.call.posting

def Tracked.took (agent : Tracked τ) : Nat :=
  match agent.call with
  | .returned (some _) => 1
  | _ => 0

/-- Each permit, each call that has used one and each add that has not posted
stands for an item in the queue or one that a call has returned. -/
def Balanced (memory : Memory τ) (agents : List (Tracked τ)) : Prop :=
  memory.sem.permits + total Tracked.flag agents + total Tracked.posting agents ≤
    Levels.size memory.queues + total Tracked.took agents

section Steps

variable {memory after : Memory τ} {call next : Call τ} {agent following : Tracked τ}
  {passed : Bool} {rest others : List (Tracked τ)}

theorem Balanced.replace
    (moved : after.sem.permits + following.flag + following.posting +
        Levels.size memory.queues + agent.took ≤
      memory.sem.permits + agent.flag + agent.posting + Levels.size after.queues + following.took)
    (balanced : Balanced memory (agent :: rest)) : Balanced after (following :: rest) := by
  unfold Balanced at balanced ⊢
  simp only [total_cons] at balanced ⊢
  omega

theorem toNat_or_le (first second : Bool) :
    (first || second).toNat ≤ first.toNat + second.toNat := by
  cases first <;> cases second <;> decide

theorem balanced_step (stepped : Step memory after call next)
    (balanced : Balanced memory (⟨call, passed⟩ :: rest)) :
    Balanced after (⟨next, passed || passes call next⟩ :: rest) := by
  -- the first pass of a call is counted with the permit that it uses
  have flag := toNat_or_le passed (passes call next)
  apply balanced.replace
  cases stepped with
  | pushes inside =>
      simp only [Tracked.flag, Tracked.posting, Call.posting, Tracked.took, Levels.size_push inside,
        passes, Bool.toNat_false] at flag ⊢
      omega
  | posts raised =>
      simp only [Tracked.flag, Tracked.posting, Call.posting, Tracked.took, passes,
        Bool.toNat_false] at flag ⊢
      omega
  | takes popped =>
      simp only [Tracked.flag, Tracked.posting, Call.posting, Tracked.took,
        Levels.size_pop popped, passes, Bool.toNat_false] at flag ⊢
      omega
  | waits used =>
      simp only [Tracked.flag, Tracked.posting, Call.posting, Tracked.took, passes,
        Bool.toNat_true] at flag ⊢
      omega
  | wakes used =>
      simp only [Tracked.flag, Tracked.posting, Call.posting, Tracked.took, passes,
        Bool.toNat_true] at flag ⊢
      omega
  | _ =>
      simp only [Tracked.flag, Tracked.posting, Call.posting, Tracked.took, passes,
        Bool.toNat_false] at flag ⊢
      omega

end Steps

/-! ## Items beyond the capacity

A blocking add may hold a ticket ahead of its slot; such an add has not posted. -/

/-- The numbers of the items that have no slot. -/
def beyond : List (List (Nat × τ)) → List Nat → List Nat
  | [], _ => []
  | items :: queues, capacities =>
      (items.drop (capacities.getD 0 0)).map Prod.fst ++ beyond queues capacities.tail

section Beyond

variable {queues : List (List (Nat × τ))} {capacities : List Nat} {number : Nat}

theorem size_le_sum_add_beyond :
    Levels.size queues ≤ capacities.sum + (beyond queues capacities).length := by
  induction queues generalizing capacities with
  | nil => exact Nat.zero_le _
  | cons items queues ih =>
      have rest : Levels.size queues ≤ capacities.tail.sum + _ := ih
      have capacity : capacities.sum = capacities.getD 0 0 + capacities.tail.sum := by
        cases capacities with
        | nil => rfl
        | cons capacity capacities => exact List.sum_cons
      have split : Levels.size (items :: queues) = items.length + Levels.size queues :=
        List.sum_cons
      rw [split, beyond, List.length_append, List.length_map, List.length_drop, capacity]
      omega

theorem beyond_sublist :
    (beyond queues capacities).Sublist (queues.flatten.map Prod.fst) := by
  induction queues generalizing capacities with
  | nil => exact .refl _
  | cons items queues ih =>
      rw [List.flatten_cons, List.map_append]
      exact ((List.drop_sublist _ items).map Prod.fst).append ih

theorem exists_level_of_mem_beyond (member : number ∈ beyond queues capacities) :
    ∃ level, number ∈ ((queues.getD level []).drop (capacities.getD level 0)).map Prod.fst := by
  induction queues generalizing capacities with
  | nil => cases member
  | cons items queues ih =>
      rcases List.mem_append.mp member with first | rest
      · exact ⟨0, first⟩
      · obtain ⟨level, found⟩ := ih rest
        refine ⟨level + 1, ?_⟩
        cases capacities with
        | nil => exact found
        | cons capacity capacities => exact found

end Beyond

def Memory.overflow (memory : Memory τ) (level : Nat) : List Nat :=
  ((memory.queues.getD level []).drop (memory.capacity level)).map Prod.fst

def Tracked.arriving (agent : Tracked τ) : Option Nat :=
  match agent.call with
  | .addWithPriority number _ _ => some number
  | _ => none

def Tracked.enqueueing (agent : Tracked τ) : Option Nat :=
  match agent.call with
  | .enqueue number _ => some number
  | _ => none

/-- The numbers of the items on their way and in the queue. -/
def numbers (memory : Memory τ) (agents : List (Tracked τ)) : List Nat :=
  agents.filterMap Tracked.arriving ++ memory.queues.flatten.map Prod.fst

structure Slotted (memory : Memory τ) (agents : List (Tracked τ)) : Prop where
  distinct : (numbers memory agents).Nodup
  numbered : ∀ number ∈ numbers memory agents, number < memory.nextNumber
  waiting : ∀ level, ∀ number ∈ memory.overflow level,
    ∃ passed, ⟨.enqueue number level, passed⟩ ∈ agents

section Slots

variable {memory after : Memory τ} {call next : Call τ} {passed later : Bool}
  {rest others : List (Tracked τ)}

theorem Slotted.reorder (same : rest.Perm others) (slotted : Slotted memory rest) :
    Slotted memory others := by
  have numbers : (numbers memory rest).Perm (numbers memory others) :=
    (same.filterMap _).append_right _
  constructor
  case distinct => exact numbers.nodup_iff.mp slotted.distinct
  case numbered => exact fun number member => slotted.numbered number (numbers.mem_iff.mpr member)
  case waiting =>
    intro level number member
    obtain ⟨passed, waits⟩ := slotted.waiting level number member
    exact ⟨passed, same.mem_iff.mp waits⟩

/-- Fewer numbers, and the adds without a slot wait on. -/
theorem Slotted.shrink {agents following : List (Tracked τ)} (slotted : Slotted memory agents)
    (sameNext : after.nextNumber = memory.nextNumber)
    (fewer : (numbers after following).Subperm (numbers memory agents))
    (waiting : ∀ level, ∀ number ∈ after.overflow level,
      ∃ passed, ⟨.enqueue number level, passed⟩ ∈ following) : Slotted after following := by
  constructor
  case distinct =>
    obtain ⟨kept, same, inside⟩ := fewer
    exact same.nodup_iff.mp (slotted.distinct.sublist inside)
  case numbered => exact fun number member => sameNext ▸ slotted.numbered number (fewer.subset member)
  case waiting => exact waiting

theorem Slotted.waiting_rest {agent : Tracked τ} (slotted : Slotted memory (agent :: rest))
    (other : agent.enqueueing = none) (level number : Nat) (member : number ∈ memory.overflow level) :
    ∃ passed, ⟨.enqueue number level, passed⟩ ∈ rest := by
  obtain ⟨passed, waits⟩ := slotted.waiting level number member
  rcases List.mem_cons.mp waits with rfl | inRest
  · cases other
  · exact ⟨passed, inRest⟩

/-- A step that leaves the levels alone. -/
theorem Slotted.still {agent following : Tracked τ} (slotted : Slotted memory (agent :: rest))
    (sameQueues : after.queues = memory.queues) (sameCapacities : after.capacities = memory.capacities)
    (sameNext : after.nextNumber = memory.nextNumber) (other : agent.enqueueing = none)
    (arriving : following.arriving = none) : Slotted after (following :: rest) := by
  apply slotted.shrink sameNext
  · rw [numbers, numbers, sameQueues, List.filterMap_cons_none arriving]
    apply List.Sublist.subperm
    apply List.Sublist.append_right
    exact (List.sublist_cons_self agent rest).filterMap _
  · intro level number member
    rw [Memory.overflow, Memory.capacity, sameQueues, sameCapacities] at member
    obtain ⟨passed, waits⟩ := slotted.waiting_rest other level number member
    exact ⟨passed, List.mem_cons_of_mem _ waits⟩

theorem drop_subset_drop_cons (item : Nat × τ) (items : List (Nat × τ)) (capacity : Nat) :
    items.drop capacity ⊆ (item :: items).drop capacity :=
  (List.drop_sublist_drop_left (item :: items) (Nat.le_succ capacity)).subset

theorem slotted_push {number level : Nat} {item : τ} {priority : Int8}
    (inside : level < memory.queues.length)
    (slotted : Slotted memory (⟨.addWithPriority number item priority, passed⟩ :: rest)) :
    Slotted { memory with queues := Levels.push memory.queues level (number, item) }
      (⟨.enqueue number level, later⟩ :: rest) := by
  refine slotted.shrink rfl ?_ ?_
  · apply List.Perm.subperm
    have pushed := (@Levels.flatten_push_perm _ _ _ (number, item) inside).map Prod.fst
    exact (pushed.append_left _).trans List.perm_middle
  · intro position other member
    obtain ⟨entry, dropped, rfl⟩ := List.mem_map.mp member
    rw [Levels.getD_push] at dropped
    split at dropped
    · next same =>
        obtain ⟨rfl, -⟩ := same
        rw [List.drop_append] at dropped
        rcases List.mem_append.mp dropped with old | new
        · obtain ⟨passed, waits⟩ := slotted.waiting_rest rfl level entry.1
            (List.mem_map.mpr ⟨entry, old, rfl⟩)
          exact ⟨passed, List.mem_cons_of_mem _ waits⟩
        · rw [List.mem_singleton.mp (List.mem_of_mem_drop new)]
          exact ⟨later, List.mem_cons_self⟩
    · obtain ⟨passed, waits⟩ := slotted.waiting_rest rfl position entry.1
        (List.mem_map.mpr ⟨entry, dropped, rfl⟩)
      exact ⟨passed, List.mem_cons_of_mem _ waits⟩

theorem slotted_pop {timed : Bool} {level : Nat} {entry : Nat × τ} {queues : List (List (Nat × τ))}
    (popped : Levels.pop memory.queues level = some (entry, queues))
    (slotted : Slotted memory (⟨.nonBlockingTake timed level, passed⟩ :: rest)) :
    Slotted { memory with queues := queues } (⟨.returned (some entry), later⟩ :: rest) := by
  refine slotted.shrink rfl ?_ ?_
  · have taken := (Levels.flatten_pop_perm popped).map Prod.fst
    apply List.Subperm.trans _ (taken.symm.append_left _).subperm
    exact ((List.sublist_cons_self _ _).append_left _).subperm
  · intro position number member
    obtain ⟨other, dropped, rfl⟩ := List.mem_map.mp member
    have before : other ∈ (memory.queues.getD position []).drop (memory.capacity position) := by
      rw [Levels.getD_pop popped]
      split
      · exact drop_subset_drop_cons entry _ _ dropped
      · exact dropped
    obtain ⟨passed, waits⟩ := slotted.waiting_rest rfl position other.1
      (List.mem_map.mpr ⟨other, before, rfl⟩)
    exact ⟨passed, List.mem_cons_of_mem _ waits⟩

theorem slotted_step (stepped : Step memory after call next)
    (slotted : Slotted memory (⟨call, passed⟩ :: rest)) : Slotted after (⟨next, later⟩ :: rest) := by
  cases stepped with
  | pushes inside => exact slotted_push inside slotted
  | takes popped => exact slotted_pop popped slotted
  | @slotted number level free =>
      refine slotted.shrink rfl (.refl _) ?_
      intro position other member
      obtain ⟨passed, waits⟩ := slotted.waiting position other member
      rcases List.mem_cons.mp waits with head | inRest
      · -- the item of this add has its slot
        cases head
        exact absurd rfl (of_decide_eq_true (List.all_eq_true.mp free _ member))
      · exact ⟨passed, List.mem_cons_of_mem _ inRest⟩
  | _ => exact slotted.still rfl rfl rfl rfl rfl

theorem slotted_invoke (invocation : Invocation τ) (slotted : Slotted memory rest) :
    Slotted (invoke memory invocation).1
      ((invoke memory invocation).2.map (⟨·, false⟩) ++ rest) := by
  have waiting : ∀ (agent : Tracked τ) level, ∀ number ∈ memory.overflow level,
      ∃ passed, ⟨.enqueue number level, passed⟩ ∈ agent :: rest := by
    intro agent level number member
    obtain ⟨passed, waits⟩ := slotted.waiting level number member
    exact ⟨passed, List.mem_cons_of_mem _ waits⟩
  have arrives : ∀ (item : τ) (priority : Int8),
      Slotted { memory with nextNumber := memory.nextNumber + 1 }
        (⟨.addWithPriority memory.nextNumber item priority, false⟩ :: rest) := by
    intro item priority
    constructor
    case distinct =>
      apply List.nodup_cons.mpr
      exact ⟨fun member => absurd (slotted.numbered _ member) (Nat.lt_irrefl _), slotted.distinct⟩
    case numbered =>
      intro number member
      rcases List.mem_cons.mp member with rfl | old
      · exact Nat.lt_succ_self _
      · exact Nat.lt_succ_of_lt (slotted.numbered number old)
    case waiting => exact waiting _
  cases invocation with
  | add item => exact arrives item Executor.MID_PRI
  | addWithPriority item priority => exact arrives item priority
  | take timed => exact slotted.shrink rfl (.refl _) (waiting _)

end Slots

/-! ## Runs -/

/-- What holds of the levels, the permits and the calls. -/
structure Consistent (capacities : List Nat) (memory : Memory τ) (agents : List (Tracked τ)) :
    Prop where
  capacities : memory.capacities = capacities.reverse
  slotted : Slotted memory agents
  balanced : Balanced memory agents

section Runs

variable {behavior : QueueBehaviorIfFull} {capacities : List Nat}
  {state : Global (Memory τ) (Tracked τ)} {memory after : Memory τ} {call next : Call τ}

theorem capacities_of_step (stepped : Step memory after call next) :
    after.capacities = memory.capacities := by
  cases stepped <;> rfl

theorem consistent (reached : Reachable (tracked behavior capacities) anySchedule state) :
    Consistent capacities state.shared state.agents := by
  apply Reaches.invariant (Consistent capacities) _ _ _ _ reached
  · rintro memory agents others same ⟨sameCapacities, slotted, balanced⟩
    refine ⟨sameCapacities, slotted.reorder same, ?_⟩
    rw [Balanced, ← total_perm same, ← total_perm same, ← total_perm same]
    exact balanced
  · have empty : (List.replicate capacities.length ([] : List (Nat × τ))).flatten = [] := by
      simp
    have level_empty : ∀ level,
        (List.replicate capacities.length ([] : List (Nat × τ))).getD level [] = [] := by
      intro level
      rw [List.getD_eq_getElem?_getD, List.getElem?_replicate]
      split <;> rfl
    have none_queued : numbers (tracked behavior capacities).init.shared [] = [] :=
      congrArg (List.map (Prod.fst : Nat × τ → Nat)) empty
    constructor
    case capacities => rfl
    case slotted =>
      constructor
      case distinct => exact none_queued ▸ .nil
      case numbered => exact fun number member => nomatch none_queued ▸ member
      case waiting =>
        intro level number member
        obtain ⟨entry, inside, _⟩ := List.mem_map.mp member
        have dropped := List.mem_of_mem_drop inside
        rw [show (tracked behavior capacities).init.shared.queues.getD level [] = [] from
          level_empty level] at dropped
        cases dropped
    case balanced => exact Nat.zero_le _
  · rintro state index choice agent memory left _ _ _ acted ⟨sameCapacities, slotted, balanced⟩
    obtain ⟨⟨moved, following⟩, stepped, same⟩ := Option.map_eq_some_iff.mp acted
    cases same
    obtain ⟨next, rfl, step⟩ := step_of_act stepped
    exact ⟨(capacities_of_step step).trans sameCapacities, slotted_step step slotted,
      balanced_step step balanced⟩
  · rintro state invocation memory left _ _ begun ⟨sameCapacities, slotted, balanced⟩
    cases begun
    refine ⟨?_, slotted_invoke invocation slotted, ?_⟩
    · cases invocation <;> exact sameCapacities
    · cases invocation <;>
        simpa [Balanced, invoke, Tracked.flag, Tracked.posting, Call.posting, Tracked.took]
          using balanced

theorem tracked_step {state next : Global (Memory τ) (Call τ)} {agents : List (Tracked τ)}
    {label : Label CountingSemaphore.Ending (Invocation τ)}
    (moved : (system behavior capacities).step state label = some next)
    (same : agents.map Tracked.call = state.agents) :
    ∃ left, (tracked behavior capacities).step ⟨state.shared, agents⟩ label =
      some ⟨next.shared, left⟩ ∧ left.map Tracked.call = next.agents := by
  cases label with
  | act index choice =>
      obtain ⟨call, shared, left, found, acted, rfl⟩ := step_act moved
      rw [← same, List.getElem?_map] at found
      obtain ⟨agent, here, rfl⟩ := Option.map_eq_some_iff.mp found
      have stepped : PriorityLifoSemMPMCQueue.act choice state.shared agent.call =
          some (shared, left) := acted
      refine ⟨_, by simp only [System.step, here, tracked, stepped, Option.map_some]; rfl, ?_⟩
      rw [List.map_append, List.map_map, ← same, List.eraseIdx_map]
      exact congrArg (· ++ _) (List.map_id left)
  | env invocation =>
      obtain ⟨shared, left, acted, rfl⟩ := step_env moved
      have begun : invoke state.shared invocation = (shared, left) := Option.some.inj acted
      refine ⟨_, by simp only [System.step, tracked, begun]; rfl, ?_⟩
      rw [List.map_append, List.map_map, same]
      exact congrArg (· ++ _) (List.map_id left)

/-- The record follows every run of the queue. -/
theorem exists_tracked {state : Global (Memory τ) (Call τ)}
    (reached : Reachable (system behavior capacities) anySchedule state) :
    ∃ agents, Reachable (tracked behavior capacities) anySchedule ⟨state.shared, agents⟩ ∧
      agents.map Tracked.call = state.agents := by
  induction reached with
  | refl => exact ⟨[], .refl, rfl⟩
  | step _ _ moved ih =>
      obtain ⟨agents, reached, same⟩ := ih
      obtain ⟨left, stepped, sameLeft⟩ := tracked_step moved same
      exact ⟨left, .step reached trivial stepped, sameLeft⟩

end Runs

section Bounds

variable {memory : Memory τ} {agents : List (Tracked τ)}

theorem took_le (agent : Tracked τ) : agent.took ≤ agent.unpaid + agent.flag := by
  obtain ⟨call, passed⟩ := agent
  cases call with
  | returned result =>
      cases result <;> cases passed <;> simp [Tracked.took, Tracked.unpaid, Tracked.flag]
  | _ => exact Nat.zero_le _

theorem length_enqueueing_le :
    (agents.filterMap Tracked.enqueueing).length ≤ total Tracked.posting agents := by
  induction agents with
  | nil => exact Nat.le_refl 0
  | cons agent agents ih =>
      rw [total_cons]
      obtain ⟨call, passed⟩ := agent
      cases call with
      | enqueue number level =>
          change (number :: agents.filterMap Tracked.enqueueing).length ≤ 1 + _
          rw [List.length_cons, Nat.add_comm]
          exact Nat.add_le_add_left ih 1
      | _ =>
          rw [List.filterMap_cons_none rfl]
          exact Nat.le_trans ih (Nat.le_add_left _ _)

/-- The items without a slot belong to adds that have not posted. -/
theorem length_beyond_le (slotted : Slotted memory agents) :
    (beyond memory.queues memory.capacities).length ≤ total Tracked.posting agents := by
  have distinct : (beyond memory.queues memory.capacities).Nodup :=
    ((List.nodup_append.mp slotted.distinct).2.1).sublist beyond_sublist
  have owned : beyond memory.queues memory.capacities ⊆
      agents.filterMap Tracked.enqueueing := by
    intro number member
    obtain ⟨level, found⟩ := exists_level_of_mem_beyond member
    obtain ⟨passed, waits⟩ := slotted.waiting level number found
    exact List.mem_filterMap.mpr ⟨_, waits, rfl⟩
  exact Nat.le_trans (distinct.length_le_of_subset owned) length_enqueueing_le

end Bounds

theorem value_le {behavior : QueueBehaviorIfFull} {capacities : List Nat}
    {state : Global (Memory τ) (Tracked τ)}
    (reached : Reachable (tracked behavior capacities) anySchedule state) :
    state.shared.sem.value ≤ capacities.sum + total Tracked.unpaid state.agents := by
  obtain ⟨sameCapacities, slotted, balanced⟩ := consistent reached
  have unslotted := length_beyond_le slotted
  have held : Levels.size state.shared.queues ≤ state.shared.capacities.sum + _ :=
    size_le_sum_add_beyond
  have took : total Tracked.took state.agents ≤
      total Tracked.unpaid state.agents + total Tracked.flag state.agents := by
    rw [← total_add]
    exact total_le_total fun agent _ => took_le agent
  have value : state.shared.sem.value ≤ state.shared.sem.permits := Nat.le_add_right _ _
  rw [sameCapacities] at unslotted held
  rw [List.sum_reverse_nat] at held
  unfold Balanced at balanced
  omega

/-! ## Drift -/

/-- An add, and a take that finds its item at once. -/
def pair (item : τ) : List (Label CountingSemaphore.Ending (Invocation τ)) :=
  [.env (.add item), .act 0 .handoff, .act 0 .handoff, .act 0 .handoff, .env (.take false),
    .act 0 .handoff]

private def drifted (value : Nat) (calls : List (Call τ)) : Global (Memory τ) (Call τ) :=
  ⟨{ sem := { value := value }
     queues := [[]]
     capacities := [1]
     behavior := .throw
     nextNumber := value }, calls⟩

private theorem run_pair (item : τ) (value : Nat) (calls : List (Call τ)) :
    (system .throw [1]).run (drifted value calls) (pair item) =
      some (drifted (value + 1) (.returned (some (value, item)) :: .added value :: calls)) := by
  rfl

/-- With one slot and one call at a time the value takes every number. -/
theorem value_drifts (item : τ) (value : Nat) :
    ∃ state : Global (Memory τ) (Call τ), Reachable (system .throw [1]) anySchedule state ∧
      state.shared.sem.value = value ∧ total Call.inProgress state.agents = 0 := by
  have drifts : ∃ calls : List (Call τ),
      Reachable (system .throw [1]) anySchedule (drifted value calls) ∧
        total Call.inProgress calls = 0 := by
    induction value with
    | zero => exact ⟨[], .refl, rfl⟩
    | succ value ih =>
        obtain ⟨calls, reached, idle⟩ := ih
        refine ⟨_, reached.run (run_pair item value calls), ?_⟩
        rw [total_cons, total_cons, idle]
        rfl
  obtain ⟨calls, reached, idle⟩ := drifts
  exact ⟨_, reached, rfl, idle⟩

/-- The value of the semaphore is at most the capacity and the takes so far that
did not use it; how many those are has no bound. -/
theorem semaphore_value_le (behavior : QueueBehaviorIfFull) (capacities : List Nat)
    (state : Global (Memory τ) (Tracked τ))
    (reached : Reachable (tracked behavior capacities) anySchedule state) :
    state.shared.sem.value ≤ capacities.sum + total Tracked.unpaid state.agents ∧
      (Nonempty τ → ∀ value, ∃ state : Global (Memory τ) (Call τ),
        Reachable (system .throw [1]) anySchedule state ∧
          state.shared.sem.value = value ∧ total Call.inProgress state.agents = 0) :=
  ⟨value_le reached, fun some => some.elim value_drifts⟩

/-- Two adds and two takes later the value is two, with one slot and no call in
progress. -/
theorem not_semaphore_value_le :
    ¬∀ (behavior : QueueBehaviorIfFull) (capacities : List Nat)
      (state : Global (Memory Nat) (Call Nat)),
      Reachable (system behavior capacities) anySchedule state →
        state.shared.sem.value ≤ capacities.sum + total Call.inProgress state.agents := by
  intro bounded
  have replayed : (system .throw [1]).run (system .throw [1]).init (pair 0 ++ pair 0) =
      some (drifted 2 [.returned (some (1, 0)), .added 1, .returned (some (0, 0)), .added 0]) := by
    rfl
  exact absurd (bounded _ _ _ (Reachable.init.run replayed)) (by decide)

theorem semaphore_value_le_two :
    ∃ state : Global (Memory Nat) (Tracked Nat), state.shared.sem.value = 2 ∧
      total Tracked.unpaid state.agents = 2 ∧
      state.shared.sem.value ≤ [1].sum + total Tracked.unpaid state.agents := by
  have replayed : ((tracked .throw [1]).run (tracked .throw [1]).init (pair 0 ++ pair 0)).map
      (fun state => (state.shared.sem.value, total Tracked.unpaid state.agents)) = some (2, 2) := by
    rfl
  obtain ⟨state, ran, same⟩ := Option.map_eq_some_iff.mp replayed
  obtain ⟨value, unpaid⟩ := Prod.mk.inj same
  exact ⟨state, value, unpaid,
    (semaphore_value_le .throw [1] state (Reachable.init.run ran)).1⟩

end ThreadPoolExec.PriorityLifoSemMPMCQueue
