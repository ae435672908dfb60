import ThreadPoolExec.CountingSemaphore
import ThreadPoolExec.Interleaving
import ThreadPoolExec.Levels
import ThreadPoolExec.MPMCQueue.Slots
import ThreadPoolExec.TaskQueue.Priority

/-!
# The bounded priority queue

Every call on one `PriorityLifoSemMPMCQueue` is an agent; `LifoSemMPMCQueue`
is the case of one level. A taker scans the levels first, takes an item
without asking for a permit, and waits only after a scan that found nothing.
-/

set_option autoImplicit false

namespace ThreadPoolExec.PriorityLifoSemMPMCQueue

open Interleaving

universe u

variable {τ : Type u}

/-- `sem_` and `queues_`, in the order in which `nonBlockingTake` probes them.
Every item carries the number of the add that brought it. -/
structure Memory (τ : Type u) where
  sem : CountingSemaphore := {}
  queues : List (List (Nat × τ))
  capacities : List Nat
  behavior : QueueBehaviorIfFull
  nextNumber : Nat := 0

/-- Where a call is. -/
inductive Call (τ : Type u) where
  | addWithPriority (number : Nat) (item : τ) (priority : Int8)
  | enqueue (number : Nat) (level : Nat)
  | post (number : Nat)
  | nonBlockingTake (timed : Bool) (level : Nat)
  | semWait (timed : Bool)
  | asleep (timed : Bool)
  | added (number : Nat)
  | queueFull (number : Nat)
  | returned (result : Option (Nat × τ))
deriving DecidableEq, Repr

/-- The calls a client may make: `take` is not timed, `try_take_for` is. -/
inductive Invocation (τ : Type u) where
  | add (item : τ)
  | addWithPriority (item : τ) (priority : Int8)
  | take (timed : Bool)

def invoke (memory : Memory τ) : Invocation τ → Memory τ × List (Call τ)
  | .add item =>
      ({ memory with nextNumber := memory.nextNumber + 1 },
        [.addWithPriority memory.nextNumber item Executor.MID_PRI])
  | .addWithPriority item priority =>
      ({ memory with nextNumber := memory.nextNumber + 1 },
        [.addWithPriority memory.nextNumber item priority])
  | .take timed => (memory, [.nonBlockingTake timed 0])

def Memory.capacity (memory : Memory τ) (level : Nat) : Nat :=
  memory.capacities.getD level 0

/-- The test for a full level. -/
def Memory.full (memory : Memory τ) (level : Nat) : Bool :=
  MPMCQueue.full (memory.capacity level) (memory.queues.getD level []).length 0

/-- The item of an add has a slot, or a taker has claimed it already. -/
def Memory.slotted (memory : Memory τ) (number level : Nat) : Bool :=
  (((memory.queues.getD level []).drop (memory.capacity level)).map Prod.fst).all (· ≠ number)

/-- One step of a call. An item is in its level from its push ticket on; a
blocking write that got a ticket ahead of its slot waits in `enqueue`. -/
def act (choice : CountingSemaphore.Ending) (memory : Memory τ) :
    Call τ → Option (Memory τ × List (Call τ))
  | .addWithPriority number item priority =>
      match level? memory.queues.length priority with
      | none => none
      | some level =>
          if memory.behavior = .throw ∧ memory.full level then
            some (memory, [.queueFull number])
          else
            some ({ memory with queues := Levels.push memory.queues level (number, item) },
              [.enqueue number level])
  | .enqueue number level =>
      if memory.slotted number level then some (memory, [.post number]) else none
  | .post number =>
      some ({ memory with sem := (memory.sem.post (choice = .handoff)).1 }, [.added number])
  | .nonBlockingTake timed level =>
      if level < memory.queues.length then
        match Levels.pop memory.queues level with
        | some (entry, queues) =>
            some ({ memory with queues := queues }, [.returned (some entry)])
        | none => some (memory, [.nonBlockingTake timed (level + 1)])
      else some (memory, [.semWait timed])
  | .semWait timed =>
      match memory.sem.tryWait with
      | some sem => some ({ memory with sem := sem }, [.nonBlockingTake timed 0])
      | none => some ({ memory with sem := memory.sem.sleep }, [.asleep timed])
  | .asleep timed =>
      match memory.sem.endWait timed choice with
      | none => none
      | some (sem, true) => some ({ memory with sem := sem }, [.nonBlockingTake timed 0])
      | some (sem, false) => some ({ memory with sem := sem }, [.returned none])
  | .added _ | .queueFull _ | .returned _ => none

/-- A queue with the capacities in the order of `queues_`. -/
def system (behavior : QueueBehaviorIfFull) (capacities : List Nat) :
    System (Memory τ) (Call τ) CountingSemaphore.Ending (Invocation τ) where
  init := ⟨{
    queues := List.replicate capacities.length []
    capacities := capacities.reverse
    behavior := behavior }, []⟩
  act := act
  env invocation memory := some (invoke memory invocation)

/-- Adds whose item is in the queue and that have not posted yet. -/
def Call.posting : Call τ → Nat
  | .enqueue _ _ | .post _ => 1
  | _ => 0

/-- Takers that have still to probe a level before a given one. -/
def Call.scanning (level : Nat) : Call τ → Nat
  | .nonBlockingTake _ position => if position < level then 1 else 0
  | _ => 0

/-- Takers that run rather than sleep in the semaphore wait. -/
def Call.awake : Call τ → Nat
  | .nonBlockingTake _ _ | .semWait _ => 1
  | _ => 0

/-- Before every level, each item is matched by a permit, by a taker that has
still to come past it, or by its add's pending post. -/
def Matched (memory : Memory τ) (calls : List (Call τ)) : Prop :=
  ∀ level ≤ memory.queues.length,
    Levels.before memory.queues level ≤
      memory.sem.permits + total (Call.scanning level) calls + total Call.posting calls

private theorem matched_reorder {memory : Memory τ} {calls others : List (Call τ)}
    (same : calls.Perm others) (matched : Matched memory calls) : Matched memory others := by
  intro level inside
  rw [← total_perm same, ← total_perm same]
  exact matched level inside

private theorem matched_replace {memory : Memory τ} {rest : List (Call τ)} {call next : Call τ}
    (matched : Matched memory (call :: rest)) (posting : call.posting ≤ next.posting)
    (scanning : ∀ level ≤ memory.queues.length, call.scanning level ≤ next.scanning level) :
    Matched memory (next :: rest) := by
  intro level inside
  have before := matched level inside
  have passed := scanning level inside
  simp only [total_cons] at before ⊢
  omega

/-- A permit is given up for a scan that starts over. -/
private theorem matched_rescan {memory : Memory τ} {rest : List (Call τ)} {call : Call τ}
    {sem : CountingSemaphore} {timed : Bool} (posting : call.posting = 0)
    (scanning : ∀ level, call.scanning level = 0)
    (passed : memory.sem.permits = sem.permits + 1) (matched : Matched memory (call :: rest)) :
    Matched { memory with sem := sem } (.nonBlockingTake timed 0 :: rest) := by
  intro level inside
  cases level with
  | zero => simp
  | succ level =>
      have before := matched (level + 1) inside
      rw [total_cons, total_cons, posting, scanning] at before
      simp only [total_cons, Call.posting, Call.scanning, Nat.succ_pos, if_true]
      omega

private theorem matched_act {memory next : Memory τ} {rest left : List (Call τ)} {call : Call τ}
    {choice : CountingSemaphore.Ending} (acted : act choice memory call = some (next, left))
    (matched : Matched memory (call :: rest)) : Matched next (left ++ rest) := by
  cases call with
  | addWithPriority number item priority =>
      simp only [act] at acted
      cases found : level? memory.queues.length priority with
      | none => simp only [found, reduceCtorEq] at acted
      | some target =>
          simp only [found] at acted
          split at acted
          · cases acted
            exact matched_replace matched (Nat.le_refl _) fun _ _ => Nat.le_refl _
          · cases acted
            intro level inside
            have before := matched level (by simpa using inside)
            simp only [List.singleton_append, total_cons, Call.posting, Call.scanning,
              Levels.before_push (level?_lt found)] at before ⊢
            split_ifs <;> omega
  | enqueue number level =>
      simp only [act] at acted
      split at acted
      · cases acted
        exact matched_replace matched (Nat.le_refl _) fun _ _ => Nat.le_refl _
      · cases acted
  | post number =>
      cases acted
      intro level inside
      have before := matched level inside
      simp only [List.singleton_append, total_cons, Call.posting, Call.scanning,
        CountingSemaphore.post_permits] at before ⊢
      omega
  | nonBlockingTake timed position =>
      simp only [act] at acted
      split at acted
      · next inside =>
          cases popped : Levels.pop memory.queues position with
          | some result =>
              obtain ⟨entry, queues⟩ := result
              simp only [popped] at acted
              cases acted
              intro level bound
              have before := matched level ((Levels.length_pop popped).symm ▸ bound)
              simp only [List.singleton_append, total_cons, Call.posting, Call.scanning,
                Levels.before_pop popped] at before ⊢
              omega
          | none =>
              simp only [popped] at acted
              cases acted
              have empty : memory.queues[position]? = some [] :=
                (Levels.pop_eq_none_iff.mp popped).resolve_left (by simpa using inside)
              intro level bound
              by_cases passed : level = position + 1
              · -- the level just probed is empty, so the count up to the one before it will do
                subst passed
                have before := matched position (Nat.le_of_lt inside)
                have weaker : total (Call.scanning position) rest ≤
                    total (Call.scanning (position + 1)) rest :=
                  total_le_total fun call _ => by
                    cases call <;> simp only [Call.scanning, Nat.le_refl]
                    split_ifs <;> omega
                rw [Levels.before_succ_of_empty empty]
                simp only [List.singleton_append, total_cons, Call.posting, Call.scanning,
                  Nat.lt_irrefl, if_false] at before ⊢
                omega
              · have before := matched level bound
                simp only [List.singleton_append, total_cons, Call.posting,
                  Call.scanning] at before ⊢
                split_ifs at before ⊢ <;> omega
      · next outside =>
          cases acted
          refine matched_replace matched (Nat.le_refl _) fun level bound => ?_
          simp only [Call.scanning]
          split_ifs <;> omega
  | semWait timed =>
      simp only [act] at acted
      cases waited : memory.sem.tryWait with
      | some sem =>
          simp only [waited] at acted
          cases acted
          exact matched_rescan rfl (fun _ => rfl) (CountingSemaphore.tryWait_permits waited) matched
      | none =>
          simp only [waited] at acted
          cases acted
          have asleep : Matched memory (.asleep timed :: rest) :=
            matched_replace matched (Nat.le_refl _) fun _ _ => Nat.le_refl _
          exact asleep
  | asleep timed =>
      simp only [act] at acted
      split at acted
      · cases acted
      · next sem ended =>
          cases acted
          exact matched_rescan rfl (fun _ => rfl) (CountingSemaphore.endWait_permits ended) matched
      · next sem ended =>
          cases acted
          have unchanged := CountingSemaphore.endWait_permits ended
          intro level bound
          have before := matched level bound
          simp only [Bool.false_eq_true, if_false] at unchanged
          simp only [List.singleton_append, total_cons, Call.posting, Call.scanning] at before ⊢
          omega
  | added number => cases acted
  | queueFull number => cases acted
  | returned result => cases acted

theorem reachable_matched {behavior : QueueBehaviorIfFull} {capacities : List Nat}
    {state : Global (Memory τ) (Call τ)}
    (reached : Reachable (system behavior capacities) anySchedule state) :
    Matched state.shared state.agents := by
  refine Reaches.invariant Matched matched_reorder ?_
    (fun _ _ _ acted matched => matched_act acted matched) ?_ reached
  · intro level _
    simp [system, Levels.before]
  · intro before invocation shared left _ _ acted matched level inside
    simp only [system, Option.some.injEq] at acted
    cases invocation <;>
      · cases acted
        have before := matched level inside
        simp only [List.singleton_append, total_cons, Call.posting, Call.scanning]
        omega

/-- The semaphore has nothing to give and every taker sleeps on it. -/
structure Stalled (state : Global (Memory τ) (Call τ)) : Prop where
  value : state.shared.sem.value = 0
  woken : state.shared.sem.woken = 0
  asleep : total Call.awake state.agents = 0

/-- An item is unclaimed although its add has returned. -/
def Overdue (state : Global (Memory τ) (Call τ)) : Prop :=
  ∃ number, .added number ∈ state.agents ∧
    ∃ items ∈ state.shared.queues, ∃ item, (number, item) ∈ items

/-- While every taker sleeps, each unclaimed item has an add that has written
its item and not posted yet. -/
theorem unclaimed_le_pending_posts (behavior : QueueBehaviorIfFull) (capacities : List Nat)
    (state : Global (Memory τ) (Call τ))
    (reached : Reachable (system behavior capacities) anySchedule state)
    (stalled : Stalled state) :
    Levels.size state.shared.queues ≤ total Call.posting state.agents ∧
      (Overdue state → ∃ number, .post number ∈ state.agents ∨
        ∃ level, .enqueue number level ∈ state.agents) := by
  have matched := reachable_matched reached state.shared.queues.length (Nat.le_refl _)
  have idle : total (Call.scanning state.shared.queues.length) state.agents ≤
      total Call.awake state.agents :=
    total_le_total fun call _ => by
      cases call <;> simp only [Call.scanning, Call.awake, Nat.le_refl, Nat.zero_le]
      split_ifs <;> omega
  rw [Levels.before_of_length_le (Nat.le_refl _), CountingSemaphore.permits, stalled.value,
    stalled.woken] at matched
  have covered : Levels.size state.shared.queues ≤ total Call.posting state.agents := by
    have := stalled.asleep
    omega
  refine ⟨covered, ?_⟩
  rintro ⟨number, -, items, member, item, holds⟩
  have unclaimed := Levels.size_pos_of_mem member holds
  obtain ⟨call, pending, posting⟩ := total_pos_iff.mp (Nat.lt_of_lt_of_le unclaimed covered)
  cases call with
  | post other => exact ⟨other, .inl pending⟩
  | enqueue other level => exact ⟨other, .inr ⟨level, pending⟩⟩
  | _ => exact absurd posting (Nat.lt_irrefl 0)

/-- Two takers sleep; the second add to write its item is the first to post,
and the taker it wakes leaves with the item of the other. -/
def overtakenPost : List (Label CountingSemaphore.Ending (Invocation Nat)) :=
  [.env (.take false), .act 0 .handoff, .act 0 .handoff, .act 0 .handoff,
    .env (.take false), .act 0 .handoff, .act 0 .handoff, .act 0 .handoff,
    .env (.add 10), .act 0 .handoff, .act 0 .handoff,
    .env (.add 20), .act 0 .handoff, .act 0 .handoff, .act 0 .handoff,
    .act 2 .handoff, .act 0 .handoff]

def overtaken : Global (Memory Nat) (Call Nat) :=
  ⟨{ sem := { sleeping := 1 }
     queues := [[(1, 20)]]
     capacities := [2]
     behavior := .throw
     nextNumber := 2 },
    [.returned (some (0, 10)), .added 1, .post 0, .asleep false]⟩

private theorem overtakenPost_run :
    (system .throw [2]).run (system .throw [2]).init overtakenPost = some overtaken := by
  rfl

private theorem overtaken_stalled : Stalled overtaken := ⟨rfl, rfl, rfl⟩

/-- The add of an item has returned, a taker sleeps, and no permit is left. -/
theorem overdue_while_stalled :
    ∃ state, Reachable (system .throw [2]) anySchedule state ∧ Stalled state ∧
      Overdue (τ := Nat) state ∧ .asleep false ∈ state.agents := by
  refine ⟨overtaken, Reachable.init.run overtakenPost_run, overtaken_stalled, ?_, by decide⟩
  exact ⟨1, by decide, _, List.mem_cons_self, 20, List.mem_cons_self⟩

theorem unclaimed_le_pending_posts_overtaken :
    Levels.size overtaken.shared.queues ≤ total Call.posting overtaken.agents :=
  (unclaimed_le_pending_posts .throw [2] overtaken (Reachable.init.run overtakenPost_run)
    overtaken_stalled).1

end ThreadPoolExec.PriorityLifoSemMPMCQueue
