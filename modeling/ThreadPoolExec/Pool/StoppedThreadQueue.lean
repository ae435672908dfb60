import Mathlib.Data.List.Nodup
import ThreadPoolExec.CountingSemaphore
import ThreadPoolExec.Quiescence

/-!
# The queue of stopped threads

Every call on `stoppedThreads_` is an agent. An add keeps `mutex_` from its
push to its post; the other calls take it for one look at the queue. A taker
looks before it asks for a permit, so the value of `sem_` runs ahead of what
the queue holds.
-/

set_option autoImplicit false

namespace ThreadPoolExec.StoppedThreadQueue

open Interleaving

universe u

variable {τ : Type u}

/-- `mutex` tells whether an add is between its push and its post. A thread
carries the number of the add that brought it; `pushed` and `popped` have all
that came and went, in order. -/
structure Memory (τ : Type u) where
  sem : CountingSemaphore := {}
  queue : List (Nat × τ) := []
  mutex : Bool := false
  nextNumber : Nat := 0
  pushed : List (Nat × τ) := []
  popped : List (Nat × τ) := []

/-- Where a call is. `take` is not timed, `try_take_for` is. -/
inductive Call (τ : Type u) where
  | add (number : Nat) (item : τ)
  | post (number : Nat)
  | take (timed : Bool)
  | semWait (timed : Bool)
  | asleep (timed : Bool)
  | size
  | added (number : Nat) (reusedThread : Bool)
  | returned (result : Option (Nat × τ))
  | sized (size : Nat)
deriving DecidableEq, Repr

inductive Invocation (τ : Type u) where
  | add (item : τ)
  | take (timed : Bool)
  | size

def invoke (memory : Memory τ) : Invocation τ → Memory τ × List (Call τ)
  | .add item =>
      ({ memory with nextNumber := memory.nextNumber + 1 }, [.add memory.nextNumber item])
  | .take timed => (memory, [.take timed])
  | .size => (memory, [.size])

/-- One step of a call. -/
def act (choice : CountingSemaphore.Ending) (memory : Memory τ) :
    Call τ → Option (Memory τ × List (Call τ))
  | .add number item =>
      if memory.mutex then none
      else
        some ({ memory with
            queue := memory.queue ++ [(number, item)]
            pushed := memory.pushed ++ [(number, item)]
            mutex := true },
          [.post number])
  | .post number =>
      let (sem, reusedThread) := memory.sem.post (choice = .handoff)
      some ({ memory with sem := sem, mutex := false }, [.added number reusedThread])
  | .take timed =>
      if memory.mutex then none
      else
        match memory.queue with
        | [] => some (memory, [.semWait timed])
        | entry :: rest =>
            some ({ memory with queue := rest, popped := memory.popped ++ [entry] },
              [.returned (some entry)])
  | .semWait timed =>
      match memory.sem.tryWait with
      | some sem => some ({ memory with sem := sem }, [.take timed])
      | none => some ({ memory with sem := memory.sem.sleep }, [.asleep timed])
  | .asleep timed =>
      match memory.sem.endWait timed choice with
      | none => none
      | some (sem, true) => some ({ memory with sem := sem }, [.take timed])
      | some (sem, false) => some ({ memory with sem := sem }, [.returned none])
  | .size => if memory.mutex then none else some (memory, [.sized memory.queue.length])
  | .added _ _ | .returned _ | .sized _ => none

def system : System (Memory τ) (Call τ) CountingSemaphore.Ending (Invocation τ) where
  init := ⟨{}, []⟩
  act := act
  env invocation memory := some (invoke memory invocation)

/-! ## Steps -/

/-- What a step of a call does. -/
inductive Step (memory : Memory τ) : Memory τ → Call τ → Call τ → Prop where
  | pushes {number : Nat} {item : τ} : memory.mutex = false →
      Step memory
        { memory with
          queue := memory.queue ++ [(number, item)]
          pushed := memory.pushed ++ [(number, item)]
          mutex := true }
        (.add number item) (.post number)
  | posts {number : Nat} {sem : CountingSemaphore} {reusedThread : Bool} :
      sem.permits = memory.sem.permits + 1 →
      sem.sleeping + sem.woken = memory.sem.sleeping + memory.sem.woken →
      Step memory { memory with sem := sem, mutex := false } (.post number)
        (.added number reusedThread)
  | takes {timed : Bool} {entry : Nat × τ} {rest : List (Nat × τ)} : memory.mutex = false →
      memory.queue = entry :: rest →
      Step memory { memory with queue := rest, popped := memory.popped ++ [entry] }
        (.take timed) (.returned (some entry))
  | finds {timed : Bool} : memory.mutex = false → memory.queue = [] →
      Step memory memory (.take timed) (.semWait timed)
  | passes {timed : Bool} {sem : CountingSemaphore} : memory.sem.permits = sem.permits + 1 →
      sem.sleeping + sem.woken = memory.sem.sleeping + memory.sem.woken →
      Step memory { memory with sem := sem } (.semWait timed) (.take timed)
  | sleeps {timed : Bool} :
      Step memory { memory with sem := memory.sem.sleep } (.semWait timed) (.asleep timed)
  | wakes {timed : Bool} {sem : CountingSemaphore} : memory.sem.permits = sem.permits + 1 →
      memory.sem.sleeping + memory.sem.woken = sem.sleeping + sem.woken + 1 →
      Step memory { memory with sem := sem } (.asleep timed) (.take timed)
  | expires {timed : Bool} {sem : CountingSemaphore} : memory.sem.permits = sem.permits →
      memory.sem.sleeping + memory.sem.woken = sem.sleeping + sem.woken + 1 →
      Step memory { memory with sem := sem } (.asleep timed) (.returned none)
  | counts : memory.mutex = false → Step memory memory .size (.sized memory.queue.length)

theorem step_of_act {choice : CountingSemaphore.Ending} {memory after : Memory τ} {call : Call τ}
    {left : List (Call τ)} (acted : act choice memory call = some (after, left)) :
    ∃ next, left = [next] ∧ Step memory after call next := by
  cases call with
  | add number item =>
      simp only [act] at acted
      split at acted
      · cases acted
      · next free =>
          cases acted
          exact ⟨_, rfl, .pushes (Bool.eq_false_iff.mpr free)⟩
  | post number =>
      cases acted
      exact ⟨_, rfl, .posts (CountingSemaphore.post_permits _) (CountingSemaphore.post_waiting _)⟩
  | take timed =>
      simp only [act] at acted
      split at acted
      · cases acted
      · next free =>
          split at acted
          · next empty =>
              cases acted
              exact ⟨_, rfl, .finds (Bool.eq_false_iff.mpr free) empty⟩
          · next entry rest front =>
              cases acted
              exact ⟨_, rfl, .takes (Bool.eq_false_iff.mpr free) front⟩
  | semWait timed =>
      simp only [act] at acted
      split at acted
      · next sem passed =>
          cases acted
          obtain ⟨-, rfl⟩ := CountingSemaphore.tryWait_eq_some passed
          exact ⟨_, rfl, .passes (CountingSemaphore.tryWait_permits passed) rfl⟩
      · cases acted
        exact ⟨_, rfl, .sleeps⟩
  | asleep timed =>
      simp only [act] at acted
      split at acted
      · cases acted
      · next sem ended =>
          cases acted
          exact ⟨_, rfl, .wakes (CountingSemaphore.endWait_permits ended)
            (CountingSemaphore.endWait_waiting ended)⟩
      · next sem ended =>
          cases acted
          exact ⟨_, rfl, .expires (CountingSemaphore.endWait_permits ended)
            (CountingSemaphore.endWait_waiting ended)⟩
  | size =>
      simp only [act] at acted
      split at acted
      · cases acted
      · next free =>
          cases acted
          exact ⟨_, rfl, .counts (Bool.eq_false_iff.mpr free)⟩
  | added number reusedThread => cases acted
  | returned result => cases acted
  | sized size => cases acted

/-! ## Permits -/

/-- An add that has the mutex. -/
def Call.posting : Call τ → Nat
  | .post _ => 1
  | _ => 0

/-- A taker that will look at the queue before it waits. -/
def Call.looking : Call τ → Nat
  | .take _ => 1
  | _ => 0

def Call.waiting : Call τ → Nat
  | .asleep _ => 1
  | _ => 0

/-- Each thread in the queue is matched by a permit, by a taker that will look,
or by the pending post of its add. -/
structure Balanced (memory : Memory τ) (calls : List (Call τ)) : Prop where
  matched : memory.queue.length ≤
    memory.sem.permits + total Call.looking calls + total Call.posting calls
  waiting : total Call.waiting calls = memory.sem.sleeping + memory.sem.woken
  mutex : total Call.posting calls = memory.mutex.toNat

section Balanced

variable {memory after : Memory τ} {call next : Call τ} {calls others rest : List (Call τ)}

theorem Balanced.perm (same : calls.Perm others) (balanced : Balanced memory calls) :
    Balanced memory others := by
  obtain ⟨matched, waiting, mutex⟩ := balanced
  rw [total_perm same, total_perm same] at matched
  rw [total_perm same] at waiting mutex
  exact ⟨matched, waiting, mutex⟩

theorem Balanced.step (step : Step memory after call next)
    (balanced : Balanced memory (call :: rest)) : Balanced after (next :: rest) := by
  obtain ⟨matched, waiting, mutex⟩ := balanced
  simp only [total_cons] at matched waiting mutex
  cases step with
  | pushes free =>
      simp only [Call.looking, Call.posting, Call.waiting, free] at matched waiting mutex
      constructor <;>
        simp only [total_cons, Call.looking, Call.posting, Call.waiting, List.length_append,
          List.length_singleton, Bool.toNat_true] <;>
        simp only [Bool.toNat_false] at mutex <;> omega
  | posts permits same =>
      simp only [Call.looking, Call.posting, Call.waiting] at matched waiting mutex
      constructor <;>
        simp only [total_cons, Call.looking, Call.posting, Call.waiting, Bool.toNat_false] <;>
        have := Bool.toNat_le memory.mutex <;> omega
  | takes free front =>
      simp only [front, List.length_cons, Call.looking, Call.posting, Call.waiting]
        at matched waiting mutex
      constructor <;> simp only [total_cons, Call.looking, Call.posting, Call.waiting] <;> omega
  | finds free empty =>
      simp only [Call.looking, Call.posting, Call.waiting] at matched waiting mutex
      constructor <;>
        simp only [total_cons, Call.looking, Call.posting, Call.waiting, empty,
          List.length_nil] <;> omega
  | passes permits same =>
      simp only [Call.looking, Call.posting, Call.waiting] at matched waiting mutex
      constructor <;> simp only [total_cons, Call.looking, Call.posting, Call.waiting] <;> omega
  | sleeps =>
      simp only [Call.looking, Call.posting, Call.waiting, CountingSemaphore.permits]
        at matched waiting mutex
      constructor <;>
        simp only [total_cons, Call.looking, Call.posting, Call.waiting, CountingSemaphore.permits,
          CountingSemaphore.sleep] <;> omega
  | wakes permits same =>
      simp only [Call.looking, Call.posting, Call.waiting] at matched waiting mutex
      constructor <;> simp only [total_cons, Call.looking, Call.posting, Call.waiting] <;> omega
  | expires permits same =>
      simp only [Call.looking, Call.posting, Call.waiting] at matched waiting mutex
      constructor <;> simp only [total_cons, Call.looking, Call.posting, Call.waiting] <;> omega
  | counts free =>
      simp only [Call.looking, Call.posting, Call.waiting] at matched waiting mutex
      constructor <;> simp only [total_cons, Call.looking, Call.posting, Call.waiting] <;> omega

theorem Balanced.invoke (invocation : Invocation τ) (balanced : Balanced memory calls) :
    Balanced (invoke memory invocation).1 ((invoke memory invocation).2 ++ calls) := by
  obtain ⟨matched, waiting, mutex⟩ := balanced
  cases invocation <;> constructor <;>
    simp only [StoppedThreadQueue.invoke, List.singleton_append, total_cons, Call.looking,
      Call.posting, Call.waiting] <;> omega

/-- While the mutex is free, no add is between its push and its post. -/
theorem Balanced.not_posting (free : memory.mutex = false) (balanced : Balanced memory calls)
    (number : Nat) : .post number ∉ calls := by
  intro member
  have weight := weight_le_total Call.posting member
  have mutex := balanced.mutex
  rw [free] at mutex
  simp only [Call.posting, Bool.toNat_false] at weight mutex
  omega

end Balanced

theorem invoked {invocation : Invocation τ} {memory after : Memory τ} {left : List (Call τ)}
    (acted : system.env invocation memory = some (after, left)) :
    after = (invoke memory invocation).1 ∧ left = (invoke memory invocation).2 := by
  have same := Option.some.inj acted
  exact ⟨(congrArg Prod.fst same).symm, (congrArg Prod.snd same).symm⟩

theorem reachable_balanced {state : Global (Memory τ) (Call τ)}
    (reached : Reachable system anySchedule state) : Balanced state.shared state.agents := by
  refine Reaches.invariant Balanced Balanced.perm ⟨Nat.zero_le _, rfl, rfl⟩ ?_ ?_ reached
  · intro before index choice call after left _ _ _ acted balanced
    obtain ⟨next, rfl, step⟩ := step_of_act acted
    exact balanced.step step
  · intro before invocation after left _ _ acted balanced
    obtain ⟨rfl, rfl⟩ := invoked acted
    exact balanced.invoke invocation

/-! ## Who gets which thread -/

/-- An add that has not pushed its thread. -/
def Call.adding (number : Nat) : Call τ → Nat
  | .add own _ => if own = number then 1 else 0
  | _ => 0

/-- The thread that a taker has returned with. -/
def Call.delivered : Call τ → Option (Nat × τ)
  | .returned result => result
  | _ => none

/-- An add that has pushed its thread. -/
def Call.pushed : Call τ → Option Nat
  | .post number | .added number _ => some number
  | _ => none

structure Recorded (memory : Memory τ) (calls : List (Call τ)) : Prop where
  ordered : memory.pushed = memory.popped ++ memory.queue
  delivered : (calls.filterMap Call.delivered).Perm memory.popped
  once : ∀ number, (memory.pushed.map Prod.fst).count number + total (Call.adding number) calls =
    if number < memory.nextNumber then 1 else 0
  pushed : ∀ call ∈ calls, ∀ number, call.pushed = some number →
    number ∈ memory.pushed.map Prod.fst
  last : ∀ number, .post number ∈ calls →
    ∃ front item, memory.queue = front ++ [(number, item)]

section Recorded

variable {memory after : Memory τ} {call next : Call τ} {calls others rest : List (Call τ)}

theorem Recorded.perm (same : calls.Perm others) (recorded : Recorded memory calls) :
    Recorded memory others where
  ordered := recorded.ordered
  delivered := (same.filterMap _).symm.trans recorded.delivered
  once number := by
    rw [← total_perm same]
    exact recorded.once number
  pushed call member := recorded.pushed call (same.mem_iff.mpr member)
  last number member := recorded.last number (same.mem_iff.mpr member)

/-- A step that neither adds nor takes a thread. -/
private theorem Recorded.replace (recorded : Recorded memory (call :: rest))
    (queue : after.queue = memory.queue) (pushed : after.pushed = memory.pushed)
    (popped : after.popped = memory.popped) (numbers : after.nextNumber = memory.nextNumber)
    (delivers : next.delivered = none) (delivered : call.delivered = none)
    (adds : ∀ number, next.adding number = call.adding number)
    (known : ∀ number, next.pushed = some number → call.pushed = some number)
    (idle : ∀ number, next ≠ .post number) : Recorded after (next :: rest) where
  ordered := by
    rw [pushed, popped, queue]
    exact recorded.ordered
  delivered := by
    have before := recorded.delivered
    rw [List.filterMap_cons_none delivered] at before
    rw [List.filterMap_cons_none delivers, popped]
    exact before
  once number := by
    have before := recorded.once number
    rw [total_cons] at before
    rw [total_cons, adds, pushed, numbers]
    exact before
  pushed other member number isPushed := by
    rw [pushed]
    rcases List.mem_cons.mp member with rfl | member
    · exact recorded.pushed call List.mem_cons_self number (known number isPushed)
    · exact recorded.pushed other (List.mem_cons_of_mem _ member) number isPushed
  last number member := by
    rw [queue]
    rcases List.mem_cons.mp member with same | member
    · exact absurd same.symm (idle number)
    · exact recorded.last number (List.mem_cons_of_mem _ member)

private theorem Recorded.push {number : Nat} {item : τ}
    (balanced : Balanced memory (.add number item :: rest)) (free : memory.mutex = false)
    (recorded : Recorded memory (.add number item :: rest)) :
    Recorded
      { memory with
        queue := memory.queue ++ [(number, item)]
        pushed := memory.pushed ++ [(number, item)]
        mutex := true }
      (.post number :: rest) where
  ordered := by
    simp only [recorded.ordered, List.append_assoc]
  delivered := recorded.delivered
  once other := by
    have before := recorded.once other
    simp only [total_cons, Call.adding] at before
    simp only [List.map_append, List.map_cons, List.map_nil, List.count_append, total_cons,
      Call.adding, List.count_singleton, beq_iff_eq]
    omega
  pushed other member own isPushed := by
    rw [List.map_append]
    rcases List.mem_cons.mp member with rfl | member
    · cases isPushed
      exact List.mem_append_right _ List.mem_cons_self
    · exact List.mem_append_left _
        (recorded.pushed other (List.mem_cons_of_mem _ member) own isPushed)
  last own member := by
    rcases List.mem_cons.mp member with same | member
    · cases same
      exact ⟨memory.queue, item, rfl⟩
    · exact absurd (List.mem_cons_of_mem _ member) (balanced.not_posting free own)

private theorem Recorded.take {timed : Bool} {entry : Nat × τ} {left : List (Nat × τ)}
    (balanced : Balanced memory (.take timed :: rest)) (free : memory.mutex = false)
    (front : memory.queue = entry :: left) (recorded : Recorded memory (.take timed :: rest)) :
    Recorded { memory with queue := left, popped := memory.popped ++ [entry] }
      (.returned (some entry) :: rest) where
  ordered := by
    simp only [recorded.ordered, front, List.append_assoc, List.singleton_append]
  delivered := by
    rw [List.filterMap_cons_some (show Call.delivered (.returned (some entry)) = some entry from rfl)]
    exact (recorded.delivered.cons entry).trans (List.perm_append_singleton entry _).symm
  once number := by
    have before := recorded.once number
    simp only [total_cons, Call.adding] at before ⊢
    exact before
  pushed other member number isPushed := by
    rcases List.mem_cons.mp member with rfl | member
    · cases isPushed
    · exact recorded.pushed other (List.mem_cons_of_mem _ member) number isPushed
  last number member := by
    rcases List.mem_cons.mp member with same | member
    · cases same
    · exact absurd (List.mem_cons_of_mem _ member) (balanced.not_posting free number)

theorem Recorded.step (step : Step memory after call next) (balanced : Balanced memory (call :: rest))
    (recorded : Recorded memory (call :: rest)) : Recorded after (next :: rest) := by
  cases step with
  | pushes free => exact recorded.push balanced free
  | takes free front => exact recorded.take balanced free front
  | posts permits same =>
      refine recorded.replace rfl rfl rfl rfl rfl rfl (fun _ => rfl) (fun _ known => known) ?_
      exact fun _ same => by cases same
  | finds free empty =>
      refine recorded.replace rfl rfl rfl rfl rfl rfl (fun _ => rfl) (fun _ known => known) ?_
      exact fun _ same => by cases same
  | passes permits same =>
      refine recorded.replace rfl rfl rfl rfl rfl rfl (fun _ => rfl) (fun _ known => known) ?_
      exact fun _ same => by cases same
  | sleeps =>
      refine recorded.replace rfl rfl rfl rfl rfl rfl (fun _ => rfl) (fun _ known => known) ?_
      exact fun _ same => by cases same
  | wakes permits same =>
      refine recorded.replace rfl rfl rfl rfl rfl rfl (fun _ => rfl) (fun _ known => known) ?_
      exact fun _ same => by cases same
  | expires permits same =>
      refine recorded.replace rfl rfl rfl rfl rfl rfl (fun _ => rfl) (fun _ known => known) ?_
      exact fun _ same => by cases same
  | counts free =>
      refine recorded.replace rfl rfl rfl rfl rfl rfl (fun _ => rfl) (fun _ known => known) ?_
      exact fun _ same => by cases same

theorem Recorded.invoke (invocation : Invocation τ) (recorded : Recorded memory calls) :
    Recorded (invoke memory invocation).1 ((invoke memory invocation).2 ++ calls) := by
  obtain ⟨ordered, delivered, once, pushed, last⟩ := recorded
  have fresh : ∀ call ∈ (StoppedThreadQueue.invoke memory invocation).2,
      call.pushed = none ∧ ∀ number, call ≠ .post number := by
    cases invocation <;> simp [StoppedThreadQueue.invoke, Call.pushed]
  refine ⟨?_, ?_, fun number => ?_, fun call member number isPushed => ?_, fun number member => ?_⟩
  · cases invocation <;> exact ordered
  · cases invocation <;> exact delivered
  · have before := once number
    rw [total_append]
    cases invocation with
    | add item =>
        change (memory.pushed.map Prod.fst).count number +
          ((if memory.nextNumber = number then 1 else 0) + _) =
            if number < memory.nextNumber + 1 then 1 else 0
        split at before <;> split <;> split <;> omega
    | take timed =>
        change _ + (0 + _) = _
        rw [Nat.zero_add]
        exact before
    | size =>
        change _ + (0 + _) = _
        rw [Nat.zero_add]
        exact before
  · rcases List.mem_append.mp member with new | old
    · rw [(fresh call new).1] at isPushed
      cases isPushed
    · cases invocation <;> exact pushed call old number isPushed
  · rcases List.mem_append.mp member with new | old
    · exact absurd rfl ((fresh _ new).2 number)
    · cases invocation <;> exact last number old

end Recorded

theorem reachable_recorded {state : Global (Memory τ) (Call τ)}
    (reached : Reachable system anySchedule state) : Recorded state.shared state.agents := by
  refine Reaches.invariant Recorded Recorded.perm ?_ ?_ ?_ reached
  · refine ⟨rfl, .nil, fun number => ?_, List.forall_mem_nil _, ?_⟩
    · exact (if_neg (Nat.not_lt_zero number)).symm
    · intro number member
      cases member
  · intro before index choice call after left earlier _ found acted recorded
    obtain ⟨next, rfl, step⟩ := step_of_act acted
    exact recorded.step step ((reachable_balanced earlier).perm (perm_of_getElem? found))
  · intro before invocation after left _ _ acted recorded
    obtain ⟨rfl, rfl⟩ := invoked acted
    exact recorded.invoke invocation

/-- The threads are taken in the order in which they were added, each by one
call, and none that was added is lost. -/
theorem taken_once_in_order {state : Global (Memory τ) (Call τ)}
    (reached : Reachable system anySchedule state) :
    state.shared.pushed = state.shared.popped ++ state.shared.queue ∧
      (state.shared.pushed.map Prod.fst).Nodup ∧
      (state.agents.filterMap Call.delivered).Perm state.shared.popped ∧
      ∀ number reusedThread, .added number reusedThread ∈ state.agents →
        number ∈ state.shared.pushed.map Prod.fst := by
  have recorded := reachable_recorded reached
  refine ⟨recorded.ordered, List.nodup_iff_count_le_one.mpr fun number => ?_, recorded.delivered,
    fun number reusedThread member => recorded.pushed _ member number rfl⟩
  have once := recorded.once number
  split at once <;> omega

theorem taken_once_in_order_oneTaker :
    ∃ state : Global (Memory Char) (Call Char),
      state.shared.pushed = [(0, 'a')] ∧
      state.shared.pushed = state.shared.popped ++ state.shared.queue ∧
      (state.shared.pushed.map Prod.fst).Nodup ∧
      (state.agents.filterMap Call.delivered).Perm state.shared.popped ∧
      ∀ number reusedThread, .added number reusedThread ∈ state.agents →
        number ∈ state.shared.pushed.map Prod.fst := by
  refine ⟨_, rfl, taken_once_in_order (@Reaches.run _ _ _ _ _ _ _ _
    [.env (.take false), .act 0 .value, .act 0 .value, .env (.add 'a'), .act 0 .value,
      .act 0 .handoff, .act 1 .handoff, .act 0 .value] .refl rfl)⟩

/-! ## Nobody sleeps beside a thread -/

/-- Where no permit is left and no taker is about to look, the queue holds at
most the thread of an add that has not returned. -/
theorem none_overdue {state : Global (Memory τ) (Call τ)}
    (reached : Reachable system anySchedule state) {number : Nat} {item : τ}
    (waits : (number, item) ∈ state.shared.queue) (returned : .post number ∉ state.agents) :
    0 < state.shared.sem.value ∨ 0 < state.shared.sem.woken ∨
      ∃ timed, .take timed ∈ state.agents := by
  have balanced := reachable_balanced reached
  have recorded := reachable_recorded reached
  by_contra none
  simp only [not_or, Nat.not_lt, Nat.le_zero] at none
  obtain ⟨value, woken, looks⟩ := none
  have looking : total Call.looking state.agents = 0 := by
    refine total_eq_zero_iff.mpr fun call member => ?_
    cases call with
    | take timed => exact absurd ⟨timed, member⟩ looks
    | _ => rfl
  have matched := balanced.matched
  rw [CountingSemaphore.permits, value, woken, looking, Nat.zero_add] at matched
  have inside := List.length_pos_of_mem waits
  obtain ⟨poster, member, posts⟩ := total_pos_iff.mp (Nat.lt_of_lt_of_le inside matched)
  obtain ⟨own, rfl⟩ : ∃ own, poster = .post own := by
    cases poster with
    | post own => exact ⟨own, rfl⟩
    | _ => cases posts
  obtain ⟨front, last, queue⟩ := recorded.last own member
  have mutex := balanced.mutex
  have single := Bool.toNat_le state.shared.mutex
  rw [queue, List.length_append, List.length_singleton] at matched
  have empty : front = [] := List.length_eq_zero_iff.mp (by omega)
  rw [queue, empty, List.nil_append, List.mem_singleton] at waits
  cases waits
  exact returned member

/-- A taker is asleep when an add has returned, whose post raised the value. -/
theorem none_overdue_raised :
    ∃ state : Global (Memory Char) (Call Char), (0, 'a') ∈ state.shared.queue ∧
      .asleep false ∈ state.agents ∧
      (0 < state.shared.sem.value ∨ 0 < state.shared.sem.woken ∨
        ∃ timed, .take timed ∈ state.agents) := by
  refine ⟨⟨{ sem := ⟨1, 1, 0⟩, queue := [(0, 'a')], nextNumber := 1, pushed := [(0, 'a')] },
    [.added 0 false, .asleep false]⟩, by decide, by decide, ?_⟩
  refine @none_overdue _ _ (@Reaches.run _ _ _ _ _ _ _ _
    [.env (.take false), .act 0 .value, .act 0 .value, .env (.add 'a'), .act 0 .value,
      .act 0 .value] .refl rfl) 0 'a' (by decide) (by decide)

/-! ## Without new calls -/

/-- An add that has not posted. -/
def Call.unposted : Call τ → Nat
  | .add _ _ | .post _ => 1
  | _ => 0

/-- The steps that are left of a call, as long as no permit lets it through. -/
def Call.stepsLeft : Call τ → Nat
  | .add _ _ => 2
  | .post _ => 1
  | .take _ => 3
  | .semWait _ => 2
  | .asleep _ => 1
  | .size => 1
  | .added _ _ | .returned _ | .sized _ => 0

/-- A permit, or one that will be posted, sends a taker back to the queue. -/
def work (memory : Memory τ) (calls : List (Call τ)) : Nat :=
  3 * (memory.sem.permits + total Call.unposted calls) + total Call.stepsLeft calls

theorem work_spends :
    (system : System (Memory τ) (Call τ) CountingSemaphore.Ending (Invocation τ)).Spends
      Label.acts fun state => work state.shared state.agents := by
  refine System.Spends.of_act ?_ ?_
  · intro memory calls others same
    unfold work
    rw [total_perm same, total_perm same]
  · intro choice memory call after left rest acted
    obtain ⟨next, rfl, step⟩ := step_of_act acted
    simp only [work, List.singleton_append, total_cons]
    cases step <;> simp only [Call.unposted, Call.stepsLeft, CountingSemaphore.sleep_permits] <;>
      omega

/-- A call that has a result, or a taker without a deadline that no permit lets
through. -/
def Call.settled : Call τ → Bool
  | .added _ _ | .returned _ | .sized _ | .asleep false => true
  | _ => false

section AtRest

variable {state : Global (Memory τ) (Call τ)}

private theorem mutex_of_atRest (balanced : Balanced state.shared state.agents)
    (rests : (system : System (Memory τ) (Call τ) _ _).AtRest Label.acts state) :
    state.shared.mutex = false := by
  by_contra held
  have posting := balanced.mutex
  rw [Bool.not_eq_false] at held
  rw [held, Bool.toNat_true] at posting
  obtain ⟨poster, member, posts⟩ := total_pos_iff.mp (Nat.lt_of_lt_of_eq Nat.one_pos posting.symm)
  cases poster with
  | post number => cases rests.act_eq_none member .value
  | _ => cases posts

/-- Whoever sleeps at rest has no deadline, and no permit is there. -/
private theorem asleep_of_atRest (balanced : Balanced state.shared state.agents)
    (rests : (system : System (Memory τ) (Call τ) _ _).AtRest Label.acts state) {timed : Bool}
    (member : .asleep timed ∈ state.agents) : timed = false ∧ state.shared.sem.permits = 0 := by
  have still := fun ending => rests.act_eq_none member ending
  have woken : state.shared.sem.woken = 0 := by
    by_contra positive
    have stuck := still .handoff
    simp [system, act, CountingSemaphore.endWait, CountingSemaphore.resume,
      Nat.pos_of_ne_zero positive] at stuck
  have sleeping : 0 < state.shared.sem.sleeping := by
    have waiting := weight_le_total Call.waiting member
    rw [balanced.waiting, woken] at waiting
    exact waiting
  have value : state.shared.sem.value = 0 := by
    by_contra positive
    have stuck := still .value
    simp [system, act, CountingSemaphore.endWait, CountingSemaphore.claim,
      Nat.pos_of_ne_zero positive, sleeping] at stuck
  refine ⟨Bool.eq_false_iff.mpr fun isTimed => ?_, ?_⟩
  · have stuck := still .timeout
    simp [system, act, CountingSemaphore.endWait, CountingSemaphore.timeout, isTimed,
      sleeping] at stuck
  · rw [CountingSemaphore.permits, value, woken]

theorem settled_of_atRest (reached : Reachable system anySchedule state)
    (rests : (system : System (Memory τ) (Call τ) _ _).AtRest Label.acts state) :
    (∀ call ∈ state.agents, call.settled = true) ∧
      (.asleep false ∈ state.agents → state.shared.queue = []) := by
  have balanced := reachable_balanced reached
  have free := mutex_of_atRest balanced rests
  have settled : ∀ call ∈ state.agents, call.settled = true := by
    intro call member
    have still := rests.act_eq_none member .value
    cases call with
    | add number item => simp [system, act, free] at still
    | post number => simp [system, act] at still
    | take timed =>
        simp only [system, act, free] at still
        cases queue : state.shared.queue <;> simp [queue] at still
    | semWait timed =>
        simp only [system, act] at still
        cases passed : state.shared.sem.tryWait <;> simp [passed] at still
    | asleep timed =>
        obtain ⟨rfl, -⟩ := asleep_of_atRest balanced rests member
        rfl
    | size => simp [system, act, free] at still
    | added number reusedThread => rfl
    | returned result => rfl
    | sized size => rfl
  refine ⟨settled, fun member => ?_⟩
  have matched := balanced.matched
  have idle : ∀ weight : Call τ → Nat, (∀ call, call.settled = true → weight call = 0) →
      total weight state.agents = 0 :=
    fun weight zero => total_eq_zero_iff.mpr fun call inside => zero call (settled call inside)
  have looking : total Call.looking state.agents = 0 := by
    refine idle _ fun call isSettled => ?_
    cases call <;> first | rfl | cases isSettled
  rw [(asleep_of_atRest balanced rests member).2, looking, balanced.mutex, free] at matched
  exact List.length_eq_zero_iff.mp (Nat.le_zero.mp matched)

end AtRest

/-- From every reachable state, without new calls: the calls make at most the
steps of the work that is left, some schedule ends with none of them having a
step, and wherever one ends, all have returned but for takers without a
deadline, and these only if the queue is empty. -/
theorem takers_come_to_rest {state : Global (Memory τ) (Call τ)}
    (reached : Reachable system anySchedule state) :
    (∀ labels last, (∀ label ∈ labels, Label.acts label) → system.run state labels = some last →
      labels.length ≤ work state.shared state.agents) ∧
    (∃ labels last, (∀ label ∈ labels, Label.acts label) ∧ system.run state labels = some last ∧
      system.AtRest Label.acts last) ∧
    (∀ labels last, system.run state labels = some last → system.AtRest Label.acts last →
      (∀ call ∈ last.agents, call.settled = true) ∧
        (.asleep false ∈ last.agents → last.shared.queue = [])) := by
  have spends := @work_spends τ
  refine ⟨fun labels last owned replayed => ?_, spends.exists_atRest state, ?_⟩
  · have bound := spends.length_le owned replayed
    omega
  · intro labels last replayed rests
    exact settled_of_atRest (reached.run replayed) rests

/-- Two takers and one thread. -/
theorem takers_come_to_rest_oneThread :
    ∃ labels last, system.run
        (⟨{ nextNumber := 1 }, [.add 0 'a', .take true, .take false]⟩ :
          Global (Memory Char) (Call Char)) labels = some last ∧
      labels.length ≤ 11 ∧ (∀ call ∈ last.agents, call.settled = true) ∧
      (.asleep false ∈ last.agents → last.shared.queue = []) := by
  have reached : Reachable system anySchedule
      (⟨{ nextNumber := 1 }, [.add 0 'a', .take true, .take false]⟩ :
        Global (Memory Char) (Call Char)) :=
    @Reaches.run _ _ _ _ _ _ _ _ [.env (.take false), .env (.take true), .env (.add 'a')] .refl rfl
  obtain ⟨bounded, ⟨labels, last, owned, replayed, rests⟩, settles⟩ := takers_come_to_rest reached
  obtain ⟨settled, empty⟩ := settles labels last replayed rests
  exact ⟨labels, last, replayed, Nat.le_trans (bounded labels last owned replayed) (by decide),
    settled, empty⟩

end ThreadPoolExec.StoppedThreadQueue
