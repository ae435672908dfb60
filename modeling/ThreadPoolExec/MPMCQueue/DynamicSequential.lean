import ThreadPoolExec.MPMCQueue.DynamicPromises

/-!
# The dynamic MPMC queue, one call at a time

A single thread makes a call only after the call before has returned. In such
runs a call of `blockingWrite` that is left alone completes exactly if the
array of the next push ticket has room. An expansion does not help it: the
offset that `tryExpand` chooses is above the ticket of the call.
-/

set_option autoImplicit false

namespace ThreadPoolExec.MPMCQueue.Dynamic

open Interleaving TurnCells

universe u

variable {V : Type u} {layout : Layout}

def Pc.returned : Pc V → Bool
  | .wrote _ _ _ | .read _ _ _ | .refused _ => true
  | .begin _ _ | .trying _ _ | .holding _ _ | .assertFailed => false

/-- A call is made when all calls have returned, and allocations succeed. -/
def singleThreaded (state : Global (Memory V) (Call V)) : Label Choice (Operation V) → Bool
  | .env _ => state.agents.all fun call => call.pc.returned
  | .act _ choice => choice.allocates

/-- No further call is made, and allocations succeed. -/
def noFurtherCall (_ : Global (Memory V) (Call V)) : Label Choice (Operation V) → Bool
  | .env _ => false
  | .act _ choice => choice.allocates

/-- The call with a number comes to its end without any further call. -/
def CompletesAlone (layout : Layout) (id : Nat) (begun : Global (Memory V) (Call V)) : Prop :=
  ∃ later, Reaches (system layout) (fun state label => noFurtherCall state label) begun later ∧
    ∃ array ticket value, (⟨id, .wrote array ticket value⟩ : Call V) ∈ later.agents

/-- The array that the next push ticket belongs to has room for it. -/
def Memory.HasRoom (memory : Memory V) : Prop :=
  ∃ array, resolve memory.arrays memory.pushTicket = some array ∧
    memory.pushTicket < max memory.popTicket array.offset + array.capacity

/-! ## Runs of a single thread -/

/-- The seqlock word counts no closed array any more, and every ticket below
its offset goes to the assertion. -/
structure Overflowed (memory : Memory V) (ticket : Nat) : Prop where
  even : memory.dstate % 2 = 0
  numClosed : getNumClosed memory.dstate = 0
  below : ticket < getOffset memory.dstate

def Trying.Shows (dstate : Nat) : Trying → Prop
  | .loadOther | .readState => True
  | .readSlots state | .readCapacity state _ | .readStride state _ _ => state = dstate
  | .validate snapshot | .resolve snapshot => snapshot.state = dstate
  | _ => False

/-- The call is on the way to the assertion. -/
def Pc.Stuck (memory : Memory V) : Pc V → Prop
  | .begin kind side => kind ≠ .blocking ∧ Overflowed memory (memory.dispenser side)
  | .trying attempt at_ => Overflowed memory attempt.ticket ∧ at_.Shows memory.dstate
  | .assertFailed => True
  | .holding _ _ | .wrote _ _ _ | .read _ _ _ | .refused _ => False

/-- A try for a ticket that is not owned is for the next one. -/
def Pc.Current (memory : Memory V) : Pc V → Prop
  | .trying attempt _ => attempt.kind ≠ .blocking → attempt.ticket = memory.dispenser attempt.side
  | _ => True

def Pc.expands : Pc V → Bool
  | .trying _ at_ => at_.expands
  | _ => false

def Pc.unreturned (pc : Pc V) : Nat :=
  if pc.returned then 0 else 1

structure Lone (memory : Memory V) (calls : List (Call V)) : Prop where
  single : total (fun call => call.pc.unreturned) calls ≤ 1
  current : ∀ call ∈ calls, call.pc.Current memory
  expanding : memory.expansion.isSome → ∃ call ∈ calls, call.pc.expands = true
  bounded : memory.arrays.length ≤ 32 ∨ ∃ call ∈ calls, call.pc.Stuck memory

section Steps

variable {memory after : Memory V} {pc next : Pc V} {attempt : Attempt V} {choice : Choice}
  {calls rest : List (Call V)} {id : Nat}

theorem not_returned_of_next (stepped : pc.next layout choice memory = some (after, next)) :
    pc.returned = false := by
  cases pc <;> first | rfl | cases stepped

/-- Only the call that moves has not returned. -/
theorem Lone.rest_returned (lone : Lone memory (⟨id, pc⟩ :: rest))
    (stepped : pc.next layout choice memory = some (after, next)) :
    ∀ call ∈ rest, call.pc.returned = true := by
  have single := lone.single
  have own : pc.unreturned = 1 := by
    rw [Pc.unreturned, not_returned_of_next stepped]
    rfl
  rw [total_cons, own] at single
  have none : total (fun call : Call V => call.pc.unreturned) rest = 0 := by omega
  intro call member
  have zero := total_eq_zero_iff.mp none call member
  unfold Pc.unreturned at zero
  split at zero
  · assumption
  · cases zero

theorem returned_quiet (returned : pc.returned = true) :
    pc.expands = false ∧ pc.holder? = none ∧ pc.owned? = none := by
  cases pc <;> first | exact ⟨rfl, rfl, rfl⟩ | cases returned

theorem returned_current (returned : pc.returned = true) : pc.Current memory := by
  cases pc <;> trivial

theorem not_stuck_of_returned (returned : pc.returned = true) : ¬ pc.Stuck memory := by
  cases pc <;> first | exact id | cases returned

theorem dispenser_of_counters (counters : after.counters = memory.counters) (side : Side V) :
    after.dispenser side = memory.dispenser side := by
  obtain ⟨pushes, pops⟩ := Prod.mk.inj counters
  cases side with
  | push value => exact pushes
  | pop => exact pops

theorem current_retry (attempt : Attempt V)
    (current : Pc.Current memory (.trying attempt .readState)) :
    attempt.retry.Current memory := by
  unfold Attempt.retry
  split
  · exact current
  · trivial

private theorem current_leads {at_ : Trying} (counters : after.counters = memory.counters)
    (current : Pc.Current memory (.trying attempt at_)) (leads : Leads layout memory attempt at_ next) :
    next.Current after := by
  have kept : attempt.kind ≠ .blocking → attempt.ticket = after.dispenser attempt.side := by
    intro searching
    rw [dispenser_of_counters counters]
    exact current searching
  have held : ∀ array, (attempt.held array).Current after := by
    intro array
    unfold Attempt.held
    split <;> trivial
  cases leads with
  | loaded => exact kept
  | moves plain => exact kept
  | ready _ _ => exact kept
  | promised _ _ => exact kept
  | retry => exact current_retry attempt kept
  | refused again =>
      rcases refuse_cases attempt again with begins | refused
      · rw [begins]
        trivial
      · rw [refused]
        trivial
  | won _ => exact held _
  | owned array _ => exact held array
  | failed => trivial

theorem current_next (stepped : pc.next layout choice memory = some (after, next))
    (current : pc.Current memory) : next.Current after := by
  cases pc with
  | begin kind side =>
      cases kind with
      | blocking =>
          cases stepped
          exact fun searching => absurd rfl searching
      | ready =>
          cases stepped
          exact fun _ => rfl
      | promised timed =>
          cases stepped
          exact fun _ => rfl
  | trying attempt at_ =>
      obtain ⟨-, leads⟩ := trying_leads stepped
      cases trying_touches stepped with
      | apart _ counters => exact current_leads counters current leads
      | won _ _ =>
          unfold Attempt.held
          split <;> trivial
      | inside counters => exact current_leads counters current leads
      | failed counters => exact current_leads counters current leads
      | @released _ expansion ticket newSlots =>
          have counters : (memory.release layout expansion ticket newSlots).counters =
            memory.counters := rfl
          exact current_leads counters current leads
  | holding array holder =>
      simp only [Pc.next] at stepped
      split at stepped
      · cases stepped
      · next left _ =>
          cases stepped
          cases left with
          | inl phase => trivial
          | inr value =>
              simp only [Pc.advanced]
              split <;> trivial
  | wrote array ticket value => cases stepped
  | read array ticket value => cases stepped
  | refused side => cases stepped
  | assertFailed => cases stepped

theorem expanding_next (stepped : pc.next layout choice memory = some (after, next))
    (busy : after.expansion.isSome) :
    next.expands = true ∨ after.expansion = memory.expansion ∧ pc.expands = false := by
  cases pc with
  | begin kind side =>
      cases kind with
      | blocking =>
          cases stepped
          cases side <;> exact .inr ⟨rfl, rfl⟩
      | ready =>
          cases stepped
          exact .inr ⟨rfl, rfl⟩
      | promised timed =>
          cases stepped
          exact .inr ⟨rfl, rfl⟩
  | trying attempt at_ =>
      cases trying_touches stepped with
      | apart outside _ _ expansion => exact .inr ⟨expansion, outside⟩
      | won _ expansion => exact .inr ⟨expansion, rfl⟩
      | inside => exact .inl rfl
      | failed _ _ free =>
          rw [free] at busy
          cases busy
      | released => cases busy
  | holding array holder =>
      simp only [Pc.next] at stepped
      split at stepped
      · cases stepped
      · cases stepped
        exact .inr ⟨rfl, rfl⟩
  | wrote array ticket value => cases stepped
  | read array ticket value => cases stepped
  | refused side => cases stepped
  | assertFailed => cases stepped

/-- A call that is stuck comes to the assertion and to nothing else. -/
theorem stuck_next (stepped : pc.next layout choice memory = some (after, next))
    (stuck : pc.Stuck memory) : next.Stuck after := by
  cases pc with
  | begin kind side =>
      obtain ⟨searching, overflowed⟩ := stuck
      cases kind with
      | blocking => exact absurd rfl searching
      | ready =>
          cases stepped
          exact ⟨overflowed, trivial⟩
      | promised timed =>
          cases stepped
          exact ⟨overflowed, trivial⟩
  | trying attempt at_ =>
      obtain ⟨overflowed, shown⟩ := stuck
      cases at_ with
      | loadOther =>
          cases stepped
          exact ⟨overflowed, trivial⟩
      | readState =>
          have unlocked : ¬ memory.dstate % 2 = 1 := by
            rw [overflowed.even]
            exact Nat.zero_ne_one
          simp only [Pc.next, Trying.next, if_neg unlocked] at stepped
          cases stepped
          exact ⟨overflowed, rfl⟩
      | readSlots state =>
          cases stepped
          exact ⟨overflowed, shown⟩
      | readCapacity state slots =>
          cases stepped
          exact ⟨overflowed, shown⟩
      | readStride state slots capacity =>
          cases stepped
          exact ⟨overflowed, shown⟩
      | validate snapshot =>
          have same : memory.dstate = snapshot.state := Eq.symm shown
          simp only [Pc.next, Trying.next, if_pos same] at stepped
          cases stepped
          exact ⟨⟨overflowed.even, overflowed.numClosed, overflowed.below⟩, shown⟩
      | resolve snapshot =>
          have same : snapshot.state = memory.dstate := shown
          have nowhere : maybeUpdateFromClosed memory.closed attempt.ticket snapshot = none := by
            rw [maybeUpdateFromClosed, same, if_neg (Nat.not_le.mpr overflowed.below),
              overflowed.numClosed]
            rfl
          simp only [Pc.next, Trying.next, nowhere] at stepped
          cases stepped
          trivial
      | _ => exact absurd shown id
  | assertFailed => cases stepped
  | _ => exact absurd stuck id

/-- Publishing a 33rd array overflows the count of the seqlock word. -/
theorem stuck_release {array : ClosedArray} {expansion : Expansion} {ticket newSlots : Nat}
    (coherent : Coherent layout memory (⟨id, .trying attempt (.expanding array)⟩ :: rest))
    (current : Pc.Current memory (.trying attempt (.expanding array)))
    (expansionIs : memory.expansion = some expansion)
    (stageIs : expansion.stage = .release ticket newSlots) (last : memory.arrays.length = 32) :
    attempt.retry.Stuck (memory.release layout expansion ticket newSlots) := by
  obtain ⟨front, shown, memoryOk⟩ := coherent.ordered
  obtain ⟨-, resolved⟩ := coherent.pcs _ List.mem_cons_self
  obtain ⟨stateIs, -, stageOk⟩ := memoryOk.busy expansion expansionIs
  rw [stageIs] at stageOk
  obtain ⟨-, offset, -⟩ := stageOk
  have closed : front.length = 31 := by
    rw [memoryOk.arrays, List.length_append, List.length_singleton] at last
    omega
  have word : (memory.release layout expansion ticket newSlots).dstate =
      seqlockWord (ticket + 1) 0 := by
    have numClosed : getNumClosed expansion.state = 31 := by
      rw [stateIs, closed]
      exact getNumClosed_seqlockWord (by decide)
    simp only [Memory.release, numClosed, seqlockWord, kSeqlockBits, Nat.shiftLeft_eq]
    omega
  have overflowed : Overflowed (memory.release layout expansion ticket newSlots)
      attempt.ticket := by
    have below := resolved.below
    have beyond := offset.beyond
    constructor
    · rw [word]
      exact seqlockWord_even
    · rw [word]
      exact getNumClosed_seqlockWord (by decide)
    · rw [word, getOffset_seqlockWord (by decide)]
      omega
  unfold Attempt.retry
  split
  · exact ⟨overflowed, trivial⟩
  · next searching =>
      refine ⟨searching, ?_⟩
      have same : (memory.release layout expansion ticket newSlots).dispenser attempt.side =
        attempt.ticket := (current searching).symm
      rw [same]
      exact overflowed

/-- The arrays stay, or a new one is published. -/
inductive Publishes (layout : Layout) (memory : Memory V) : Pc V → Memory V → Pc V → Prop where
  | same {pc next : Pc V} {after : Memory V} (arrays : after.arrays = memory.arrays) :
      Publishes layout memory pc after next
  | released {attempt : Attempt V} {array : ClosedArray} {expansion : Expansion}
      {ticket newSlots : Nat} (expansionIs : memory.expansion = some expansion)
      (stageIs : expansion.stage = .release ticket newSlots) :
      Publishes layout memory (.trying attempt (.expanding array))
        (memory.release layout expansion ticket newSlots) attempt.retry

theorem publishes_next (stepped : pc.next layout choice memory = some (after, next)) :
    Publishes layout memory pc after next := by
  cases pc with
  | begin kind side =>
      cases kind with
      | blocking =>
          cases stepped
          cases side <;> exact .same rfl
      | ready =>
          cases stepped
          exact .same rfl
      | promised timed =>
          cases stepped
          exact .same rfl
  | trying attempt at_ =>
      cases trying_touches stepped with
      | apart _ _ arrays => exact .same arrays
      | won arrays => exact .same arrays
      | inside _ arrays => exact .same arrays
      | failed _ arrays => exact .same arrays
      | released expansionIs stageIs => exact .released expansionIs stageIs
  | holding array holder =>
      simp only [Pc.next] at stepped
      split at stepped
      · cases stepped
      · cases stepped
        exact .same rfl
  | wrote array ticket value => cases stepped
  | read array ticket value => cases stepped
  | refused side => cases stepped
  | assertFailed => cases stepped

private theorem bounded_next
    (coherent : memory.arrays.length ≤ 32 → Coherent layout memory (⟨id, pc⟩ :: rest))
    (lone : Lone memory (⟨id, pc⟩ :: rest))
    (stepped : pc.next layout choice memory = some (after, next)) :
    after.arrays.length ≤ 32 ∨ next.Stuck after := by
  rcases lone.bounded with few | ⟨call, member, stuck⟩
  · cases publishes_next stepped with
    | same arrays => exact .inl (arrays ▸ few)
    | released expansionIs stageIs =>
        rcases Nat.lt_or_eq_of_le few with more | last
        · refine .inl ?_
          simp only [Memory.release, List.length_append, List.length_singleton]
          exact more
        · have current := lone.current _ List.mem_cons_self
          exact .inr (stuck_release (coherent few) current expansionIs stageIs last)
  · rcases List.mem_cons.mp member with rfl | inRest
    · exact .inr (stuck_next stepped stuck)
    · exact absurd stuck (not_stuck_of_returned (lone.rest_returned stepped call inRest))

theorem lone_next
    (coherent : memory.arrays.length ≤ 32 → Coherent layout memory (⟨id, pc⟩ :: rest))
    (lone : Lone memory (⟨id, pc⟩ :: rest))
    (stepped : pc.next layout choice memory = some (after, next)) :
    Lone after (⟨id, next⟩ :: rest) := by
  have returned := lone.rest_returned stepped
  constructor
  case single =>
    have single := lone.single
    have own : pc.unreturned = 1 := by
      rw [Pc.unreturned, not_returned_of_next stepped]
      rfl
    rw [total_cons, own] at single
    have atMost : next.unreturned ≤ 1 := by
      unfold Pc.unreturned
      split <;> decide
    rw [total_cons]
    exact Nat.le_trans (Nat.add_le_add_right atMost _) single
  case current =>
    intro call member
    rcases List.mem_cons.mp member with rfl | inRest
    · exact current_next stepped (lone.current _ List.mem_cons_self)
    · exact returned_current (returned call inRest)
  case expanding =>
    intro busy
    rcases expanding_next stepped busy with inside | ⟨same, outside⟩
    · exact ⟨_, List.mem_cons_self, inside⟩
    · obtain ⟨call, member, expands⟩ := lone.expanding (same ▸ busy)
      rcases List.mem_cons.mp member with rfl | inRest
      · exact absurd expands (Bool.eq_false_iff.mp outside)
      · exact absurd expands (Bool.eq_false_iff.mp (returned_quiet (returned call inRest)).1)
  case bounded =>
    exact (bounded_next coherent lone stepped).imp_right fun stuck =>
      ⟨_, List.mem_cons_self, stuck⟩

theorem Lone.perm {others : List (Call V)} (same : calls.Perm others) (lone : Lone memory calls) :
    Lone memory others where
  single := total_perm same ▸ lone.single
  current call member := lone.current call (same.mem_iff.mpr member)
  expanding busy := by
    obtain ⟨call, member, expands⟩ := lone.expanding busy
    exact ⟨call, same.mem_iff.mp member, expands⟩
  bounded := by
    refine lone.bounded.imp_right ?_
    rintro ⟨call, member, stuck⟩
    exact ⟨call, same.mem_iff.mp member, stuck⟩

theorem Lone.few (returned : ∀ call ∈ calls, call.pc.returned = true) (lone : Lone memory calls) :
    memory.arrays.length ≤ 32 := by
  rcases lone.bounded with few | ⟨call, member, stuck⟩
  · exact few
  · exact absurd stuck (not_stuck_of_returned (returned call member))

private theorem lone_begin {nextCall : Nat} (operation : Operation V)
    (returned : ∀ call ∈ calls, call.pc.returned = true) (lone : Lone memory calls) :
    Lone { memory with nextCall := nextCall } (⟨id, operation.start⟩ :: calls) where
  single := by
    have none : total (fun call : Call V => call.pc.unreturned) calls = 0 := by
      refine total_eq_zero_iff.mpr fun call member => ?_
      rw [Pc.unreturned, if_pos (returned call member)]
    rw [total_cons, none]
    cases operation <;> exact Nat.le_refl 1
  current call member := by
    rcases List.mem_cons.mp member with rfl | member
    · cases operation <;> trivial
    · exact returned_current (returned call member)
  expanding busy := by
    obtain ⟨call, member, expands⟩ := lone.expanding busy
    exact ⟨call, List.mem_cons_of_mem _ member, expands⟩
  bounded := by
    refine lone.bounded.imp_right ?_
    rintro ⟨call, member, stuck⟩
    exact absurd stuck (not_stuck_of_returned (returned call member))

end Steps

theorem reachable_lone {state : Global (Memory V) (Call V)}
    (reached : Reachable (system layout) (fun state label => singleThreaded state label) state) :
    Lone state.shared state.agents := by
  refine Reaches.invariant Lone Lone.perm ?_ ?_ ?_ reached
  · have first : 1 ≤ 32 := by decide
    exact ⟨Nat.zero_le _, nofun, nofun, .inl first⟩
  · intro before index choice call after left path _ found acted lone
    obtain ⟨next, stepped, rfl⟩ := act_eq_some acted
    refine lone_next ?_ lone stepped
    intro few
    exact (reachable_coherent path.any few).perm (perm_of_getElem? found)
  · intro before operation after left _ permitted acted lone
    cases acted
    exact lone_begin operation (List.all_eq_true.mp permitted) lone

theorem expanded_pos {cap : Nat} (positive : 0 < layout.capacity) (nonempty : 0 < cap) :
    0 < layout.expanded cap := by
  have multiplier : 0 < layout.dmult := Nat.lt_of_lt_of_le Nat.zero_lt_two (Nat.le_max_left _ _)
  exact Nat.lt_min.mpr ⟨Nat.mul_pos multiplier nonempty, positive⟩

theorem reachable_positive (positive : 0 < layout.capacity) {state : Global (Memory V) (Call V)}
    (reached : Reachable (system layout) anySchedule state)
    (few : state.shared.arrays.length ≤ 32) :
    ∀ array ∈ state.shared.arrays, 0 < array.capacity := by
  refine Reaches.invariant (fun memory _ => memory.arrays.length ≤ 32 →
    ∀ array ∈ memory.arrays, 0 < array.capacity) (fun _ => id) ?_ ?_ ?_ reached few
  · intro _ array member
    rw [List.mem_singleton.mp member]
    exact Nat.lt_min.mpr ⟨Nat.le_max_left 1 _, positive⟩
  · intro before index choice call after left path _ _ acted nonempty few array member
    obtain ⟨id, pc⟩ := call
    obtain ⟨next, stepped, rfl⟩ := act_eq_some acted
    have fewBefore := Nat.le_trans (counters_next stepped).2.2.2 few
    cases publishes_next stepped with
    | same arrays => exact nonempty fewBefore array (arrays ▸ member)
    | released expansionIs stageIs =>
        rcases List.mem_append.mp member with earlier | last
        · exact nonempty fewBefore array earlier
        · obtain ⟨front, current, memoryOk⟩ := (reachable_coherent path fewBefore).ordered
          obtain ⟨-, capIs, -⟩ := memoryOk.busy _ expansionIs
          have shown : current ∈ before.shared.arrays := by
            rw [memoryOk.arrays]
            exact List.mem_append_right _ List.mem_cons_self
          rw [List.mem_singleton.mp last]
          exact expanded_pos positive (capIs ▸ nonempty fewBefore current shown)
  · intro before operation after left _ _ acted nonempty few
    cases acted
    exact nonempty few

/-! ## A call beside calls that have returned -/

theorem resolve_of_between {arrays : List ClosedArray} {array : ClosedArray}
    {earlier ticket : Nat} (found : resolve arrays ticket = some array)
    (reached : array.offset ≤ earlier) (before : earlier ≤ ticket) :
    resolve arrays earlier = some array := by
  obtain ⟨front, back, rfl, -, later⟩ := exists_split_of_resolve found
  exact resolve_split reached fun next member => Nat.lt_of_le_of_lt before (later next member)

theorem ClosedArray.place_pred {array : ClosedArray} {ticket : Nat} (positive : 0 < array.capacity)
    (later : array.offset + array.capacity ≤ ticket) :
    (array.place layout ticket).1 = (array.place layout (ticket - array.capacity)).1 ∧
      (array.place layout ticket).2 = (array.place layout (ticket - array.capacity)).2 + 1 := by
  have inside : array.capacity ≤ ticket - array.offset := by omega
  have apart : ticket - array.capacity - array.offset = ticket - array.offset - array.capacity := by
    omega
  obtain ⟨cell, turns⟩ :=
    @place_of_later_turn layout.kSlotPadding _ array.stride _ positive inside
  simp only [MPMCQueue.place] at cell turns
  simp only [ClosedArray.place, apart, cell, turns, and_self]

section Beside

variable {before memory : Memory V} {others : List (Call V)} {pc : Pc V} {id ticket : Nat}
  {array : ClosedArray}

theorem returned_owns (returned : pc.returned = true) (ticket : Nat) :
    pc.owns true ticket = pc.stores ticket ∧ pc.owns false ticket = pc.takes ticket := by
  have unowned := (returned_quiet returned).2.2
  simp [Pc.owns, unowned]

theorem holders_of_returned (quiet : ∀ call ∈ others, call.pc.returned = true) :
    holders others = [] := by
  refine List.filterMap_eq_nil_iff.mpr fun call member => ?_
  exact (returned_quiet (quiet call member)).2.1

/-- Once all have returned, every ticket that was given out was stored or taken. -/
theorem owners_of_returned (quiet : ∀ call ∈ others, call.pc.returned = true) (ticket : Nat) :
    owners true ticket others = storers ticket others ∧
      owners false ticket others = takers ticket others := by
  have weights : ∀ pushes, ∀ call ∈ others, call.pc.owns pushes ticket =
      if pushes then call.pc.stores ticket else call.pc.takes ticket := by
    intro pushes call member
    obtain ⟨stores, takes⟩ := returned_owns (quiet call member) ticket
    cases pushes
    · exact takes
    · exact stores
  constructor
  · exact congrArg List.sum (List.map_congr_left (weights true))
  · exact congrArg List.sum (List.map_congr_left (weights false))

variable (quiet : ∀ call ∈ others, call.pc.returned = true)
  (given : Coherent layout before others) (coherent : Coherent layout memory (⟨id, pc⟩ :: others))

include quiet given coherent

theorem stored_of_lt (pushed : ticket < before.pushTicket) : (memory.stored ticket).isSome := by
  have known := given.owners true ticket
  rw [(owners_of_returned quiet ticket).1, Memory.dispensed, if_pos rfl, if_pos pushed] at known
  have count := coherent.storers ticket
  rw [storers_cons, known] at count
  split at count
  · assumption
  · omega

theorem taken_iff_lt (pushes : pc.takes ticket = 0) :
    memory.taken ticket = true ↔ ticket < before.popTicket := by
  have known := given.owners false ticket
  rw [(owners_of_returned quiet ticket).2, Memory.dispensed] at known
  have count := coherent.takers ticket
  rw [takers_cons, pushes, Nat.zero_add, known] at count
  simp only [Bool.false_eq_true, if_false] at count
  split at count <;> split at count <;> simp_all

omit quiet in
/-- The push ticket after those of the calls that have returned is the one that
the remaining call owns. -/
theorem owns_next (issued : before.pushTicket < memory.pushTicket) :
    pc.owns true before.pushTicket = 1 := by
  have known := given.owners true before.pushTicket
  simp only [Memory.dispensed, if_true, Nat.lt_irrefl, if_false] at known
  have count := coherent.owners true before.pushTicket
  rw [owners_cons, known, Memory.dispensed, if_pos rfl, if_pos issued] at count
  exact count

/-- The cell of that ticket is at its turn exactly if the array has room. -/
theorem onTurn_iff (found : resolve memory.arrays before.pushTicket = some array)
    (positive : 0 < array.capacity) (pushes : ∀ ticket, pc.takes ticket = 0)
    (waits : holders (⟨id, pc⟩ :: others) =
      ((memory.stored before.pushTicket).map fun value =>
        ⟨before.pushTicket, .storeWait value⟩).toList) :
    memory.OnTurn layout array true before.pushTicket ↔
      before.pushTicket < max before.popTicket array.offset + array.capacity := by
  have reached := offset_le_of_resolve found
  have phases : phasesAt true before.pushTicket (holders (⟨id, pc⟩ :: others)) =
      storeWaits (memory.stored before.pushTicket) := by
    rw [waits]
    cases memory.stored before.pushTicket <;> simp [phasesAt, storeWaits, Phase.storing]
  have elsewhere : ∀ storing earlier, before.pushTicket ≠ earlier →
      phasesAt storing earlier (holders (⟨id, pc⟩ :: others)) = [] := by
    intro storing earlier different
    rw [waits]
    cases memory.stored before.pushTicket <;> simp [phasesAt, different]
  have placed : placeIn layout memory.arrays before.pushTicket =
      array.place layout before.pushTicket := placeIn_eq found
  have sequenced := coherent.sequenced
  unfold Memory.OnTurn
  rw [← placed]
  rcases Nat.lt_or_ge before.pushTicket (array.offset + array.capacity) with first | later
  · have turnIs : (placeIn layout memory.arrays before.pushTicket).2 = 0 := by
      rw [placed]
      exact Nat.div_eq_of_lt (by omega)
    refine iff_of_true (sequenced.at_of_first turnIs phases) ?_
    omega
  · -- the ticket before on the same cell belongs to the same array
    obtain ⟨sameCell, nextTurn⟩ := @ClosedArray.place_pred layout _ _ positive later
    have earlierPlaced : placeIn layout memory.arrays (before.pushTicket - array.capacity) =
        array.place layout (before.pushTicket - array.capacity) :=
      placeIn_eq (resolve_of_between found (by omega) (Nat.sub_le _ _))
    rw [← placed, ← earlierPlaced] at sameCell nextTurn
    have stored : (memory.stored (before.pushTicket - array.capacity)).isSome :=
      stored_of_lt quiet given coherent (by omega)
    have different : before.pushTicket ≠ before.pushTicket - array.capacity := by omega
    rw [sequenced.at_iff_popped sameCell nextTurn phases stored (elsewhere true _ different)
      (elsewhere false _ different), taken_iff_lt quiet given coherent (pushes _)]
    omega

end Beside

/-! ## The call that is left alone -/

section Alone

variable {state begun later : Global (Memory V) (Call V)} {value : V}

/-- The other calls stay, and the array of the call's ticket does. -/
def Owned (state : Global (Memory V) (Call V)) (value : V) (memory : Memory V)
    (calls : List (Call V)) : Prop :=
  ∃ pc, calls.Perm (⟨state.shared.nextCall, pc⟩ :: state.agents) ∧
    (pc = .begin .blocking (.push value) ∧ memory.pushTicket = state.shared.pushTicket ∧
        memory.arrays = state.shared.arrays ∨
      state.shared.pushTicket < memory.pushTicket ∧ (memory.arrays.length ≤ 32 →
        resolve memory.arrays state.shared.pushTicket =
          resolve state.shared.arrays state.shared.pushTicket))

theorem hasRoom_iff {memory : Memory V} {array : ClosedArray}
    (found : resolve memory.arrays memory.pushTicket = some array) :
    memory.HasRoom ↔
      memory.pushTicket < max memory.popTicket array.offset + array.capacity := by
  constructor
  · rintro ⟨other, otherFound, room⟩
    rw [found] at otherFound
    cases otherFound
    exact room
  · exact fun room => ⟨array, found, room⟩

theorem owns_push_cases {pc : Pc V} {ticket : Nat} (owns : pc.owns true ticket = 1) :
    (∃ value other at_, pc = .trying ⟨.blocking, .push value, ticket, other⟩ at_) ∨
      (∃ array holder, pc = .holding array holder ∧ holder.phase.storing = true ∧
        holder.ticket = ticket) ∨ ∃ array value, pc = .wrote array ticket value := by
  cases pc with
  | trying attempt at_ =>
      obtain ⟨kind, side, own, other⟩ := attempt
      cases kind <;> cases side <;>
        simp [Pc.owns, Pc.owned?, Pc.stores, Pc.stored?, Side.pushes] at owns
      subst owns
      exact .inl ⟨_, _, _, rfl⟩
  | holding array holder =>
      cases storing : holder.phase.storing <;>
        simp [Pc.owns, Pc.owned?, Pc.stores, Pc.stored?, storing] at owns
      exact .inr (.inl ⟨array, holder, rfl, storing, owns⟩)
  | wrote array own value =>
      simp [Pc.owns, Pc.owned?, Pc.stores, Pc.stored?] at owns
      subst owns
      exact .inr (.inr ⟨array, value, rfl⟩)
  | _ => simp [Pc.owns, Pc.owned?, Pc.stores, Pc.stored?] at owns

theorem begun_eq (begins : (system layout).step state (.env (.blockingWrite value)) = some begun) :
    begun = ⟨{ state.shared with nextCall := state.shared.nextCall + 1 },
      ⟨state.shared.nextCall, .begin .blocking (.push value)⟩ :: state.agents⟩ := by
  obtain ⟨after, left, acted, rfl⟩ := step_env begins
  cases acted
  rfl

variable (reached : Reachable (system layout) (fun state label => singleThreaded state label) state)
  (alone : singleThreaded state (.env (.blockingWrite value)))
  (begins : (system layout).step state (.env (.blockingWrite value)) = some begun)

include reached alone begins

theorem reached_later
    (went : Reaches (system layout) (fun state label => noFurtherCall state label) begun later) :
    Reachable (system layout) (fun state label => singleThreaded state label) later := by
  induction went with
  | refl => exact .step reached alone begins
  | @step middle next label _ permitted moved ih =>
      refine .step ih ?_ moved
      cases label with
      | act index choice => exact permitted
      | env operation => cases permitted

theorem owned_later
    (went : Reaches (system layout) (fun state label => noFurtherCall state label) begun later) :
    Owned state value later.shared later.agents := by
  have quiet : ∀ call ∈ state.agents, call.pc.returned = true := List.all_eq_true.mp alone
  refine Reaches.invariant (Owned state value) ?_ ?_ ?_ ?_ went
  · rintro memory calls others same ⟨pc, shape, owned⟩
    exact ⟨pc, same.symm.trans shape, owned⟩
  · rw [begun_eq begins]
    exact ⟨_, .refl _, .inl ⟨rfl, rfl, rfl⟩⟩
  · rintro middle index choice call after left path _ found acted ⟨pc, shape, owned⟩
    obtain ⟨next, stepped, rfl⟩ := act_eq_some acted
    have isOwn : call = ⟨state.shared.nextCall, pc⟩ := by
      rcases List.mem_cons.mp (shape.mem_iff.mp List.mem_cons_self) with own | other
      · exact own
      · exact absurd (quiet call other) (Bool.eq_false_iff.mp (not_returned_of_next stepped))
    subst isOwn
    have rest := shape.cons_inv
    refine ⟨next, rest.cons _, .inr ?_⟩
    obtain ⟨-, pushes, -, more⟩ := counters_next stepped
    rcases owned with ⟨rfl, pushIs, arraysAre⟩ | ⟨issued, same⟩
    · cases stepped
      refine ⟨?_, fun _ => ?_⟩
      · rw [← pushIs]
        exact Nat.lt_succ_self _
      · exact congrArg (resolve · state.shared.pushTicket) arraysAre
    · refine ⟨Nat.lt_of_lt_of_le issued pushes, fun few => ?_⟩
      have fewBefore := Nat.le_trans more few
      cases publishes_next stepped with
      | same arrays =>
          rw [arrays]
          exact same fewBefore
      | @released attempt array expansion ticket newSlots expansionIs stageIs =>
          have reachedHere := reached_later reached alone begins path
          have coherent := (reachable_coherent reachedHere.any fewBefore).perm
            ((perm_of_getElem? found).trans shape)
          have given := reachable_coherent reached.any ((reachable_lone reached).few quiet)
          have resolved := (coherent.pcs _ List.mem_cons_self).2
          have own : attempt.ticket = state.shared.pushTicket := by
            rcases owns_push_cases (owns_next given coherent issued) with
              ⟨_, _, _, pcIs⟩ | ⟨_, _, pcIs, -⟩ | ⟨_, _, pcIs⟩ <;> cases pcIs
            rfl
          obtain ⟨front, current, memoryOk⟩ := coherent.ordered
          obtain ⟨-, -, stageOk⟩ := memoryOk.busy expansion expansionIs
          rw [stageIs] at stageOk
          have below : state.shared.pushTicket < ticket := by
            rw [← own]
            exact Nat.lt_of_lt_of_le resolved.below stageOk.2.1.beyond
          rw [← same fewBefore]
          exact resolve_append_of_lt below
  · rintro middle operation after left _ permitted
    cases permitted

/-- What a state shows in which the call has its ticket and is not stuck. -/
theorem seen_later {pc : Pc V}
    (went : Reaches (system layout) (fun state label => noFurtherCall state label) begun later)
    (member : ⟨state.shared.nextCall, pc⟩ ∈ later.agents) (unstuck : ¬ pc.Stuck later.shared)
    (moved : ∀ kind side, pc ≠ .begin kind side) :
    Coherent layout later.shared (⟨state.shared.nextCall, pc⟩ :: state.agents) ∧
      later.shared.arrays.length ≤ 32 ∧ pc.owns true state.shared.pushTicket = 1 ∧
      resolve later.shared.arrays state.shared.pushTicket =
        resolve state.shared.arrays state.shared.pushTicket := by
  have quiet : ∀ call ∈ state.agents, call.pc.returned = true := List.all_eq_true.mp alone
  obtain ⟨own, shape, owned⟩ := owned_later reached alone begins went
  have isOwn : pc = own := by
    rcases List.mem_cons.mp (shape.mem_iff.mp member) with same | other
    · exact congrArg Call.pc same
    · exact absurd ((numbered layout).lt reached.any _ other) (Nat.lt_irrefl _)
  subst isOwn
  have reachedLater := reached_later reached alone begins went
  have few : later.shared.arrays.length ≤ 32 := by
    rcases ((reachable_lone reachedLater).perm shape).bounded with few | ⟨call, inCalls, stuck⟩
    · exact few
    · rcases List.mem_cons.mp inCalls with rfl | other
      · exact absurd stuck unstuck
      · exact absurd stuck (not_stuck_of_returned (quiet call other))
  have given := reachable_coherent reached.any ((reachable_lone reached).few quiet)
  have coherent := (reachable_coherent reachedLater.any few).perm shape
  rcases owned with ⟨rfl, -, -⟩ | ⟨issued, same⟩
  · exact absurd rfl (moved _ _)
  · exact ⟨coherent, few, owns_next given coherent issued, same few⟩

/-- Where the call waits for its cell, the cell is at its turn exactly if there
was room when the call was made. -/
theorem onTurn_later (positive : 0 < layout.capacity)
    (went : Reaches (system layout) (fun state label => noFurtherCall state label) begun later)
    {array : ClosedArray} {ticket : Nat} {stored : V}
    (member : ⟨state.shared.nextCall, .holding array ⟨ticket, .storeWait stored⟩⟩ ∈ later.agents) :
    later.shared.OnTurn layout array true ticket ↔ state.shared.HasRoom := by
  have quiet : ∀ call ∈ state.agents, call.pc.returned = true := List.all_eq_true.mp alone
  obtain ⟨coherent, few, owns, sameArray⟩ :=
    seen_later reached alone begins went member id nofun
  have given := reachable_coherent reached.any ((reachable_lone reached).few quiet)
  obtain rfl : ticket = state.shared.pushTicket := by
    rcases owns_push_cases owns with ⟨_, _, _, pcIs⟩ | ⟨_, _, pcIs, -, own⟩ | ⟨_, _, pcIs⟩ <;>
      cases pcIs
    exact own
  have found : resolve later.shared.arrays state.shared.pushTicket = some array :=
    (coherent.pcs _ List.mem_cons_self).found
  have nonempty := reachable_positive positive (reached_later reached alone begins went).any few
    array (mem_of_resolve found)
  have holdersAre : holders (⟨state.shared.nextCall,
      .holding array ⟨state.shared.pushTicket, .storeWait stored⟩⟩ :: state.agents) =
        [⟨state.shared.pushTicket, .storeWait stored⟩] := by
    rw [holders_cons, holders_of_returned quiet]
    rfl
  have storedIs : later.shared.stored state.shared.pushTicket = some stored := by
    have sequenced := coherent.sequenced
    rw [holdersAre] at sequenced
    exact sequenced.value_of_storing List.mem_cons_self rfl
  rw [hasRoom_iff (sameArray ▸ found)]
  refine onTurn_iff quiet given coherent found nonempty (fun _ => ?_) ?_
  · simp [Pc.takes, Pc.taken?, Phase.storing]
  · rw [holdersAre, storedIs]
    rfl

theorem room_of_completes (positive : 0 < layout.capacity)
    (completes : CompletesAlone layout state.shared.nextCall begun) : state.shared.HasRoom := by
  obtain ⟨later, went, array, ticket, stored, member⟩ := completes
  have quiet : ∀ call ∈ state.agents, call.pc.returned = true := List.all_eq_true.mp alone
  obtain ⟨coherent, few, owns, sameArray⟩ :=
    seen_later reached alone begins went member id nofun
  have given := reachable_coherent reached.any ((reachable_lone reached).few quiet)
  obtain rfl : ticket = state.shared.pushTicket := by
    rcases owns_push_cases owns with ⟨_, _, _, pcIs⟩ | ⟨_, _, pcIs, -, -⟩ | ⟨_, _, pcIs⟩ <;>
      cases pcIs
    rfl
  obtain ⟨⟨found, -⟩, storedIs⟩ := coherent.pcs _ List.mem_cons_self
  have nonempty := reachable_positive positive (reached_later reached alone begins went).any few
    array (mem_of_resolve found)
  have noHolders : holders (⟨state.shared.nextCall,
      .wrote array state.shared.pushTicket stored⟩ :: state.agents) = [] := by
    rw [holders_cons, holders_of_returned quiet]
    rfl
  have sequenced := coherent.sequenced
  rw [noHolders] at sequenced
  rw [hasRoom_iff (sameArray ▸ found)]
  by_contra full
  -- the ticket before on the same cell was not taken
  have reachedOffset := offset_le_of_resolve found
  have lastRound : array.offset + array.capacity ≤ state.shared.pushTicket := by omega
  obtain ⟨sameCell, nextTurn⟩ := @ClosedArray.place_pred layout _ _ nonempty lastRound
  have earlierFound : resolve later.shared.arrays
      (state.shared.pushTicket - array.capacity) = some array :=
    resolve_of_between found (by omega) (Nat.sub_le _ _)
  rw [← placeIn_eq found, ← placeIn_eq earlierFound] at sameCell nextTurn
  have turnIs := sequenced.turn_of_stored storedIs rfl
  rw [sameCell, nextTurn] at turnIs
  have past : (placeIn layout later.shared.arrays (state.shared.pushTicket - array.capacity)).2 * 2 +
      2 ≤ (later.shared.cells (placeIn layout later.shared.arrays
        (state.shared.pushTicket - array.capacity)).1).turn := by
    omega
  have taken := (sequenced.given_of_past past).2
  rw [taken_iff_lt quiet given coherent rfl] at taken
  omega

omit reached alone begins in
/-- The call moves, with every allocation successful. -/
theorem reaches_head {memory after : Memory V} {pc next : Pc V} {id : Nat} {rest : List (Call V)}
    (went : Reaches (system layout) (fun state label => noFurtherCall state label) begun
      ⟨memory, ⟨id, pc⟩ :: rest⟩)
    (stepped : pc.next layout {} memory = some (after, next)) :
    Reaches (system layout) (fun state label => noFurtherCall state label) begun
      ⟨after, ⟨id, next⟩ :: rest⟩ := by
  have allowed : noFurtherCall ⟨memory, ⟨id, pc⟩ :: rest⟩
      (.act 0 {} : Label Choice (Operation V)) = true := rfl
  refine .step went allowed ?_
  simp [System.step, system, act, stepped]

omit reached alone begins in
/-- A call whose cell is at its turn stores its value. -/
theorem stores_alone {memory : Memory V} {array : ClosedArray} {ticket id : Nat} {stored : V}
    {rest : List (Call V)}
    (went : Reaches (system layout) (fun state label => noFurtherCall state label) begun
      ⟨memory, ⟨id, .holding array ⟨ticket, .storeWait stored⟩⟩ :: rest⟩)
    (come : memory.OnTurn layout array true ticket) :
    ∃ after, Reaches (system layout) (fun state label => noFurtherCall state label) begun
      ⟨after, ⟨id, .wrote array ticket stored⟩ :: rest⟩ := by
  let place := array.place layout ticket
  have arrived : (memory.cells place.1).advance place.2 (.storeWait stored) =
      some (memory.cells place.1, .inl (.store stored)) := if_pos come
  have stepped : Pc.next layout {} memory (.holding array ⟨ticket, .storeWait stored⟩) =
      some ({ memory with
          cells := Function.update memory.cells place.1 (memory.cells place.1) },
        .holding array ⟨ticket, .store stored⟩) := by
    simp only [Pc.next]
    rw [show (memory.cells (array.place layout ticket).1).advance (array.place layout ticket).2
      (.storeWait stored) = _ from arrived]
    rfl
  have store := reaches_head went stepped
  have done := reaches_head store rfl
  exact ⟨_, reaches_head done rfl⟩

theorem completes_of_room (positive : 0 < layout.capacity) (room : state.shared.HasRoom) :
    CompletesAlone layout state.shared.nextCall begun := by
  have quiet : ∀ call ∈ state.agents, call.pc.returned = true := List.all_eq_true.mp alone
  have lone := reachable_lone reached
  have few := lone.few quiet
  have given := reachable_coherent reached.any few
  have unlocked : state.shared.expansion = none := by
    cases expansionIs : state.shared.expansion with
    | none => rfl
    | some expansion =>
        obtain ⟨call, member, expands⟩ := lone.expanding (by rw [expansionIs]; rfl)
        exact absurd expands (Bool.eq_false_iff.mp (returned_quiet (quiet call member)).1)
  have even : ¬ state.shared.dstate % 2 = 1 := by
    obtain ⟨front, current, memoryOk⟩ := given.ordered
    have dstate := memoryOk.dstate
    rw [unlocked, Option.isSome_none] at dstate
    simp only [Bool.false_eq_true, if_false, Nat.add_zero] at dstate
    rw [dstate, seqlockWord_even]
    exact Nat.zero_ne_one
  let attempt : Attempt V := ⟨.blocking, .push value, state.shared.pushTicket, 0⟩
  let snapshot : Snapshot := ⟨state.shared.dstate, state.shared.dslots, state.shared.dcapacity,
    state.shared.dstride⟩
  let memory : Memory V := { state.shared with
    nextCall := state.shared.nextCall + 1
    pushTicket := state.shared.pushTicket + 1
    highest := max state.shared.highest (state.shared.pushTicket + 1) }
  -- the ticket is taken and a read section validated
  have resolving : Reaches (system layout) (fun state label => noFurtherCall state label) begun
      ⟨memory, ⟨state.shared.nextCall, .trying attempt (.resolve snapshot)⟩ :: state.agents⟩ := by
    have start : Reaches (system layout) (fun state label => noFurtherCall state label) begun
        begun := .refl
    rw [begun_eq begins] at start ⊢
    have taken := reaches_head start rfl
    have read := reaches_head taken (if_neg even)
    have slots := reaches_head read rfl
    have capacity := reaches_head slots rfl
    have stride := reaches_head capacity rfl
    exact reaches_head stride (if_pos rfl)
  have coherent := reachable_coherent (reached_later reached alone begins resolving).any few
  obtain ⟨front, current, memoryOk⟩ := coherent.ordered
  have valid : Valid memory state.shared.pushTicket snapshot :=
    (coherent.pcs _ List.mem_cons_self).2
  obtain ⟨array, lagging, search, ⟨found, -⟩, -, -⟩ :=
    valid.maybeUpdateFromClosed memoryOk (memoryOk.front_lt few)
  have unstored : memory.stored state.shared.pushTicket = none := by
    have known := given.owners true state.shared.pushTicket
    simp only [Memory.dispensed, if_true, Nat.lt_irrefl, if_false] at known
    rw [(owners_of_returned quiet _).1] at known
    have count := coherent.storers state.shared.pushTicket
    rw [storers_cons, known] at count
    cases storedIs : memory.stored state.shared.pushTicket with
    | none => rfl
    | some stored =>
        rw [storedIs] at count
        exact absurd count Nat.zero_ne_one
  have noHolders : holders
      (⟨state.shared.nextCall, .trying attempt (.resolve snapshot)⟩ :: state.agents) = [] := by
    rw [holders_cons, holders_of_returned quiet]
    rfl
  have nonempty := reachable_positive positive reached.any few array (mem_of_resolve found)
  have come : memory.OnTurn layout array true state.shared.pushTicket := by
    refine (onTurn_iff quiet given coherent found nonempty (fun _ => rfl) ?_).mpr
      ((hasRoom_iff found).mp room)
    rw [noHolders, unstored]
    rfl
  have ready : lagging = true ∨ mayEnqueue (memory.cells (array.place layout attempt.ticket).1)
      (array.place layout attempt.ticket).2 = true := .inr (decide_eq_true come)
  -- the call goes to its cell, finds it at its turn and stores
  have located : Reaches (system layout) (fun state label => noFurtherCall state label) begun
      ⟨memory, ⟨state.shared.nextCall, .trying attempt (.located snapshot array lagging)⟩ ::
        state.agents⟩ := by
    refine reaches_head resolving ?_
    simp only [Pc.next, Trying.next]
    rw [show attempt.ticket = state.shared.pushTicket from rfl, search]
  have holding := reaches_head located (congrArg some (if_pos ready))
  obtain ⟨after, wrote⟩ := stores_alone holding come
  exact ⟨_, wrote, array, _, value, List.mem_cons_self⟩

end Alone

/-- A call of `blockingWrite` that a single thread makes completes alone
exactly if there is room in the array of its ticket, and then the cell that it
goes to is at its turn. Whether the queue could grow does not matter. -/
theorem blockingWrite_completes (layout : Layout) (positive : 0 < layout.capacity)
    {state begun : Global (Memory V) (Call V)} (value : V)
    (reached : Reachable (system layout) (fun state label => singleThreaded state label) state)
    (alone : singleThreaded state (.env (.blockingWrite value)))
    (begins : (system layout).step state (.env (.blockingWrite value)) = some begun) :
    (CompletesAlone layout state.shared.nextCall begun ↔ state.shared.HasRoom) ∧
    ∀ later, Reaches (system layout) (fun state label => noFurtherCall state label) begun later →
      ∀ array ticket stored,
        ⟨state.shared.nextCall, .holding array ⟨ticket, .storeWait stored⟩⟩ ∈ later.agents →
          (later.shared.OnTurn layout array true ticket ↔ state.shared.HasRoom) := by
  refine ⟨⟨?_, ?_⟩, fun later went array ticket stored member => ?_⟩
  · exact room_of_completes reached alone begins positive
  · exact completes_of_room reached alone begins positive
  · exact onTurn_later reached alone begins positive went member

/-- A write and a read with a `writeIfNotFull` between them, which expands the
queue and is refused; then the second write of the first array. -/
def grown : List (Label Choice (Operation Nat)) :=
  .env (.blockingWrite 10) :: List.replicate 11 (.act 0 {}) ++
    .env (.writeIfNotFull 11) :: List.replicate 27 (.act 0 {}) ++
    .env .blockingRead :: List.replicate 11 (.act 0 {}) ++
    .env (.blockingWrite 12) :: List.replicate 11 (.act 0 {})

theorem blockingWrite_completes_grown :
    ∃ state begun : Global (Memory Nat) (Call Nat),
      (system ⟨4, 1, 2, 1⟩).run (system ⟨4, 1, 2, 1⟩).init grown = some state ∧
      state.shared.arrays = [⟨0, 0, 1, 1⟩, ⟨2, 1, 2, 1⟩] ∧
      (system ⟨4, 1, 2, 1⟩).step state (.env (.blockingWrite 13)) = some begun ∧
      CompletesAlone ⟨4, 1, 2, 1⟩ state.shared.nextCall begun := by
  have replayed : ((system ⟨4, 1, 2, 1⟩).run (system ⟨4, 1, 2, 1⟩).init grown).map
      (fun state => (state.shared.arrays, state.shared.counters,
        singleThreaded state (.env (.blockingWrite 13)))) =
          some ([⟨0, 0, 1, 1⟩, ⟨2, 1, 2, 1⟩], (2, 1), true) := by
    decide +kernel
  have permitted : (system ⟨4, 1, 2, 1⟩).Permits (fun state label => singleThreaded state label)
      (system ⟨4, 1, 2, 1⟩).init grown := by
    decide +kernel
  obtain ⟨state, run, observed⟩ := Option.map_eq_some_iff.mp replayed
  obtain ⟨arrays, counters, alone⟩ := Prod.mk.inj observed |>.imp id Prod.mk.inj
  obtain ⟨pushes, pops⟩ := Prod.mk.inj counters
  -- ticket 2 opens the second array
  have room : state.shared.HasRoom := by
    rw [Memory.HasRoom, arrays, pushes, pops]
    exact ⟨⟨2, 1, 2, 1⟩, rfl, by decide⟩
  refine ⟨state, _, run, arrays, rfl, ?_⟩
  exact (blockingWrite_completes ⟨4, 1, 2, 1⟩ (by decide) 13 (Reachable.init.replay permitted run)
    alone rfl).1.mpr room

/-- A write that has returned fills the first array. -/
def oneWritten : List (Label Choice (Operation Nat)) :=
  .env (.blockingWrite 10) :: List.replicate 11 (.act 0 {})

/-- With one element in a queue of four, another `blockingWrite` never
completes alone. -/
theorem not_blockingWrite_completes :
    ¬ ∀ (layout : Layout) (state begun : Global (Memory Nat) (Call Nat)) (value : Nat),
      0 < layout.capacity →
      Reachable (system layout) (fun state label => singleThreaded state label) state →
      singleThreaded state (.env (.blockingWrite value)) →
      (system layout).step state (.env (.blockingWrite value)) = some begun →
      state.shared.pushTicket < state.shared.popTicket + layout.capacity →
      CompletesAlone layout state.shared.nextCall begun := by
  intro completes
  have replayed : ((system ⟨4, 1, 2, 1⟩).run (system ⟨4, 1, 2, 1⟩).init oneWritten).map
      (fun state => (state.shared.arrays, state.shared.counters,
        singleThreaded state (.env (.blockingWrite 11)))) =
          some ([⟨0, 0, 1, 1⟩], (1, 0), true) := by
    decide
  have permitted : (system ⟨4, 1, 2, 1⟩).Permits (fun state label => singleThreaded state label)
      (system ⟨4, 1, 2, 1⟩).init oneWritten := by
    decide
  obtain ⟨state, run, observed⟩ := Option.map_eq_some_iff.mp replayed
  obtain ⟨arrays, counters, alone⟩ := Prod.mk.inj observed |>.imp id Prod.mk.inj
  obtain ⟨pushes, pops⟩ := Prod.mk.inj counters
  have reached := Reachable.init.replay permitted run
  have room := room_of_completes reached alone rfl (by decide)
    (completes ⟨4, 1, 2, 1⟩ state _ 11 (by decide) reached alone rfl (by rw [pushes, pops]; decide))
  rw [Memory.HasRoom, arrays, pushes, pops] at room
  obtain ⟨array, found, inside⟩ := room
  cases found
  exact absurd inside (by decide)

end ThreadPoolExec.MPMCQueue.Dynamic
