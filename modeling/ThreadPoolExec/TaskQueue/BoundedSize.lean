import Mathlib.Algebra.Order.BigOperators.Group.List
import Mathlib.Algebra.Order.Group.Nat
import ThreadPoolExec.CounterSnapshot
import ThreadPoolExec.CountingSemaphore
import ThreadPoolExec.MPMCQueue.DynamicSteps
import ThreadPoolExec.MPMCQueue.StaticPromises
import ThreadPoolExec.TaskQueue.Priority

/-!
# Sizes of the bounded queues

`MPMCQueue::size()` and its sum over the sub-queues of a
`PriorityLifoSemMPMCQueue` that throws when it is full. The calls run on the
tickets of the sub-queues; `LifoSemMPMCQueue` is the case of one sub-queue.
-/

set_option autoImplicit false

namespace ThreadPoolExec.PriorityLifoSemMPMCQueue.Sizes

open CounterSnapshot Interleaving MPMCQueue

universe u

variable {τ : Type u}

/-- The sub-queues that the constructor has made. Their slots, each of at least
one byte, are in memory together. -/
structure SubQueues where
  layouts : List Layout
  allocated : (layouts.map fun layout => layout.capacity + 2 * layout.kSlotPadding).sum < 2 ^ 64

def SubQueues.capacity (subQueues : SubQueues) : Nat :=
  (subQueues.layouts.map Layout.capacity).sum

structure Memory (τ : Type u) where
  sem : CountingSemaphore := {}
  queues : List (MPMCQueue.Memory τ)

/-- `ssize_t(pushes - pops)`, as the bits that `size_t` has. -/
def ssize (pushes pops : Nat) : BitVec 64 :=
  BitVec.ofNat 64 pushes - BitVec.ofNat 64 pops

/-- Where a call is. -/
inductive Call (τ : Type u) where
  | write (index : Nat) (pc : Pc τ)
  | post
  /-- In `nonBlockingTake`, with so many sub-queues still to probe. -/
  | probe (timed : Bool) (remaining : Nat)
  | read (timed : Bool) (index : Nat) (pc : Pc τ)
  | semWait (timed : Bool)
  | asleep (timed : Bool)
  /-- In `size()`, with the counters that the sizes so far are of. -/
  | size (terms : List (Nat × Nat)) (reader : Reader)
  | added
  | queueFull
  | aborted
  | returned (item : Option τ)
  | sized (terms : List (Nat × Nat))
deriving DecidableEq

/-- The sum that `size()` returns. -/
def sizeOf (terms : List (Nat × Nat)) : BitVec 64 :=
  terms.foldl (fun size term => size + ssize term.1 term.2) 0#64

inductive Invocation (τ : Type u) where
  | add (item : τ)
  | addWithPriority (item : τ) (priority : Int8)
  | take (timed : Bool)
  | size

def addWithPriority (memory : Memory τ) (item : τ) (priority : Int8) : Call τ :=
  let index := (queueIndex memory.queues.length.toUInt8.toNat priority).toNat
  if index < memory.queues.length then .write index (Operation.writeIfNotFull item).start
  else .aborted

def invoke (memory : Memory τ) : Invocation τ → Call τ
  | .add item => addWithPriority memory item Executor.MID_PRI
  | .addWithPriority item priority => addWithPriority memory item priority
  | .take timed => .probe timed memory.queues.length
  | .size => .size [] .begin

/-- A step of a call on one sub-queue. -/
def Memory.stepQueue (memory : Memory τ) (subQueues : SubQueues) (index : Nat) (pc : Pc τ) :
    Option (Memory τ × Pc τ) :=
  match subQueues.layouts[index]?, memory.queues[index]? with
  | some layout, some queue =>
      (pc.next layout queue).map fun moved =>
        ({ memory with queues := memory.queues.set index moved.1 }, moved.2)
  | _, _ => none

def next (subQueues : SubQueues) (choice : CountingSemaphore.Ending) (memory : Memory τ) :
    Call τ → Option (Memory τ × Call τ)
  | .write index pc =>
      match pc with
      | .wrote _ _ => some (memory, .post)
      | .refused _ => some (memory, .queueFull)
      | _ => (memory.stepQueue subQueues index pc).map fun moved => (moved.1, .write index moved.2)
  | .post => some ({ memory with sem := (memory.sem.post (choice = .handoff)).1 }, .added)
  | .probe timed remaining =>
      match remaining with
      | 0 => some (memory, .semWait timed)
      | index + 1 => some (memory, .read timed index Operation.readIfNotEmpty.start)
  | .read timed index pc =>
      match pc with
      | .read _ item => some (memory, .returned (some item))
      | .refused _ => some (memory, .probe timed index)
      | _ =>
          (memory.stepQueue subQueues index pc).map fun moved =>
            (moved.1, .read timed index moved.2)
  | .semWait timed =>
      match memory.sem.tryWait with
      | some sem => some ({ memory with sem := sem }, .probe timed memory.queues.length)
      | none => some ({ memory with sem := memory.sem.sleep }, .asleep timed)
  | .asleep timed =>
      match memory.sem.endWait timed choice with
      | none => none
      | some (sem, true) => some ({ memory with sem := sem }, .probe timed memory.queues.length)
      | some (sem, false) => some ({ memory with sem := sem }, .returned none)
  | .size terms reader =>
      match memory.queues[terms.length]? with
      | none => some (memory, .sized terms)
      | some queue =>
          match reader with
          | .done pushes pops => some (memory, .size (terms ++ [(pushes, pops)]) .begin)
          | _ =>
              (reader.next queue.pushTicket queue.popTicket).map fun reader =>
                (memory, .size terms reader)
  | .added | .queueFull | .aborted | .returned _ | .sized _ => none

def system (subQueues : SubQueues) :
    System (Memory τ) (Call τ) CountingSemaphore.Ending (Invocation τ) where
  init := ⟨{ queues := subQueues.layouts.map fun _ => {} }, []⟩
  act choice memory call :=
    (next subQueues choice memory call).map fun moved => (moved.1, [moved.2])
  env invocation memory := some (memory, [invoke memory invocation])

/-- The tickets given out differ by no more than a queue has room for. -/
def InBounds (capacity pushes pops : Nat) : Prop :=
  pops ≤ pushes ∧ pushes ≤ pops + capacity

structure Bounded (subQueues : SubQueues) (state : Global (Memory τ) (Call τ)) : Prop where
  queues : List.Forall₂ (fun layout queue =>
    InBounds layout.capacity queue.pushTicket queue.popTicket) subQueues.layouts state.shared.queues
  /-- `size()` adds up sizes within the capacities, without wrapping. -/
  sizes : ∀ terms, .sized terms ∈ state.agents →
    List.Forall₂ (fun layout term => InBounds layout.capacity term.1 term.2)
        subQueues.layouts terms ∧
      (sizeOf terms).toNat = (terms.map fun term => term.1 - term.2).sum ∧
      (sizeOf terms).toNat ≤ subQueues.capacity

/-! ## Steps of one sub-queue -/

section Steps

variable {layout : Layout} {queue moved : MPMCQueue.Memory τ} {pc following : Pc τ}

/-- A promised ticket is given out within the bounds. -/
theorem inBounds_next (stepped : pc.next layout queue = some (moved, following))
    (path : pc.PromisedPath layout queue)
    (bounded : InBounds layout.capacity queue.pushTicket queue.popTicket) :
    InBounds layout.capacity moved.pushTicket moved.popTicket := by
  have promised := promisedPath_next stepped path
  rcases next_cases stepped with ⟨rfl, -⟩ | ⟨side, rfl, rfl, -⟩ | ⟨holder, slot, left, -, -, rfl, -⟩
  · exact bounded
  · cases side with
    | push value =>
        have room : queue.pushTicket < queue.popTicket + layout.capacity := promised
        exact ⟨Nat.le_succ_of_le bounded.1, room⟩
    | pop =>
        have filled : queue.popTicket < queue.pushTicket := promised
        refine ⟨filled, Nat.le_trans bounded.2 ?_⟩
        exact Nat.add_le_add_right (Nat.le_succ queue.popTicket) layout.capacity
  · exact bounded

end Steps

/-! ## Steps of the calls -/

def TermsFit (subQueues : SubQueues) (terms : List (Nat × Nat)) : Prop :=
  ∀ (index : Nat) (layout : Layout) (term : Nat × Nat), subQueues.layouts[index]? = some layout →
    terms[index]? = some term → InBounds layout.capacity term.1 term.2

/-- What a call relies on. -/
def Call.Fits (subQueues : SubQueues) (memory : Memory τ) : Call τ → Prop
  | .write index pc | .read _ index pc =>
      ∀ layout queue, subQueues.layouts[index]? = some layout →
        memory.queues[index]? = some queue → pc.PromisedPath layout queue
  | .size terms reader =>
      terms.length ≤ subQueues.layouts.length ∧ TermsFit subQueues terms ∧
        ∀ layout queue, subQueues.layouts[terms.length]? = some layout →
          memory.queues[terms.length]? = some queue →
          reader.Tracks (InBounds layout.capacity) queue.pushTicket queue.popTicket
  | .sized terms => terms.length = subQueues.layouts.length ∧ TermsFit subQueues terms
  | _ => True

structure Consistent (subQueues : SubQueues) (memory : Memory τ) (calls : List (Call τ)) :
    Prop where
  length : memory.queues.length = subQueues.layouts.length
  bounded : ∀ (index : Nat) (layout : Layout) (queue : MPMCQueue.Memory τ),
    subQueues.layouts[index]? = some layout → memory.queues[index]? = some queue →
      InBounds layout.capacity queue.pushTicket queue.popTicket
  fits : ∀ call ∈ calls, call.Fits subQueues memory

/-- The tickets of the sub-queues only grow. -/
structure Memory.Grows (memory after : Memory τ) : Prop where
  length : after.queues.length = memory.queues.length
  tickets : ∀ {index : Nat} {later : MPMCQueue.Memory τ}, after.queues[index]? = some later →
    ∃ queue, memory.queues[index]? = some queue ∧
      queue.pushTicket ≤ later.pushTicket ∧ queue.popTicket ≤ later.popTicket

section Calls

variable {subQueues : SubQueues} {memory after : Memory τ} {index : Nat} {pc following : Pc τ}
  {call : Call τ} {rest others : List (Call τ)}

theorem Memory.grows_of_queues (same : after.queues = memory.queues) : memory.Grows after := by
  constructor
  case length => rw [same]
  case tickets =>
    intro index later found
    rw [same] at found
    exact ⟨later, found, Nat.le_refl _, Nat.le_refl _⟩

theorem Call.Fits.mono (grows : memory.Grows after) (fits : call.Fits subQueues memory) :
    call.Fits subQueues after := by
  cases call with
  | write index pc =>
      intro layout later placed found
      obtain ⟨queue, was, tickets⟩ := grows.tickets found
      exact (fits layout queue placed was).mono tickets
  | read timed index pc =>
      intro layout later placed found
      obtain ⟨queue, was, tickets⟩ := grows.tickets found
      exact (fits layout queue placed was).mono tickets
  | size terms reader =>
      refine ⟨fits.1, fits.2.1, fun layout later placed found => ?_⟩
      obtain ⟨queue, was, tickets⟩ := grows.tickets found
      exact (fits.2.2 layout queue placed was).mono tickets.1 tickets.2 fun _ _ => id
  | sized terms => exact fits
  | _ => trivial

theorem stepQueue_eq_some (stepped : memory.stepQueue subQueues index pc = some (after, following)) :
    ∃ layout queue moved, subQueues.layouts[index]? = some layout ∧
      memory.queues[index]? = some queue ∧ pc.next layout queue = some (moved, following) ∧
      after = { memory with queues := memory.queues.set index moved } := by
  unfold Memory.stepQueue at stepped
  split at stepped
  · next layout queue placed found =>
      obtain ⟨moved, ran, same⟩ := Option.map_eq_some_iff.mp stepped
      cases same
      exact ⟨layout, queue, moved.1, placed, found, ran, rfl⟩
  · cases stepped

/-- A step of one call on a sub-queue, which the other calls do not notice. -/
theorem consistent_stepQueue
    (stepped : memory.stepQueue subQueues index pc = some (after, following))
    (path : ∀ layout queue, subQueues.layouts[index]? = some layout →
      memory.queues[index]? = some queue → pc.PromisedPath layout queue)
    (consistent : Consistent subQueues memory (call :: rest)) :
    Consistent subQueues after rest ∧
      ∀ layout queue, subQueues.layouts[index]? = some layout →
        after.queues[index]? = some queue → following.PromisedPath layout queue := by
  obtain ⟨layout, queue, moved, placed, found, ran, rfl⟩ := stepQueue_eq_some stepped
  have inside := (List.getElem?_eq_some_iff.mp found).1
  have here := List.getElem?_set_self (a := moved) inside
  have own := path layout queue placed found
  have grows : memory.Grows { memory with queues := memory.queues.set index moved } := by
    constructor
    case length => exact List.length_set
    case tickets =>
      intro other later foundLater
      by_cases same : index = other
      · subst same
        rw [here] at foundLater
        cases foundLater
        exact ⟨queue, found, tickets_le_next ran⟩
      · rw [List.getElem?_set_ne same] at foundLater
        exact ⟨later, foundLater, Nat.le_refl _, Nat.le_refl _⟩
  refine ⟨⟨grows.length.trans consistent.length, ?_, ?_⟩, ?_⟩
  · intro other otherLayout later otherPlaced foundLater
    by_cases same : index = other
    · subst same
      rw [here] at foundLater
      rw [placed] at otherPlaced
      cases foundLater
      cases otherPlaced
      exact inBounds_next ran own (consistent.bounded index layout queue placed found)
    · rw [List.getElem?_set_ne same] at foundLater
      exact consistent.bounded other otherLayout later otherPlaced foundLater
  · exact fun other member => (consistent.fits other (List.mem_cons_of_mem _ member)).mono grows
  · intro otherLayout later otherPlaced foundLater
    rw [here] at foundLater
    rw [placed] at otherPlaced
    cases foundLater
    cases otherPlaced
    exact promisedPath_next ran own

/-- A step that leaves the sub-queues alone. -/
theorem Consistent.still {next : Call τ} (consistent : Consistent subQueues memory (call :: rest))
    (same : after.queues = memory.queues) (fits : next.Fits subQueues after) :
    Consistent subQueues after (next :: rest) := by
  have grows := Memory.grows_of_queues same
  constructor
  case length => exact grows.length.trans consistent.length
  case bounded =>
    intro index layout queue placed found
    exact consistent.bounded index layout queue placed (same ▸ found)
  case fits =>
    intro other member
    rcases List.mem_cons.mp member with rfl | later
    · exact fits
    · exact (consistent.fits other (List.mem_cons_of_mem _ later)).mono grows

theorem Consistent.cons {next : Call τ} (consistent : Consistent subQueues after rest)
    (fits : next.Fits subQueues after) : Consistent subQueues after (next :: rest) := by
  refine ⟨consistent.length, consistent.bounded, fun other member => ?_⟩
  rcases List.mem_cons.mp member with rfl | later
  · exact fits
  · exact consistent.fits other later

theorem fits_writeIfNotFull (index : Nat) (item : τ) :
    (Call.write index (Operation.writeIfNotFull item).start).Fits subQueues memory :=
  fun _ _ _ _ => trivial

theorem fits_readIfNotEmpty (timed : Bool) (index : Nat) :
    (Call.read timed index Operation.readIfNotEmpty.start : Call τ).Fits subQueues memory :=
  fun _ _ _ _ => trivial

theorem termsFit_append {terms : List (Nat × Nat)} {pushes pops : Nat}
    (fit : TermsFit subQueues terms)
    (last : ∀ layout, subQueues.layouts[terms.length]? = some layout →
      InBounds layout.capacity pushes pops) :
    TermsFit subQueues (terms ++ [(pushes, pops)]) := by
  intro index layout term placed found
  rcases Nat.lt_trichotomy index terms.length with before | here | beyond
  · rw [List.getElem?_append_left before] at found
    exact fit index layout term placed found
  · subst here
    rw [List.getElem?_concat_length] at found
    cases found
    exact last layout placed
  · rw [List.getElem?_eq_none] at found
    · cases found
    · rw [List.length_append]
      exact beyond

/-- The next load of a size, or the end of it. -/
theorem fits_size {choice : CountingSemaphore.Ending} {terms : List (Nat × Nat)} {reader : Reader}
    {following : Call τ} (stepped : next subQueues choice memory (.size terms reader) =
      some (after, following))
    (consistent : Consistent subQueues memory (.size terms reader :: rest)) :
    after = memory ∧ following.Fits subQueues memory := by
  obtain ⟨covered, fit, tracks⟩ := consistent.fits _ List.mem_cons_self
  simp only [next] at stepped
  split at stepped
  · next beyond =>
      cases stepped
      rw [List.getElem?_eq_none_iff, consistent.length] at beyond
      exact ⟨rfl, Nat.le_antisymm covered beyond, fit⟩
  · next queue found =>
      have inside := (List.getElem?_eq_some_iff.mp found).1
      rw [consistent.length] at inside
      split at stepped
      · next pushes pops =>
          cases stepped
          refine ⟨rfl, ?_, termsFit_append fit fun layout placed => tracks layout queue placed found,
            fun _ _ _ _ => trivial⟩
          rw [List.length_append]
          exact inside
      · obtain ⟨moved, ran, same⟩ := Option.map_eq_some_iff.mp stepped
        cases same
        refine ⟨rfl, covered, fit, fun layout later placed foundLater => ?_⟩
        rw [found] at foundLater
        cases foundLater
        exact (tracks layout queue placed found).step
          (consistent.bounded _ layout queue placed found) ran

theorem consistent_next {choice : CountingSemaphore.Ending} {following : Call τ}
    (stepped : next subQueues choice memory call = some (after, following))
    (consistent : Consistent subQueues memory (call :: rest)) :
    Consistent subQueues after (following :: rest) := by
  have own := consistent.fits call List.mem_cons_self
  cases call with
  | write index pc =>
      simp only [next] at stepped
      split at stepped
      · cases stepped
        exact consistent.still rfl trivial
      · cases stepped
        exact consistent.still rfl trivial
      · obtain ⟨moved, ran, same⟩ := Option.map_eq_some_iff.mp stepped
        cases same
        obtain ⟨others, path⟩ := consistent_stepQueue ran own consistent
        exact others.cons path
  | post =>
      cases stepped
      exact consistent.still rfl trivial
  | probe timed remaining =>
      cases remaining with
      | zero =>
          cases stepped
          exact consistent.still rfl trivial
      | succ index =>
          cases stepped
          exact consistent.still rfl (fits_readIfNotEmpty timed index)
  | read timed index pc =>
      simp only [next] at stepped
      split at stepped
      · cases stepped
        exact consistent.still rfl trivial
      · cases stepped
        exact consistent.still rfl trivial
      · obtain ⟨moved, ran, same⟩ := Option.map_eq_some_iff.mp stepped
        cases same
        obtain ⟨others, path⟩ := consistent_stepQueue ran own consistent
        exact others.cons path
  | semWait timed =>
      simp only [next] at stepped
      split at stepped
      · cases stepped
        exact consistent.still rfl trivial
      · cases stepped
        exact consistent.still rfl trivial
  | asleep timed =>
      simp only [next] at stepped
      split at stepped
      · cases stepped
      · cases stepped
        exact consistent.still rfl trivial
      · cases stepped
        exact consistent.still rfl trivial
  | size terms reader =>
      obtain ⟨rfl, fits⟩ := fits_size stepped consistent
      exact consistent.still rfl fits
  | added => cases stepped
  | queueFull => cases stepped
  | aborted => cases stepped
  | returned item => cases stepped
  | sized terms => cases stepped

theorem fits_addWithPriority (item : τ) (priority : Int8) :
    (addWithPriority memory item priority).Fits subQueues memory := by
  simp only [addWithPriority]
  split
  · exact fits_writeIfNotFull _ item
  · trivial

theorem fits_invoke (invocation : Invocation τ) :
    (invoke memory invocation).Fits subQueues memory := by
  cases invocation with
  | add item => exact fits_addWithPriority item Executor.MID_PRI
  | addWithPriority item priority => exact fits_addWithPriority item priority
  | take timed => trivial
  | size => exact ⟨Nat.zero_le _, nofun, fun _ _ _ _ => trivial⟩

end Calls

/-! ## Runs -/

section Runs

variable {subQueues : SubQueues} {state : Global (Memory τ) (Call τ)}

theorem consistent (reached : Reachable (system subQueues) anySchedule state) :
    Consistent subQueues state.shared state.agents := by
  apply Reaches.invariant (Consistent subQueues) _ _ _ _ reached
  · intro memory calls others same consistent
    exact ⟨consistent.length, consistent.bounded,
      fun call member => consistent.fits call (same.mem_iff.mpr member)⟩
  · refine ⟨List.length_map _, fun index layout queue placed found => ?_, nofun⟩
    obtain ⟨_, _, rfl⟩ := Option.map_eq_some_iff.mp (List.getElem?_map ▸ found)
    exact ⟨Nat.le_refl 0, Nat.zero_le _⟩
  · intro before index choice call memory left _ _ _ acted consistent
    obtain ⟨moved, stepped, same⟩ := Option.map_eq_some_iff.mp acted
    cases same
    exact consistent_next stepped consistent
  · intro before invocation memory left _ _ begun consistent
    cases begun
    exact consistent.cons (fits_invoke invocation)

end Runs

/-! ## Sums -/

section Sums

variable {layouts : List Layout} {terms : List (Nat × Nat)}

theorem sum_le_of_inBounds
    (fit : List.Forall₂ (fun layout term => InBounds layout.capacity term.1 term.2) layouts terms) :
    (terms.map fun term => term.1 - term.2).sum ≤ (layouts.map Layout.capacity).sum := by
  induction fit with
  | nil => exact Nat.le_refl 0
  | cons first rest ih =>
      simp only [List.map_cons, List.sum_cons]
      exact Nat.add_le_add (Nat.sub_le_iff_le_add'.mpr first.2) ih

theorem ssize_of_le {pushes pops : Nat} (order : pops ≤ pushes) :
    ssize pushes pops = BitVec.ofNat 64 (pushes - pops) := by
  obtain ⟨difference, rfl⟩ := Nat.exists_eq_add_of_le order
  rw [ssize, BitVec.ofNat_add, Nat.add_sub_cancel_left, BitVec.add_comm, BitVec.add_sub_cancel]

/-- Sizes that fit into a word together are added up without wrapping. -/
theorem toNat_foldl_ssize (ordered : ∀ term ∈ terms, term.2 ≤ term.1) (size : BitVec 64)
    (small : size.toNat + (terms.map fun term => term.1 - term.2).sum < 2 ^ 64) :
    (terms.foldl (fun size term => size + ssize term.1 term.2) size).toNat =
      size.toNat + (terms.map fun term => term.1 - term.2).sum := by
  induction terms generalizing size with
  | nil => rfl
  | cons term rest ih =>
      rw [List.map_cons, List.sum_cons] at small ⊢
      have first : (size + ssize term.1 term.2).toNat = size.toNat + (term.1 - term.2) := by
        rw [ssize_of_le (ordered term List.mem_cons_self), BitVec.toNat_add, BitVec.toNat_ofNat,
          Nat.add_mod_mod]
        apply Nat.mod_eq_of_lt
        omega
      rw [List.foldl_cons, ih fun other member => ordered other (List.mem_cons_of_mem _ member)]
      · rw [first, Nat.add_assoc]
      · rw [first, Nat.add_assoc]
        exact small

theorem forall₂_of_termsFit {subQueues : SubQueues} (length : terms.length = subQueues.layouts.length)
    (fit : TermsFit subQueues terms) :
    List.Forall₂ (fun layout term => InBounds layout.capacity term.1 term.2) subQueues.layouts
      terms := by
  rw [List.forall₂_iff_get]
  refine ⟨length.symm, fun index inside insideTerms => ?_⟩
  exact fit index _ _ (List.getElem?_eq_getElem inside) (List.getElem?_eq_getElem insideTerms)

end Sums

theorem SubQueues.capacity_lt (subQueues : SubQueues) : subQueues.capacity < 2 ^ 64 := by
  apply Nat.lt_of_le_of_lt _ subQueues.allocated
  exact List.sum_le_sum fun layout _ => Nat.le_add_right _ _

theorem bounded {subQueues : SubQueues} {state : Global (Memory τ) (Call τ)}
    (reached : Reachable (system subQueues) anySchedule state) : Bounded subQueues state := by
  have consistent := consistent reached
  constructor
  case queues =>
    rw [List.forall₂_iff_get]
    refine ⟨consistent.length.symm, fun index inside insideQueues => ?_⟩
    exact consistent.bounded index _ _ (List.getElem?_eq_getElem inside)
      (List.getElem?_eq_getElem insideQueues)
  case sizes =>
    intro terms sized
    obtain ⟨length, termsFit⟩ := consistent.fits _ sized
    have fit := forall₂_of_termsFit length termsFit
    have within := sum_le_of_inBounds fit
    have ordered : ∀ term ∈ terms, term.2 ≤ term.1 := by
      intro term member
      obtain ⟨index, found⟩ := List.getElem?_of_mem member
      have inside := (List.getElem?_eq_some_iff.mp found).1
      rw [length] at inside
      exact (termsFit index _ term (List.getElem?_eq_getElem inside) found).1
    have unwrapped : (sizeOf terms).toNat = (terms.map fun term => term.1 - term.2).sum := by
      have small : (0#64).toNat + (terms.map fun term => term.1 - term.2).sum < 2 ^ 64 := by
        rw [BitVec.toNat_zero, Nat.zero_add]
        exact Nat.lt_of_le_of_lt within subQueues.capacity_lt
      rw [sizeOf, toNat_foldl_ssize ordered 0#64 small, BitVec.toNat_zero, Nat.zero_add]
    exact ⟨fit, unwrapped, unwrapped ▸ within⟩

/-! ## Sizes of one queue -/

theorem static_linearizable (layout : Layout) :
    Linearizable (MPMCQueue.system layout : System (MPMCQueue.Memory τ) _ _ _)
      MPMCQueue.Memory.pushTicket MPMCQueue.Memory.popTicket := by
  apply linearizable
  · constructor
    · intro choice memory call after left acted
      obtain ⟨next, stepped, _⟩ := MPMCQueue.act_eq_some choice acted
      exact (tickets_le_next stepped).1
    · intro operation memory after left begun
      cases begun
      exact Nat.le_refl _
  · constructor
    · intro choice memory call after left acted
      obtain ⟨next, stepped, _⟩ := MPMCQueue.act_eq_some choice acted
      exact (tickets_le_next stepped).2
    · intro operation memory after left begun
      cases begun
      exact Nat.le_refl _

theorem dynamic_linearizable (layout : Dynamic.Layout) :
    Linearizable (Dynamic.system layout : System (Dynamic.Memory τ) _ _ _)
      Dynamic.Memory.pushTicket Dynamic.Memory.popTicket := by
  apply linearizable
  · constructor
    · intro choice memory call after left acted
      obtain ⟨next, stepped, _⟩ := Dynamic.act_eq_some acted
      exact (Dynamic.counters_next stepped).2.1
    · intro operation memory after left begun
      cases begun
      exact Nat.le_refl _
  · constructor
    · intro choice memory call after left acted
      obtain ⟨next, stepped, _⟩ := Dynamic.act_eq_some acted
      exact (Dynamic.counters_next stepped).2.2.1
    · intro operation memory after left begun
      cases begun
      exact Nat.le_refl _

/-- `size()` of one queue is the difference of its tickets at one instant of the
call, and the sub-queues of a bounded queue and its sizes stay within the
capacities. -/
theorem size_linearizable_bounded :
    (∀ layout : Layout, Linearizable (MPMCQueue.system layout : System (MPMCQueue.Memory τ) _ _ _)
      MPMCQueue.Memory.pushTicket MPMCQueue.Memory.popTicket) ∧
    (∀ layout : Dynamic.Layout,
      Linearizable (Dynamic.system layout : System (Dynamic.Memory τ) _ _ _)
        Dynamic.Memory.pushTicket Dynamic.Memory.popTicket) ∧
    ∀ (subQueues : SubQueues) (state : Global (Memory τ) (Call τ)),
      Reachable (system subQueues) anySchedule state → Bounded subQueues state :=
  ⟨static_linearizable, dynamic_linearizable, fun _ _ => bounded⟩

/-- One sub-queue with one slot. -/
def oneSlot : SubQueues :=
  ⟨[⟨1, 1⟩], by decide⟩

/-- A call of `size()` while the only slot has a ticket and no item yet. -/
def sizeDuringAdd : List (Label CountingSemaphore.Ending (Invocation Nat)) :=
  .env (.add 7) :: List.replicate 3 (.act 0 .handoff) ++
    .env .size :: List.replicate 5 (.act 0 .handoff)

theorem size_linearizable_bounded_one :
    ∃ state : Global (Memory Nat) (Call Nat), .sized [(1, 0)] ∈ state.agents ∧
      Bounded oneSlot state := by
  have replayed : ((system oneSlot).run (system oneSlot).init sizeDuringAdd).map
      (fun state => state.agents) =
        some [.sized [(1, 0)], .write 0 (.holding ⟨0, .storeWait 7⟩)] := by
    decide
  obtain ⟨state, ran, same⟩ := Option.map_eq_some_iff.mp replayed
  have sized : .sized [(1, 0)] ∈ state.agents := by
    rw [same]
    decide
  exact ⟨state, sized, size_linearizable_bounded.2.2 oneSlot state (Reachable.init.run ran)⟩

end ThreadPoolExec.PriorityLifoSemMPMCQueue.Sizes
