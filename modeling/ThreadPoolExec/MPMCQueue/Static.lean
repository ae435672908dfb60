import ThreadPoolExec.Interleaving
import ThreadPoolExec.MPMCQueue.Slots
import ThreadPoolExec.TurnCells

/-!
# The static MPMC queue

Every call on one `MPMCQueue` is an agent whose steps are the atomic accesses
of the source. Writes and reads run the same code on the two sides of the
queue, apart from the test for a full or an empty queue, so a program counter
says which side it is on.
-/

set_option autoImplicit false

namespace ThreadPoolExec.MPMCQueue

open Interleaving TurnCells

universe u

variable {V : Type u}

/-- What a call still has to do: store a value on a push ticket, or take one
on a pop ticket. -/
inductive Side (V : Type u) where
  | push (value : V)
  | pop
deriving DecidableEq, Repr

/-- `pushed` has the values of the push tickets given out so far, in order. -/
structure Memory (V : Type u) where
  pushTicket : Nat := 0
  popTicket : Nat := 0
  slots : Nat → Cell V := fun _ => {}
  pushed : List V := []
  nextCall : Nat := 0

/-- The ticket dispenser of a side. -/
def Memory.dispenser (memory : Memory V) : Side V → Nat
  | .push _ => memory.pushTicket
  | .pop => memory.popTicket

/-- Take the next ticket of a side. -/
def Memory.grant (memory : Memory V) : Side V → Memory V × Holder V
  | .push value =>
      ({ memory with
          pushTicket := memory.pushTicket + 1
          pushed := memory.pushed ++ [value] },
        ⟨memory.pushTicket, .storeWait value⟩)
  | .pop =>
      ({ memory with popTicket := memory.popTicket + 1 }, ⟨memory.popTicket, .takeWait⟩)

def mayEnqueue (slot : Cell V) (turn : Nat) : Bool :=
  slot.turn = turn * 2

def mayDequeue (slot : Cell V) (turn : Nat) : Bool :=
  slot.turn = turn * 2 + 1

/-- The probe of a ready ticket. -/
def mayProceed (slot : Cell V) (turn : Nat) : Side V → Bool
  | .push _ => mayEnqueue slot turn
  | .pop => mayDequeue slot turn

/-- `tryWaitForEnqueueTurnUntil`, `tryWaitForDequeueTurnUntil`: the turn has
come, or has passed. -/
def arrived (slot : Cell V) (turn : Nat) : Side V → Bool
  | .push _ => turn * 2 ≤ slot.turn
  | .pop => turn * 2 + 1 ≤ slot.turn

/-- The test of a promised ticket: full for a push, empty for a pop. -/
def unpromised (capacity count other : Nat) : Side V → Bool
  | .push _ => full capacity count other
  | .pop => other ≤ count

/-- The counter that a promised ticket is compared with. -/
def Memory.other (memory : Memory V) : Side V → Nat
  | .push _ => memory.popTicket
  | .pop => memory.pushTicket

inductive Pc (V : Type u) where
  -- blockingWrite, blockingRead
  | fetchAdd (side : Side V)
  -- write, read: tryObtainReadyPushTicket, tryObtainReadyPopTicket
  | readyLoad (side : Side V)
  | readyProbe (side : Side V) (ticket : Nat)
  | readyReload (side : Side V) (ticket : Nat)
  | readyCas (side : Side V) (ticket : Nat)
  -- writeIfNotFull, readIfNotEmpty: tryObtainPromisedPushTicket, tryObtainPromisedPopTicket
  | promisedLoad (side : Side V)
  | promisedCompare (side : Side V) (count : Nat)
  | promisedCas (side : Side V) (count : Nat)
  -- tryWriteUntil, tryReadUntil: tryObtainPromisedPushTicketUntil,
  -- tryObtainPromisedPopTicketUntil; the deadline falls into the last of the waits
  | untilLoad (side : Side V) (waits : Nat)
  | untilCompare (side : Side V) (waits count : Nat)
  | untilCas (side : Side V) (waits count : Nat)
  | untilWait (side : Side V) (waits ticket : Nat)
  -- enqueueWithTicketBase, dequeueWithTicketBase
  | holding (holder : Holder V)
  | wrote (ticket : Nat) (value : V)
  | read (ticket : Nat) (value : V)
  | refused (side : Side V)
deriving DecidableEq, Repr

structure Call (V : Type u) where
  id : Nat
  pc : Pc V

inductive Operation (V : Type u) where
  | blockingWrite (value : V)
  | write (value : V)
  | writeIfNotFull (value : V)
  | tryWriteUntil (value : V) (waits : Nat)
  | blockingRead
  | read
  | readIfNotEmpty
  | tryReadUntil (waits : Nat)

def Operation.start : Operation V → Pc V
  | .blockingWrite value => .fetchAdd (.push value)
  | .write value => .readyLoad (.push value)
  | .writeIfNotFull value => .promisedLoad (.push value)
  | .tryWriteUntil value waits => .untilLoad (.push value) waits
  | .blockingRead => .fetchAdd .pop
  | .read => .readyLoad .pop
  | .readIfNotEmpty => .promisedLoad .pop
  | .tryReadUntil waits => .untilLoad .pop waits

/-- The capacity and the padding of the slots; the stride follows. -/
structure Layout where
  capacity : Nat
  kSlotPadding : Nat

/-- The constructor returns: it throws for capacity zero, and no array has 2^63
slots. The length that it asks for may have wrapped. -/
structure Layout.Constructed (layout : Layout) : Prop where
  positive : 0 < layout.capacity
  word : layout.capacity < 2 ^ 64
  array : slotCount layout.kSlotPadding layout.capacity < 2 ^ 63

/-- The array has every slot, padding included: its length did not wrap. -/
structure Layout.Allocated (layout : Layout) : Prop where
  positive : 0 < layout.capacity
  fits : layout.capacity + 2 * layout.kSlotPadding < 2 ^ 63

theorem Layout.Allocated.small {layout : Layout} (allocated : layout.Allocated) :
    layout.capacity < 2 ^ 63 :=
  Nat.lt_of_le_of_lt (Nat.le_add_right _ _) allocated.fits

theorem Layout.Allocated.constructed {layout : Layout} (allocated : layout.Allocated) :
    layout.Constructed where
  positive := allocated.positive
  word := Nat.lt_trans allocated.small (by decide)
  array := Nat.lt_of_le_of_lt (Nat.mod_le _ _) allocated.fits

def Layout.place (layout : Layout) (ticket : Nat) : Nat × Nat :=
  MPMCQueue.place layout.kSlotPadding layout.capacity (computeStride layout.capacity) ticket

theorem Layout.place_injective (layout : Layout) : Function.Injective layout.place :=
  MPMCQueue.place_injective (coprime_computeStride layout.capacity)

/-- The ticket one round later has the same slot. -/
theorem Layout.place_add_capacity {layout : Layout} (positive : 0 < layout.capacity) (ticket : Nat) :
    layout.place (ticket + layout.capacity) =
      ((layout.place ticket).1, (layout.place ticket).2 + 1) := by
  have later : layout.capacity ≤ ticket + layout.capacity := Nat.le_add_left _ _
  obtain ⟨sameSlot, nextTurn⟩ := place_of_later_turn positive later
  rw [Nat.add_sub_cancel] at sameSlot nextTurn
  exact Prod.ext sameSlot nextTurn

/-- Every turn on a slot has its ticket. -/
theorem Layout.exists_place {layout : Layout} (positive : 0 < layout.capacity)
    (ticket turn : Nat) : ∃ other, layout.place other = ((layout.place ticket).1, turn) := by
  induction turn with
  | zero =>
      refine ⟨ticket % layout.capacity, ?_⟩
      have inside := Nat.mod_lt ticket positive
      simp only [Layout.place, MPMCQueue.place, idx, MPMCQueue.turn, Nat.mod_mul_mod,
        Nat.div_eq_of_lt inside]
  | succ turn ih =>
      obtain ⟨other, same⟩ := ih
      refine ⟨other + layout.capacity, ?_⟩
      rw [Layout.place_add_capacity positive, same]

/-- The slot that a ticket leads to. -/
def Memory.slotAt (memory : Memory V) (place : Nat × Nat) : Cell V :=
  memory.slots place.1

/-- Where a holder's step leaves its call. -/
def Pc.advanced (holder : Holder V) : Phase V ⊕ V → Pc V
  | .inl phase => .holding ⟨holder.ticket, phase⟩
  | .inr value =>
      if holder.phase.storing then .wrote holder.ticket value else .read holder.ticket value

/-- One atomic step of a call. -/
def Pc.next (layout : Layout) (memory : Memory V) : Pc V → Option (Memory V × Pc V)
  | .fetchAdd side =>
      some ((memory.grant side).1, .holding (memory.grant side).2)
  | .readyLoad side => some (memory, .readyProbe side (memory.dispenser side))
  | .readyProbe side ticket =>
      if mayProceed (memory.slotAt (layout.place ticket)) (layout.place ticket).2 side then
        some (memory, .readyCas side ticket)
      else some (memory, .readyReload side ticket)
  | .readyReload side ticket =>
      if memory.dispenser side = ticket then some (memory, .refused side)
      else some (memory, .readyProbe side (memory.dispenser side))
  | .readyCas side ticket =>
      if memory.dispenser side = ticket then
        some ((memory.grant side).1, .holding (memory.grant side).2)
      else some (memory, .readyProbe side (memory.dispenser side))
  | .promisedLoad side => some (memory, .promisedCompare side (memory.dispenser side))
  | .promisedCompare side count =>
      if unpromised layout.capacity count (memory.other side) side then
        some (memory, .refused side)
      else some (memory, .promisedCas side count)
  | .promisedCas side count =>
      if memory.dispenser side = count then
        some ((memory.grant side).1, .holding (memory.grant side).2)
      else some (memory, .promisedCompare side (memory.dispenser side))
  | .untilLoad side waits => some (memory, .untilCompare side waits (memory.dispenser side))
  | .untilCompare side waits count =>
      if unpromised layout.capacity count (memory.other side) side then
        some (memory, .untilWait side waits count)
      else some (memory, .untilCas side waits count)
  | .untilCas side waits count =>
      if memory.dispenser side = count then
        some ((memory.grant side).1, .holding (memory.grant side).2)
      else some (memory, .untilCompare side waits (memory.dispenser side))
  | .untilWait side waits ticket =>
      match waits with
      | 0 => some (memory, .refused side)
      | waits + 1 =>
          if arrived (memory.slotAt (layout.place ticket)) (layout.place ticket).2 side then
            some (memory, .untilLoad side waits)
          else none
  | .holding holder =>
      let place := layout.place holder.ticket
      match (memory.slotAt place).advance place.2 holder.phase with
      | none => none
      | some (slot, left) =>
          some ({ memory with slots := Function.update memory.slots place.1 slot },
            .advanced holder left)
  | .wrote _ _ | .read _ _ | .refused _ => none

def act (layout : Layout) (_ : Unit) (memory : Memory V) (call : Call V) :
    Option (Memory V × List (Call V)) :=
  (call.pc.next layout memory).map fun moved => (moved.1, [⟨call.id, moved.2⟩])

def system (layout : Layout) : System (Memory V) (Call V) Unit (Operation V) where
  init := ⟨{}, []⟩
  act := act layout
  env operation memory :=
    some ({ memory with nextCall := memory.nextCall + 1 }, [⟨memory.nextCall, operation.start⟩])

/-! ## Tickets of calls -/

def Pc.holder? : Pc V → Option (Holder V)
  | .holding holder => some holder
  | _ => none

/-- The push ticket of a call and the value it stores there. -/
def Pc.stores? : Pc V → Option (Nat × V)
  | .holding holder => holder.phase.stores?.map (holder.ticket, ·)
  | .wrote ticket value => some (ticket, value)
  | _ => none

/-- The pop ticket of a call. -/
def Pc.takes? : Pc V → Option Nat
  | .holding holder => if holder.phase.storing then none else some holder.ticket
  | .read ticket _ => some ticket
  | _ => none

def Pc.pushes (ticket : Nat) (pc : Pc V) : Nat :=
  if pc.stores?.map Prod.fst = some ticket then 1 else 0

def Pc.pops (ticket : Nat) (pc : Pc V) : Nat :=
  if pc.takes? = some ticket then 1 else 0

/-- A count that a call has loaded lags behind the dispenser. -/
def Pc.Lags (memory : Memory V) : Pc V → Prop
  | .readyProbe side count | .readyReload side count | .readyCas side count
  | .promisedCompare side count | .promisedCas side count
  | .untilCompare side _ count | .untilCas side _ count => count ≤ memory.dispenser side
  | _ => True

def Pc.ticketless : Pc V → Bool
  | .holding _ | .wrote _ _ | .read _ _ => false
  | _ => true

section Tickets

variable {pc : Pc V} (ticketless : pc.ticketless = true)

include ticketless

theorem stores_of_ticketless : pc.stores? = none := by
  cases pc <;> first | rfl | cases ticketless

theorem takes_of_ticketless : pc.takes? = none := by
  cases pc <;> first | rfl | cases ticketless

theorem holder_of_ticketless : pc.holder? = none := by
  cases pc <;> first | rfl | cases ticketless

end Tickets

/-- What a step of a call can do: look around, get the next ticket of its
side, or take a step on the slot of its ticket. -/
theorem next_cases {layout : Layout} {memory after : Memory V} {pc next : Pc V}
    (stepped : pc.next layout memory = some (after, next)) :
    (after = memory ∧ pc.ticketless = true ∧ next.ticketless = true ∧
      (pc.Lags memory → next.Lags memory)) ∨
    (∃ side, after = (memory.grant side).1 ∧ next = .holding (memory.grant side).2 ∧
      pc.ticketless = true) ∨
    (∃ holder slot left, pc = .holding holder ∧
      (memory.slots (layout.place holder.ticket).1).advance (layout.place holder.ticket).2
        holder.phase = some (slot, left) ∧
      after = { memory with
        slots := Function.update memory.slots (layout.place holder.ticket).1 slot } ∧
      next = .advanced holder left) := by
  cases pc with
  | fetchAdd side =>
      cases stepped
      exact .inr (.inl ⟨side, rfl, rfl, rfl⟩)
  | readyLoad side =>
      cases stepped
      exact .inl ⟨rfl, rfl, rfl, fun _ => Nat.le_refl _⟩
  | readyProbe side ticket =>
      simp only [Pc.next] at stepped
      split at stepped
      all_goals
        cases stepped
        exact .inl ⟨rfl, rfl, rfl, id⟩
  | readyReload side ticket =>
      simp only [Pc.next] at stepped
      split at stepped
      all_goals cases stepped
      · exact .inl ⟨rfl, rfl, rfl, fun _ => trivial⟩
      · exact .inl ⟨rfl, rfl, rfl, fun _ => Nat.le_refl _⟩
  | readyCas side ticket =>
      simp only [Pc.next] at stepped
      split at stepped
      all_goals cases stepped
      · exact .inr (.inl ⟨side, rfl, rfl, rfl⟩)
      · exact .inl ⟨rfl, rfl, rfl, fun _ => Nat.le_refl _⟩
  | promisedLoad side =>
      cases stepped
      exact .inl ⟨rfl, rfl, rfl, fun _ => Nat.le_refl _⟩
  | promisedCompare side count =>
      simp only [Pc.next] at stepped
      split at stepped
      all_goals cases stepped
      · exact .inl ⟨rfl, rfl, rfl, fun _ => trivial⟩
      · exact .inl ⟨rfl, rfl, rfl, id⟩
  | promisedCas side count =>
      simp only [Pc.next] at stepped
      split at stepped
      all_goals cases stepped
      · exact .inr (.inl ⟨side, rfl, rfl, rfl⟩)
      · exact .inl ⟨rfl, rfl, rfl, fun _ => Nat.le_refl _⟩
  | untilLoad side waits =>
      cases stepped
      exact .inl ⟨rfl, rfl, rfl, fun _ => Nat.le_refl _⟩
  | untilCompare side waits count =>
      simp only [Pc.next] at stepped
      split at stepped
      all_goals cases stepped
      · exact .inl ⟨rfl, rfl, rfl, fun _ => trivial⟩
      · exact .inl ⟨rfl, rfl, rfl, id⟩
  | untilCas side waits count =>
      simp only [Pc.next] at stepped
      split at stepped
      all_goals cases stepped
      · exact .inr (.inl ⟨side, rfl, rfl, rfl⟩)
      · exact .inl ⟨rfl, rfl, rfl, fun _ => Nat.le_refl _⟩
  | untilWait side waits ticket =>
      cases waits with
      | zero =>
          cases stepped
          exact .inl ⟨rfl, rfl, rfl, fun _ => trivial⟩
      | succ waits =>
          simp only [Pc.next] at stepped
          split at stepped
          · cases stepped
            exact .inl ⟨rfl, rfl, rfl, fun _ => trivial⟩
          · cases stepped
  | holding holder =>
      simp only [Pc.next] at stepped
      refine .inr (.inr ⟨holder, ?_⟩)
      split at stepped
      · cases stepped
      · next slot left advanced =>
          cases stepped
          exact ⟨slot, left, rfl, advanced, rfl, rfl⟩
  | wrote ticket value => cases stepped
  | read ticket value => cases stepped
  | refused side => cases stepped

theorem tickets_le_next {layout : Layout} {memory after : Memory V} {pc next : Pc V}
    (stepped : pc.next layout memory = some (after, next)) :
    memory.pushTicket ≤ after.pushTicket ∧ memory.popTicket ≤ after.popTicket := by
  rcases next_cases stepped with ⟨rfl, -⟩ | ⟨side, rfl, -⟩ | ⟨holder, slot, left, -, -, rfl, -⟩
  · exact ⟨Nat.le_refl _, Nat.le_refl _⟩
  · cases side with
    | push value => exact ⟨Nat.le_succ _, Nat.le_refl _⟩
    | pop => exact ⟨Nat.le_refl _, Nat.le_succ _⟩
  · exact ⟨Nat.le_refl _, Nat.le_refl _⟩

theorem dispenser_le_next {layout : Layout} {memory after : Memory V} {pc next : Pc V}
    (stepped : pc.next layout memory = some (after, next)) (side : Side V) :
    memory.dispenser side ≤ after.dispenser side := by
  cases side with
  | push value => exact (tickets_le_next stepped).1
  | pop => exact (tickets_le_next stepped).2

theorem nextCall_next {layout : Layout} {memory after : Memory V} {pc next : Pc V}
    (stepped : pc.next layout memory = some (after, next)) :
    after.nextCall = memory.nextCall := by
  rcases next_cases stepped with ⟨rfl, -⟩ | ⟨granted, rfl, -⟩ | ⟨holder, slot, left, -, -, rfl, -⟩
  · rfl
  · cases granted <;> rfl
  · rfl

theorem act_eq_some {layout : Layout} {memory after : Memory V} {call : Call V}
    {left : List (Call V)} (choice : Unit)
    (acted : act layout choice memory call = some (after, left)) :
    ∃ next, call.pc.next layout memory = some (after, next) ∧ left = [⟨call.id, next⟩] := by
  obtain ⟨⟨moved, next⟩, stepped, same⟩ := Option.map_eq_some_iff.mp acted
  cases same
  exact ⟨next, stepped, rfl⟩

/-- A call has the number that it was started with. -/
theorem numbered (layout : Layout) :
    (system layout : System (Memory V) (Call V) Unit (Operation V)).Numbered
      Call.id Memory.nextCall where
  init := nofun
  act {choice} _ call _ _ acted := by
    obtain ⟨next, stepped, rfl⟩ := act_eq_some choice acted
    refine ⟨nextCall_next stepped, fun other member => ?_⟩
    obtain rfl := List.mem_singleton.mp member
    rfl
  env acted := by
    cases acted
    refine ⟨rfl, fun call member => ?_⟩
    obtain rfl := List.mem_singleton.mp member
    rfl

/-- A call keeps its ticket to the end. -/
theorem advanced_tickets {slot after : Cell V} {turn : Nat} {holder : Holder V}
    {left : Phase V ⊕ V} (advanced : slot.advance turn holder.phase = some (after, left)) :
    (Pc.advanced holder left).stores?.map Prod.fst = (Pc.holding holder).stores?.map Prod.fst ∧
      (Pc.advanced holder left).takes? = (Pc.holding holder).takes? := by
  obtain ⟨ticket, phase⟩ := holder
  cases left with
  | inl next =>
      have side := advance_inl advanced
      refine ⟨?_, ?_⟩
      · cases phase <;> cases next <;> first | rfl | cases side
      · simp only [Pc.advanced, Pc.takes?, side]
  | inr value =>
      rcases advance_inr advanced with rfl | rfl
      · exact ⟨rfl, rfl⟩
      · exact ⟨rfl, rfl⟩

theorem advanced_eq_wrote {slot after : Cell V} {turn ticket : Nat} {holder : Holder V}
    {left : Phase V ⊕ V} {value : V} (advanced : slot.advance turn holder.phase = some (after, left))
    (wrote : Pc.advanced holder left = .wrote ticket value) :
    holder = ⟨ticket, .storeDone value⟩ := by
  obtain ⟨own, phase⟩ := holder
  cases left with
  | inl next => cases wrote
  | inr done =>
      rcases advance_inr advanced with rfl | rfl
      · cases wrote
        rfl
      · cases wrote

theorem advanced_eq_read {slot after : Cell V} {turn ticket : Nat} {holder : Holder V}
    {left : Phase V ⊕ V} {value : V} (advanced : slot.advance turn holder.phase = some (after, left))
    (read : Pc.advanced holder left = .read ticket value) :
    holder = ⟨ticket, .takeDone value⟩ := by
  obtain ⟨own, phase⟩ := holder
  cases left with
  | inl next => cases read
  | inr done =>
      rcases advance_inr advanced with rfl | rfl
      · cases read
      · cases read
        rfl

theorem advanced_holder (holder : Holder V) (left : Phase V ⊕ V) :
    (Pc.advanced holder left).holder?.toList = remaining holder.ticket left := by
  cases left with
  | inl phase => rfl
  | inr value =>
      simp only [Pc.advanced]
      split <;> rfl

end ThreadPoolExec.MPMCQueue
