import Mathlib.Data.List.Nodup
import ThreadPoolExec.MPMCQueue.StaticProperties

/-!
# Lifetimes of elements in the static queue

A slot is storage for one `T`. Every construction, move, relocation and
destruction of an object, in a slot or in an argument of a call, is a step here.
One that C++ leaves undefined ends its call in a state of its own. Apart from
these steps a call is a call of the static queue.
-/

set_option autoImplicit false

namespace ThreadPoolExec.MPMCQueue.Lifetime

open Interleaving TurnCells

universe u

variable {V : Type u}

/-- Storage for a `T`. An object that was moved from, or was constructed without
arguments, has no value. -/
inductive Object (V : Type u) where
  | raw
  | live (value : Option V)
deriving DecidableEq

def Object.isLive : Object V → Bool
  | .raw => false
  | .live _ => true

def Object.value? : Object V → Option V
  | .raw => none
  | .live value => value

/-- `new (&object) T(...)`, which must not be over a live object. -/
def Object.construct (value : Option V) : Object V → Option (Object V)
  | .raw => some (.live value)
  | .live _ => none

/-- `object.~T()` -/
def Object.destroy : Object V → Option (Object V)
  | .raw => none
  | .live _ => some .raw

/-- Move construction or assignment out of an object: what it held, and what is
left of it. -/
def Object.moveOut : Object V → Option (Option V × Object V)
  | .raw => none
  | .live value => some (value, .live none)

/-- `object = ...` -/
def Object.assign (value : Option V) : Object V → Option (Object V)
  | .raw => none
  | .live _ => some (.live value)

/-- `memcpy(&target, &source, sizeof(T))`, after which the object is in the
target. -/
def Object.relocate : Object V → Object V → Option (Object V × Object V)
  | .raw, .live value => some (.live value, .raw)
  | _, _ => none

/-- What the class asks of `T`. -/
structure Traits where
  isRelocatable : Bool
  isNothrowMoveConstructible : Bool

/-- `enqueue` with the arguments of a constructor, or `enqueueImpl`. -/
inductive EnqueueImpl where
  | inPlace
  | byMove
  | byRelocation
deriving DecidableEq

inductive DequeueImpl where
  | byMove
  | byRelocation
deriving DecidableEq

def Traits.enqueueImpl (traits : Traits) (inPlace : Bool) : EnqueueImpl :=
  if inPlace then .inPlace
  else if traits.isNothrowMoveConstructible then .byMove
  else .byRelocation

def Traits.dequeueImpl (traits : Traits) : DequeueImpl :=
  if traits.isRelocatable then .byRelocation else .byMove

/-- `contents_` and `goner` once the slot is filled. -/
def EnqueueImpl.fill (value : V) (contents goner : Object V) :
    EnqueueImpl → Option (Object V × Object V)
  | .inPlace => (contents.construct (some value)).map fun contents => (contents, goner)
  | .byMove =>
      goner.moveOut.bind fun (moved, goner) =>
        (contents.construct moved).map fun contents => (contents, goner)
  | .byRelocation => contents.relocate goner

/-- `contents_` and `elem` once the element is out of the slot. -/
def DequeueImpl.drain (contents elem : Object V) : DequeueImpl → Option (Object V × Object V)
  | .byMove =>
      contents.moveOut.bind fun (moved, contents) =>
        (elem.assign moved).map fun elem => (contents, elem)
  | .byRelocation => (elem.relocate contents).map fun (elem, contents) => (contents, elem)

structure Slot (V : Type u) where
  turn : Nat := 0
  contents : Object V := .raw

structure Memory (V : Type u) where
  pushTicket : Nat := 0
  popTicket : Nat := 0
  slots : Nat → Slot V := fun _ => {}
  pushed : List V := []
  nextCall : Nat := 0

/-- Where a call is. The value of an enqueue is the one that it was called with. -/
inductive At (V : Type u) where
  -- without a ticket
  | seeking (pc : Pc V)
  -- enqueue, enqueueImpl
  | enqueueWait (impl : EnqueueImpl) (ticket : Nat) (value : V)
  | enqueueFill (impl : EnqueueImpl) (ticket : Nat) (value : V)
  | enqueueComplete (impl : EnqueueImpl) (ticket : Nat) (value : V)
  | constructGoner (ticket : Nat) (value : V)
  | wrote (ticket : Nat) (value : V)
  -- dequeueImpl
  | destroyElem (ticket : Nat)
  | dequeueWait (impl : DequeueImpl) (ticket : Nat)
  | dequeueDrain (impl : DequeueImpl) (ticket : Nat)
  | destroyContents (ticket : Nat)
  | dequeueComplete (ticket : Nat)
  | read (ticket : Nat)
  | undefined
deriving DecidableEq

/-- `argument` is `goner` or `elem`; a call that constructs in place has none. -/
structure Call (V : Type u) where
  id : Nat
  inPlace : Bool
  argument : Object V
  at_ : At V
deriving DecidableEq

/-! ## The static queue in it -/

def Slot.cell (slot : Slot V) : Cell V :=
  ⟨slot.turn, slot.contents.value?⟩

def Memory.cells (memory : Memory V) : MPMCQueue.Memory V where
  pushTicket := memory.pushTicket
  popTicket := memory.popTicket
  slots := fun index => (memory.slots index).cell
  pushed := memory.pushed
  nextCall := memory.nextCall

/-- Take over the tickets. -/
def Memory.tickets (memory : Memory V) (after : MPMCQueue.Memory V) : Memory V :=
  { memory with
    pushTicket := after.pushTicket
    popTicket := after.popTicket
    pushed := after.pushed }

def Memory.store (memory : Memory V) (index : Nat) (slot : Slot V) : Memory V :=
  { memory with slots := Function.update memory.slots index slot }

@[simp] theorem Memory.slots_store_self (memory : Memory V) (index : Nat) (slot : Slot V) :
    (memory.store index slot).slots index = slot := by
  simp only [Memory.store, Function.update_self]

@[simp] theorem Memory.slots_store_of_ne {memory : Memory V} {index other : Nat} {slot : Slot V}
    (different : other ≠ index) : (memory.store index slot).slots other = memory.slots other := by
  simp only [Memory.store, Function.update_of_ne different]

@[simp] theorem Memory.store_slots (memory : Memory V) (index : Nat) :
    memory.store index (memory.slots index) = memory := by
  simp only [Memory.store, Function.update_eq_self]

/-! ## Steps -/

/-- The start of an operation on the slot of a ticket. -/
def Call.start (traits : Traits) (call : Call V) (holder : Holder V) : At V :=
  match holder.phase with
  | .storeWait value => .enqueueWait (traits.enqueueImpl call.inPlace) holder.ticket value
  | _ =>
      match traits.dequeueImpl with
      | .byMove => .dequeueWait .byMove holder.ticket
      | .byRelocation => .destroyElem holder.ticket

def next (layout : Layout) (traits : Traits) (memory : Memory V) (call : Call V) :
    Option (Memory V × Call V) :=
  match call.at_ with
  | .seeking pc =>
      match pc.next layout memory.cells with
      | none => none
      | some (after, .holding holder) =>
          some (memory.tickets after, { call with at_ := call.start traits holder })
      | some (after, pc) => some (memory.tickets after, { call with at_ := .seeking pc })
  | .enqueueWait impl ticket value =>
      let (index, turn) := layout.place ticket
      if (memory.slots index).turn = turn * 2 then
        some (memory, { call with at_ := .enqueueFill impl ticket value })
      else none
  | .enqueueFill impl ticket value =>
      let (index, _) := layout.place ticket
      let slot := memory.slots index
      match impl.fill value slot.contents call.argument with
      | none => some (memory, { call with at_ := .undefined })
      | some (contents, argument) =>
          some (memory.store index { slot with contents },
            { call with argument, at_ := .enqueueComplete impl ticket value })
  | .enqueueComplete impl ticket value =>
      let (index, turn) := layout.place ticket
      let after := memory.store index { memory.slots index with turn := turn * 2 + 1 }
      match impl with
      | .inPlace | .byMove => some (after, { call with at_ := .wrote ticket value })
      | .byRelocation => some (after, { call with at_ := .constructGoner ticket value })
  | .constructGoner ticket value =>
      match call.argument.construct none with
      | none => some (memory, { call with at_ := .undefined })
      | some argument => some (memory, { call with argument, at_ := .wrote ticket value })
  | .destroyElem ticket =>
      match call.argument.destroy with
      | none => some (memory, { call with at_ := .undefined })
      | some argument =>
          some (memory, { call with argument, at_ := .dequeueWait .byRelocation ticket })
  | .dequeueWait impl ticket =>
      let (index, turn) := layout.place ticket
      if (memory.slots index).turn = turn * 2 + 1 then
        some (memory, { call with at_ := .dequeueDrain impl ticket })
      else none
  | .dequeueDrain impl ticket =>
      let (index, _) := layout.place ticket
      let slot := memory.slots index
      match impl.drain slot.contents call.argument with
      | none => some (memory, { call with at_ := .undefined })
      | some (contents, argument) =>
          let after := memory.store index { slot with contents }
          match impl with
          | .byMove => some (after, { call with argument, at_ := .destroyContents ticket })
          | .byRelocation => some (after, { call with argument, at_ := .dequeueComplete ticket })
  | .destroyContents ticket =>
      let (index, _) := layout.place ticket
      let slot := memory.slots index
      match slot.contents.destroy with
      | none => some (memory, { call with at_ := .undefined })
      | some contents =>
          some (memory.store index { slot with contents },
            { call with at_ := .dequeueComplete ticket })
  | .dequeueComplete ticket =>
      let (index, turn) := layout.place ticket
      some (memory.store index { memory.slots index with turn := turn * 2 + 2 },
        { call with at_ := .read ticket })
  | .wrote _ _ | .read _ | .undefined => none

/-- What a call is given: an element to move from, or one to move onto. -/
def argumentOf (inPlace : Bool) : Side V → Object V
  | .push value => if inPlace then .raw else .live (some value)
  | .pop => .live none

/-- The side of the queue that a call is on. -/
def sideOf : Pc V → Side V
  | .fetchAdd side | .readyLoad side | .readyProbe side _ | .readyReload side _
  | .readyCas side _ | .promisedLoad side | .promisedCompare side _ | .promisedCas side _
  | .untilLoad side _ | .untilCompare side _ _ | .untilCas side _ _ | .untilWait side _ _
  | .refused side => side
  | .holding holder =>
      match holder.phase.stores? with
      | some value => .push value
      | none => .pop
  | .wrote _ value => .push value
  | .read _ _ => .pop

def begin (memory : Memory V) (operation : Operation V) (inPlace : Bool) : Memory V × Call V :=
  ({ memory with nextCall := memory.nextCall + 1 },
    { id := memory.nextCall
      inPlace
      argument := argumentOf inPlace (sideOf operation.start)
      at_ := .seeking operation.start })

def system (layout : Layout) (traits : Traits) :
    System (Memory V) (Call V) Unit (Operation V × Bool) where
  init := ⟨{}, []⟩
  act _ memory call :=
    (next layout traits memory call).map fun moved => (moved.1, [moved.2])
  env choice memory :=
    let begun := begin memory choice.1 choice.2
    some (begun.1, [begun.2])

/-- No operation is in progress for a call that has returned. -/
def Call.returned (call : Call V) : Bool :=
  match call.at_ with
  | .seeking (.refused _) | .wrote _ _ | .read _ => true
  | _ => false

/-- `~SingleElementQueue`, with the value destroyed. -/
def Slot.destructor (slot : Slot V) : Option (Slot V × List (Option V)) :=
  if slot.turn % 2 = 1 then
    slot.contents.destroy.map fun contents => ({ slot with contents }, [slot.contents.value?])
  else some (slot, [])

/-- `delete[] slots_`, over the slots that are left. -/
def Memory.destructor (memory : Memory V) : List Nat → Option (Memory V × List (Option V))
  | [] => some (memory, [])
  | index :: indices => do
      let (slot, destroyed) ← (memory.slots index).destructor
      let (after, others) ← (memory.store index slot).destructor indices
      return (after, destroyed ++ others)

def At.pc (argument : Object V) : At V → Pc V
  | .seeking pc => pc
  | .enqueueWait _ ticket value => .holding ⟨ticket, .storeWait value⟩
  | .enqueueFill _ ticket value => .holding ⟨ticket, .store value⟩
  | .enqueueComplete _ ticket value => .holding ⟨ticket, .storeDone value⟩
  | .constructGoner ticket value | .wrote ticket value => .wrote ticket value
  | .destroyElem ticket | .dequeueWait _ ticket => .holding ⟨ticket, .takeWait⟩
  | .dequeueDrain _ ticket => .holding ⟨ticket, .take⟩
  | .destroyContents ticket | .dequeueComplete ticket =>
      match argument.value? with
      | some value => .holding ⟨ticket, .takeDone value⟩
      | none => .refused .pop
  | .read ticket =>
      match argument.value? with
      | some value => .read ticket value
      | none => .refused .pop
  | .undefined => .refused .pop

def Call.call (call : Call V) : MPMCQueue.Call V :=
  ⟨call.id, call.at_.pc call.argument⟩

section Static

variable {layout : Layout} {memory : Memory V} {index : Nat} {slot : Slot V}

theorem cells_store : (memory.store index slot).cells =
    { memory.cells with slots := Function.update memory.cells.slots index slot.cell } := by
  have slots : (fun position => (Function.update memory.slots index slot position).cell) =
      Function.update (fun position => (memory.slots position).cell) index slot.cell := by
    funext position
    exact Function.apply_update (fun _ => Slot.cell) memory.slots index slot position
  simp only [Memory.cells, Memory.store, slots]

theorem cells_store_of_same (same : slot.cell = (memory.slots index).cell) :
    (memory.store index slot).cells = memory.cells := by
  rw [cells_store, same]
  have slots : Function.update memory.cells.slots index (memory.slots index).cell =
      memory.cells.slots := Function.update_eq_self index memory.cells.slots
  rw [slots]

/-- A call without a ticket looks around on its side, or gets a ticket there. -/
theorem ticketless_next {pc following : Pc V} {after : MPMCQueue.Memory V}
    (ticketless : pc.ticketless = true)
    (stepped : pc.next layout memory.cells = some (after, following)) :
    (memory.tickets after).cells = after ∧
      (following.ticketless = true ∧ sideOf following = sideOf pc ∨
        following = .holding (memory.cells.grant (sideOf pc)).2) := by
  have side : sideOf following = sideOf pc := by
    cases pc with
    | fetchAdd side =>
        cases stepped
        cases side <;> rfl
    | readyLoad side =>
        cases stepped
        rfl
    | promisedLoad side =>
        cases stepped
        rfl
    | untilLoad side waits =>
        cases stepped
        rfl
    | readyCas side ticket =>
        simp only [Pc.next] at stepped
        split at stepped
        all_goals cases stepped
        · cases side <;> rfl
        · rfl
    | promisedCas side count =>
        simp only [Pc.next] at stepped
        split at stepped
        all_goals cases stepped
        · cases side <;> rfl
        · rfl
    | untilCas side waits count =>
        simp only [Pc.next] at stepped
        split at stepped
        all_goals cases stepped
        · cases side <;> rfl
        · rfl
    | untilWait side waits ticket =>
        cases waits with
        | zero =>
            cases stepped
            rfl
        | succ waits =>
            simp only [Pc.next] at stepped
            split at stepped
            · cases stepped
              rfl
            · cases stepped
    | readyProbe side ticket =>
        simp only [Pc.next] at stepped
        split at stepped <;> (cases stepped; rfl)
    | readyReload side ticket =>
        simp only [Pc.next] at stepped
        split at stepped <;> (cases stepped; rfl)
    | promisedCompare side count =>
        simp only [Pc.next] at stepped
        split at stepped <;> (cases stepped; rfl)
    | untilCompare side waits count =>
        simp only [Pc.next] at stepped
        split at stepped <;> (cases stepped; rfl)
    | refused side => cases stepped
    | holding holder => cases ticketless
    | wrote ticket value => cases ticketless
    | read ticket value => cases ticketless
  rcases next_cases stepped with ⟨rfl, -, nextTicketless, -⟩ | ⟨granted, rfl, rfl, -⟩ |
    ⟨holder, _, _, rfl, -⟩
  · exact ⟨rfl, .inl ⟨nextTicketless, side⟩⟩
  · have same : sideOf (.holding (memory.cells.grant granted).2) = granted := by
      cases granted <;> rfl
    rw [← side, same]
    cases granted with
    | push value => exact ⟨rfl, .inr rfl⟩
    | pop => exact ⟨rfl, .inr rfl⟩
  · cases ticketless

end Static

/-! ## The invariant -/

def EnqueueImpl.goner (value : V) : EnqueueImpl → Object V
  | .inPlace => .raw
  | .byMove | .byRelocation => .live (some value)

/-- What is left of it. -/
def EnqueueImpl.gone : EnqueueImpl → Object V
  | .byMove => .live none
  | .inPlace | .byRelocation => .raw

theorem fill_raw (impl : EnqueueImpl) (value : V) :
    impl.fill value .raw (impl.goner value) = some (.live (some value), impl.gone) := by
  cases impl <;> rfl

/-- What is left in a slot. -/
def DequeueImpl.rest : DequeueImpl → Object V
  | .byMove => .live none
  | .byRelocation => .raw

theorem drain_live {impl : DequeueImpl} {value : V} {elem : Object V}
    (ready : elem.isLive = decide (impl = .byMove)) :
    impl.drain (.live (some value)) elem = some (impl.rest, .live (some value)) := by
  cases impl with
  | byMove =>
      cases elem with
      | live held => rfl
      | raw => cases ready
  | byRelocation =>
      cases elem with
      | live held => cases ready
      | raw => rfl

theorem eq_live_of_value {object : Object V} {value : V} (held : object.value? = some value) :
    object = .live (some value) := by
  cases object with
  | raw => cases held
  | live stored =>
      cases held
      rfl

/-- What a call has in its argument, and what it finds in its slot. -/
def Call.Fits (layout : Layout) (memory : Memory V) (call : Call V) : Prop :=
  match call.at_ with
  | .seeking pc => pc.ticketless = true ∧ call.argument = argumentOf call.inPlace (sideOf pc)
  | .enqueueWait impl _ value | .enqueueFill impl _ value => call.argument = impl.goner value
  | .enqueueComplete impl _ _ => impl = .byRelocation → call.argument = .raw
  | .constructGoner _ _ => call.argument = .raw
  | .wrote _ _ => True
  | .destroyElem _ => call.argument.isLive = true
  | .dequeueWait impl _ | .dequeueDrain impl _ => call.argument.isLive = decide (impl = .byMove)
  | .destroyContents ticket =>
      (∃ value, call.argument = .live (some value)) ∧
        (memory.slots (layout.place ticket).1).contents = .live none
  | .dequeueComplete ticket =>
      (∃ value, call.argument = .live (some value)) ∧
        (memory.slots (layout.place ticket).1).contents = .raw
  | .read _ => ∃ value, call.argument = .live (some value)
  | .undefined => False

structure Lawful (layout : Layout) (memory : Memory V) (calls : List (Call V)) : Prop where
  coherent : Coherent layout memory.cells (calls.map Call.call)
  fits : ∀ call ∈ calls, call.Fits layout memory
  /-- A moved-from element is in a slot only until its dequeue destroys it. -/
  moved : ∀ index, (memory.slots index).contents = .live none → (memory.slots index).turn % 2 = 1
  untouched : ∀ index, (∀ ticket, (layout.place ticket).1 ≠ index) → memory.slots index = {}

section Steps

variable {layout : Layout} {traits : Traits} {memory after : Memory V} {call following : Call V}
  {rest calls others : List (Call V)} {holder : Holder V} {slot : Slot V}

theorem Lawful.perm (same : calls.Perm others) (lawful : Lawful layout memory calls) :
    Lawful layout memory others where
  coherent := lawful.coherent.perm (same.map _)
  fits call member := lawful.fits call (same.mem_iff.mpr member)
  moved := lawful.moved
  untouched := lawful.untouched

/-- A step that leaves the slots alone. -/
theorem Lawful.stay (lawful : Lawful layout memory (call :: rest))
    (coherent : Coherent layout after.cells (following.call :: rest.map Call.call))
    (slots : after.slots = memory.slots) (fits : following.Fits layout after) :
    Lawful layout after (following :: rest) := by
  constructor
  case coherent => exact coherent
  case fits =>
    intro other member
    rcases List.mem_cons.mp member with rfl | member
    · exact fits
    · have before := lawful.fits other (List.mem_cons_of_mem _ member)
      unfold Call.Fits at before ⊢
      rwa [slots]
  case moved =>
    rw [slots]
    exact lawful.moved
  case untouched =>
    rw [slots]
    exact lawful.untouched

/-- A step of a holder is the step of the static queue. -/
theorem Lawful.advanced {left : Phase V ⊕ V} (lawful : Lawful layout memory (call :: rest))
    (holding : call.call.pc = .holding holder)
    (advanced : (memory.slots (layout.place holder.ticket).1).cell.advance
      (layout.place holder.ticket).2 holder.phase = some (slot.cell, left)) :
    Coherent layout (memory.store (layout.place holder.ticket).1 slot).cells
      (⟨call.id, .advanced holder left⟩ :: rest.map Call.call) := by
  have coherent : Coherent layout memory.cells (call.call :: rest.map Call.call) := lawful.coherent
  have stepped : (Pc.holding holder).next layout memory.cells =
      some ((memory.store (layout.place holder.ticket).1 slot).cells, .advanced holder left) := by
    rw [cells_store]
    have same : (memory.cells.slotAt (layout.place holder.ticket)).advance
        (layout.place holder.ticket).2 holder.phase = some (slot.cell, left) := advanced
    simp only [Pc.next, same]
  rw [← holding] at stepped
  exact coherent.step stepped

/-- The turn of a ticket has come. -/
theorem Lawful.wait {phase : Phase V} (lawful : Lawful layout memory (call :: rest))
    (holding : call.call.pc = .holding holder)
    (advanced : (memory.slots (layout.place holder.ticket).1).cell.advance
      (layout.place holder.ticket).2 holder.phase =
        some ((memory.slots (layout.place holder.ticket).1).cell, .inl phase))
    (leads : following.call = ⟨call.id, .holding ⟨holder.ticket, phase⟩⟩)
    (fits : following.Fits layout memory) : Lawful layout memory (following :: rest) := by
  have coherent := lawful.advanced holding advanced
  rw [Memory.store_slots] at coherent
  exact lawful.stay (leads ▸ coherent) rfl fits

/-- What another call relies on is not in the slot of a holder whose turn has
come. -/
theorem Lawful.apart {other : Call V} {ticket : Nat} {value : V}
    (lawful : Lawful layout memory (call :: rest)) (holding : call.call.pc = .holding holder)
    (passed : holder.phase.waiting = false) (member : other ∈ rest)
    (otherHolding : other.call.pc = .holding ⟨ticket, .takeDone value⟩) :
    (layout.place ticket).1 ≠ (layout.place holder.ticket).1 := by
  have held : ⟨ticket, .takeDone value⟩ ∈ holders (rest.map Call.call) :=
    List.mem_filterMap.mpr ⟨other.call, List.mem_map_of_mem member, by rw [otherHolding]; rfl⟩
  have own : holders (call.call :: rest.map Call.call) = holder :: holders (rest.map Call.call) :=
    List.filterMap_cons_some (by rw [holding]; rfl)
  have sequenced := lawful.coherent.sequenced
  rw [List.map_cons, own] at sequenced
  exact (sequenced.cell_ne layout.place_injective held
    passed rfl).symm

/-- A step on the slot of a ticket whose turn has come. -/
theorem Lawful.store (holder : Holder V) (lawful : Lawful layout memory (call :: rest))
    (holding : call.call.pc = .holding holder) (passed : holder.phase.waiting = false)
    (coherent : Coherent layout (memory.store (layout.place holder.ticket).1 slot).cells
      (following.call :: rest.map Call.call))
    (fits : following.Fits layout (memory.store (layout.place holder.ticket).1 slot))
    (moved : slot.contents = .live none → slot.turn % 2 = 1) :
    Lawful layout (memory.store (layout.place holder.ticket).1 slot) (following :: rest) := by
  constructor
  case coherent => exact coherent
  case fits =>
    intro other member
    rcases List.mem_cons.mp member with rfl | member
    · exact fits
    · have before := lawful.fits other (List.mem_cons_of_mem _ member)
      have apart : ∀ ticket value, other.call.pc = .holding ⟨ticket, .takeDone value⟩ →
          (layout.place ticket).1 ≠ (layout.place holder.ticket).1 :=
        fun _ _ otherHolding => lawful.apart holding passed member otherHolding
      obtain ⟨id, inPlace, argument, at_⟩ := other
      cases at_ with
      | destroyContents ticket =>
          obtain ⟨⟨value, rfl⟩, contents⟩ := before
          refine ⟨⟨value, rfl⟩, ?_⟩
          rw [Memory.slots_store_of_ne (apart ticket value rfl)]
          exact contents
      | dequeueComplete ticket =>
          obtain ⟨⟨value, rfl⟩, contents⟩ := before
          refine ⟨⟨value, rfl⟩, ?_⟩
          rw [Memory.slots_store_of_ne (apart ticket value rfl)]
          exact contents
      | _ => exact before
  case moved =>
    intro index
    by_cases own : index = (layout.place holder.ticket).1
    · subst own
      rw [Memory.slots_store_self]
      exact moved
    · rw [Memory.slots_store_of_ne own]
      exact lawful.moved index
  case untouched =>
    intro index unused
    rw [Memory.slots_store_of_ne (unused holder.ticket).symm]
    exact lawful.untouched index unused

/-- Such a step of a holder is the step of the static queue. -/
theorem Lawful.advance {left : Phase V ⊕ V} (holder : Holder V)
    (lawful : Lawful layout memory (call :: rest)) (holding : call.call.pc = .holding holder)
    (passed : holder.phase.waiting = false)
    (advanced : (memory.slots (layout.place holder.ticket).1).cell.advance
      (layout.place holder.ticket).2 holder.phase = some (slot.cell, left))
    (leads : following.call = ⟨call.id, .advanced holder left⟩)
    (fits : following.Fits layout (memory.store (layout.place holder.ticket).1 slot))
    (moved : slot.contents = .live none → slot.turn % 2 = 1) :
    Lawful layout (memory.store (layout.place holder.ticket).1 slot) (following :: rest) := by
  have coherent := lawful.advanced holding advanced
  rw [← leads] at coherent
  exact lawful.store holder holding passed coherent fits moved

/-- At an even turn a slot has no moved-from element. -/
theorem Lawful.raw_of_vacant {index turn : Nat} (lawful : Lawful layout memory calls)
    (vacant : (memory.slots index).contents.value? = none)
    (even : (memory.slots index).turn = turn * 2) : (memory.slots index).contents = .raw := by
  cases contents : (memory.slots index).contents with
  | raw => rfl
  | live value =>
      rw [contents] at vacant
      have noValue : value = none := vacant
      have odd := lawful.moved index (noValue ▸ contents)
      omega

/-- The first step with a ticket finds the argument that the call was given. -/
theorem start_fits {side : Side V} {id : Nat} {inPlace : Bool} {argument : Object V} {at_ : At V}
    (traits : Traits) (cells : MPMCQueue.Memory V) (handed : argument = argumentOf inPlace side) :
    let started : Call V := ⟨id, inPlace, argument,
      Call.start traits ⟨id, inPlace, argument, at_⟩ (cells.grant side).2⟩
    started.call = ⟨id, .holding (cells.grant side).2⟩ ∧ started.Fits layout memory := by
  subst handed
  cases side with
  | push value =>
      refine ⟨rfl, ?_⟩
      change argumentOf inPlace (.push value) = (traits.enqueueImpl inPlace).goner value
      cases inPlace with
      | true => rfl
      | false =>
          simp only [argumentOf, Traits.enqueueImpl, Bool.false_eq_true, if_false]
          split <;> rfl
  | pop =>
      cases implIs : traits.dequeueImpl with
      | byMove => simp [Call.start, Memory.grant, implIs, Call.call, At.pc, Call.Fits, argumentOf,
          Object.isLive]
      | byRelocation => simp [Call.start, Memory.grant, implIs, Call.call, At.pc, Call.Fits,
          argumentOf, Object.isLive]

theorem Lawful.step (stepped : next layout traits memory call = some (after, following))
    (lawful : Lawful layout memory (call :: rest)) : Lawful layout after (following :: rest) := by
  have coherent : Coherent layout memory.cells (call.call :: rest.map Call.call) := lawful.coherent
  have fits := lawful.fits call List.mem_cons_self
  obtain ⟨id, inPlace, argument, at_⟩ := call
  cases at_ with
  | seeking pc =>
      obtain ⟨ticketless, handed⟩ := fits
      simp only [next] at stepped
      split at stepped
      · cases stepped
      · next granted holder moved =>
          cases stepped
          obtain ⟨same, ⟨impossible, -⟩ | isGranted⟩ := ticketless_next ticketless moved
          · cases impossible
          · cases isGranted
            obtain ⟨leads, startFits⟩ := @start_fits V layout (memory.tickets granted) (sideOf pc) id
              inPlace argument (.seeking pc) traits memory.cells handed
            have slots : (memory.tickets granted).slots = memory.slots := rfl
            refine lawful.stay ?_ slots startFits
            rw [leads, same]
            exact coherent.step moved
      · next looked looking notHolding moved =>
          cases stepped
          obtain ⟨same, ⟨stillTicketless, side⟩ | isGranted⟩ := ticketless_next ticketless moved
          · have slots : (memory.tickets looked).slots = memory.slots := rfl
            refine lawful.stay ?_ slots ⟨stillTicketless, side ▸ handed⟩
            rw [same]
            exact coherent.step moved
          · exact absurd isGranted (notHolding _)
  | enqueueWait impl ticket value =>
      simp only [next] at stepped
      split at stepped
      · next come =>
          cases stepped
          have advanced : (memory.slots (layout.place ticket).1).cell.advance
              (layout.place ticket).2 (.storeWait value) = some (_, .inl (.store value)) :=
            if_pos come
          exact lawful.wait rfl advanced rfl fits
      · cases stepped
  | enqueueFill impl ticket value =>
      have held : ⟨ticket, .store value⟩ ∈ holders
          (Call.call ⟨id, inPlace, argument, .enqueueFill impl ticket value⟩ ::
            rest.map Call.call) :=
        List.mem_filterMap.mpr ⟨_, List.mem_cons_self, rfl⟩
      have raw : (memory.slots (layout.place ticket).1).contents = .raw :=
        lawful.raw_of_vacant (coherent.sequenced.vacant_of_store held)
          (coherent.sequenced.at_of_passed held rfl)
      have own : argument = impl.goner value := fits
      simp only [next, raw, own, fill_raw] at stepped
      cases stepped
      have advanced : (memory.slots (layout.place ticket).1).cell.advance (layout.place ticket).2
          (.store value) = some (Slot.cell { memory.slots (layout.place ticket).1 with
            contents := .live (some value) }, .inl (.storeDone value)) := rfl
      refine lawful.advance ⟨ticket, .store value⟩ rfl rfl advanced rfl ?_
        fun impossible => by cases impossible
      intro relocated
      rw [relocated]
      rfl
  | enqueueComplete impl ticket value =>
      have advanced : (memory.slots (layout.place ticket).1).cell.advance (layout.place ticket).2
          (.storeDone value) = some (Slot.cell { memory.slots (layout.place ticket).1 with
            turn := (layout.place ticket).2 * 2 + 1 }, .inr value) := rfl
      have odd : ((layout.place ticket).2 * 2 + 1) % 2 = 1 := by omega
      cases impl with
      | inPlace =>
          cases stepped
          exact lawful.advance ⟨ticket, .storeDone value⟩ rfl rfl advanced rfl trivial fun _ => odd
      | byMove =>
          cases stepped
          exact lawful.advance ⟨ticket, .storeDone value⟩ rfl rfl advanced rfl trivial fun _ => odd
      | byRelocation =>
          cases stepped
          have raw := fits rfl
          exact lawful.advance ⟨ticket, .storeDone value⟩ rfl rfl advanced rfl raw fun _ => odd
  | constructGoner ticket value =>
      have raw : argument = .raw := fits
      subst raw
      cases stepped
      exact lawful.stay coherent rfl trivial
  | wrote ticket value => cases stepped
  | destroyElem ticket =>
      cases argument with
      | raw => cases fits
      | live held =>
          cases stepped
          exact lawful.stay coherent rfl rfl
  | dequeueWait impl ticket =>
      simp only [next] at stepped
      split at stepped
      · next come =>
          cases stepped
          have advanced : (memory.slots (layout.place ticket).1).cell.advance
              (layout.place ticket).2 .takeWait = some (_, .inl .take) := if_pos come
          exact lawful.wait rfl advanced rfl fits
      · cases stepped
  | dequeueDrain impl ticket =>
      have held : ⟨ticket, .take⟩ ∈ holders
          (Call.call ⟨id, inPlace, argument, .dequeueDrain impl ticket⟩ :: rest.map Call.call) :=
        List.mem_filterMap.mpr ⟨_, List.mem_cons_self, rfl⟩
      obtain ⟨value, found, -⟩ := coherent.sequenced.contents_of_take held
      have here : (memory.slots (layout.place ticket).1).turn = (layout.place ticket).2 * 2 + 1 :=
        coherent.sequenced.at_of_passed held rfl
      have filled := eq_live_of_value found
      have advanced : (memory.slots (layout.place ticket).1).cell.advance (layout.place ticket).2
          .take = some (Slot.cell { memory.slots (layout.place ticket).1 with
            contents := impl.rest }, .inl (.takeDone value)) := by
        cases impl <;> simp [Cell.advance, Slot.cell, filled, Object.value?, DequeueImpl.rest]
      have odd : (memory.slots (layout.place ticket).1).turn % 2 = 1 := by omega
      simp only [next, filled, drain_live fits] at stepped
      cases impl with
      | byMove =>
          cases stepped
          refine lawful.advance ⟨ticket, .take⟩ rfl rfl advanced rfl ⟨⟨value, rfl⟩, ?_⟩ fun _ => odd
          rw [Memory.slots_store_self]
          rfl
      | byRelocation =>
          cases stepped
          refine lawful.advance ⟨ticket, .take⟩ rfl rfl advanced rfl ⟨⟨value, rfl⟩, ?_⟩
            fun impossible => by cases impossible
          rw [Memory.slots_store_self]
          rfl
  | destroyContents ticket =>
      obtain ⟨⟨value, rfl⟩, contents⟩ := fits
      simp only [next, contents, Object.destroy] at stepped
      cases stepped
      have same : Slot.cell { memory.slots (layout.place ticket).1 with contents := .raw } =
          (memory.slots (layout.place ticket).1).cell := by
        simp only [Slot.cell, contents, Object.value?]
      have still := cells_store_of_same same
      have kept := still ▸ coherent
      refine lawful.store ⟨ticket, .takeDone value⟩ rfl rfl kept ⟨⟨value, rfl⟩, ?_⟩
        fun impossible => by cases impossible
      rw [Memory.slots_store_self]
  | dequeueComplete ticket =>
      obtain ⟨⟨value, rfl⟩, contents⟩ := fits
      cases stepped
      have advanced : (memory.slots (layout.place ticket).1).cell.advance (layout.place ticket).2
          (.takeDone value) = some (Slot.cell { memory.slots (layout.place ticket).1 with
            turn := (layout.place ticket).2 * 2 + 2 }, .inr value) := rfl
      refine lawful.advance ⟨ticket, .takeDone value⟩ rfl rfl advanced rfl ⟨value, rfl⟩ ?_
      intro live
      have impossible : Object.raw = .live none := contents.symm.trans live
      cases impossible
  | read ticket => cases stepped
  | undefined => cases stepped

end Steps

/-! ## Reached states -/

section Reached

variable {layout : Layout} {traits : Traits} {state : Global (Memory V) (Call V)}

theorem lawful (reached : Reachable (system layout traits) anySchedule state) :
    Lawful layout state.shared state.agents := by
  refine Reaches.invariant (Lawful layout) Lawful.perm ?_ ?_ ?_ reached
  · constructor
    case coherent => exact coherent_start
    case fits =>
      intro call member
      exact absurd member List.not_mem_nil
    case moved =>
      intro index live
      cases live
    case untouched =>
      intro index unused
      rfl
  · intro before index choice call after left _ _ _ acted lawful
    obtain ⟨⟨moved, following⟩, stepped, same⟩ := Option.map_eq_some_iff.mp acted
    cases same
    exact lawful.step stepped
  · intro before choice after left _ _ begun lawful
    cases begun
    have coherent := lawful.coherent.begin choice.1
    constructor
    case coherent => exact coherent
    case fits =>
      intro call member
      rcases List.mem_cons.mp member with rfl | member
      · exact ⟨start_ticketless choice.1, rfl⟩
      · exact lawful.fits call member
    case moved => exact lawful.moved
    case untouched => exact lawful.untouched

end Reached

section Live

variable {layout : Layout} {memory : Memory V} {calls : List (Call V)} {index ticket : Nat}

/-- What its ticket says of a slot. -/
theorem Lawful.current (lawful : Lawful layout memory calls)
    (place : layout.place ticket = (index, (memory.slots index).turn / 2)) :
    Consistent ((memory.slots index).turn / 2) (memory.slots index).cell memory.pushed[ticket]?
      (decide (ticket < memory.popTicket)) (phasesAt true ticket (holders (calls.map Call.call)))
      (phasesAt false ticket (holders (calls.map Call.call))) := by
  have own := lawful.coherent.sequenced ticket
  rw [place] at own
  exact own

end Live

/-! ## The destructor -/

section Destructor

variable {layout : Layout} {memory : Memory V} {calls : List (Call V)} {indices : List Nat}

/-- A slot after its destructor. -/
def Slot.cleared (slot : Slot V) : Slot V :=
  if slot.turn % 2 = 1 then { slot with contents := .raw } else slot

def Slot.destroyed (slot : Slot V) : List (Option V) :=
  if slot.turn % 2 = 1 then [slot.contents.value?] else []

/-- Between operations no ticket is held. -/
theorem holders_of_returned (quiet : ∀ call ∈ calls, call.returned = true)
    (lawful : Lawful layout memory calls) : holders (calls.map Call.call) = [] := by
  refine List.filterMap_eq_nil_iff.mpr fun other member => ?_
  obtain ⟨call, found, rfl⟩ := List.mem_map.mp member
  have returned := quiet call found
  have fits := lawful.fits call found
  obtain ⟨id, inPlace, argument, at_⟩ := call
  cases at_ with
  | wrote ticket value => rfl
  | read ticket =>
      obtain ⟨value, rfl⟩ := fits
      rfl
  | seeking pc => exact holder_of_ticketless fits.1
  | _ => cases returned

/-- Between operations, what a ticket says of its slot. -/
theorem Lawful.idle (quiet : ∀ call ∈ calls, call.returned = true)
    (lawful : Lawful layout memory calls) (ticket : Nat) :
    Consistent (layout.place ticket).2 (memory.slots (layout.place ticket).1).cell
      memory.pushed[ticket]? (decide (ticket < memory.popTicket)) [] [] := by
  have own := lawful.coherent.sequenced ticket
  rw [holders_of_returned quiet lawful] at own
  exact own

end Destructor

/-! ## Lifetimes -/

end ThreadPoolExec.MPMCQueue.Lifetime
