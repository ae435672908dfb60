import ThreadPoolExec.MPMCQueue.Static

/-!
# The dynamic MPMC queue

The queue replaces its slots by a larger array while calls are running. A
seqlock word holds the offset of the current array, the number of closed
arrays and a lock bit; a call finds the array of its ticket in a validated
read section and in the record of closed arrays. Every step below is one
atomic access, sequentially consistent. Entries of `closed_` under the count
of a validated seqlock word are never written again, so a search through them
is one step, and so is the write of an entry.
-/

set_option autoImplicit false

namespace ThreadPoolExec.MPMCQueue.Dynamic

open Interleaving TurnCells

universe u

variable {V : Type u}

/-- The arguments of the constructor. -/
structure Layout where
  capacity : Nat
  minCapacity : Nat
  expansionMultiplier : Nat
  kSlotPadding : Nat

def Layout.initialCapacity (layout : Layout) : Nat :=
  min (max 1 layout.minCapacity) layout.capacity

def Layout.dmult (layout : Layout) : Nat :=
  max 2 layout.expansionMultiplier

/-- The size of the next array. The code multiplies in `size_t` and keeps the
seqlock word in 64 bits; it computes the same as long as the product is below
`2^64`, tickets are below `2^58` and at most 31 arrays are closed. -/
def Layout.expanded (layout : Layout) (cap : Nat) : Nat :=
  min (layout.dmult * cap) layout.capacity

def kSeqlockBits : Nat := 6

def getOffset (state : Nat) : Nat :=
  state >>> kSeqlockBits

def getNumClosed (state : Nat) : Nat :=
  (state &&& ((1 <<< kSeqlockBits) - 1)) >>> 1

/-- What `closed_` records of an array; slots are known by a number. -/
structure ClosedArray where
  offset : Nat
  slots : Nat
  capacity : Nat
  stride : Nat
deriving DecidableEq, Repr

/-- The cell of a ticket in an array, and its turn there. -/
def ClosedArray.place (layout : Layout) (array : ClosedArray) (ticket : Nat) :
    (Nat × Nat) × Nat :=
  ((array.slots, idx layout.kSlotPadding (ticket - array.offset) array.capacity array.stride),
    turn (ticket - array.offset) array.capacity)

/-- Where `tryExpand` is once it has the seqlock, with its `ticket` and
`newSlots`. Which of the two tickets it loads first is left open. -/
inductive Stage where
  | loadTicket
  | loadPop (pushes : Nat)
  | loadPush (pops : Nat)
  | allocate (ticket : Nat)
  | close (ticket newSlots : Nat)
  | storeSlots (ticket newSlots : Nat)
  | storeCapacity (ticket newSlots : Nat)
  | storeStride (ticket newSlots : Nat)
  | release (ticket newSlots : Nat)
deriving DecidableEq, Repr

/-- The locals of the call that holds the seqlock, kept beside the lock. -/
structure Expansion where
  state : Nat
  cap : Nat
  stage : Stage
deriving DecidableEq, Repr

/-- `arrays` lists the arrays published so far, the current one last;
`stored` and `taken` have the tickets that calls have gone to a cell with,
and `highest` is above every ticket that was looked up. -/
structure Memory (V : Type u) where
  dstate : Nat
  dslots : Nat
  dcapacity : Nat
  dstride : Nat
  closed : List ClosedArray
  pushTicket : Nat
  popTicket : Nat
  cells : Nat × Nat → Cell V
  allocated : Nat
  expansion : Option Expansion
  arrays : List ClosedArray
  stored : Nat → Option V
  taken : Nat → Bool
  highest : Nat
  nextCall : Nat

def Memory.dispenser (memory : Memory V) : Side V → Nat
  | .push _ => memory.pushTicket
  | .pop => memory.popTicket

def Memory.other (memory : Memory V) : Side V → Nat
  | .push _ => memory.popTicket
  | .pop => memory.pushTicket

def Memory.dispense (memory : Memory V) : Side V → Memory V
  | .push _ => { memory with pushTicket := memory.pushTicket + 1 }
  | .pop => { memory with popTicket := memory.popTicket + 1 }

/-- `blockingWrite`/`blockingRead`, `write`/`read`, or
`writeIfNotFull`/`readIfNotEmpty` with `tryWriteUntil`/`tryReadUntil`. -/
inductive Kind where
  | blocking
  | ready
  | promised (timed : Bool)
deriving DecidableEq, Repr

/-- A try for a ticket, owned already if the call is blocking. `other` is
`numPops` or `numPushes`. -/
structure Attempt (V : Type u) where
  kind : Kind
  side : Side V
  ticket : Nat
  other : Nat
deriving DecidableEq, Repr

/-- What a seqlock read section has read. -/
structure Snapshot where
  state : Nat
  slots : Nat
  capacity : Nat
  stride : Nat
deriving DecidableEq, Repr

inductive Trying where
  | loadOther
  -- trySeqlockReadSection
  | readState
  | readSlots (state : Nat)
  | readCapacity (state slots : Nat)
  | readStride (state slots capacity : Nat)
  | validate (snapshot : Snapshot)
  -- maybeUpdateFromClosed
  | resolve (snapshot : Snapshot)
  | located (snapshot : Snapshot) (array : ClosedArray) (lagging : Bool)
  | checkPops (snapshot : Snapshot) (array : ClosedArray)
  | reload (snapshot : Snapshot) (array : ClosedArray)
  | cas (array : ClosedArray)
  | tryExpand (snapshot : Snapshot) (array : ClosedArray)
  | expanding (array : ClosedArray)
deriving DecidableEq, Repr

inductive Pc (V : Type u) where
  | begin (kind : Kind) (side : Side V)
  | trying (attempt : Attempt V) (at_ : Trying)
  | holding (array : ClosedArray) (holder : Holder V)
  | wrote (array : ClosedArray) (ticket : Nat) (value : V)
  | read (array : ClosedArray) (ticket : Nat) (value : V)
  | refused (side : Side V)
  | assertFailed
deriving DecidableEq, Repr

structure Call (V : Type u) where
  id : Nat
  pc : Pc V

/-- The loop of `maybeUpdateFromClosed`, from a given index down. -/
def searchClosed (closed : List ClosedArray) (ticket : Nat) : Nat → Option ClosedArray
  | 0 => none
  | i + 1 =>
      match closed[i]? with
      | none => none
      | some array =>
          if array.offset ≤ ticket then some array else searchClosed closed ticket i

/-- The array to use, and what the function returns; nothing if it comes to
its `assert(false)`. -/
def maybeUpdateFromClosed (closed : List ClosedArray) (ticket : Nat) (snapshot : Snapshot) :
    Option (ClosedArray × Bool) :=
  if getOffset snapshot.state ≤ ticket then
    some (⟨getOffset snapshot.state, snapshot.slots, snapshot.capacity, snapshot.stride⟩, false)
  else
    (searchClosed closed ticket (getNumClosed snapshot.state)).map (·, true)

/-- Go to the cell of a ticket that is owned from now on. -/
def Memory.hold (memory : Memory V) (attempt : Attempt V) (array : ClosedArray) :
    Memory V × Pc V :=
  match attempt.side with
  | .push value =>
      ({ memory with stored := Function.update memory.stored attempt.ticket (some value) },
        .holding array ⟨attempt.ticket, .storeWait value⟩)
  | .pop =>
      ({ memory with taken := Function.update memory.taken attempt.ticket true },
        .holding array ⟨attempt.ticket, .takeWait⟩)

/-- Start over, a blocking call with the ticket it has. -/
def Attempt.retry (attempt : Attempt V) : Pc V :=
  match attempt.kind with
  | .blocking => .trying attempt .readState
  | _ => .begin attempt.kind attempt.side

/-- No ticket was obtained. A call with a deadline may wait and try again. -/
def Attempt.refuse (attempt : Attempt V) (again : Bool) : Pc V :=
  match attempt.kind with
  | .promised true =>
      if again then .begin attempt.kind attempt.side else .refused attempt.side
  | _ => .refused attempt.side

/-- What follows when `tryExpand` has returned false. -/
def Memory.unexpanded (memory : Memory V) (attempt : Attempt V) (array : ClosedArray)
    (again : Bool) : Memory V × Pc V :=
  match attempt.kind with
  | .blocking => memory.hold attempt array
  | _ => (memory, attempt.refuse again)

/-- What follows when the array of the ticket is known. -/
def Memory.atArray (memory : Memory V) (layout : Layout) (attempt : Attempt V)
    (snapshot : Snapshot) (array : ClosedArray) (lagging again : Bool) : Memory V × Pc V :=
  let place := array.place layout attempt.ticket
  match attempt.kind, attempt.side with
  | .blocking, .push _ =>
      if lagging ∨ mayEnqueue (memory.cells place.1) place.2 then memory.hold attempt array
      else (memory, .trying attempt (.checkPops snapshot array))
  | .blocking, .pop => memory.hold attempt array
  | .ready, .push _ =>
      if mayEnqueue (memory.cells place.1) place.2 then (memory, .trying attempt (.cas array))
      else (memory, .trying attempt (.reload snapshot array))
  | .ready, .pop =>
      if mayDequeue (memory.cells place.1) place.2 then (memory, .trying attempt (.cas array))
      else (memory, attempt.refuse again)
  | .promised _, .push _ =>
      if unpromised array.capacity attempt.ticket attempt.other attempt.side then
        if array.capacity = snapshot.capacity then
          (memory, .trying attempt (.tryExpand snapshot array))
        else (memory, attempt.refuse again)
      else (memory, .trying attempt (.cas array))
  | .promised _, .pop =>
      if unpromised array.capacity attempt.ticket attempt.other attempt.side then
        (memory, attempt.refuse again)
      else (memory, .trying attempt (.cas array))

/-- Whether an allocation succeeds, whether a wait before a deadline ends in
another try, and which ticket `tryExpand` loads first. -/
structure Choice where
  allocates : Bool := true
  again : Bool := false
  popFirst : Bool := false

/-- One step of `tryExpand` under the seqlock, with its result at the end. -/
def Memory.expand (memory : Memory V) (layout : Layout) (expansion : Expansion)
    (choice : Choice) : Memory V × Option Bool :=
  let index := getNumClosed expansion.state
  let newCapacity := layout.expanded expansion.cap
  match expansion.stage with
  | .loadTicket =>
      let stage := if choice.popFirst then .loadPush memory.popTicket
        else .loadPop memory.pushTicket
      ({ memory with expansion := some { expansion with stage } }, none)
  | .loadPop pushes =>
      ({ memory with
          expansion := some
            { expansion with stage := .allocate (1 + max pushes memory.popTicket) } }, none)
  | .loadPush pops =>
      ({ memory with
          expansion := some
            { expansion with stage := .allocate (1 + max memory.pushTicket pops) } }, none)
  | .allocate ticket =>
      if choice.allocates then
        ({ memory with
            allocated := memory.allocated + 1
            expansion := some { expansion with stage := .close ticket memory.allocated } }, none)
      else ({ memory with dstate := expansion.state, expansion := none }, some false)
  | .close ticket newSlots =>
      ({ memory with
          closed := memory.closed.take index ++
            [⟨getOffset expansion.state, memory.dslots, expansion.cap, memory.dstride⟩]
          expansion := some { expansion with stage := .storeSlots ticket newSlots } }, none)
  | .storeSlots ticket newSlots =>
      ({ memory with
          dslots := newSlots
          expansion := some { expansion with stage := .storeCapacity ticket newSlots } }, none)
  | .storeCapacity ticket newSlots =>
      ({ memory with
          dcapacity := newCapacity
          expansion := some { expansion with stage := .storeStride ticket newSlots } }, none)
  | .storeStride ticket newSlots =>
      ({ memory with
          dstride := computeStride newCapacity
          expansion := some { expansion with stage := .release ticket newSlots } }, none)
  | .release ticket newSlots =>
      ({ memory with
          dstate := (ticket <<< kSeqlockBits) + 2 * (index + 1)
          arrays := memory.arrays ++ [⟨ticket, newSlots, newCapacity, computeStride newCapacity⟩]
          expansion := none }, some true)

/-- One step of a try for a ticket. -/
def Trying.next (layout : Layout) (choice : Choice) (memory : Memory V) (attempt : Attempt V) :
    Trying → Option (Memory V × Pc V)
  | .loadOther =>
      some (memory, .trying { attempt with other := memory.other attempt.side } .readState)
  | .readState =>
      if memory.dstate % 2 = 1 then some (memory, attempt.retry)
      else some (memory, .trying attempt (.readSlots memory.dstate))
  | .readSlots state => some (memory, .trying attempt (.readCapacity state memory.dslots))
  | .readCapacity state slots =>
      some (memory, .trying attempt (.readStride state slots memory.dcapacity))
  | .readStride state slots capacity =>
      some (memory, .trying attempt (.validate ⟨state, slots, capacity, memory.dstride⟩))
  | .validate snapshot =>
      if memory.dstate = snapshot.state then
        some ({ memory with highest := max memory.highest (attempt.ticket + 1) },
          .trying attempt (.resolve snapshot))
      else some (memory, attempt.retry)
  | .resolve snapshot =>
      match maybeUpdateFromClosed memory.closed attempt.ticket snapshot with
      | none => some (memory, .assertFailed)
      | some (array, lagging) => some (memory, .trying attempt (.located snapshot array lagging))
  | .located snapshot array lagging =>
      some (memory.atArray layout attempt snapshot array lagging choice.again)
  | .checkPops snapshot array =>
      if attempt.ticket < memory.popTicket + array.capacity then some (memory, attempt.retry)
      else some (memory, .trying attempt (.tryExpand snapshot array))
  | .reload snapshot array =>
      if memory.dispenser attempt.side ≠ attempt.ticket then some (memory, attempt.retry)
      else if array.offset = getOffset snapshot.state then
        some (memory, .trying attempt (.tryExpand snapshot array))
      else some (memory, attempt.refuse choice.again)
  | .cas array =>
      if memory.dispenser attempt.side = attempt.ticket then
        some ((memory.dispense attempt.side).hold attempt array)
      else some (memory, attempt.retry)
  | .tryExpand snapshot array =>
      if array.capacity = layout.capacity then
        some (memory.unexpanded attempt array choice.again)
      else if memory.dstate = snapshot.state then
        some ({ memory with
            dstate := snapshot.state + 1
            expansion := some ⟨snapshot.state, array.capacity, .loadTicket⟩ },
          .trying attempt (.expanding array))
      else some (memory, attempt.retry)
  | .expanding array =>
      match memory.expansion with
      | none => none
      | some expansion =>
          match memory.expand layout expansion choice with
          | (after, none) => some (after, .trying attempt (.expanding array))
          | (after, some true) => some (after, attempt.retry)
          | (after, some false) => some (after.unexpanded attempt array choice.again)

/-- Where a holder's step leaves its call. -/
def Pc.advanced (array : ClosedArray) (holder : Holder V) : Phase V ⊕ V → Pc V
  | .inl phase => .holding array ⟨holder.ticket, phase⟩
  | .inr value =>
      if holder.phase.storing then .wrote array holder.ticket value
      else .read array holder.ticket value

def Pc.next (layout : Layout) (choice : Choice) (memory : Memory V) :
    Pc V → Option (Memory V × Pc V)
  | .begin kind side =>
      let attempt : Attempt V := ⟨kind, side, memory.dispenser side, 0⟩
      match kind with
      | .blocking => some (memory.dispense side, .trying attempt .readState)
      | .ready => some (memory, .trying attempt .readState)
      | .promised _ => some (memory, .trying attempt .loadOther)
  | .trying attempt at_ => at_.next layout choice memory attempt
  | .holding array holder =>
      let place := array.place layout holder.ticket
      match (memory.cells place.1).advance place.2 holder.phase with
      | none => none
      | some (cell, left) =>
          some ({ memory with cells := Function.update memory.cells place.1 cell },
            .advanced array holder left)
  | .wrote _ _ _ | .read _ _ _ | .refused _ | .assertFailed => none

def act (layout : Layout) (choice : Choice) (memory : Memory V) (call : Call V) :
    Option (Memory V × List (Call V)) :=
  (call.pc.next layout choice memory).map fun moved => (moved.1, [⟨call.id, moved.2⟩])

/-- `initQueue`; the first slots have the number zero. -/
def Layout.initQueue (layout : Layout) : Memory V where
  dstate := 0
  dslots := 0
  dcapacity := layout.initialCapacity
  dstride := computeStride layout.initialCapacity
  closed := []
  pushTicket := 0
  popTicket := 0
  cells := fun _ => {}
  allocated := 1
  expansion := none
  arrays := [⟨0, 0, layout.initialCapacity, computeStride layout.initialCapacity⟩]
  stored := fun _ => none
  taken := fun _ => false
  highest := 0
  nextCall := 0

inductive Operation (V : Type u) where
  | blockingWrite (value : V)
  | write (value : V)
  | writeIfNotFull (value : V)
  | tryWriteUntil (value : V)
  | blockingRead
  | read
  | readIfNotEmpty
  | tryReadUntil

def Operation.start : Operation V → Pc V
  | .blockingWrite value => .begin .blocking (.push value)
  | .write value => .begin .ready (.push value)
  | .writeIfNotFull value => .begin (.promised false) (.push value)
  | .tryWriteUntil value => .begin (.promised true) (.push value)
  | .blockingRead => .begin .blocking .pop
  | .read => .begin .ready .pop
  | .readIfNotEmpty => .begin (.promised false) .pop
  | .tryReadUntil => .begin (.promised true) .pop

def system (layout : Layout) : System (Memory V) (Call V) Choice (Operation V) where
  init := ⟨layout.initQueue, []⟩
  act := act layout
  env operation memory :=
    some ({ memory with nextCall := memory.nextCall + 1 }, [⟨memory.nextCall, operation.start⟩])

end ThreadPoolExec.MPMCQueue.Dynamic
