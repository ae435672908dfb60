import ThreadPoolExec.MPMCQueue.DynamicSteps
import ThreadPoolExec.MPMCQueue.Expansion

/-!
# Tickets and arrays of the dynamic queue

Every call that has a ticket finds the one array whose offset the ticket has
reached while it has not reached the next one. Tickets that were looked up
stay below `highest`, and so below every offset published later.
-/

set_option autoImplicit false

namespace ThreadPoolExec.MPMCQueue.Dynamic

open Interleaving TurnCells

universe u

variable {V : Type u} {layout : Layout}

/-! ## Tickets of calls -/

def Pc.holder? : Pc V → Option (Holder V)
  | .holding _ holder => some holder
  | _ => none

/-- The ticket that a call owns before it goes to a cell. -/
def Pc.owned? : Pc V → Option (Side V × Nat)
  | .trying attempt _ =>
      if attempt.kind = .blocking then some (attempt.side, attempt.ticket) else none
  | _ => none

/-- The push ticket that a call went to a cell with. -/
def Pc.stored? : Pc V → Option Nat
  | .holding _ holder => if holder.phase.storing then some holder.ticket else none
  | .wrote _ ticket _ => some ticket
  | _ => none

/-- The pop ticket that a call went to a cell with. -/
def Pc.taken? : Pc V → Option Nat
  | .holding _ holder => if holder.phase.storing then none else some holder.ticket
  | .read _ ticket _ => some ticket
  | _ => none

/-- The array that a call has gone to with its ticket. -/
def Pc.located? : Pc V → Option (ClosedArray × Nat)
  | .holding array holder => some (array, holder.ticket)
  | .wrote array ticket _ | .read array ticket _ => some (array, ticket)
  | _ => none

/-- The value that a call stores at its ticket. -/
def Pc.stores? : Pc V → Option (Nat × V)
  | .holding _ holder => holder.phase.stores?.map (holder.ticket, ·)
  | .wrote _ ticket value => some (ticket, value)
  | _ => none

def Side.pushes : Side V → Bool
  | .push _ => true
  | .pop => false

def Pc.stores (ticket : Nat) (pc : Pc V) : Nat :=
  if pc.stored? = some ticket then 1 else 0

def Pc.takes (ticket : Nat) (pc : Pc V) : Nat :=
  if pc.taken? = some ticket then 1 else 0

/-- A call owns a ticket on one of the sides. -/
def Pc.owns (pushes : Bool) (ticket : Nat) (pc : Pc V) : Nat :=
  if pc.owned?.map (fun owned => (Side.pushes owned.1, owned.2)) = some (pushes, ticket) then 1
  else if pushes then pc.stores ticket else pc.takes ticket

/-- A call that is not at a cell, and has not been. -/
def Pc.away : Pc V → Bool
  | .begin _ _ | .trying _ _ | .refused _ | .assertFailed => true
  | .holding _ _ | .wrote _ _ _ | .read _ _ _ => false

def holders (calls : List (Call V)) : List (Holder V) :=
  calls.filterMap fun call => call.pc.holder?

def owners (pushes : Bool) (ticket : Nat) (calls : List (Call V)) : Nat :=
  total (fun call => call.pc.owns pushes ticket) calls

def storers (ticket : Nat) (calls : List (Call V)) : Nat :=
  total (fun call => call.pc.stores ticket) calls

def takers (ticket : Nat) (calls : List (Call V)) : Nat :=
  total (fun call => call.pc.takes ticket) calls

def Memory.dispensed (memory : Memory V) (pushes : Bool) : Nat :=
  if pushes then memory.pushTicket else memory.popTicket

/-! ## The invariant -/

def TryingOk (memory : Memory V) (attempt : Attempt V) : Trying → Prop
  | .loadOther | .readState => True
  | .readSlots state => state % 2 = 0 ∧ Loaded memory state fun _ => True
  | .readCapacity state slots =>
      state % 2 = 0 ∧ Loaded memory state fun array => slots = array.slots
  | .readStride state slots capacity =>
      state % 2 = 0 ∧ Loaded memory state fun array =>
        slots = array.slots ∧ capacity = array.capacity
  | .validate snapshot =>
      snapshot.state % 2 = 0 ∧ Loaded memory snapshot.state fun array =>
        snapshot = ⟨snapshot.state, array.slots, array.capacity, array.stride⟩
  | .resolve snapshot => Valid memory attempt.ticket snapshot
  | .located snapshot array lagging =>
      Valid memory attempt.ticket snapshot ∧ Resolved memory attempt.ticket array ∧
        (lagging = false → array.offset = getOffset snapshot.state) ∧
        (array.offset = getOffset snapshot.state → array.capacity = snapshot.capacity)
  | .checkPops snapshot array | .tryExpand snapshot array =>
      Valid memory attempt.ticket snapshot ∧ Resolved memory attempt.ticket array ∧
        array.capacity = snapshot.capacity
  | .reload snapshot array =>
      Valid memory attempt.ticket snapshot ∧ Resolved memory attempt.ticket array ∧
        (array.offset = getOffset snapshot.state → array.capacity = snapshot.capacity) ∧
        attempt.kind ≠ .blocking
  | .cas array => Resolved memory attempt.ticket array ∧ attempt.kind ≠ .blocking
  | .expanding array => Resolved memory attempt.ticket array

def PcOk (memory : Memory V) : Pc V → Prop
  | .begin _ _ | .refused _ => True
  | .trying attempt at_ =>
      attempt.ticket ≤ memory.dispenser attempt.side ∧ TryingOk memory attempt at_
  | .holding array holder => Resolved memory holder.ticket array
  | .wrote array ticket value | .read array ticket value =>
      Resolved memory ticket array ∧ memory.stored ticket = some value
  | .assertFailed => False

structure Coherent (layout : Layout) (memory : Memory V) (calls : List (Call V)) : Prop where
  ordered : ∃ front current, MemoryOk layout memory front current
  sequenced : Sequenced (placeIn layout memory.arrays) memory.cells memory.stored memory.taken
    (holders calls)
  owners : ∀ pushes ticket,
    owners pushes ticket calls = if ticket < memory.dispensed pushes then 1 else 0
  storers : ∀ ticket, storers ticket calls = if (memory.stored ticket).isSome then 1 else 0
  takers : ∀ ticket, takers ticket calls = if memory.taken ticket then 1 else 0
  pcs : ∀ call ∈ calls, PcOk memory call.pc

section Frames

variable {memory after : Memory V} {calls rest : List (Call V)} {pc next : Pc V} {id : Nat}

theorem Coherent.perm {others : List (Call V)} (same : calls.Perm others)
    (coherent : Coherent layout memory calls) : Coherent layout memory others where
  ordered := coherent.ordered
  sequenced := coherent.sequenced.perm (same.filterMap _)
  owners pushes ticket := (total_perm same).symm.trans (coherent.owners pushes ticket)
  storers ticket := (total_perm same).symm.trans (coherent.storers ticket)
  takers ticket := (total_perm same).symm.trans (coherent.takers ticket)
  pcs call member := coherent.pcs call (same.mem_iff.mpr member)

private theorem TryingOk.grow {attempt : Attempt V} {at_ : Trying} (grows : Grows memory after)
    (few : after.arrays.length ≤ 32) (ok : TryingOk memory attempt at_) :
    TryingOk after attempt at_ := by
  cases at_ with
  | loadOther => trivial
  | readState => trivial
  | readSlots state => exact ⟨ok.1, ok.2.grow grows few⟩
  | readCapacity state slots => exact ⟨ok.1, ok.2.grow grows few⟩
  | readStride state slots capacity => exact ⟨ok.1, ok.2.grow grows few⟩
  | validate snapshot => exact ⟨ok.1, ok.2.grow grows few⟩
  | resolve snapshot => exact Valid.grow grows ok
  | located snapshot array lagging => exact ⟨ok.1.grow grows, ok.2.1.grow grows, ok.2.2⟩
  | checkPops snapshot array => exact ⟨ok.1.grow grows, ok.2.1.grow grows, ok.2.2⟩
  | reload snapshot array => exact ⟨ok.1.grow grows, ok.2.1.grow grows, ok.2.2⟩
  | cas array => exact ⟨ok.1.grow grows, ok.2⟩
  | tryExpand snapshot array => exact ⟨ok.1.grow grows, ok.2.1.grow grows, ok.2.2⟩
  | expanding array => exact Resolved.grow grows ok

private theorem dispenser_le (grows : Grows memory after) (side : Side V) :
    memory.dispenser side ≤ after.dispenser side := by
  cases side with
  | push value => exact grows.pushTicket
  | pop => exact grows.popTicket

private theorem PcOk.grow (grows : Grows memory after) (few : after.arrays.length ≤ 32)
    (stored : ∀ ticket value, memory.stored ticket = some value →
      after.stored ticket = some value)
    (ok : PcOk memory pc) : PcOk after pc := by
  cases pc with
  | begin kind side => trivial
  | trying attempt at_ => exact ⟨Nat.le_trans ok.1 (dispenser_le grows _), ok.2.grow grows few⟩
  | holding array holder => exact Resolved.grow grows ok
  | wrote array ticket value => exact ⟨ok.1.grow grows, stored _ _ ok.2⟩
  | read array ticket value => exact ⟨ok.1.grow grows, stored _ _ ok.2⟩
  | refused side => trivial
  | assertFailed => exact ok

private theorem away_weights (away : pc.away = true) (ticket : Nat) :
    pc.stores ticket = 0 ∧ pc.takes ticket = 0 ∧ pc.holder? = none := by
  cases pc <;> first | exact ⟨rfl, rfl, rfl⟩ | cases away

private theorem away_owns (away : pc.away = true) (pushes : Bool) (ticket : Nat) :
    pc.owns pushes ticket =
      if pc.owned?.map (fun owned => (Side.pushes owned.1, owned.2)) = some (pushes, ticket)
      then 1 else 0 := by
  have weights := away_weights away ticket
  simp only [Pc.owns, weights.1, weights.2.1, ite_self]

theorem owners_cons (pushes : Bool) (ticket : Nat) :
    owners pushes ticket (⟨id, pc⟩ :: rest) =
      pc.owns pushes ticket + owners pushes ticket rest :=
  total_cons

theorem storers_cons (ticket : Nat) :
    storers ticket (⟨id, pc⟩ :: rest) = pc.stores ticket + storers ticket rest :=
  total_cons

theorem takers_cons (ticket : Nat) :
    takers ticket (⟨id, pc⟩ :: rest) = pc.takes ticket + takers ticket rest :=
  total_cons

theorem holders_cons : holders (⟨id, pc⟩ :: rest) = pc.holder?.toList ++ holders rest := by
  cases holder : pc.holder? <;> simp [holders, holder]

private theorem holders_cons_of_away (away : pc.away = true) :
    holders (⟨id, pc⟩ :: rest) = holders rest := by
  rw [holders_cons, (away_weights away 0).2.2]
  rfl

/-- A call that is away from the cells, and stays so with the ticket it has,
takes a step that leaves the tickets and the cells alone. -/
private theorem coherent_change (coherent : Coherent layout memory (⟨id, pc⟩ :: rest))
    (away : pc.away = true) (nextAway : next.away = true) (owned : next.owned? = pc.owned?)
    (memoryOk : ∃ front current, MemoryOk layout after front current)
    (dispensed : after.dispensed = memory.dispensed) (stored : after.stored = memory.stored)
    (taken : after.taken = memory.taken) (grows : Grows memory after)
    (few : after.arrays.length ≤ 32)
    (sequenced : Sequenced (placeIn layout after.arrays) after.cells memory.stored memory.taken
      (holders rest))
    (nextOk : PcOk after next) : Coherent layout after (⟨id, next⟩ :: rest) where
  ordered := memoryOk
  sequenced := by
    rw [holders_cons_of_away nextAway, stored, taken]
    exact sequenced
  owners pushes ticket := by
    rw [owners_cons, away_owns nextAway, owned, ← away_owns away, dispensed, ← owners_cons]
    exact coherent.owners pushes ticket
  storers ticket := by
    have before := coherent.storers ticket
    rw [storers_cons, (away_weights away ticket).1] at before
    rw [storers_cons, (away_weights nextAway ticket).1, stored]
    exact before
  takers ticket := by
    have before := coherent.takers ticket
    rw [takers_cons, (away_weights away ticket).2.1] at before
    rw [takers_cons, (away_weights nextAway ticket).2.1, taken]
    exact before
  pcs call member := by
    rcases List.mem_cons.mp member with rfl | member
    · exact nextOk
    · refine (coherent.pcs call (List.mem_cons_of_mem _ member)).grow grows few ?_
      intro ticket value known
      rw [stored]
      exact known

/-- The same, and the memory stays as it is. -/
private theorem coherent_look (coherent : Coherent layout memory (⟨id, pc⟩ :: rest))
    (few : memory.arrays.length ≤ 32) (away : pc.away = true) (nextAway : next.away = true)
    (owned : next.owned? = pc.owned?) (nextOk : PcOk memory next) :
    Coherent layout memory (⟨id, next⟩ :: rest) := by
  refine coherent_change coherent away nextAway owned coherent.ordered rfl rfl rfl .refl few ?_ nextOk
  have sequenced := coherent.sequenced
  rw [holders_cons_of_away away] at sequenced
  exact sequenced

theorem Coherent.below_of_stored {ticket : Nat} {value : V}
    (coherent : Coherent layout memory calls) (stored : memory.stored ticket = some value) :
    ticket < memory.highest := by
  have storers := coherent.storers ticket
  rw [stored, Option.isSome_some, if_pos rfl] at storers
  obtain ⟨call, member, stores⟩ := total_pos_iff.mp (storers ▸ Nat.one_pos)
  have ok := coherent.pcs call member
  unfold Pc.stores at stores
  split at stores
  · next storedIs =>
      cases pcIs : call.pc <;> rw [pcIs] at ok storedIs <;> simp only [Pc.stored?] at storedIs
      case holding array holder =>
        split at storedIs <;> cases storedIs
        exact ok.below
      case wrote array other written =>
        cases storedIs
        exact ok.1.below
      all_goals cases storedIs
  · exact absurd stores (Nat.lt_irrefl 0)

theorem Coherent.below_of_taken {ticket : Nat}
    (coherent : Coherent layout memory calls) (taken : memory.taken ticket = true) :
    ticket < memory.highest := by
  have takers := coherent.takers ticket
  rw [taken, if_pos rfl] at takers
  obtain ⟨call, member, takes⟩ := total_pos_iff.mp (takers ▸ Nat.one_pos)
  have ok := coherent.pcs call member
  unfold Pc.takes at takes
  split at takes
  · next takenIs =>
      cases pcIs : call.pc <;> rw [pcIs] at ok takenIs <;> simp only [Pc.taken?] at takenIs
      case holding array holder =>
        split at takenIs <;> cases takenIs
        exact ok.below
      case read array other received =>
        cases takenIs
        exact ok.1.below
      all_goals cases takenIs
  · exact absurd takes (Nat.lt_irrefl 0)

/-- An expansion takes a step. Only tickets that no call has gone to a cell
with move to the new array. -/
private theorem coherent_expand {expansion : Expansion} {choice : Choice} {result : Option Bool}
    (coherent : Coherent layout memory (⟨id, pc⟩ :: rest)) (away : pc.away = true)
    (few : after.arrays.length ≤ 32) (expansionIs : memory.expansion = some expansion)
    (expanded : memory.expand layout expansion choice = (after, result)) :
    Coherent layout after (⟨id, pc⟩ :: rest) := by
  obtain ⟨front, current, ok⟩ := coherent.ordered
  obtain ⟨afterOk, untouched, extends_⟩ := ok.expand few expansionIs expanded
  have grows := untouched.grows extends_
  have dispensed : after.dispensed = memory.dispensed := by
    funext pushes
    rw [Memory.dispensed, Memory.dispensed, untouched.pushTicket, untouched.popTicket]
  have sequenced := coherent.sequenced
  rw [holders_cons_of_away away] at sequenced
  have ownOk := coherent.pcs ⟨id, pc⟩ List.mem_cons_self
  refine coherent_change coherent away away rfl afterOk dispensed untouched.stored untouched.taken
    grows few ?_ (ownOk.grow grows few fun ticket value known => untouched.stored ▸ known)
  rw [untouched.cells]
  cases extends_ with
  | same arrays writing =>
      rw [arrays]
      exact sequenced
  | added array arrays beyond fresh =>
      refine sequenced.move fun ticket => ?_
      rcases Nat.lt_or_ge ticket array.offset with before | reached
      · refine .inl ?_
        simp only [placeIn, arrays, resolve_append_of_lt before]
      · refine .inr ?_
        have unstored : memory.stored ticket = none := by
          cases storedIs : memory.stored ticket with
          | none => rfl
          | some value =>
              have below := coherent.below_of_stored storedIs
              omega
        have untaken : memory.taken ticket = false := by
          cases takenIs : memory.taken ticket with
          | false => rfl
          | true =>
              have below := coherent.below_of_taken takenIs
              omega
        refine ⟨unstored, untaken, ?_⟩
        rw [placeIn, arrays, resolve_append_of_le reached]
        simp only [ClosedArray.place]
        rw [ok.cells array.slots fresh]
        exact ⟨rfl, rfl⟩

private theorem dispensed_dispense (side : Side V) (pushes : Bool) :
    (memory.dispense side).dispensed pushes =
      memory.dispensed pushes + if Side.pushes side = pushes then 1 else 0 := by
  cases side <;> cases pushes <;> rfl

private theorem dispenser_eq (side : Side V) :
    memory.dispenser side = memory.dispensed (Side.pushes side) := by
  cases side <;> rfl

private theorem given_next (ticket bound : Nat) :
    (if bound = ticket then 1 else 0) + (if ticket < bound then 1 else 0) =
      if ticket < bound + 1 then 1 else 0 := by
  split_ifs <;> omega

/-- A ticket is dispensed to a call that had none. -/
private theorem coherent_dispense {side : Side V} {other : Nat} {at_ : Trying}
    (coherent : Coherent layout memory (⟨id, pc⟩ :: rest)) (few : memory.arrays.length ≤ 32)
    (away : pc.away = true) (unowned : pc.owned? = none)
    (ok : TryingOk memory ⟨.blocking, side, memory.dispenser side, other⟩ at_) :
    Coherent layout (memory.dispense side)
      (⟨id, .trying ⟨.blocking, side, memory.dispenser side, other⟩ at_⟩ :: rest) := by
  obtain ⟨front, current, memoryOk⟩ := coherent.ordered
  have keeps : Keeps memory (memory.dispense side) := .dispense side
  have sameStored : (memory.dispense side).stored = memory.stored := by cases side <;> rfl
  have sameTaken : (memory.dispense side).taken = memory.taken := by cases side <;> rfl
  have sameCells : (memory.dispense side).cells = memory.cells := by cases side <;> rfl
  have fewAfter : (memory.dispense side).arrays.length ≤ 32 := keeps.arrays ▸ few
  have nextAway : (Pc.trying ⟨.blocking, side, memory.dispenser side, other⟩ at_ : Pc V).away =
      true := rfl
  constructor
  case ordered => exact ⟨front, current, memoryOk.keep keeps (sameCells ▸ memoryOk.cells)⟩
  case sequenced =>
    have sequenced := coherent.sequenced
    rw [holders_cons_of_away away] at sequenced
    rw [holders_cons_of_away nextAway, keeps.arrays, sameCells, sameStored, sameTaken]
    exact sequenced
  case owners =>
    intro pushes ticket
    have before := coherent.owners pushes ticket
    rw [owners_cons, away_owns away, unowned] at before
    simp only [Option.map_none, reduceCtorEq, if_false, Nat.zero_add] at before
    rw [owners_cons, away_owns nextAway, before, dispensed_dispense]
    simp only [Pc.owned?, if_true, Option.map_some, Option.some.injEq, Prod.mk.injEq]
    rw [dispenser_eq]
    by_cases same : Side.pushes side = pushes
    · simp only [same, true_and, if_true]
      exact given_next ticket _
    · simp [same]
  case storers =>
    intro ticket
    have before := coherent.storers ticket
    rw [storers_cons, (away_weights away ticket).1] at before
    rw [storers_cons, (away_weights nextAway ticket).1, sameStored]
    exact before
  case takers =>
    intro ticket
    have before := coherent.takers ticket
    rw [takers_cons, (away_weights away ticket).2.1] at before
    rw [takers_cons, (away_weights nextAway ticket).2.1, sameTaken]
    exact before
  case pcs =>
    intro call member
    rcases List.mem_cons.mp member with rfl | member
    · exact ⟨dispenser_le keeps.grows side, ok.grow keeps.grows fewAfter⟩
    · refine (coherent.pcs call (List.mem_cons_of_mem _ member)).grow keeps.grows fewAfter ?_
      intro ticket value known
      rw [sameStored]
      exact known

theorem stores_le_owns (ticket : Nat) (pc : Pc V) :
    pc.stores ticket ≤ pc.owns true ticket := by
  simp only [Pc.owns, if_true]
  split
  · unfold Pc.stores
    split <;> omega
  · exact Nat.le_refl _

private theorem takes_le_owns (ticket : Nat) (pc : Pc V) :
    pc.takes ticket ≤ pc.owns false ticket := by
  simp only [Pc.owns, Bool.false_eq_true, if_false]
  split
  · unfold Pc.takes
    split <;> omega
  · exact Nat.le_refl _

/-- The ticket that a call owns is nobody else's. -/
theorem owners_rest_eq_zero {attempt : Attempt V} {at_ : Trying}
    (coherent : Coherent layout memory (⟨id, .trying attempt at_⟩ :: rest))
    (owned : attempt.kind = .blocking) :
    owners (Side.pushes attempt.side) attempt.ticket rest = 0 := by
  have all := coherent.owners (Side.pushes attempt.side) attempt.ticket
  rw [owners_cons, away_owns rfl] at all
  simp only [Pc.owned?, owned, if_true, Option.map_some] at all
  split at all <;> omega

private theorem owns_trying {attempt : Attempt V} {at_ : Trying}
    (owned : attempt.kind = .blocking) (pushes : Bool) (ticket : Nat) :
    (Pc.trying attempt at_).owns pushes ticket =
      if Side.pushes attempt.side = pushes ∧ attempt.ticket = ticket then 1 else 0 := by
  rw [away_owns rfl]
  simp [Pc.owned?, owned]

private theorem owns_holding (array : ClosedArray) (holder : Holder V) (pushes : Bool)
    (ticket : Nat) :
    (Pc.holding array holder).owns pushes ticket =
      if holder.phase.storing = pushes ∧ holder.ticket = ticket then 1 else 0 := by
  cases side : holder.phase.storing <;> cases pushes <;>
    simp [Pc.owns, Pc.owned?, Pc.stores, Pc.takes, Pc.stored?, Pc.taken?, side]

/-- A call goes to the cell of a push ticket that it owns. -/
private theorem coherent_holdPush {attempt : Attempt V} {at_ : Trying} {array : ClosedArray}
    {value : V} (coherent : Coherent layout memory (⟨id, .trying attempt at_⟩ :: rest))
    (few : memory.arrays.length ≤ 32) (owned : attempt.kind = .blocking)
    (side : attempt.side = .push value) (resolved : Resolved memory attempt.ticket array) :
    Coherent layout
      { memory with stored := Function.update memory.stored attempt.ticket (some value) }
      (⟨id, .holding array ⟨attempt.ticket, .storeWait value⟩⟩ :: rest) := by
  obtain ⟨front, current, memoryOk⟩ := coherent.ordered
  have alone := owners_rest_eq_zero coherent owned
  rw [side] at alone
  have others : storers attempt.ticket rest = 0 :=
    Nat.le_zero.mp (alone ▸ total_le_total fun call _ => stores_le_owns attempt.ticket call.pc)
  have fresh : memory.stored attempt.ticket = none := by
    have count := coherent.storers attempt.ticket
    rw [storers_cons, others, (away_weights rfl _).1] at count
    cases storedIs : memory.stored attempt.ticket with
    | none => rfl
    | some stored => simp [storedIs] at count
  have keeps : Keeps memory { memory with
      stored := Function.update memory.stored attempt.ticket (some value) } :=
    ⟨rfl, rfl, rfl, rfl, rfl, rfl, rfl, rfl, rfl, Nat.le_refl _, Nat.le_refl _⟩
  constructor
  case ordered => exact ⟨front, current, memoryOk.keep keeps memoryOk.cells⟩
  case sequenced =>
    have sequenced := coherent.sequenced
    rw [holders_cons_of_away rfl] at sequenced
    rw [holders_cons]
    exact sequenced.push fresh (Function.update_self ..)
      fun other different => Function.update_of_ne different ..
  case owners =>
    intro pushes ticket
    have before := coherent.owners pushes ticket
    rw [owners_cons, owns_trying owned, side] at before
    rw [owners_cons, owns_holding]
    exact before
  case storers =>
    intro ticket
    have before := coherent.storers ticket
    rw [storers_cons, (away_weights rfl _).1, Nat.zero_add] at before
    rw [storers_cons]
    by_cases own : ticket = attempt.ticket
    · subst own
      simp [others, Pc.stores, Pc.stored?, Phase.storing]
    · rw [before]
      simp [Pc.stores, Pc.stored?, Phase.storing, own, Ne.symm own]
  case takers =>
    intro ticket
    have before := coherent.takers ticket
    rw [takers_cons, (away_weights rfl _).2.1] at before
    rw [takers_cons]
    exact before
  case pcs =>
    intro call member
    rcases List.mem_cons.mp member with rfl | member
    · exact resolved.grow keeps.grows
    · refine (coherent.pcs call (List.mem_cons_of_mem _ member)).grow keeps.grows few ?_
      intro ticket known stored
      have different : ticket ≠ attempt.ticket := by
        rintro rfl
        rw [fresh] at stored
        cases stored
      simp only
      rw [Function.update_of_ne different]
      exact stored

/-- The same with a pop ticket. -/
private theorem coherent_holdPop {attempt : Attempt V} {at_ : Trying} {array : ClosedArray}
    (coherent : Coherent layout memory (⟨id, .trying attempt at_⟩ :: rest))
    (few : memory.arrays.length ≤ 32) (owned : attempt.kind = .blocking)
    (side : attempt.side = .pop) (resolved : Resolved memory attempt.ticket array) :
    Coherent layout
      { memory with taken := Function.update memory.taken attempt.ticket true }
      (⟨id, .holding array ⟨attempt.ticket, .takeWait⟩⟩ :: rest) := by
  obtain ⟨front, current, memoryOk⟩ := coherent.ordered
  have alone := owners_rest_eq_zero coherent owned
  rw [side] at alone
  have others : takers attempt.ticket rest = 0 :=
    Nat.le_zero.mp (alone ▸ total_le_total fun call _ => takes_le_owns attempt.ticket call.pc)
  have fresh : memory.taken attempt.ticket = false := by
    have count := coherent.takers attempt.ticket
    rw [takers_cons, others, (away_weights rfl _).2.1] at count
    cases takenIs : memory.taken attempt.ticket with
    | false => rfl
    | true => simp [takenIs] at count
  have keeps : Keeps memory { memory with
      taken := Function.update memory.taken attempt.ticket true } :=
    ⟨rfl, rfl, rfl, rfl, rfl, rfl, rfl, rfl, rfl, Nat.le_refl _, Nat.le_refl _⟩
  constructor
  case ordered => exact ⟨front, current, memoryOk.keep keeps memoryOk.cells⟩
  case sequenced =>
    have sequenced := coherent.sequenced
    rw [holders_cons_of_away rfl] at sequenced
    rw [holders_cons]
    exact sequenced.pop fresh (Function.update_self ..)
      fun other different => Function.update_of_ne different ..
  case owners =>
    intro pushes ticket
    have before := coherent.owners pushes ticket
    rw [owners_cons, owns_trying owned, side] at before
    rw [owners_cons, owns_holding]
    exact before
  case storers =>
    intro ticket
    have before := coherent.storers ticket
    rw [storers_cons, (away_weights rfl _).1] at before
    rw [storers_cons]
    exact before
  case takers =>
    intro ticket
    have before := coherent.takers ticket
    rw [takers_cons, (away_weights rfl _).2.1, Nat.zero_add] at before
    rw [takers_cons]
    by_cases own : ticket = attempt.ticket
    · subst own
      simp [others, Pc.takes, Pc.taken?, Phase.storing]
    · rw [before]
      simp [Pc.takes, Pc.taken?, Phase.storing, own, Ne.symm own]
  case pcs =>
    intro call member
    rcases List.mem_cons.mp member with rfl | member
    · exact resolved.grow keeps.grows
    · exact (coherent.pcs call (List.mem_cons_of_mem _ member)).grow keeps.grows few
        fun _ _ known => known

/-- A call goes to the cell of a ticket that it owns. -/
private theorem coherent_hold {attempt : Attempt V} {at_ : Trying} {array : ClosedArray}
    (coherent : Coherent layout memory (⟨id, .trying attempt at_⟩ :: rest))
    (few : memory.arrays.length ≤ 32) (owned : attempt.kind = .blocking)
    (resolved : Resolved memory attempt.ticket array)
    (held : memory.hold attempt array = (after, next)) :
    Coherent layout after (⟨id, next⟩ :: rest) := by
  cases side : attempt.side with
  | push value =>
      simp only [Memory.hold, side, Prod.mk.injEq] at held
      obtain ⟨rfl, rfl⟩ := held
      exact coherent_holdPush coherent few owned side resolved
  | pop =>
      simp only [Memory.hold, side, Prod.mk.injEq] at held
      obtain ⟨rfl, rfl⟩ := held
      exact coherent_holdPop coherent few owned side resolved

private theorem advanced_tickets (array : ClosedArray) {holder : Holder V} {cell changed : Cell V}
    {turn : Nat} {left : Phase V ⊕ V}
    (advanced : cell.advance turn holder.phase = some (changed, left)) :
    (Pc.advanced array holder left).stored? = (Pc.holding array holder).stored? ∧
      (Pc.advanced array holder left).taken? = (Pc.holding array holder).taken? ∧
      (Pc.advanced array holder left).owned? = none ∧
      (Pc.advanced array holder left).holder?.toList = remaining holder.ticket left := by
  cases left with
  | inl phase =>
      have side := advance_inl advanced
      simp [Pc.advanced, Pc.stored?, Pc.taken?, Pc.owned?, Pc.holder?, remaining, side]
  | inr value =>
      by_cases side : holder.phase.storing = true <;>
        simp [Pc.advanced, Pc.stored?, Pc.taken?, Pc.owned?, Pc.holder?, remaining, side]

/-- The value a call leaves its cell with is the value of its ticket. -/
private theorem stored_of_advance_inr {place : Nat → (Nat × Nat) × Nat} {holder : Holder V}
    {others : List (Holder V)} {cell changed : Cell V} {turn : Nat} {value : V}
    (sequenced : Sequenced place memory.cells memory.stored memory.taken (holder :: others))
    (advanced : cell.advance turn holder.phase = some (changed, .inr value)) :
    memory.stored holder.ticket = some value := by
  obtain ⟨ticket, phase⟩ := holder
  rcases advance_inr advanced with phaseIs | phaseIs <;> simp only at phaseIs <;> subst phaseIs
  · exact sequenced.value_of_storing List.mem_cons_self rfl
  · exact sequenced.value_of_takeDone List.mem_cons_self

/-- A call takes a step at the cell of its ticket. -/
private theorem coherent_advance {array : ClosedArray} {holder : Holder V} {changed : Cell V}
    {left : Phase V ⊕ V} (coherent : Coherent layout memory (⟨id, .holding array holder⟩ :: rest))
    (few : memory.arrays.length ≤ 32)
    (advanced : (memory.cells (array.place layout holder.ticket).1).advance
      (array.place layout holder.ticket).2 holder.phase = some (changed, left)) :
    Coherent layout
      { memory with
        cells := Function.update memory.cells (array.place layout holder.ticket).1 changed }
      (⟨id, .advanced array holder left⟩ :: rest) := by
  obtain ⟨front, current, memoryOk⟩ := coherent.ordered
  have resolved : Resolved memory holder.ticket array :=
    coherent.pcs ⟨id, .holding array holder⟩ List.mem_cons_self
  have placed : placeIn layout memory.arrays holder.ticket = array.place layout holder.ticket :=
    placeIn_eq resolved.found
  have sequenced := coherent.sequenced
  rw [holders_cons] at sequenced
  obtain ⟨stores, takes, unowned, held⟩ := advanced_tickets array advanced
  have keeps : Keeps memory { memory with
      cells := Function.update memory.cells (array.place layout holder.ticket).1 changed } :=
    ⟨rfl, rfl, rfl, rfl, rfl, rfl, rfl, rfl, rfl, Nat.le_refl _, Nat.le_refl _⟩
  have sameStores : ∀ ticket,
      (Pc.advanced array holder left).stores ticket = (Pc.holding array holder).stores ticket := by
    intro ticket
    rw [Pc.stores, stores, Pc.stores]
  have sameTakes : ∀ ticket,
      (Pc.advanced array holder left).takes ticket = (Pc.holding array holder).takes ticket := by
    intro ticket
    rw [Pc.takes, takes, Pc.takes]
  constructor
  case ordered =>
    refine ⟨front, current, memoryOk.keep keeps fun slots absent index => ?_⟩
    have elsewhere : (slots, index) ≠ (array.place layout holder.ticket).1 := by
      intro same
      have slotsIs : slots = array.slots := congrArg Prod.fst same
      exact absent (List.mem_map.mpr ⟨array, mem_of_resolve resolved.found, slotsIs.symm⟩)
    exact (Function.update_of_ne elsewhere ..).trans (memoryOk.cells slots absent index)
  case sequenced =>
    rw [holders_cons, held]
    rw [← placed] at advanced ⊢
    exact Sequenced.advance memoryOk.place_injective sequenced advanced
  case owners =>
    intro pushes ticket
    have before := coherent.owners pushes ticket
    rw [owners_cons] at before ⊢
    have same : (Pc.advanced array holder left).owns pushes ticket =
        (Pc.holding array holder).owns pushes ticket := by
      rw [Pc.owns, unowned, sameStores, sameTakes]
      rfl
    rw [same]
    exact before
  case storers =>
    intro ticket
    have before := coherent.storers ticket
    rw [storers_cons] at before ⊢
    rw [sameStores]
    exact before
  case takers =>
    intro ticket
    have before := coherent.takers ticket
    rw [takers_cons] at before ⊢
    rw [sameTakes]
    exact before
  case pcs =>
    intro call member
    rcases List.mem_cons.mp member with rfl | member
    · cases left with
      | inl phase => exact resolved.grow keeps.grows
      | inr value =>
          have valueIs := stored_of_advance_inr sequenced advanced
          simp only [Pc.advanced]
          split <;> exact ⟨resolved.grow keeps.grows, valueIs⟩
    · exact (coherent.pcs call (List.mem_cons_of_mem _ member)).grow keeps.grows few
        fun _ _ known => known

/-! ## Steps -/

private theorem coherent_try {attempt : Attempt V} {at_ then_ : Trying}
    (coherent : Coherent layout memory (⟨id, .trying attempt at_⟩ :: rest))
    (few : memory.arrays.length ≤ 32) (ok : TryingOk memory attempt then_) :
    Coherent layout memory (⟨id, .trying attempt then_⟩ :: rest) := by
  have own := coherent.pcs ⟨id, .trying attempt at_⟩ List.mem_cons_self
  exact coherent_look coherent few rfl rfl rfl ⟨own.1, ok⟩

private theorem coherent_retry {attempt : Attempt V} {at_ : Trying}
    (coherent : Coherent layout memory (⟨id, .trying attempt at_⟩ :: rest))
    (few : memory.arrays.length ≤ 32) :
    Coherent layout memory (⟨id, attempt.retry⟩ :: rest) := by
  cases kindIs : attempt.kind with
  | blocking =>
      simp only [Attempt.retry, kindIs]
      exact coherent_try coherent few trivial
  | ready =>
      simp only [Attempt.retry, kindIs]
      exact coherent_look coherent few rfl rfl (by simp [Pc.owned?, kindIs]) trivial
  | promised timed =>
      simp only [Attempt.retry, kindIs]
      exact coherent_look coherent few rfl rfl (by simp [Pc.owned?, kindIs]) trivial

private theorem coherent_refuse {attempt : Attempt V} {at_ : Trying} {again : Bool}
    (coherent : Coherent layout memory (⟨id, .trying attempt at_⟩ :: rest))
    (few : memory.arrays.length ≤ 32) (unowned : attempt.kind ≠ .blocking) :
    Coherent layout memory (⟨id, attempt.refuse again⟩ :: rest) := by
  have none : (Pc.trying attempt at_ : Pc V).owned? = none := if_neg unowned
  unfold Attempt.refuse
  split
  · split
    · exact coherent_look coherent few rfl rfl none.symm trivial
    · exact coherent_look coherent few rfl rfl none.symm trivial
  · exact coherent_look coherent few rfl rfl none.symm trivial

private theorem coherent_unexpanded {attempt : Attempt V} {at_ : Trying} {array : ClosedArray}
    {again : Bool} (coherent : Coherent layout memory (⟨id, .trying attempt at_⟩ :: rest))
    (few : memory.arrays.length ≤ 32) (resolved : Resolved memory attempt.ticket array)
    (left : memory.unexpanded attempt array again = (after, next)) :
    Coherent layout after (⟨id, next⟩ :: rest) := by
  cases kindIs : attempt.kind with
  | blocking =>
      simp only [Memory.unexpanded, kindIs] at left
      exact coherent_hold coherent few kindIs resolved left
  | ready =>
      simp only [Memory.unexpanded, kindIs, Prod.mk.injEq] at left
      obtain ⟨rfl, rfl⟩ := left
      exact coherent_refuse coherent few (by simp [kindIs])
  | promised timed =>
      simp only [Memory.unexpanded, kindIs, Prod.mk.injEq] at left
      obtain ⟨rfl, rfl⟩ := left
      exact coherent_refuse coherent few (by simp [kindIs])

private theorem coherent_validate {attempt : Attempt V} {snapshot : Snapshot}
    (coherent : Coherent layout memory (⟨id, .trying attempt (.validate snapshot)⟩ :: rest))
    (few : memory.arrays.length ≤ 32) (same : memory.dstate = snapshot.state) :
    Coherent layout { memory with highest := max memory.highest (attempt.ticket + 1) }
      (⟨id, .trying attempt (.resolve snapshot)⟩ :: rest) := by
  obtain ⟨front, current, memoryOk⟩ := coherent.ordered
  obtain ⟨bound, even, loaded⟩ :=
    coherent.pcs ⟨id, .trying attempt (.validate snapshot)⟩ List.mem_cons_self
  have inBound : attempt.ticket ≤ max memory.pushTicket memory.popTicket := by
    cases side : attempt.side <;> simp only [side, Memory.dispenser] at bound <;> omega
  have raised := memoryOk.raise (memoryOk.unlocked even same) inBound
  have grows : Grows memory
      { memory with highest := max memory.highest (attempt.ticket + 1) } :=
    ⟨Nat.le_refl _, Nat.le_refl _, Nat.le_max_left .., .inl ⟨rfl, fun still => still⟩⟩
  have below : attempt.ticket < max memory.highest (attempt.ticket + 1) := by omega
  have sequenced := coherent.sequenced
  rw [holders_cons_of_away rfl] at sequenced
  refine coherent_change coherent rfl rfl rfl ⟨front, current, raised⟩ rfl rfl rfl grows few
    sequenced ⟨Nat.le_trans bound (dispenser_le grows _), ?_⟩
  exact (loaded.grow grows few).valid raised even same below

private theorem coherent_cas {attempt : Attempt V} {array : ClosedArray}
    (coherent : Coherent layout memory (⟨id, .trying attempt (.cas array)⟩ :: rest))
    (few : memory.arrays.length ≤ 32) (won : memory.dispenser attempt.side = attempt.ticket)
    (held : (memory.dispense attempt.side).hold attempt array = (after, next)) :
    Coherent layout after (⟨id, next⟩ :: rest) := by
  obtain ⟨-, resolved, unowned⟩ :=
    coherent.pcs ⟨id, .trying attempt (.cas array)⟩ List.mem_cons_self
  obtain ⟨kind, side, ticket, other⟩ := attempt
  simp only at won
  subst won
  have keeps : Keeps memory (memory.dispense side) := .dispense side
  -- as soon as the ticket is dispensed the call is like a blocking one
  have owned : Coherent layout (memory.dispense side)
      (⟨id, .trying ⟨.blocking, side, memory.dispenser side, other⟩ (.expanding array)⟩ :: rest) :=
    coherent_dispense coherent few rfl (if_neg unowned) resolved
  refine coherent_hold owned (keeps.arrays ▸ few) rfl (resolved.grow keeps.grows) ?_
  cases side <;> exact held

private theorem coherent_lock {attempt : Attempt V} {snapshot : Snapshot} {array : ClosedArray}
    (coherent : Coherent layout memory
      (⟨id, .trying attempt (.tryExpand snapshot array)⟩ :: rest))
    (few : memory.arrays.length ≤ 32) (same : memory.dstate = snapshot.state) :
    Coherent layout
      { memory with
        dstate := snapshot.state + 1
        expansion := some ⟨snapshot.state, array.capacity, .loadTicket⟩ }
      (⟨id, .trying attempt (.expanding array)⟩ :: rest) := by
  obtain ⟨front, current, memoryOk⟩ := coherent.ordered
  obtain ⟨bound, valid, resolved, capacity⟩ :=
    coherent.pcs ⟨id, .trying attempt (.tryExpand snapshot array)⟩ List.mem_cons_self
  have locked := memoryOk.lock few valid same
  rw [← capacity] at locked
  have unlocked := memoryOk.unlocked (valid.even) same
  have grows : Grows memory
      { memory with
        dstate := snapshot.state + 1
        expansion := some ⟨snapshot.state, array.capacity, .loadTicket⟩ } := by
    refine ⟨Nat.le_refl _, Nat.le_refl _, Nat.le_refl _, .inl ⟨rfl, fun _ => ?_⟩⟩
    rw [Memory.writing, unlocked]
    rfl
  have sequenced := coherent.sequenced
  rw [holders_cons_of_away rfl] at sequenced
  exact coherent_change coherent rfl rfl rfl ⟨front, current, locked⟩ rfl rfl rfl grows few
    sequenced ⟨Nat.le_trans bound (dispenser_le grows _), resolved.grow grows⟩

private theorem coherent_atArray {attempt : Attempt V} {snapshot : Snapshot}
    {array : ClosedArray} {lagging again : Bool}
    (coherent : Coherent layout memory
      (⟨id, .trying attempt (.located snapshot array lagging)⟩ :: rest))
    (few : memory.arrays.length ≤ 32)
    (left : memory.atArray layout attempt snapshot array lagging again = (after, next)) :
    Coherent layout after (⟨id, next⟩ :: rest) := by
  obtain ⟨-, valid, resolved, upToDate, capacity⟩ :=
    coherent.pcs ⟨id, .trying attempt (.located snapshot array lagging)⟩ List.mem_cons_self
  obtain ⟨kind, side, ticket, other⟩ := attempt
  cases kind with
  | blocking =>
      cases side with
      | push value =>
          simp only [Memory.atArray] at left
          split at left
          · exact coherent_hold coherent few rfl resolved left
          · next behind =>
              simp only [Prod.mk.injEq] at left
              obtain ⟨rfl, rfl⟩ := left
              have current : lagging = false := by
                cases lagging
                · rfl
                · exact absurd (.inl rfl) behind
              exact coherent_try coherent few ⟨valid, resolved, capacity (upToDate current)⟩
      | pop => exact coherent_hold coherent few rfl resolved left
  | ready =>
      cases side <;> simp only [Memory.atArray] at left <;> split at left <;>
        simp only [Prod.mk.injEq] at left <;> obtain ⟨rfl, rfl⟩ := left
      · exact coherent_try coherent few ⟨resolved, fun impossible => by cases impossible⟩
      · exact coherent_try coherent few
          ⟨valid, resolved, capacity, fun impossible => by cases impossible⟩
      · exact coherent_try coherent few ⟨resolved, fun impossible => by cases impossible⟩
      · exact coherent_refuse coherent few fun impossible => by cases impossible
  | promised timed =>
      cases side with
      | push value =>
          simp only [Memory.atArray] at left
          split at left
          · split at left <;> simp only [Prod.mk.injEq] at left <;> obtain ⟨rfl, rfl⟩ := left
            · next sameCapacity => exact coherent_try coherent few ⟨valid, resolved, sameCapacity⟩
            · exact coherent_refuse coherent few fun impossible => by cases impossible
          · simp only [Prod.mk.injEq] at left
            obtain ⟨rfl, rfl⟩ := left
            exact coherent_try coherent few ⟨resolved, fun impossible => by cases impossible⟩
      | pop =>
          simp only [Memory.atArray] at left
          split at left <;> simp only [Prod.mk.injEq] at left <;> obtain ⟨rfl, rfl⟩ := left
          · exact coherent_refuse coherent few fun impossible => by cases impossible
          · exact coherent_try coherent few ⟨resolved, fun impossible => by cases impossible⟩

/-- One step of a try for a ticket keeps everything in order. -/
private theorem coherent_trying {choice : Choice} {attempt : Attempt V} {at_ : Trying}
    (coherent : Coherent layout memory (⟨id, .trying attempt at_⟩ :: rest))
    (few : memory.arrays.length ≤ 32) (fewAfter : after.arrays.length ≤ 32)
    (stepped : at_.next layout choice memory attempt = some (after, next)) :
    Coherent layout after (⟨id, next⟩ :: rest) := by
  obtain ⟨front, current, memoryOk⟩ := coherent.ordered
  obtain ⟨bound, ok⟩ := coherent.pcs ⟨id, .trying attempt at_⟩ List.mem_cons_self
  cases at_ with
  | loadOther =>
      cases stepped
      exact coherent_look coherent few rfl rfl rfl ⟨bound, trivial⟩
  | readState =>
      simp only [Trying.next] at stepped
      split at stepped <;> cases stepped
      · exact coherent_retry coherent few
      · next unlocked =>
          exact coherent_try coherent few ⟨by omega, memoryOk.loaded few (by omega)⟩
  | readSlots state =>
      cases stepped
      exact coherent_try coherent few
        ⟨ok.1, ok.2.load memoryOk fun shows_ _ => shows_.1⟩
  | readCapacity state slots =>
      cases stepped
      exact coherent_try coherent few
        ⟨ok.1, ok.2.load memoryOk fun shows_ read => ⟨read, shows_.2.1⟩⟩
  | readStride state slots capacity =>
      cases stepped
      refine coherent_try coherent few ⟨ok.1, ok.2.load memoryOk fun shows_ read => ?_⟩
      rw [read.1, read.2, shows_.2.2]
  | validate snapshot =>
      simp only [Trying.next] at stepped
      split at stepped <;> cases stepped
      · next same => exact coherent_validate coherent few same
      · exact coherent_retry coherent few
  | resolve snapshot =>
      obtain ⟨array, lagging, found, rest⟩ :=
        Valid.maybeUpdateFromClosed memoryOk (memoryOk.front_lt few) ok
      simp only [Trying.next, found, Option.some.injEq, Prod.mk.injEq] at stepped
      obtain ⟨rfl, rfl⟩ := stepped
      exact coherent_try coherent few ⟨ok, rest⟩
  | located snapshot array lagging =>
      exact coherent_atArray coherent few (Option.some.inj stepped)
  | checkPops snapshot array =>
      simp only [Trying.next] at stepped
      split at stepped <;> cases stepped
      · exact coherent_retry coherent few
      · exact coherent_try coherent few ok
  | reload snapshot array =>
      obtain ⟨valid, resolved, capacity, unowned⟩ := ok
      simp only [Trying.next] at stepped
      split at stepped
      · cases stepped
        exact coherent_retry coherent few
      · split at stepped <;> cases stepped
        · next same => exact coherent_try coherent few ⟨valid, resolved, capacity same⟩
        · exact coherent_refuse coherent few unowned
  | cas array =>
      simp only [Trying.next] at stepped
      split at stepped
      · next won => exact coherent_cas coherent few won (Option.some.inj stepped)
      · cases stepped
        exact coherent_retry coherent few
  | tryExpand snapshot array =>
      simp only [Trying.next] at stepped
      split at stepped
      · exact coherent_unexpanded coherent few ok.2.1 (Option.some.inj stepped)
      · split at stepped <;> cases stepped
        · next same => exact coherent_lock coherent few same
        · exact coherent_retry coherent few
  | expanding array =>
      simp only [Trying.next] at stepped
      split at stepped
      · cases stepped
      · next expansion expansionIs =>
          split at stepped
          · next expanded =>
              cases stepped
              exact coherent_expand coherent rfl fewAfter expansionIs expanded
          · next expanded =>
              cases stepped
              exact coherent_retry (coherent_expand coherent rfl fewAfter expansionIs expanded)
                fewAfter
          · next memoryAfter expanded =>
              have fewMid : memoryAfter.arrays.length ≤ 32 :=
                (unexpanded_advances (Option.some.inj stepped)).2 ▸ fewAfter
              have mid := coherent_expand coherent rfl fewMid expansionIs expanded
              have resolved :=
                mid.pcs ⟨id, .trying attempt (.expanding array)⟩ List.mem_cons_self
              exact coherent_unexpanded mid fewMid resolved.2 (Option.some.inj stepped)

/-- One step of a call keeps everything in order. -/
private theorem coherent_next {choice : Choice}
    (coherent : Coherent layout memory (⟨id, pc⟩ :: rest))
    (few : memory.arrays.length ≤ 32) (fewAfter : after.arrays.length ≤ 32)
    (stepped : pc.next layout choice memory = some (after, next)) :
    Coherent layout after (⟨id, next⟩ :: rest) := by
  cases pc with
  | begin kind side =>
      cases kind with
      | blocking =>
          cases stepped
          exact coherent_dispense coherent few rfl rfl trivial
      | ready =>
          cases stepped
          exact coherent_look coherent few rfl rfl rfl ⟨Nat.le_refl _, trivial⟩
      | promised timed =>
          cases stepped
          exact coherent_look coherent few rfl rfl rfl ⟨Nat.le_refl _, trivial⟩
  | trying attempt at_ => exact coherent_trying coherent few fewAfter stepped
  | holding array holder =>
      simp only [Pc.next] at stepped
      split at stepped
      · cases stepped
      · next advanced =>
          cases stepped
          exact coherent_advance coherent few advanced
  | wrote array ticket value => cases stepped
  | read array ticket value => cases stepped
  | refused side => cases stepped
  | assertFailed => cases stepped

end Frames

private theorem coherent_init : Coherent layout (layout.initQueue : Memory V) [] where
  ordered := by
    refine ⟨[], ⟨0, 0, layout.initialCapacity, computeStride layout.initialCapacity⟩, rfl, ?_,
      List.pairwise_singleton _ _, List.nodup_singleton _, ?_, ?_, fun _ _ _ => rfl,
      Nat.zero_le _, Nat.zero_le _, rfl, fun _ => ⟨rfl, rfl⟩, nofun⟩
    · rintro _ ⟨⟩
      rfl
    · intro array member
      rw [List.mem_singleton.mp member]
      exact Nat.one_pos
    · intro array member
      rw [List.mem_singleton.mp member]
      exact coprime_computeStride _
  sequenced := Sequenced.start
  owners pushes ticket := by cases pushes <;> rfl
  storers ticket := rfl
  takers ticket := rfl
  pcs := nofun

private theorem start_away (operation : Operation V) :
    operation.start.away = true ∧ operation.start.owned? = none ∧
      ∀ memory, PcOk memory operation.start := by
  cases operation <;> exact ⟨rfl, rfl, fun _ => trivial⟩

/-- A call is made. -/
private theorem coherent_begin {memory : Memory V} {calls : List (Call V)} {id nextCall : Nat}
    (operation : Operation V) (coherent : Coherent layout memory calls)
    (few : memory.arrays.length ≤ 32) :
    Coherent layout { memory with nextCall := nextCall } (⟨id, operation.start⟩ :: calls) := by
  obtain ⟨front, current, memoryOk⟩ := coherent.ordered
  obtain ⟨away, unowned, ok⟩ := start_away operation
  have keeps : Keeps memory { memory with nextCall := nextCall } :=
    ⟨rfl, rfl, rfl, rfl, rfl, rfl, rfl, rfl, rfl, Nat.le_refl _, Nat.le_refl _⟩
  constructor
  case ordered => exact ⟨front, current, memoryOk.keep keeps memoryOk.cells⟩
  case sequenced =>
    rw [holders_cons_of_away away]
    exact coherent.sequenced
  case owners =>
    intro pushes ticket
    rw [owners_cons, away_owns away, unowned]
    simp only [Option.map_none, reduceCtorEq, if_false, Nat.zero_add]
    exact coherent.owners pushes ticket
  case storers =>
    intro ticket
    rw [storers_cons, (away_weights away ticket).1, Nat.zero_add]
    exact coherent.storers ticket
  case takers =>
    intro ticket
    rw [takers_cons, (away_weights away ticket).2.1, Nat.zero_add]
    exact coherent.takers ticket
  case pcs =>
    intro call member
    rcases List.mem_cons.mp member with rfl | member
    · exact ok _
    · exact (coherent.pcs call member).grow keeps.grows few fun _ _ known => known

theorem reachable_coherent {state : Global (Memory V) (Call V)}
    (reached : Reachable (system layout) anySchedule state)
    (few : state.shared.arrays.length ≤ 32) :
    Coherent layout state.shared state.agents := by
  refine Reaches.invariant
    (fun memory calls => memory.arrays.length ≤ 32 → Coherent layout memory calls)
    ?_ ?_ ?_ ?_ reached few
  · intro memory calls others same coherent few
    exact Coherent.perm same (coherent few)
  · exact fun _ => coherent_init
  · intro before index choice call after left _ _ _ acted coherent fewAfter
    obtain ⟨next, stepped, rfl⟩ := act_eq_some acted
    have few := Nat.le_trans (counters_next stepped).2.2.2 fewAfter
    exact coherent_next (coherent few) few fewAfter stepped
  · intro before operation after left _ _ acted coherent few
    cases acted
    exact coherent_begin operation (coherent few) few

/-! ## Tickets and their arrays -/

/-- The array with the last of the offsets that a ticket has reached. -/
def IsArrayOf (arrays : List ClosedArray) (ticket : Nat) (array : ClosedArray) : Prop :=
  ∃ front back, arrays = front ++ array :: back ∧ array.offset ≤ ticket ∧
    ∀ next ∈ back, ticket < next.offset

/-- What holds of the tickets in a state, whatever expansions go on. -/
structure TicketsResolved (layout : Layout) (memory : Memory V) (calls : List (Call V)) :
    Prop where
  /-- The published arrays are the closed ones and the current one. -/
  published : memory.expansion = none → ∃ current,
    memory.arrays = memory.closed ++ [current] ∧
      memory.dstate = seqlockWord current.offset memory.closed.length ∧
      Shows memory current.slots current.capacity current.stride
  offsets : memory.arrays.Pairwise fun earlier later => earlier.offset ≤ later.offset
  /-- A call goes to the array of its ticket, and only one array is. -/
  located : ∀ call ∈ calls, ∀ array ticket, call.pc.located? = some (array, ticket) →
    IsArrayOf memory.arrays ticket array ∧
      ∀ other, IsArrayOf memory.arrays ticket other → other = array
  places : ∀ call ∈ calls, ∀ other ∈ calls, ∀ array ticket otherArray otherTicket,
    call.pc.located? = some (array, ticket) →
    other.pc.located? = some (otherArray, otherTicket) →
      (ticket = otherTicket ↔
        array.place layout ticket = otherArray.place layout otherTicket)
  asserts : ∀ call ∈ calls, call.pc ≠ .assertFailed
  /-- Each ticket that was given out has one owner, no other ticket has any. -/
  owners : ∀ pushes ticket,
    owners pushes ticket calls = if ticket < memory.dispensed pushes then 1 else 0
  /-- A read receives the value of the write with the same ticket. -/
  sameTicket : ∀ reader ∈ calls, ∀ array ticket value, reader.pc = .read array ticket value →
    (∃ writer ∈ calls, writer.pc.stores? = some (ticket, value)) ∧
      ∀ writer ∈ calls, ∀ stored, writer.pc.stores? = some (ticket, stored) → stored = value

section Resolved

variable {memory : Memory V} {calls : List (Call V)}

theorem Coherent.resolved (coherent : Coherent layout memory calls) {call : Call V}
    (member : call ∈ calls) {array : ClosedArray} {ticket : Nat}
    (located : call.pc.located? = some (array, ticket)) : Resolved memory ticket array := by
  have ok := coherent.pcs call member
  cases pcIs : call.pc <;> rw [pcIs] at ok located <;> cases located
  case holding => exact ok
  case wrote => exact ok.1
  case read => exact ok.1

private theorem Coherent.stored_of_stores (coherent : Coherent layout memory calls)
    {call : Call V} (member : call ∈ calls) {ticket : Nat} {value : V}
    (stores : call.pc.stores? = some (ticket, value)) : memory.stored ticket = some value := by
  have ok := coherent.pcs call member
  cases pcIs : call.pc <;> rw [pcIs] at ok stores <;> try cases stores
  case holding array holder =>
    obtain ⟨stored, storesIs, same⟩ := Option.map_eq_some_iff.mp stores
    cases same
    have inHolders : holder ∈ holders calls :=
      List.mem_filterMap.mpr ⟨call, member, by rw [pcIs]; rfl⟩
    exact coherent.sequenced.value_of_storing inHolders storesIs
  case wrote.refl => exact ok.2

private theorem Coherent.exists_writer (coherent : Coherent layout memory calls) {ticket : Nat}
    {value : V} (stored : memory.stored ticket = some value) :
    ∃ writer ∈ calls, writer.pc.stores? = some (ticket, value) := by
  have storers := coherent.storers ticket
  rw [stored, Option.isSome_some, if_pos rfl] at storers
  obtain ⟨call, member, stores⟩ := total_pos_iff.mp (storers ▸ Nat.one_pos)
  have storesIs : ∃ other, call.pc.stores? = some (ticket, other) := by
    unfold Pc.stores at stores
    split at stores
    · next storedIs =>
        cases pcIs : call.pc <;> rw [pcIs] at storedIs <;> simp only [Pc.stored?] at storedIs
        case holding array holder =>
          split at storedIs
          · next side =>
              cases storedIs
              obtain ⟨other, phaseStores⟩ := stores_of_storing side
              exact ⟨other, by rw [Pc.stores?, phaseStores]; rfl⟩
          · cases storedIs
        case wrote array other written =>
          cases storedIs
          exact ⟨written, rfl⟩
        all_goals cases storedIs
    · exact absurd stores (Nat.lt_irrefl 0)
  obtain ⟨other, storesIs⟩ := storesIs
  have same := coherent.stored_of_stores member storesIs
  rw [stored] at same
  cases same
  exact ⟨call, member, storesIs⟩

private theorem resolve_of_isArrayOf {arrays : List ClosedArray} {ticket : Nat}
    {array : ClosedArray} (isArray : IsArrayOf arrays ticket array) :
    resolve arrays ticket = some array := by
  obtain ⟨front, back, rfl, reached, later⟩ := isArray
  exact resolve_split reached later

end Resolved

/-- With at most 31 expansions every ticket is resolved to its array. -/
theorem resolvesTickets (layout : Layout) (state : Global (Memory V) (Call V))
    (reached : Reachable (system layout) anySchedule state)
    (expansions : state.shared.arrays.length ≤ 1 + 31) :
    TicketsResolved layout state.shared state.agents := by
  have coherent := reachable_coherent reached expansions
  obtain ⟨front, current, memoryOk⟩ := coherent.ordered
  constructor
  case published =>
    intro idle
    obtain ⟨closed, shows_⟩ := memoryOk.idle idle
    refine ⟨current, ?_, ?_, shows_⟩
    · rw [closed]
      exact memoryOk.arrays
    · have dstate := memoryOk.dstate
      rw [idle] at dstate
      rw [closed]
      exact dstate
  case offsets => exact memoryOk.sorted
  case located =>
    intro call member array ticket located
    have found := (coherent.resolved member located).found
    refine ⟨exists_split_of_resolve found, fun other isArray => ?_⟩
    exact Option.some.inj ((resolve_of_isArrayOf isArray).symm.trans found)
  case places =>
    intro call member other otherMember array ticket otherArray otherTicket located otherLocated
    have found := (coherent.resolved member located).found
    have otherFound := (coherent.resolved otherMember otherLocated).found
    have placed : placeIn layout state.shared.arrays ticket = array.place layout ticket :=
      placeIn_eq found
    have otherPlaced : placeIn layout state.shared.arrays otherTicket =
        otherArray.place layout otherTicket := placeIn_eq otherFound
    rw [← placed, ← otherPlaced]
    exact memoryOk.place_injective.eq_iff.symm
  case asserts =>
    intro call member failed
    have ok := coherent.pcs call member
    rw [failed] at ok
    exact ok
  case owners => exact coherent.owners
  case sameTicket =>
    intro reader member array ticket value read
    have ok := coherent.pcs reader member
    rw [read] at ok
    refine ⟨coherent.exists_writer ok.2, fun writer writerMember stored stores => ?_⟩
    have same := coherent.stored_of_stores writerMember stores
    rw [ok.2] at same
    exact (Option.some.inj same).symm

/-- The first agent goes on. -/
def frontActs (count : Nat) : List (Label Choice (Operation Nat)) :=
  List.replicate count (.act 0 {})

/-- Four writes and four reads, each as far as it can go; the second write
finds its slot taken and expands. -/
def expandOnce : List (Label Choice (Operation Nat)) :=
  .env (.blockingWrite 10) :: frontActs 11 ++
    .env (.blockingWrite 11) :: frontActs 25 ++
    .env (.blockingWrite 12) :: frontActs 8 ++
    .env (.blockingWrite 13) :: frontActs 11 ++
    .env .blockingRead :: frontActs 11 ++
    .env .blockingRead :: frontActs 8 ++
    .env .blockingRead :: frontActs 8 ++
    .env .blockingRead :: frontActs 11

theorem resolvesTickets_expandOnce :
    ∃ state : Global (Memory Nat) (Call Nat),
      Reachable (system ⟨4, 1, 2, 1⟩) anySchedule state ∧
      state.shared.arrays = [⟨0, 0, 1, 1⟩, ⟨3, 1, 2, 1⟩] ∧
      state.agents.head?.map Call.pc = some (.read ⟨3, 1, 2, 1⟩ 3 13) ∧
      TicketsResolved ⟨4, 1, 2, 1⟩ state.shared state.agents := by
  have replayed : ((system ⟨4, 1, 2, 1⟩).run (system ⟨4, 1, 2, 1⟩).init expandOnce).map
      (fun state => (state.shared.arrays, state.agents.head?.map Call.pc)) =
        some ([⟨0, 0, 1, 1⟩, ⟨3, 1, 2, 1⟩], some (.read ⟨3, 1, 2, 1⟩ 3 13)) := by
    decide
  obtain ⟨state, run, observed⟩ := Option.map_eq_some_iff.mp replayed
  have reached := Reachable.init.run run
  have arrays : state.shared.arrays = [⟨0, 0, 1, 1⟩, ⟨3, 1, 2, 1⟩] := congrArg Prod.fst observed
  exact ⟨state, reached, arrays, congrArg Prod.snd observed,
    resolvesTickets ⟨4, 1, 2, 1⟩ state reached (by rw [arrays]; decide)⟩

end ThreadPoolExec.MPMCQueue.Dynamic
