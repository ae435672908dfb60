import ThreadPoolExec.BoundedFifo
import ThreadPoolExec.MPMCQueue.Static

/-!
# The static MPMC queue as a bounded FIFO

The invariant ties the slots, the two dispensers and the calls together; the
refinement, the fate of every value and the order of tickets follow from it.
-/

set_option autoImplicit false

namespace ThreadPoolExec.MPMCQueue

open Interleaving TurnCells

universe u

variable {V : Type u} {layout : Layout}

/-- The holders of tickets among the calls. -/
def holders (calls : List (Call V)) : List (Holder V) :=
  calls.filterMap fun call => call.pc.holder?

def pushOwners (ticket : Nat) (calls : List (Call V)) : Nat :=
  total (fun call => call.pc.pushes ticket) calls

def popOwners (ticket : Nat) (calls : List (Call V)) : Nat :=
  total (fun call => call.pc.pops ticket) calls

structure Coherent (layout : Layout) (memory : Memory V) (calls : List (Call V)) : Prop where
  pushTicket : memory.pushTicket = memory.pushed.length
  sequenced : Sequenced layout.place memory.slots (fun ticket => memory.pushed[ticket]?)
    (fun ticket => decide (ticket < memory.popTicket)) (holders calls)
  pushOwners : ∀ ticket, pushOwners ticket calls = if ticket < memory.pushTicket then 1 else 0
  popOwners : ∀ ticket, popOwners ticket calls = if ticket < memory.popTicket then 1 else 0
  wrote : ∀ call ∈ calls, ∀ ticket value,
    call.pc = .wrote ticket value → memory.pushed[ticket]? = some value
  read : ∀ call ∈ calls, ∀ ticket value,
    call.pc = .read ticket value → memory.pushed[ticket]? = some value
  lags : ∀ call ∈ calls, call.pc.Lags memory

section Steps

variable {memory after : Memory V} {rest : List (Call V)} {call : Call V} {next : Pc V}

private theorem pushes_of_ticketless {pc : Pc V} (ticketless : pc.ticketless = true)
    (ticket : Nat) : pc.pushes ticket = 0 := by
  simp [Pc.pushes, stores_of_ticketless ticketless]

private theorem pops_of_ticketless {pc : Pc V} (ticketless : pc.ticketless = true)
    (ticket : Nat) : pc.pops ticket = 0 := by
  simp [Pc.pops, takes_of_ticketless ticketless]

private theorem holders_cons : holders (call :: rest) = call.pc.holder?.toList ++ holders rest := by
  cases holder : call.pc.holder? <;> simp [holders, holder]

private theorem holders_cons_of_ticketless (ticketless : call.pc.ticketless = true) :
    holders (call :: rest) = holders rest := by
  rw [holders_cons, holder_of_ticketless ticketless]
  rfl

private theorem pushes_holding (holder : Holder V) (ticket : Nat) :
    (Pc.holding holder).pushes ticket =
      if holder.phase.storing = true ∧ holder.ticket = ticket then 1 else 0 := by
  obtain ⟨own, phase⟩ := holder
  cases phase <;> simp [Pc.pushes, Pc.stores?, Phase.stores?, Phase.storing]

private theorem pops_holding (holder : Holder V) (ticket : Nat) :
    (Pc.holding holder).pops ticket =
      if holder.phase.storing = false ∧ holder.ticket = ticket then 1 else 0 := by
  obtain ⟨own, phase⟩ := holder
  cases phase <;> simp [Pc.pops, Pc.takes?, Phase.storing]

private theorem given_succ (ticket bound : Nat) :
    (if bound = ticket then 1 else 0) + (if ticket < bound then 1 else 0) =
      if ticket < bound + 1 then 1 else 0 := by
  split_ifs <;> omega

theorem Coherent.perm {calls others : List (Call V)} (same : calls.Perm others)
    (coherent : Coherent layout memory calls) : Coherent layout memory others where
  pushTicket := coherent.pushTicket
  sequenced := coherent.sequenced.perm (same.filterMap _)
  pushOwners ticket := (total_perm same).symm.trans (coherent.pushOwners ticket)
  popOwners ticket := (total_perm same).symm.trans (coherent.popOwners ticket)
  wrote call member := coherent.wrote call (same.mem_iff.mpr member)
  read call member := coherent.read call (same.mem_iff.mpr member)
  lags call member := coherent.lags call (same.mem_iff.mpr member)

/-- A call without a ticket may come, or look around. -/
theorem Coherent.add {calls : List (Call V)} (ticketless : call.pc.ticketless = true)
    (lags : call.pc.Lags memory) (coherent : Coherent layout memory calls) :
    Coherent layout memory (call :: calls) where
  pushTicket := coherent.pushTicket
  sequenced := by
    rw [holders_cons_of_ticketless ticketless]
    exact coherent.sequenced
  pushOwners ticket := by
    rw [← coherent.pushOwners ticket, MPMCQueue.pushOwners, total_cons,
      pushes_of_ticketless ticketless, Nat.zero_add]
    rfl
  popOwners ticket := by
    rw [← coherent.popOwners ticket, MPMCQueue.popOwners, total_cons,
      pops_of_ticketless ticketless, Nat.zero_add]
    rfl
  wrote other member ticket value wrote := by
    rcases List.mem_cons.mp member with rfl | member
    · rw [wrote] at ticketless
      cases ticketless
    · exact coherent.wrote other member ticket value wrote
  read other member ticket value read := by
    rcases List.mem_cons.mp member with rfl | member
    · rw [read] at ticketless
      cases ticketless
    · exact coherent.read other member ticket value read
  lags other member := by
    rcases List.mem_cons.mp member with rfl | member
    · exact lags
    · exact coherent.lags other member

private theorem coherent_drop {calls : List (Call V)} (ticketless : call.pc.ticketless = true)
    (coherent : Coherent layout memory (call :: calls)) : Coherent layout memory calls where
  pushTicket := coherent.pushTicket
  sequenced := by
    rw [← holders_cons_of_ticketless ticketless]
    exact coherent.sequenced
  pushOwners ticket := by
    rw [← coherent.pushOwners ticket, MPMCQueue.pushOwners, MPMCQueue.pushOwners, total_cons,
      pushes_of_ticketless ticketless, Nat.zero_add]
  popOwners ticket := by
    rw [← coherent.popOwners ticket, MPMCQueue.popOwners, MPMCQueue.popOwners, total_cons,
      pops_of_ticketless ticketless, Nat.zero_add]
  wrote other member := coherent.wrote other (List.mem_cons_of_mem _ member)
  read other member := coherent.read other (List.mem_cons_of_mem _ member)
  lags other member := coherent.lags other (List.mem_cons_of_mem _ member)

private theorem lags_grant {pc : Pc V} (side : Side V) (lags : pc.Lags memory) :
    pc.Lags (memory.grant side).1 := by
  have pushes : memory.pushTicket ≤ (memory.grant side).1.pushTicket := by
    cases side with
    | push value => exact Nat.le_succ _
    | pop => exact Nat.le_refl _
  have pops : memory.popTicket ≤ (memory.grant side).1.popTicket := by
    cases side with
    | push value => exact Nat.le_refl _
    | pop => exact Nat.le_succ _
  have dispensers : ∀ other : Side V,
      memory.dispenser other ≤ (memory.grant side).1.dispenser other := by
    intro other
    cases other with
    | push value => exact pushes
    | pop => exact pops
  cases pc <;> first | trivial | exact Nat.le_trans lags (dispensers _)

/-- A push ticket is given out. -/
private theorem coherent_push {calls : List (Call V)} {id : Nat} (value : V)
    (coherent : Coherent layout memory calls) :
    Coherent layout (memory.grant (.push value)).1
      (⟨id, .holding (memory.grant (.push value)).2⟩ :: calls) where
  pushTicket := by
    simp only [Memory.grant, List.length_append, List.length_singleton, coherent.pushTicket]
  sequenced := by
    rw [holders_cons]
    have length := coherent.pushTicket
    refine coherent.sequenced.push ?_ ?_ fun other different => ?_
    · simp [length]
    · simp [Memory.grant, length]
    · simp only [Memory.grant, List.getElem?_append]
      split
      · rfl
      · next outside =>
          rw [List.getElem?_eq_none (by simp; omega), List.getElem?_eq_none (by omega)]
  pushOwners ticket := by
    have owners := coherent.pushOwners ticket
    simp only [MPMCQueue.pushOwners, total_cons, pushes_holding, Memory.grant,
      Phase.storing, true_and] at owners ⊢
    rw [owners]
    exact given_succ ticket _
  popOwners ticket := by
    have owners := coherent.popOwners ticket
    simp only [MPMCQueue.popOwners, total_cons, pops_holding, Memory.grant,
      Phase.storing, Bool.true_eq_false, false_and, if_false, Nat.zero_add] at owners ⊢
    exact owners
  wrote other member ticket stored wrote := by
    rcases List.mem_cons.mp member with rfl | member
    · cases wrote
    · have before := coherent.wrote other member ticket stored wrote
      exact List.getElem?_append_left (List.getElem?_eq_some_iff.mp before).1 ▸ before
  read other member ticket stored read := by
    rcases List.mem_cons.mp member with rfl | member
    · cases read
    · have before := coherent.read other member ticket stored read
      exact List.getElem?_append_left (List.getElem?_eq_some_iff.mp before).1 ▸ before
  lags other member := by
    rcases List.mem_cons.mp member with rfl | member
    · trivial
    · exact lags_grant _ (coherent.lags other member)

/-- A pop ticket is given out. -/
private theorem coherent_pop {calls : List (Call V)} {id : Nat}
    (coherent : Coherent layout memory calls) :
    Coherent layout (memory.grant .pop).1
      (⟨id, .holding (memory.grant .pop).2⟩ :: calls) where
  pushTicket := coherent.pushTicket
  sequenced := by
    rw [holders_cons]
    refine coherent.sequenced.pop ?_ ?_ fun other different => ?_
    · exact decide_eq_false (Nat.lt_irrefl _)
    · exact decide_eq_true (Nat.lt_succ_self _)
    · have later : other < memory.popTicket + 1 ↔ other < memory.popTicket := by omega
      exact decide_eq_decide.mpr later
  pushOwners ticket := by
    have owners := coherent.pushOwners ticket
    simp only [MPMCQueue.pushOwners, total_cons, pushes_holding, Memory.grant,
      Phase.storing, Bool.false_eq_true, false_and, if_false, Nat.zero_add] at owners ⊢
    exact owners
  popOwners ticket := by
    have owners := coherent.popOwners ticket
    simp only [MPMCQueue.popOwners, total_cons, pops_holding, Memory.grant,
      Phase.storing, true_and] at owners ⊢
    rw [owners]
    exact given_succ ticket _
  wrote other member ticket stored wrote := by
    rcases List.mem_cons.mp member with rfl | member
    · cases wrote
    · exact coherent.wrote other member ticket stored wrote
  read other member ticket stored read := by
    rcases List.mem_cons.mp member with rfl | member
    · cases read
    · exact coherent.read other member ticket stored read
  lags other member := by
    rcases List.mem_cons.mp member with rfl | member
    · trivial
    · exact lags_grant _ (coherent.lags other member)

/-- A call takes a step on the slot of its ticket. -/
private theorem coherent_advance {calls : List (Call V)} {id : Nat} {holder : Holder V}
    {slot : Cell V} {left : Phase V ⊕ V}
    (advanced : (memory.slots (layout.place holder.ticket).1).advance
      (layout.place holder.ticket).2 holder.phase = some (slot, left))
    (coherent : Coherent layout memory (⟨id, .holding holder⟩ :: calls)) :
    Coherent layout
      { memory with slots := Function.update memory.slots (layout.place holder.ticket).1 slot }
      (⟨id, .advanced holder left⟩ :: calls) := by
  have injective : Function.Injective layout.place :=
    layout.place_injective
  have sequenced := coherent.sequenced
  have held : holder ∈ holders (⟨id, .holding holder⟩ :: calls) := by
    rw [holders_cons]
    exact List.mem_cons_self
  obtain ⟨samePush, samePop⟩ := advanced_tickets advanced
  refine ⟨coherent.pushTicket, ?_, fun ticket => ?_, fun ticket => ?_, ?_, ?_, ?_⟩
  · rw [holders_cons, advanced_holder]
    exact sequenced.advance injective advanced
  · rw [← coherent.pushOwners ticket]
    simp only [MPMCQueue.pushOwners, total_cons, Pc.pushes, samePush]
  · rw [← coherent.popOwners ticket]
    simp only [MPMCQueue.popOwners, total_cons, Pc.pops, samePop]
  · intro other member ticket value wrote
    rcases List.mem_cons.mp member with rfl | member
    · obtain rfl := advanced_eq_wrote advanced wrote
      exact sequenced.value_of_storing held rfl
    · exact coherent.wrote other (List.mem_cons_of_mem _ member) ticket value wrote
  · intro other member ticket value read
    rcases List.mem_cons.mp member with rfl | member
    · obtain rfl := advanced_eq_read advanced read
      exact sequenced.value_of_takeDone held
    · exact coherent.read other (List.mem_cons_of_mem _ member) ticket value read
  · intro other member
    rcases List.mem_cons.mp member with rfl | member
    · cases left with
      | inl phase => trivial
      | inr value => simp only [Pc.advanced]; split <;> trivial
    · exact coherent.lags other (List.mem_cons_of_mem _ member)

theorem Coherent.step {calls : List (Call V)} {id : Nat} {pc : Pc V}
    (stepped : pc.next layout memory = some (after, next))
    (coherent : Coherent layout memory (⟨id, pc⟩ :: calls)) :
    Coherent layout after (⟨id, next⟩ :: calls) := by
  rcases next_cases stepped with ⟨rfl, ticketless, nextTicketless, lags⟩ |
    ⟨side, rfl, rfl, ticketless⟩ | ⟨holder, slot, left, rfl, advanced, rfl, rfl⟩
  · have lagged := coherent.lags ⟨id, pc⟩ List.mem_cons_self
    exact (coherent_drop ticketless coherent).add nextTicketless (lags lagged)
  · have others := coherent_drop ticketless coherent
    cases side with
    | push value => exact coherent_push value others
    | pop => exact coherent_pop others
  · exact coherent_advance advanced coherent

end Steps

theorem start_ticketless (operation : Operation V) :
    operation.start.ticketless = true := by
  cases operation <;> rfl

theorem coherent_start : Coherent layout ({} : Memory V) [] := by
  constructor
  case pushTicket => rfl
  case sequenced => exact Sequenced.start
  case pushOwners => exact fun ticket => (if_neg (Nat.not_lt_zero ticket)).symm
  case popOwners => exact fun ticket => (if_neg (Nat.not_lt_zero ticket)).symm
  case wrote => exact nofun
  case read => exact nofun
  case lags => exact nofun

theorem Coherent.begin {memory : Memory V} {calls : List (Call V)} (operation : Operation V)
    (coherent : Coherent layout memory calls) :
    Coherent layout { memory with nextCall := memory.nextCall + 1 }
      (⟨memory.nextCall, operation.start⟩ :: calls) := by
  refine Coherent.add (start_ticketless operation) ?_ ⟨coherent.pushTicket, coherent.sequenced,
    coherent.pushOwners, coherent.popOwners, coherent.wrote, coherent.read, ?_⟩
  · cases operation <;> trivial
  · intro call member
    exact coherent.lags call member

theorem reachable_coherent {state : Global (Memory V) (Call V)}
    (reached : Reachable (system layout) anySchedule state) :
    Coherent layout state.shared state.agents := by
  refine Reaches.invariant (Coherent layout) Coherent.perm coherent_start ?_ ?_ reached
  · intro before index choice call after left _ _ _ acted coherent
    obtain ⟨next, stepped, rfl⟩ := act_eq_some choice acted
    exact coherent.step stepped
  · intro before operation after left _ _ acted coherent
    cases acted
    exact coherent.begin operation

section Reached

variable {memory : Memory V} {calls : List (Call V)} {call : Call V} {ticket : Nat} {value : V}

/-- A call stores the value that its push ticket stands for. -/
theorem Coherent.stores (coherent : Coherent layout memory calls) (member : call ∈ calls)
    (stores : call.pc.stores? = some (ticket, value)) : memory.pushed[ticket]? = some value := by
  cases pcIs : call.pc with
  | holding holder =>
      rw [pcIs] at stores
      obtain ⟨stored, phaseStores, same⟩ := Option.map_eq_some_iff.mp stores
      cases same
      have held : holder ∈ holders calls := by
        refine List.mem_filterMap.mpr ⟨call, member, ?_⟩
        rw [pcIs]
        rfl
      exact coherent.sequenced.value_of_storing held phaseStores
  | wrote other stored =>
      rw [pcIs] at stores
      cases stores
      exact coherent.wrote call member ticket value pcIs
  | _ =>
      rw [pcIs] at stores
      cases stores

theorem Coherent.exists_writer (coherent : Coherent layout memory calls)
    (pushed : memory.pushed[ticket]? = some value) :
    ∃ call ∈ calls, call.pc.stores? = some (ticket, value) := by
  have given := (List.getElem?_eq_some_iff.mp pushed).1
  have owners := coherent.pushOwners ticket
  rw [if_pos (coherent.pushTicket ▸ given)] at owners
  obtain ⟨call, member, owns⟩ := total_pos_iff.mp (owners ▸ Nat.one_pos)
  refine ⟨call, member, ?_⟩
  unfold Pc.pushes at owns
  split at owns
  · next same =>
      obtain ⟨⟨other, stored⟩, stores, rfl⟩ := Option.map_eq_some_iff.mp same
      have found := coherent.stores member stores
      rw [pushed] at found
      cases found
      exact stores
  · exact absurd owns (Nat.lt_irrefl 0)

theorem exists_holding_of_phasesAt {storing : Bool} {phase : Phase V}
    (present : phase ∈ phasesAt storing ticket (holders calls)) :
    phase.storing = storing ∧ ∃ call ∈ calls, call.pc = .holding ⟨ticket, phase⟩ := by
  obtain ⟨holder, found, rfl⟩ := List.mem_map.mp present
  obtain ⟨held, same⟩ := List.mem_filter.mp found
  obtain ⟨rfl, side⟩ := of_decide_eq_true same
  obtain ⟨call, member, holding⟩ := List.mem_filterMap.mp held
  refine ⟨side, call, member, ?_⟩
  cases pcIs : call.pc <;> rw [pcIs] at holding <;> cases holding
  rfl

/-- A write that has returned left no other holder on its ticket. -/
private theorem Coherent.stored (coherent : Coherent layout memory calls) (member : call ∈ calls)
    (wrote : call.pc = .wrote ticket value) :
    phasesAt true ticket (holders calls) = [] := by
  refine List.eq_nil_iff_forall_not_mem.mpr fun phase present => ?_
  obtain ⟨side, other, otherMember, holding⟩ := exists_holding_of_phasesAt present
  have different : other ≠ call := by
    rintro rfl
    rw [wrote] at holding
    cases holding
  have own : call.pc.pushes ticket = 1 := by
    rw [wrote]
    simp [Pc.pushes, Pc.stores?]
  have foreign : other.pc.pushes ticket = 1 := by
    rw [holding, pushes_holding]
    simp [side]
  have owners : call.pc.pushes ticket + other.pc.pushes ticket ≤
      MPMCQueue.pushOwners ticket calls :=
    weight_add_weight_le_total (fun call : Call V => call.pc.pushes ticket)
      member otherMember different
  rw [own, foreign, coherent.pushOwners ticket] at owners
  split at owners <;> omega

theorem Coherent.taken (coherent : Coherent layout memory calls) (member : call ∈ calls)
    (read : call.pc = .read ticket value) : ticket < memory.popTicket := by
  have own : call.pc.pops ticket = 1 := by
    rw [read]
    simp [Pc.pops, Pc.takes?]
  have owners : call.pc.pops ticket ≤ MPMCQueue.popOwners ticket calls :=
    weight_le_total (fun call : Call V => call.pc.pops ticket) member
  rw [own, coherent.popOwners ticket] at owners
  split at owners
  · assumption
  · omega

end Reached

/-! ## The refinement -/

end ThreadPoolExec.MPMCQueue
