import ThreadPoolExec.MPMCQueue.DynamicPromises
import ThreadPoolExec.MPMCQueue.DynamicSequential
import ThreadPoolExec.Quiescence

/-!
# Progress of the dynamic queue

Whoever has the seqlock has a step until it releases it, and every other call
without a ticket at a cell has one too. A call at the cell of its ticket waits
for tickets with earlier turns there, which are of the same array; they are
with calls that have a step, or have not been given out.
-/

set_option autoImplicit false

namespace ThreadPoolExec.MPMCQueue.Dynamic

open Interleaving TurnCells

universe u

variable {V : Type u} {layout : Layout}

/-! ## The seqlock -/

/-- Whether a call is between taking and releasing the seqlock. -/
def Pc.locks (pc : Pc V) : Nat :=
  if pc.expands then 1 else 0

def Memory.locked (memory : Memory V) : Nat :=
  if memory.expansion.isSome then 1 else 0

section Seqlock

variable {memory after : Memory V} {attempt : Attempt V} {pc next : Pc V} {array : ClosedArray}
  {choice : Choice} {again : Bool}

theorem locks_retry (attempt : Attempt V) : attempt.retry.locks = 0 := by
  unfold Attempt.retry
  split <;> rfl

theorem locks_refuse (attempt : Attempt V) (again : Bool) : (attempt.refuse again).locks = 0 := by
  unfold Attempt.refuse
  split
  · cases again <;> rfl
  · rfl

theorem locks_hold (held : memory.hold attempt array = (after, next)) :
    next.locks = 0 ∧ after.locked = memory.locked := by
  refine ⟨?_, by rw [Memory.locked, (hold_still held).2.2, Memory.locked]⟩
  rw [hold_held held]
  unfold Attempt.held
  split <;> rfl

theorem locks_unexpanded (left : memory.unexpanded attempt array again = (after, next)) :
    next.locks = 0 ∧ after.locked = memory.locked := by
  unfold Memory.unexpanded at left
  split at left
  · exact locks_hold left
  · cases left
    exact ⟨locks_refuse attempt again, rfl⟩

theorem locks_atArray {snapshot : Snapshot} {lagging : Bool}
    (left : memory.atArray layout attempt snapshot array lagging again = (after, next)) :
    next.locks = 0 ∧ after.locked = memory.locked := by
  refine ⟨?_, by rw [Memory.locked, (atArray_still left).2.2, Memory.locked]⟩
  unfold Memory.atArray at left
  simp only at left
  split at left
  · split at left
    · exact (locks_hold left).1
    · cases left
      rfl
  · exact (locks_hold left).1
  all_goals
    repeat' split at left
    all_goals
      cases left
      first | rfl | exact locks_refuse attempt again

theorem locks_expand {expansion : Expansion} {choice : Choice} {result : Option Bool}
    (expanded : memory.expand layout expansion choice = (after, result)) :
    after.locked = if result = none then 1 else 0 := by
  unfold Memory.expand at expanded
  cases stageIs : expansion.stage <;> simp only [stageIs] at expanded
  case allocate ticket =>
    split at expanded <;> cases expanded <;> rfl
  all_goals
    cases expanded
    rfl

/-- A step keeps the balance between the lock and the call that has it. -/
theorem locks_next (ok : PcOk memory pc)
    (unlocked : ∀ state, state % 2 = 0 → memory.dstate = state → memory.expansion = none)
    (stepped : pc.next layout choice memory = some (after, next)) :
    next.locks + memory.locked = pc.locks + after.locked := by
  cases pc with
  | begin kind side =>
      cases kind with
      | blocking =>
          cases stepped
          cases side <;> rfl
      | ready =>
          cases stepped
          rfl
      | promised timed =>
          cases stepped
          rfl
  | trying attempt at_ =>
      cases at_ with
      | located snapshot array lagging =>
          obtain ⟨unlocks, same⟩ := locks_atArray (Option.some.inj stepped)
          rw [unlocks, same]
          rfl
      | cas array =>
          simp only [Pc.next, Trying.next] at stepped
          split at stepped
          · obtain ⟨unlocks, same⟩ := locks_hold (Option.some.inj stepped)
            rw [unlocks, same]
            cases attempt.side <;> rfl
          · cases stepped
            rw [locks_retry]
            rfl
      | tryExpand snapshot array =>
          simp only [Pc.next, Trying.next] at stepped
          split at stepped
          · obtain ⟨unlocks, same⟩ := locks_unexpanded (Option.some.inj stepped)
            rw [unlocks, same]
            rfl
          · split at stepped
            · next same =>
                cases stepped
                have free := unlocked _ ok.2.1.even same
                simp [Pc.locks, Pc.expands, Trying.expands, Memory.locked, free]
            · cases stepped
              rw [locks_retry]
              rfl
      | expanding array =>
          simp only [Pc.next, Trying.next] at stepped
          split at stepped
          · cases stepped
          · next expansion expansionIs =>
              have before : memory.locked = 1 := by
                rw [Memory.locked, expansionIs]
                rfl
              split at stepped
              · next between expanded =>
                  cases stepped
                  rw [before, locks_expand expanded]
                  rfl
              · next between expanded =>
                  cases stepped
                  rw [before, locks_expand expanded, locks_retry]
                  rfl
              · next between expanded =>
                  obtain ⟨unlocks, same⟩ := locks_unexpanded (Option.some.inj stepped)
                  rw [before, unlocks, same, locks_expand expanded]
                  rfl
      | _ =>
          simp only [Pc.next, Trying.next] at stepped
          repeat' split at stepped
          all_goals
            cases stepped
            first | rfl | (rw [locks_retry]; rfl) | (rw [locks_refuse]; rfl)
  | holding array holder =>
      simp only [Pc.next] at stepped
      split at stepped
      · cases stepped
      · next cell left advanced =>
          cases stepped
          cases left with
          | inl phase => rfl
          | inr value =>
              simp only [Pc.advanced]
              split <;> rfl
  | wrote array ticket value => cases stepped
  | read array ticket value => cases stepped
  | refused side => cases stepped
  | assertFailed => cases stepped

end Seqlock

def lockers (calls : List (Call V)) : Nat :=
  total (fun call => call.pc.locks) calls

theorem lockers_cons {call : Call V} {rest : List (Call V)} :
    lockers (call :: rest) = call.pc.locks + lockers rest :=
  total_cons

/-- The seqlock is taken exactly while one call expands. -/
theorem reachable_lockers {state : Global (Memory V) (Call V)}
    (reached : Reachable (system layout) anySchedule state)
    (few : state.shared.arrays.length ≤ 32) :
    lockers state.agents = state.shared.locked := by
  refine Reaches.invariant (fun memory calls => memory.arrays.length ≤ 32 →
    lockers calls = memory.locked) ?_ ?_ ?_ ?_ reached few
  · intro memory calls others same locks few
    exact (total_perm same).symm.trans (locks few)
  · intro _
    rfl
  · intro before index choice call after left path _ found acted locks few
    obtain ⟨next, stepped, rfl⟩ := act_eq_some acted
    have fewBefore := Nat.le_trans (counters_next stepped).2.2.2 few
    have coherent := (reachable_coherent path fewBefore).perm (perm_of_getElem? found)
    obtain ⟨front, current, memoryOk⟩ := coherent.ordered
    have moved := locks_next (coherent.pcs call List.mem_cons_self)
      (fun _ even same => memoryOk.unlocked even same) stepped
    have balanced := locks fewBefore
    rw [lockers_cons] at balanced
    rw [List.singleton_append, lockers_cons]
    simp only
    omega
  · intro before operation after left _ _ acted locks few
    cases acted
    rw [List.singleton_append, lockers_cons]
    have begins : operation.start.locks = 0 := by cases operation <;> rfl
    rw [begins, Nat.zero_add]
    exact locks few

/-! ## Whom a blocked call waits for -/

/-- The turn of a ticket needs a ticket of the other side that has not been
given out. -/
def Starved (memory : Memory V) (array : ClosedArray) (holder : Holder V) : Prop :=
  if holder.phase.storing then memory.popTicket + array.capacity ≤ holder.ticket
  else memory.pushTicket ≤ holder.ticket

/-- The turn needs a ticket that was not given out, or a call with a ticket of
the same cell that has a step. -/
def Waits (layout : Layout) (memory : Memory V) (calls : List (Call V)) (array : ClosedArray)
    (holder : Holder V) : Prop :=
  Starved memory array holder ∨
    ∃ other ∈ calls, ∃ pushes ticket, other.pc.owns pushes ticket = 1 ∧ ticket ≤ holder.ticket ∧
      (array.place layout ticket).1 = (array.place layout holder.ticket).1 ∧
      ∀ choice, other.pc.next layout choice memory ≠ none

/-- Every turn on a cell of an array has its ticket. -/
theorem ClosedArray.exists_place {array : ClosedArray} (positive : 0 < array.capacity)
    (ticket turn : Nat) : ∃ other, array.offset ≤ other ∧
      array.place layout other = ((array.place layout ticket).1, turn) := by
  have inside := Nat.mod_lt (ticket - array.offset) positive
  refine ⟨array.offset + ((ticket - array.offset) % array.capacity + array.capacity * turn),
    Nat.le_add_right _ _, ?_⟩
  have residue : ((ticket - array.offset) % array.capacity + array.capacity * turn) *
      array.stride % array.capacity = (ticket - array.offset) * array.stride % array.capacity := by
    rw [← Nat.mod_mul_mod, Nat.add_mul_mod_self_left, Nat.mod_mod, Nat.mod_mul_mod]
  simp only [ClosedArray.place, idx, MPMCQueue.turn, Nat.add_sub_cancel_left, residue,
    Nat.add_mul_div_left _ _ positive, Nat.div_eq_of_lt inside, Nat.zero_add]

/-- Turns of one cell are at least the capacity of the array apart. -/
theorem ClosedArray.add_capacity_le {array : ClosedArray} {earlier later : Nat}
    (coprime : array.capacity.Coprime array.stride) (reached : array.offset ≤ earlier)
    (laterReached : array.offset ≤ later)
    (sameCell : (array.place layout earlier).1 = (array.place layout later).1)
    (turns : (array.place layout earlier).2 < (array.place layout later).2) :
    earlier + array.capacity ≤ later := by
  have cells : (MPMCQueue.place layout.kSlotPadding array.capacity array.stride
      (earlier - array.offset)).1 = (MPMCQueue.place layout.kSlotPadding array.capacity
        array.stride (later - array.offset)).1 := congrArg Prod.snd sameCell
  have apart := add_capacity_le_of_turn_lt coprime cells turns
  omega

section Blocked

variable {memory : Memory V} {calls : List (Call V)} {call : Call V} {attempt : Attempt V}
  {at_ : Trying} {array : ClosedArray} {holder : Holder V}

/-- A call that has not gone to a cell has a step. -/
theorem next_trying_ne_none (locks : lockers calls = memory.locked) (member : call ∈ calls)
    (pcIs : call.pc = .trying attempt at_) (choice : Choice) :
    call.pc.next layout choice memory ≠ none := by
  intro stuck
  rw [pcIs] at stuck
  cases at_ with
  | expanding array =>
      have inside : call.pc.locks ≤ lockers calls := weight_le_total (fun call => call.pc.locks) member
      rw [pcIs, locks] at inside
      cases expansionIs : memory.expansion with
      | none => simp [Pc.locks, Pc.expands, Trying.expands, Memory.locked, expansionIs] at inside
      | some expansion =>
          simp only [Pc.next, Trying.next, expansionIs] at stuck
          split at stuck <;> cases stuck
  | located snapshot array lagging => cases stuck
  | _ =>
      simp only [Pc.next, Trying.next] at stuck
      repeat' split at stuck
      all_goals cases stuck

theorem next_holding_eq_none {choice : Choice} :
    (Pc.holding array holder).next layout choice memory = none ↔
      (memory.cells (array.place layout holder.ticket).1).advance
        (array.place layout holder.ticket).2 holder.phase = none := by
  simp only [Pc.next]
  split
  · next stuck => simp [stuck]
  · next cell left advanced => simp [advanced]

theorem owns_of_unowned {pc : Pc V} {pushes : Bool} {ticket : Nat} (unowned : pc.owned? = none) :
    pc.owns pushes ticket = if pushes then pc.stores ticket else pc.takes ticket := by
  simp [Pc.owns, unowned]

/-- A ticket that was given out, and whose half of the turn has come, is with a
call that has a step. -/
theorem Coherent.exists_step (coherent : Coherent layout memory calls)
    (locks : lockers calls = memory.locked) {ticket : Nat} {storing : Bool}
    (come : (memory.cells (placeIn layout memory.arrays ticket).1).At
      (placeIn layout memory.arrays ticket).2 storing)
    (given : ticket < memory.dispensed storing) :
    ∃ call ∈ calls, call.pc.owns storing ticket = 1 ∧
      ∀ choice, call.pc.next layout choice memory ≠ none := by
  by_cases there : if storing then (memory.stored ticket).isSome = true else memory.taken ticket = true
  · obtain ⟨due, held, rfl, side⟩ := coherent.sequenced.exists_holder_of_at come there
    obtain ⟨cell, left, advanced⟩ := coherent.sequenced.advances held (side ▸ come)
    obtain ⟨call, member, holding⟩ := List.mem_filterMap.mp held
    obtain ⟨array, pcIs⟩ : ∃ array, call.pc = .holding array due := by
      cases pcIs : call.pc <;> rw [pcIs] at holding <;> cases holding
      exact ⟨_, rfl⟩
    refine ⟨call, member, ?_, fun choice stuck => ?_⟩
    · rw [pcIs, ← side]
      cases storingIs : due.phase.storing <;>
        simp [Pc.owns, Pc.owned?, Pc.stores, Pc.takes, Pc.stored?, Pc.taken?, storingIs]
    · have ok := coherent.pcs call member
      rw [pcIs] at stuck ok
      rw [next_holding_eq_none, ← placeIn_eq (Resolved.found ok), advanced] at stuck
      cases stuck
  · obtain ⟨call, member, owns⟩ := coherent.exists_owner given
    have away : (if storing then call.pc.stores ticket else call.pc.takes ticket) = 0 := by
      cases storing with
      | true =>
          simp only [if_true] at there
          have weight : call.pc.stores ticket ≤ Dynamic.storers ticket calls :=
            weight_le_total (fun call => call.pc.stores ticket) member
          rw [coherent.storers, if_neg there] at weight
          exact Nat.le_zero.mp weight
      | false =>
          simp only [Bool.false_eq_true, if_false] at there
          have weight : call.pc.takes ticket ≤ Dynamic.takers ticket calls :=
            weight_le_total (fun call => call.pc.takes ticket) member
          rw [coherent.takers, if_neg there] at weight
          exact Nat.le_zero.mp weight
    refine ⟨call, member, owns, ?_⟩
    cases pcIs : call.pc with
    | trying attempt at_ =>
        rw [← pcIs]
        exact next_trying_ne_none locks member pcIs
    | _ =>
        rw [owns_of_unowned (by rw [pcIs]; rfl), away] at owns
        cases owns

/-- A blocked call waits for a ticket that was not given out, or for a call with
a ticket of the same cell that has a step. -/
theorem Coherent.starved_or_due (coherent : Coherent layout memory calls)
    (locks : lockers calls = memory.locked) (nonempty : ∀ array ∈ memory.arrays, 0 < array.capacity)
    (member : call ∈ calls) (pcIs : call.pc = .holding array holder)
    (blocked : ∃ choice, call.pc.next layout choice memory = none) :
    Waits layout memory calls array holder := by
  obtain ⟨choice, stuck⟩ := blocked
  have ok := coherent.pcs call member
  rw [pcIs] at ok stuck
  have found : resolve memory.arrays holder.ticket = some array := Resolved.found ok
  have inArrays := mem_of_resolve found
  have reached := offset_le_of_resolve found
  obtain ⟨front, last, memoryOk⟩ := coherent.ordered
  have coprime := memoryOk.coprime array inArrays
  have held : holder ∈ holders calls := List.mem_filterMap.mpr ⟨call, member, by rw [pcIs]; rfl⟩
  have before := coherent.sequenced.turn_lt_of_blocked held
    (by rw [placeIn_eq found]; exact next_holding_eq_none.mp stuck)
  rw [placeIn_eq found] at before
  have issued := coherent.issued member pcIs
  -- the ticket whose turn the cell is at
  obtain ⟨current, currentReached, placed⟩ := ClosedArray.exists_place (nonempty array inArrays)
    holder.ticket ((memory.cells (array.place layout holder.ticket).1).turn / 2)
  have sameCell : (array.place layout current).1 = (array.place layout holder.ticket).1 := by
    rw [placed]
  have turnIs : (array.place layout current).2 =
      (memory.cells (array.place layout holder.ticket).1).turn / 2 := by rw [placed]
  have earlier : (array.place layout current).2 < (array.place layout holder.ticket).2 →
      current + array.capacity ≤ holder.ticket :=
    ClosedArray.add_capacity_le coprime currentReached reached sameCell
  have notLater : (array.place layout current).2 ≤ (array.place layout holder.ticket).2 →
      current ≤ holder.ticket := by
    intro turns
    rcases Nat.lt_or_eq_of_le turns with turns | same
    · have := earlier turns
      omega
    · exact Nat.le_of_eq
        (ClosedArray.place_inj coprime currentReached reached (Prod.ext sameCell same))
  have inOrder : current ≤ holder.ticket := by
    refine notLater ?_
    split at before <;> omega
  have currentFound := resolve_of_between found currentReached inOrder
  have half : (memory.cells (placeIn layout memory.arrays current).1).At
      (placeIn layout memory.arrays current).2
      (decide ((memory.cells (array.place layout holder.ticket).1).turn % 2 = 0)) := by
    unfold Cell.At
    rw [placeIn_eq currentFound, sameCell, turnIs]
    split
    · next even =>
        have := of_decide_eq_true even
        omega
    · next odd =>
        have : ¬ _ = 0 := fun even => odd (decide_eq_true even)
        omega
  by_cases given : current < memory.dispensed
      (decide ((memory.cells (array.place layout holder.ticket).1).turn % 2 = 0))
  · obtain ⟨other, otherMember, owns, steps⟩ := coherent.exists_step locks half given
    exact .inr ⟨other, otherMember, _, current, owns, inOrder, sameCell, steps⟩
  · refine .inl ?_
    unfold Starved
    unfold Memory.dispensed at given issued
    split
    · next storing =>
        rw [if_pos storing] at before issued
        split at given
        · omega
        · next odd =>
            have : ¬ _ = 0 := fun even => odd (decide_eq_true even)
            have := earlier (by omega)
            omega
    · next taking =>
        rw [if_neg taking] at before issued
        split at given
        · omega
        · omega

end Blocked

structure Progresses (layout : Layout) (state : Global (Memory V) (Call V)) : Prop where
  /-- The seqlock word is odd exactly while one call expands. -/
  locked : state.shared.dstate % 2 = lockers state.agents
  /-- A call that has not returned has a step, unless it is at the cell of its
  ticket; there it waits for a ticket of the other side that was not given
  out, or for a call with a ticket of the cell that has a step. -/
  waits : ∀ call ∈ state.agents, call.pc.returned = false →
    (∃ choice, call.pc.next layout choice state.shared = none) →
      ∃ array holder, call.pc = .holding array holder ∧
        Waits layout state.shared state.agents array holder
  /-- Where no call has a step, those that have not returned are of one side,
  and the other side has not come. -/
  rests : (system layout).AtRest Label.acts state →
    ∃ storing, ∀ call ∈ state.agents, call.pc.returned = false →
      ∃ array holder, call.pc = .holding array holder ∧ holder.phase.storing = storing ∧
        Starved state.shared array holder

section Reachable

variable {state : Global (Memory V) (Call V)}

private theorem waits_of_blocked (coherent : Coherent layout state.shared state.agents)
    (locks : lockers state.agents = state.shared.locked)
    (nonempty : ∀ array ∈ state.shared.arrays, 0 < array.capacity) {call : Call V}
    (member : call ∈ state.agents) (running : call.pc.returned = false)
    (blocked : ∃ choice, call.pc.next layout choice state.shared = none) :
    ∃ array holder, call.pc = .holding array holder ∧
      Waits layout state.shared state.agents array holder := by
  cases pcIs : call.pc with
  | holding array holder =>
      exact ⟨array, holder, rfl, coherent.starved_or_due locks nonempty member pcIs blocked⟩
  | trying attempt at_ =>
      obtain ⟨choice, stuck⟩ := blocked
      exact absurd stuck (next_trying_ne_none locks member pcIs choice)
  | begin kind side =>
      obtain ⟨choice, stuck⟩ := blocked
      rw [pcIs] at stuck
      cases kind <;> cases stuck
  | assertFailed =>
      have ok := coherent.pcs call member
      rw [pcIs] at ok
      exact ok.elim
  | wrote array ticket value =>
      rw [pcIs] at running
      cases running
  | read array ticket value =>
      rw [pcIs] at running
      cases running
  | refused side =>
      rw [pcIs] at running
      cases running

/-- Writes and reads do not starve each other at once. -/
private theorem Coherent.starved_side (coherent : Coherent layout state.shared state.agents)
    {call other : Call V} {array otherArray : ClosedArray} {holder otherHolder : Holder V}
    (member : call ∈ state.agents) (otherMember : other ∈ state.agents)
    (pcIs : call.pc = .holding array holder) (otherIs : other.pc = .holding otherArray otherHolder)
    (starved : Starved state.shared array holder)
    (otherStarved : Starved state.shared otherArray otherHolder) :
    holder.phase.storing = otherHolder.phase.storing := by
  have issued := coherent.issued member pcIs
  have otherIssued := coherent.issued otherMember otherIs
  unfold Starved at starved otherStarved
  unfold Memory.dispensed at issued otherIssued
  cases storing : holder.phase.storing <;> cases otherStoring : otherHolder.phase.storing <;>
    simp only [storing, otherStoring, if_true, Bool.false_eq_true, if_false] at * <;> omega

/-- With at most 31 expansions, the queue does not deadlock. -/
theorem progresses (positive : 0 < layout.capacity)
    (reached : Reachable (system layout) anySchedule state)
    (few : state.shared.arrays.length ≤ 32) : Progresses layout state := by
  have coherent := reachable_coherent reached few
  have locks := reachable_lockers reached few
  have nonempty := reachable_positive positive reached few
  have waits := fun call member running blocked =>
    @waits_of_blocked _ _ _ coherent locks nonempty call member running blocked
  refine ⟨?_, waits, fun rests => ?_⟩
  · obtain ⟨front, current, memoryOk⟩ := coherent.ordered
    have even : seqlockWord current.offset front.length % 2 = 0 := seqlockWord_even
    rw [memoryOk.dstate, locks, Memory.locked]
    split <;> omega
  · have stuck : ∀ call ∈ state.agents, ∀ choice,
        call.pc.next layout choice state.shared = none := fun call member choice =>
      Option.map_eq_none_iff.mp (rests.act_eq_none member choice)
    have starves : ∀ call ∈ state.agents, call.pc.returned = false →
        ∃ array holder, call.pc = .holding array holder ∧ Starved state.shared array holder := by
      intro call member running
      obtain ⟨array, holder, pcIs, starved | ⟨other, otherMember, -, -, -, -, -, steps⟩⟩ :=
        waits call member running ⟨{}, stuck call member {}⟩
      · exact ⟨array, holder, pcIs, starved⟩
      · exact absurd (stuck other otherMember {}) (steps {})
    by_cases waiting : ∃ call ∈ state.agents, call.pc.returned = false
    · obtain ⟨first, firstMember, firstRuns⟩ := waiting
      obtain ⟨firstArray, firstHolder, firstIs, firstStarves⟩ := starves first firstMember firstRuns
      refine ⟨firstHolder.phase.storing, fun call member running => ?_⟩
      obtain ⟨array, holder, pcIs, starved⟩ := starves call member running
      exact ⟨array, holder, pcIs,
        coherent.starved_side member firstMember pcIs firstIs starved firstStarves, starved⟩
    · refine ⟨true, fun call member running => ?_⟩
      exact absurd ⟨call, member, running⟩ waiting

/-- A read that came first, beside a write that has its ticket. -/
theorem progresses_readFirst :
    ∃ state : Global (Memory Nat) (Call Nat),
      Reachable (system ⟨4, 1, 2, 1⟩) anySchedule state ∧
      state.agents.map Call.pc = [.trying ⟨.blocking, .push 7, 0, 0⟩ .readState,
        .holding ⟨0, 0, 1, 1⟩ ⟨0, .takeWait⟩] ∧
      Progresses ⟨4, 1, 2, 1⟩ state := by
  have replayed : ((system ⟨4, 1, 2, 1⟩).run (system ⟨4, 1, 2, 1⟩).init
      (.env .blockingRead :: frontActs 8 ++ [.env (.blockingWrite 7), .act 0 {}])).map
      (fun state => (state.shared.arrays.length, state.agents.map Call.pc)) =
        some (1, [.trying ⟨.blocking, .push 7, 0, 0⟩ .readState,
          .holding ⟨0, 0, 1, 1⟩ ⟨0, .takeWait⟩]) := by
    decide
  obtain ⟨state, run, seen⟩ := Option.map_eq_some_iff.mp replayed
  obtain ⟨single, pcs⟩ := Prod.mk.inj seen
  have reached := Reachable.init.run run
  have few : state.shared.arrays.length ≤ 32 := by
    rw [single]
    decide
  exact ⟨state, reached, pcs, progresses (by decide) reached few⟩

end Reachable

end ThreadPoolExec.MPMCQueue.Dynamic
