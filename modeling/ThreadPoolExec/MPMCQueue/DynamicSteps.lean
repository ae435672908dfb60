import ThreadPoolExec.MPMCQueue.Dynamic

/-!
# Steps of the dynamic queue

What one step of a call can do to the memory that the other calls see, and
where a step of a try for a ticket leads.
-/

set_option autoImplicit false

namespace ThreadPoolExec.MPMCQueue.Dynamic

open Interleaving TurnCells

universe u

variable {V : Type u} {layout : Layout} {memory after : Memory V} {pc next : Pc V}
  {attempt : Attempt V} {array : ClosedArray}

/-- A step of a call that is not at a cell: the cells stay, the counters and
the published arrays only grow. -/
structure Advances (memory after : Memory V) : Prop where
  cells : after.cells = memory.cells
  nextCall : after.nextCall = memory.nextCall
  pushTicket : memory.pushTicket ≤ after.pushTicket
  popTicket : memory.popTicket ≤ after.popTicket
  arrays : memory.arrays.length ≤ after.arrays.length

theorem Advances.refl : Advances memory memory :=
  ⟨rfl, rfl, Nat.le_refl _, Nat.le_refl _, Nat.le_refl _⟩

theorem Advances.trans {between : Memory V} (first : Advances memory between)
    (second : Advances between after) : Advances memory after where
  cells := second.cells.trans first.cells
  nextCall := second.nextCall.trans first.nextCall
  pushTicket := Nat.le_trans first.pushTicket second.pushTicket
  popTicket := Nat.le_trans first.popTicket second.popTicket
  arrays := Nat.le_trans first.arrays second.arrays

theorem dispense_advances (side : Side V) : Advances memory (memory.dispense side) := by
  cases side with
  | push value => exact ⟨rfl, rfl, Nat.le_succ _, Nat.le_refl _, Nat.le_refl _⟩
  | pop => exact ⟨rfl, rfl, Nat.le_refl _, Nat.le_succ _, Nat.le_refl _⟩

theorem hold_advances (held : memory.hold attempt array = (after, next)) :
    Advances memory after := by
  unfold Memory.hold at held
  split at held <;> cases held <;> exact ⟨rfl, rfl, Nat.le_refl _, Nat.le_refl _, Nat.le_refl _⟩

theorem hold_arrays (held : memory.hold attempt array = (after, next)) :
    after.arrays = memory.arrays := by
  unfold Memory.hold at held
  split at held <;> cases held <;> rfl

theorem unexpanded_advances {again : Bool}
    (left : memory.unexpanded attempt array again = (after, next)) :
    Advances memory after ∧ after.arrays = memory.arrays := by
  unfold Memory.unexpanded at left
  split at left
  · exact ⟨hold_advances left, hold_arrays left⟩
  · cases left
    exact ⟨.refl, rfl⟩

theorem expand_advances {expansion : Expansion} {choice : Choice} {result : Option Bool}
    (expanded : memory.expand layout expansion choice = (after, result)) :
    Advances memory after := by
  unfold Memory.expand at expanded
  cases stageIs : expansion.stage <;> simp only [stageIs] at expanded
  case allocate ticket =>
    split at expanded <;> cases expanded <;>
      exact ⟨rfl, rfl, Nat.le_refl _, Nat.le_refl _, Nat.le_refl _⟩
  case release ticket newSlots =>
    cases expanded
    refine ⟨rfl, rfl, Nat.le_refl _, Nat.le_refl _, ?_⟩
    rw [List.length_append]
    exact Nat.le_add_right _ _
  all_goals
    cases expanded
    exact ⟨rfl, rfl, Nat.le_refl _, Nat.le_refl _, Nat.le_refl _⟩

/-- The call holds the ticket of its attempt. -/
def Attempt.held (attempt : Attempt V) (array : ClosedArray) : Pc V :=
  match attempt.side with
  | .push value => .holding array ⟨attempt.ticket, .storeWait value⟩
  | .pop => .holding array ⟨attempt.ticket, .takeWait⟩

theorem hold_held (held : memory.hold attempt array = (after, next)) :
    next = attempt.held array := by
  cases sideIs : attempt.side <;> simp only [Memory.hold, Attempt.held, sideIs] at held ⊢ <;>
    cases held <;> rfl

/-- Where a step of a try leads. -/
inductive Leads (layout : Layout) (memory : Memory V) (attempt : Attempt V) :
    Trying → Pc V → Prop where
  | loaded : Leads layout memory attempt .loadOther
      (.trying { attempt with other := memory.other attempt.side } .readState)
  | moves {at_ then_ : Trying} (plain : ∀ array, then_ ≠ .cas array) :
      Leads layout memory attempt at_ (.trying attempt then_)
  | ready {snapshot : Snapshot} {array : ClosedArray} {lagging : Bool}
      (kindIs : attempt.kind = .ready)
      (test : mayProceed (memory.cells (array.place layout attempt.ticket).1)
        (array.place layout attempt.ticket).2 attempt.side = true) :
      Leads layout memory attempt (.located snapshot array lagging) (.trying attempt (.cas array))
  | promised {snapshot : Snapshot} {array : ClosedArray} {lagging timed : Bool}
      (kindIs : attempt.kind = .promised timed)
      (test : unpromised array.capacity attempt.ticket attempt.other attempt.side ≠ true) :
      Leads layout memory attempt (.located snapshot array lagging) (.trying attempt (.cas array))
  | retry {at_ : Trying} : Leads layout memory attempt at_ attempt.retry
  | refused {at_ : Trying} (again : Bool) :
      Leads layout memory attempt at_ (attempt.refuse again)
  | won {array : ClosedArray} (current : memory.dispenser attempt.side = attempt.ticket) :
      Leads layout memory attempt (.cas array) (attempt.held array)
  | owned {at_ : Trying} (array : ClosedArray) (kindIs : attempt.kind = .blocking) :
      Leads layout memory attempt at_ (attempt.held array)
  | failed {at_ : Trying} : Leads layout memory attempt at_ .assertFailed

theorem unexpanded_leads {memory : Memory V} {at_ : Trying} {again : Bool} {before : Memory V}
    (left : memory.unexpanded attempt array again = (after, next)) :
    Leads layout before attempt at_ next := by
  cases kindIs : attempt.kind with
  | blocking =>
      simp only [Memory.unexpanded, kindIs] at left
      rw [hold_held left]
      exact .owned array kindIs
  | ready =>
      simp only [Memory.unexpanded, kindIs, Prod.mk.injEq] at left
      rw [← left.2]
      exact .refused again
  | promised timed =>
      simp only [Memory.unexpanded, kindIs, Prod.mk.injEq] at left
      rw [← left.2]
      exact .refused again

theorem atArray_leads {snapshot : Snapshot} {lagging again : Bool}
    (left : memory.atArray layout attempt snapshot array lagging again = (after, next)) :
    (Advances memory after ∧ after.arrays = memory.arrays) ∧
      Leads layout memory attempt (.located snapshot array lagging) next := by
  have still : Advances memory memory ∧ memory.arrays = memory.arrays := ⟨.refl, rfl⟩
  obtain ⟨kind, side, ticket, other⟩ := attempt
  cases kind with
  | blocking =>
      cases side with
      | push value =>
          simp only [Memory.atArray] at left
          split at left
          · rw [hold_held left]
            exact ⟨⟨hold_advances left, hold_arrays left⟩, .owned array rfl⟩
          · cases left
            exact ⟨still, .moves nofun⟩
      | pop =>
          simp only [Memory.atArray] at left
          rw [hold_held left]
          exact ⟨⟨hold_advances left, hold_arrays left⟩, .owned array rfl⟩
  | ready =>
      cases side with
      | push value =>
          simp only [Memory.atArray] at left
          split at left
          · next test =>
              cases left
              exact ⟨still, .ready rfl test⟩
          · cases left
            exact ⟨still, .moves nofun⟩
      | pop =>
          simp only [Memory.atArray] at left
          split at left
          · next test =>
              cases left
              exact ⟨still, .ready rfl test⟩
          · cases left
            exact ⟨still, .refused again⟩
  | promised timed =>
      cases side with
      | push value =>
          simp only [Memory.atArray] at left
          split at left
          · split at left
            · cases left
              exact ⟨still, .moves nofun⟩
            · cases left
              exact ⟨still, .refused again⟩
          · next test =>
              cases left
              exact ⟨still, .promised rfl test⟩
      | pop =>
          simp only [Memory.atArray] at left
          split at left
          · cases left
            exact ⟨still, .refused again⟩
          · next test =>
              cases left
              exact ⟨still, .promised rfl test⟩

/-- One step of a try. -/
theorem trying_leads {choice : Choice} {at_ : Trying}
    (stepped : at_.next layout choice memory attempt = some (after, next)) :
    Advances memory after ∧ Leads layout memory attempt at_ next := by
  cases at_ with
  | loadOther =>
      cases stepped
      exact ⟨.refl, .loaded⟩
  | readState =>
      simp only [Trying.next] at stepped
      split at stepped <;> cases stepped
      · exact ⟨.refl, .retry⟩
      · exact ⟨.refl, .moves nofun⟩
  | readSlots state =>
      cases stepped
      exact ⟨.refl, .moves nofun⟩
  | readCapacity state slots =>
      cases stepped
      exact ⟨.refl, .moves nofun⟩
  | readStride state slots capacity =>
      cases stepped
      exact ⟨.refl, .moves nofun⟩
  | validate snapshot =>
      simp only [Trying.next] at stepped
      split at stepped <;> cases stepped
      · exact ⟨⟨rfl, rfl, Nat.le_refl _, Nat.le_refl _, Nat.le_refl _⟩, .moves nofun⟩
      · exact ⟨.refl, .retry⟩
  | resolve snapshot =>
      simp only [Trying.next] at stepped
      split at stepped <;> cases stepped
      · exact ⟨.refl, .failed⟩
      · exact ⟨.refl, .moves nofun⟩
  | located snapshot array lagging =>
      obtain ⟨⟨advances, -⟩, leads⟩ := atArray_leads (Option.some.inj stepped)
      exact ⟨advances, leads⟩
  | checkPops snapshot array =>
      simp only [Trying.next] at stepped
      split at stepped <;> cases stepped
      · exact ⟨.refl, .retry⟩
      · exact ⟨.refl, .moves nofun⟩
  | reload snapshot array =>
      simp only [Trying.next] at stepped
      split at stepped
      · cases stepped
        exact ⟨.refl, .retry⟩
      · split at stepped <;> cases stepped
        · exact ⟨.refl, .moves nofun⟩
        · exact ⟨.refl, .refused _⟩
  | cas array =>
      simp only [Trying.next] at stepped
      split at stepped
      · next current =>
          have held := Option.some.inj stepped
          rw [hold_held held]
          exact ⟨(dispense_advances _).trans (hold_advances held), .won current⟩
      · cases stepped
        exact ⟨.refl, .retry⟩
  | tryExpand snapshot array =>
      simp only [Trying.next] at stepped
      split at stepped
      · have left := Option.some.inj stepped
        exact ⟨(unexpanded_advances left).1, unexpanded_leads left⟩
      · split at stepped <;> cases stepped
        · exact ⟨⟨rfl, rfl, Nat.le_refl _, Nat.le_refl _, Nat.le_refl _⟩, .moves nofun⟩
        · exact ⟨.refl, .retry⟩
  | expanding array =>
      simp only [Trying.next] at stepped
      split at stepped
      · cases stepped
      · split at stepped
        · next expanded =>
            cases stepped
            exact ⟨expand_advances expanded, .moves nofun⟩
        · next expanded =>
            cases stepped
            exact ⟨expand_advances expanded, .retry⟩
        · next expanded =>
            have left := Option.some.inj stepped
            exact ⟨(expand_advances expanded).trans (unexpanded_advances left).1,
              unexpanded_leads left⟩

/-- One step of a call: at the cell of its ticket, or away from the cells. -/
theorem next_cases {choice : Choice}
    (stepped : pc.next layout choice memory = some (after, next)) :
    Advances memory after ∨
    ∃ array holder cell left, pc = .holding array holder ∧
      (memory.cells (array.place layout holder.ticket).1).advance
        (array.place layout holder.ticket).2 holder.phase = some (cell, left) ∧
      after = { memory with
        cells := Function.update memory.cells (array.place layout holder.ticket).1 cell } ∧
      next = .advanced array holder left := by
  cases pc with
  | begin kind side =>
      cases kind with
      | blocking =>
          cases stepped
          exact .inl (dispense_advances side)
      | ready =>
          cases stepped
          exact .inl .refl
      | promised timed =>
          cases stepped
          exact .inl .refl
  | trying attempt at_ => exact .inl (trying_leads stepped).1
  | holding array holder =>
      simp only [Pc.next] at stepped
      split at stepped
      · cases stepped
      · next cell left advanced =>
          cases stepped
          exact .inr ⟨array, holder, cell, left, rfl, advanced, rfl, rfl⟩
  | wrote array ticket value => cases stepped
  | read array ticket value => cases stepped
  | refused side => cases stepped
  | assertFailed => cases stepped

theorem counters_next {choice : Choice}
    (stepped : pc.next layout choice memory = some (after, next)) :
    after.nextCall = memory.nextCall ∧ memory.pushTicket ≤ after.pushTicket ∧
      memory.popTicket ≤ after.popTicket ∧ memory.arrays.length ≤ after.arrays.length := by
  rcases next_cases stepped with advances | ⟨array, holder, cell, left, -, -, rfl, -⟩
  · exact ⟨advances.nextCall, advances.pushTicket, advances.popTicket, advances.arrays⟩
  · exact ⟨rfl, Nat.le_refl _, Nat.le_refl _, Nat.le_refl _⟩

theorem act_eq_some {choice : Choice} {call : Call V} {left : List (Call V)}
    (acted : act layout choice memory call = some (after, left)) :
    ∃ next, call.pc.next layout choice memory = some (after, next) ∧ left = [⟨call.id, next⟩] := by
  obtain ⟨⟨_, next⟩, stepped, same⟩ := Option.map_eq_some_iff.mp acted
  cases same
  exact ⟨next, stepped, rfl⟩

/-- A call has the number that it was started with. -/
theorem numbered (layout : Layout) :
    (system layout : System (Memory V) (Call V) Choice (Operation V)).Numbered
      Call.id Memory.nextCall where
  init := nofun
  act acted := by
    obtain ⟨next, stepped, rfl⟩ := act_eq_some acted
    refine ⟨(counters_next stepped).1, fun other member => ?_⟩
    obtain rfl := List.mem_singleton.mp member
    rfl
  env acted := by
    cases acted
    refine ⟨rfl, fun call member => ?_⟩
    obtain rfl := List.mem_singleton.mp member
    rfl

/-! ## The seqlock and the counters -/

def Trying.expands : Trying → Bool
  | .expanding _ => true
  | _ => false

/-- The current array is closed and a new one published. -/
def Memory.release (memory : Memory V) (layout : Layout) (expansion : Expansion)
    (ticket newSlots : Nat) : Memory V :=
  { memory with
    dstate := (ticket <<< kSeqlockBits) + 2 * (getNumClosed expansion.state + 1)
    arrays := memory.arrays ++ [⟨ticket, newSlots, layout.expanded expansion.cap,
      computeStride (layout.expanded expansion.cap)⟩]
    expansion := none }

def Memory.counters (memory : Memory V) : Nat × Nat :=
  (memory.pushTicket, memory.popTicket)

/-- What a step of a try does to the counters, the arrays and the seqlock. -/
inductive Touches (layout : Layout) (memory : Memory V) (attempt : Attempt V) :
    Trying → Memory V → Pc V → Prop where
  | apart {at_ : Trying} {after : Memory V} {next : Pc V} (outside : at_.expands = false)
      (counters : after.counters = memory.counters) (arrays : after.arrays = memory.arrays)
      (expansion : after.expansion = memory.expansion) :
      Touches layout memory attempt at_ after next
  | won {array : ClosedArray} {after : Memory V} (arrays : after.arrays = memory.arrays)
      (expansion : after.expansion = memory.expansion) :
      Touches layout memory attempt (.cas array) after (attempt.held array)
  | inside {at_ : Trying} {after : Memory V} {array : ClosedArray}
      (counters : after.counters = memory.counters) (arrays : after.arrays = memory.arrays) :
      Touches layout memory attempt at_ after (.trying attempt (.expanding array))
  | failed {array : ClosedArray} {after : Memory V} {next : Pc V}
      (counters : after.counters = memory.counters) (arrays : after.arrays = memory.arrays)
      (free : after.expansion = none) :
      Touches layout memory attempt (.expanding array) after next
  | released {array : ClosedArray} {expansion : Expansion} {ticket newSlots : Nat}
      (expansionIs : memory.expansion = some expansion)
      (stageIs : expansion.stage = .release ticket newSlots) :
      Touches layout memory attempt (.expanding array)
        (memory.release layout expansion ticket newSlots) attempt.retry

theorem hold_still (held : memory.hold attempt array = (after, next)) :
    after.counters = memory.counters ∧ after.arrays = memory.arrays ∧
      after.expansion = memory.expansion := by
  unfold Memory.hold at held
  split at held <;> cases held <;> exact ⟨rfl, rfl, rfl⟩

theorem unexpanded_still {again : Bool}
    (left : memory.unexpanded attempt array again = (after, next)) :
    after.counters = memory.counters ∧ after.arrays = memory.arrays ∧
      after.expansion = memory.expansion := by
  unfold Memory.unexpanded at left
  split at left
  · exact hold_still left
  · cases left
    exact ⟨rfl, rfl, rfl⟩

theorem atArray_still {snapshot : Snapshot} {lagging again : Bool}
    (left : memory.atArray layout attempt snapshot array lagging again = (after, next)) :
    after.counters = memory.counters ∧ after.arrays = memory.arrays ∧
      after.expansion = memory.expansion := by
  obtain ⟨kind, side, ticket, other⟩ := attempt
  cases kind <;> cases side <;> simp only [Memory.atArray] at left
  case blocking.pop => exact hold_still left
  case blocking.push value =>
    split at left
    · exact hold_still left
    · cases left
      exact ⟨rfl, rfl, rfl⟩
  all_goals
    repeat' split at left
    all_goals
      cases left
      exact ⟨rfl, rfl, rfl⟩

theorem expand_touches {expansion : Expansion} {choice : Choice} {result : Option Bool}
    (expanded : memory.expand layout expansion choice = (after, result)) :
    (∃ ticket newSlots, expansion.stage = .release ticket newSlots ∧
        after = memory.release layout expansion ticket newSlots ∧ result = some true) ∨
      after.counters = memory.counters ∧ after.arrays = memory.arrays ∧
        (result = none ∨ result = some false ∧ after.expansion = none) := by
  unfold Memory.expand at expanded
  cases stageIs : expansion.stage <;> simp only [stageIs] at expanded
  case allocate ticket =>
    split at expanded <;> cases expanded
    · exact .inr ⟨rfl, rfl, .inl rfl⟩
    · exact .inr ⟨rfl, rfl, .inr ⟨rfl, rfl⟩⟩
  case release ticket newSlots =>
    cases expanded
    exact .inl ⟨ticket, newSlots, rfl, rfl, rfl⟩
  all_goals
    cases expanded
    exact .inr ⟨rfl, rfl, .inl rfl⟩

theorem trying_touches {choice : Choice} {at_ : Trying}
    (stepped : at_.next layout choice memory attempt = some (after, next)) :
    Touches layout memory attempt at_ after next := by
  cases at_ with
  | located snapshot array lagging =>
      obtain ⟨counters, arrays, expansion⟩ := atArray_still (Option.some.inj stepped)
      exact .apart rfl counters arrays expansion
  | cas array =>
      simp only [Trying.next] at stepped
      split at stepped
      · have held := Option.some.inj stepped
        obtain ⟨-, arrays, expansion⟩ := hold_still held
        rw [hold_held held]
        cases sideIs : attempt.side <;> rw [sideIs] at arrays expansion <;>
          exact .won arrays expansion
      · cases stepped
        exact .apart rfl rfl rfl rfl
  | tryExpand snapshot array =>
      simp only [Trying.next] at stepped
      split at stepped
      · obtain ⟨counters, arrays, expansion⟩ := unexpanded_still (Option.some.inj stepped)
        exact .apart rfl counters arrays expansion
      · split at stepped <;> cases stepped
        · exact .inside rfl rfl
        · exact .apart rfl rfl rfl rfl
  | expanding array =>
      simp only [Trying.next] at stepped
      split at stepped
      · cases stepped
      · next expansion expansionIs =>
          split at stepped
          · next between expanded =>
              cases stepped
              rcases expand_touches expanded with ⟨_, _, _, _, impossible⟩ | ⟨counters, arrays, -⟩
              · cases impossible
              · exact .inside counters arrays
          · next between expanded =>
              cases stepped
              rcases expand_touches expanded with ⟨_, _, stageIs, rfl, _⟩ | ⟨_, _, _ | ⟨_, _⟩⟩
              · exact .released expansionIs stageIs
              · contradiction
              · contradiction
          · next between expanded =>
              obtain ⟨counters, arrays, expansion⟩ := unexpanded_still (Option.some.inj stepped)
              rcases expand_touches expanded with ⟨_, _, _, _, impossible⟩ |
                ⟨sameCounters, sameArrays, impossible | ⟨_, free⟩⟩
              · cases impossible
              · cases impossible
              · exact .failed (counters.trans sameCounters) (arrays.trans sameArrays)
                  (expansion.trans free)
  | _ =>
      simp only [Trying.next] at stepped
      repeat' split at stepped
      all_goals
        cases stepped
        exact .apart rfl rfl rfl rfl

end ThreadPoolExec.MPMCQueue.Dynamic
