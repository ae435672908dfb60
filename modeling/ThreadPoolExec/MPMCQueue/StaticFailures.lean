import ThreadPoolExec.MPMCQueue.StaticProperties

/-!
# Failures of the static queue

A call that fails has read two counters, or a counter and a slot, at different
times. The dispensers only grow, so the failure was true of the queue at one
instant of the call. A capacity from 2^63 on is negative to the test for a full
queue, and a write fails on a queue that is empty.
-/

set_option autoImplicit false

namespace ThreadPoolExec.MPMCQueue

open Interleaving TurnCells

universe u

variable {V : Type u} {layout : Layout}

/-! ## What a failure says -/

/-- The slot of the current ticket of a side is not at the turn of that ticket. -/
def Memory.Unready (memory : Memory V) (layout : Layout) (side : Side V) : Prop :=
  mayProceed (memory.slotAt (layout.place (memory.dispenser side)))
    (layout.place (memory.dispenser side)).2 side = false

/-- The counters say full to a push, and empty to a pop. -/
def Memory.Unpromising (memory : Memory V) (layout : Layout) (side : Side V) : Prop :=
  unpromised layout.capacity (memory.dispenser side) (memory.other side) side = true

/-- What a failure of an operation says of the queue. -/
def Operation.Fails (layout : Layout) (memory : Memory V) : Operation V → Prop
  | .blockingWrite _ | .blockingRead => False
  | .write _ =>
      (memory.slotAt (layout.place memory.pushTicket)).turn ≠
        (layout.place memory.pushTicket).2 * 2
  | .read =>
      (memory.slotAt (layout.place memory.popTicket)).turn ≠
        (layout.place memory.popTicket).2 * 2 + 1
  | .writeIfNotFull _ | .tryWriteUntil _ _ =>
      (layout.capacity : Int) ≤ (memory.pushTicket : Int) - memory.popTicket
  | .readIfNotEmpty | .tryReadUntil _ => memory.pushTicket ≤ memory.popTicket

/-- The same, by what a call that still has no ticket is about to test. -/
def Pc.Blocked (layout : Layout) (memory : Memory V) : Pc V → Prop
  | .readyLoad side | .readyProbe side _ | .readyReload side _ | .readyCas side _ =>
      memory.Unready layout side
  | .promisedLoad side | .promisedCompare side _ | .promisedCas side _ | .untilLoad side _
  | .untilCompare side _ _ | .untilCas side _ _ | .untilWait side _ _ =>
      memory.Unpromising layout side
  | _ => False

theorem Operation.fails_iff (small : layout.capacity < 2 ^ 63) (operation : Operation V)
    (memory : Memory V) :
    operation.Fails layout memory ↔ operation.start.Blocked layout memory := by
  cases operation with
  | blockingWrite value => exact Iff.rfl
  | blockingRead => exact Iff.rfl
  | write value =>
      unfold Fails start Pc.Blocked Memory.Unready mayProceed mayEnqueue
      exact decide_eq_false_iff_not.symm
  | read =>
      unfold Fails start Pc.Blocked Memory.Unready mayProceed mayDequeue
      exact decide_eq_false_iff_not.symm
  | writeIfNotFull value => exact (full_iff small _ _).symm
  | tryWriteUntil value waits => exact (full_iff small _ _).symm
  | _ =>
      unfold Fails start Pc.Blocked Memory.Unpromising unpromised
      exact decide_eq_true_iff.symm

/-- The call has not returned. -/
def Pc.running : Pc V → Bool
  | .wrote _ _ | .read _ _ | .refused _ => false
  | _ => true

/-- The call has no ticket and has not given up. -/
def Pc.searching : Pc V → Bool
  | .holding _ | .wrote _ _ | .read _ _ | .refused _ => false
  | _ => true

/-- The call has found what makes it fail: it has been refused, or will be
unless its side moves on. -/
def Pc.Doomed (memory : Memory V) : Pc V → Prop
  | .readyReload side ticket => memory.dispenser side = ticket
  | .untilWait _ _ _ | .refused _ => True
  | _ => False

/-! ## One step -/

section Steps

variable {memory after : Memory V} {pc next : Pc V}

/-- A dispenser that has moved on is no better for a promise. -/
theorem unpromising_of_le {side : Side V} {count : Nat} (stale : count ≤ memory.dispenser side)
    (test : unpromised layout.capacity count (memory.other side) side = true) :
    memory.Unpromising layout side := by
  cases side with
  | push value => exact full_mono stale test
  | pop =>
      have empty : memory.pushTicket ≤ count := of_decide_eq_true test
      exact decide_eq_true (Nat.le_trans empty stale)

theorem doomed_of_advanced (holder : Holder V) (left : Phase V ⊕ V) :
    ¬ (Pc.advanced holder left).Doomed memory := by
  cases left with
  | inl phase => exact id
  | inr value =>
      simp only [Pc.advanced]
      split <;> exact id

/-- A call is doomed only by a step that finds the queue failing then. -/
theorem doomed_next (stepped : pc.next layout memory = some (after, next))
    (lags : pc.Lags memory) (doomed : next.Doomed after) :
    pc.Doomed memory ∨ pc.Blocked layout memory := by
  cases pc with
  | readyProbe side ticket =>
      simp only [Pc.next] at stepped
      split at stepped
      · cases stepped
        cases doomed
      · next notReady =>
          cases stepped
          have current : memory.dispenser side = ticket := doomed
          subst current
          exact .inr (Bool.eq_false_iff.mpr notReady)
  | readyReload side ticket =>
      simp only [Pc.next] at stepped
      split at stepped
      · next current => exact .inl current
      · cases stepped
        cases doomed
  | promisedCompare side count =>
      simp only [Pc.next] at stepped
      split at stepped
      · next test => exact .inr (unpromising_of_le lags test)
      · cases stepped
        cases doomed
  | untilCompare side waits count =>
      simp only [Pc.next] at stepped
      split at stepped
      · next test => exact .inr (unpromising_of_le lags test)
      · cases stepped
        cases doomed
  | untilWait side waits ticket => exact .inl trivial
  | holding holder =>
      rcases next_cases stepped with ⟨-, ticketless, -⟩ | ⟨side, -, -, ticketless⟩ |
        ⟨holder, slot, left, -, -, -, rfl⟩
      · cases ticketless
      · cases ticketless
      · exact absurd doomed (doomed_of_advanced holder left)
  | fetchAdd side =>
      cases stepped
      cases doomed
  | readyLoad side =>
      cases stepped
      cases doomed
  | promisedLoad side =>
      cases stepped
      cases doomed
  | untilLoad side waits =>
      cases stepped
      cases doomed
  | readyCas side ticket =>
      simp only [Pc.next] at stepped
      split at stepped
      all_goals
        cases stepped
        cases doomed
  | promisedCas side count =>
      simp only [Pc.next] at stepped
      split at stepped
      all_goals
        cases stepped
        cases doomed
  | untilCas side waits count =>
      simp only [Pc.next] at stepped
      split at stepped
      all_goals
        cases stepped
        cases doomed
  | wrote ticket value => cases stepped
  | read ticket value => cases stepped
  | refused side => cases stepped

/-- A call that searches on still fails by the same test. -/
theorem blocked_next (stepped : pc.next layout memory = some (after, next))
    (searching : next.searching = true) :
    pc.searching = true ∧
      ∀ {other : Memory V}, next.Blocked layout other ↔ pc.Blocked layout other := by
  cases pc with
  | holding holder =>
      rcases next_cases stepped with ⟨-, ticketless, -⟩ | ⟨side, -, -, ticketless⟩ |
        ⟨holder, slot, left, -, -, -, rfl⟩
      · cases ticketless
      · cases ticketless
      · cases left with
        | inl phase => cases searching
        | inr value =>
            simp only [Pc.advanced] at searching
            split at searching <;> cases searching
  | fetchAdd side =>
      cases stepped
      cases searching
  | readyLoad side =>
      cases stepped
      exact ⟨rfl, Iff.rfl⟩
  | promisedLoad side =>
      cases stepped
      exact ⟨rfl, Iff.rfl⟩
  | untilLoad side waits =>
      cases stepped
      exact ⟨rfl, Iff.rfl⟩
  | wrote ticket value => cases stepped
  | read ticket value => cases stepped
  | refused side => cases stepped
  | untilWait side waits ticket =>
      cases waits with
      | zero =>
          cases stepped
          cases searching
      | succ waits =>
          simp only [Pc.next] at stepped
          split at stepped
          · cases stepped
            exact ⟨rfl, Iff.rfl⟩
          · cases stepped
  | _ =>
      simp only [Pc.next] at stepped
      split at stepped
      all_goals
        cases stepped
        first | exact ⟨rfl, Iff.rfl⟩ | cases searching

/-- Other calls do not doom a call: the dispensers only grow. -/
theorem doomed_of_grows (lags : pc.Lags memory)
    (grows : ∀ side : Side V, memory.dispenser side ≤ after.dispenser side)
    (doomed : pc.Doomed after) : pc.Doomed memory := by
  cases pc with
  | readyReload side ticket =>
      have current : after.dispenser side = ticket := doomed
      have stale : ticket ≤ memory.dispenser side := lags
      exact Nat.le_antisymm (current ▸ grows side) stale
  | untilWait side waits ticket => trivial
  | refused side => trivial
  | _ => cases doomed

theorem running_of_blocked (blocked : pc.Blocked layout memory) :
    pc.searching = true ∧ pc.running = true := by
  cases pc <;> first | exact ⟨rfl, rfl⟩ | cases blocked

end Steps

/-! ## One call -/

/-- The call with a number has not returned. -/
def Running (id : Nat) (call : Call V) : Prop :=
  call.id = id ∧ call.pc.running = true

/-- What holds of a call of `operation` after the moves since it began. -/
structure Tracked (layout : Layout) (operation : Operation V) (id : Nat)
    (begun : Global (Memory V) (Call V)) (labels : List (Label Unit (Operation V)))
    (memory : Memory V) (call : Call V) : Prop where
  searching : call.pc.searching = true →
    ∀ {other : Memory V}, call.pc.Blocked layout other ↔ operation.start.Blocked layout other
  doomed : call.pc.Doomed memory →
    (system layout).During (Running id) (fun instant => operation.Fails layout instant.shared)
      begun labels

private theorem run_tracked (small : layout.capacity < 2 ^ 63)
    {state begun later : Global (Memory V) (Call V)}
    {operation : Operation V} {labels : List (Label Unit (Operation V))}
    (reached : Reachable (system layout) anySchedule state)
    (begins : (system layout).step state (.env operation) = some begun)
    (replayed : (system layout).run begun labels = some later) :
    ∀ call ∈ later.agents, call.id = state.shared.nextCall →
      Tracked layout operation state.shared.nextCall begun labels later.shared call := by
  have started : Reachable (system layout) anySchedule begun := .step reached trivial begins
  obtain ⟨given, memory, left, acted, -, isLeft⟩ := (numbered layout).begun reached begins
  cases acted
  refine (numbered layout).follow
    (Tracked layout operation state.shared.nextCall begun) given ?_ ?_ ?_ ?_ replayed
  · intro call member isOwn
    obtain rfl := List.mem_singleton.mp (isLeft call member isOwn)
    refine ⟨fun _ {_} => Iff.rfl, fun doomed => ?_⟩
    cases operation <;> cases doomed
  · intro front instant index choice call after left before found acted isOwn tracked next isNext
    obtain ⟨pc, stepped, rfl⟩ := act_eq_some choice acted
    obtain rfl := List.mem_singleton.mp isNext
    refine ⟨fun searching => ?_, fun doomed => ?_⟩
    · obtain ⟨searched, test⟩ := blocked_next stepped searching
      intro memory
      exact test.trans (tracked.searching searched)
    · have member := List.mem_of_getElem? found
      have lags := (reachable_coherent (started.run before)).lags call member
      rcases doomed_next stepped lags doomed with doomed | blocked
      · exact (tracked.doomed doomed).append _
      · -- the step itself is the instant
        obtain ⟨searching, running⟩ := running_of_blocked blocked
        have fails := (tracked.searching searching).mp blocked
        exact (System.Passes.last before ⟨⟨call, member, isOwn, running⟩,
          (operation.fails_iff small instant.shared).mpr fails⟩).append _
  · intro front instant index choice other after left call before found rest acted tracked
    obtain ⟨pc, stepped, rfl⟩ := act_eq_some choice acted
    have lags := (reachable_coherent (started.run before)).lags call
      (List.mem_of_mem_eraseIdx rest)
    refine ⟨tracked.searching, fun doomed => ?_⟩
    exact (tracked.doomed (doomed_of_grows lags (dispenser_le_next stepped) doomed)).append _
  · intro front instant choice after left call before member acted tracked
    cases acted
    exact ⟨tracked.searching, fun doomed => (tracked.doomed doomed).append _⟩

/-! ## Writes that have succeeded -/

def Pc.wroteBelow (bound : Nat) : Pc V → Nat
  | .wrote ticket _ => if ticket < bound then 1 else 0
  | _ => 0

/-- The writes that have returned true. -/
def writesDone (calls : List (Call V)) : Nat :=
  total (fun call => match call.pc with | .wrote _ _ => 1 | _ => 0) calls

theorem wroteBelow_succ (bound : Nat) (pc : Pc V) :
    pc.wroteBelow (bound + 1) ≤ pc.wroteBelow bound + pc.pushes bound := by
  cases pc with
  | wrote ticket value =>
      simp only [Pc.wroteBelow, Pc.pushes, Pc.stores?, Option.map_some, Option.some.injEq]
      split_ifs <;> omega
  | _ => exact Nat.zero_le _

private theorem Coherent.total_wroteBelow {memory : Memory V} {calls : List (Call V)}
    (coherent : Coherent layout memory calls) (bound : Nat) :
    total (fun call => call.pc.wroteBelow bound) calls ≤ bound := by
  induction bound with
  | zero =>
      refine Nat.le_of_eq (total_eq_zero_iff.mpr fun call _ => ?_)
      cases call.pc <;> rfl
  | succ bound ih =>
      have owners := coherent.pushOwners bound
      have atMost : MPMCQueue.pushOwners bound calls ≤ 1 := by
        rw [owners]
        split <;> decide
      calc total (fun call => call.pc.wroteBelow (bound + 1)) calls
          ≤ total (fun call => call.pc.wroteBelow bound + call.pc.pushes bound) calls :=
            total_le_total fun call _ => wroteBelow_succ bound call.pc
        _ = total (fun call => call.pc.wroteBelow bound) calls +
              MPMCQueue.pushOwners bound calls := total_add
        _ ≤ bound + 1 := Nat.add_le_add ih atMost

theorem Coherent.writesDone_le {memory : Memory V} {calls : List (Call V)}
    (coherent : Coherent layout memory calls) : writesDone calls ≤ memory.pushTicket := by
  refine Nat.le_trans (total_le_total fun call member => ?_)
    (coherent.total_wroteBelow memory.pushTicket)
  cases pcIs : call.pc with
  | wrote ticket value =>
      have stored := coherent.wrote call member ticket value pcIs
      have given := (List.getElem?_eq_some_iff.mp stored).1
      rw [← coherent.pushTicket] at given
      simp [Pc.wroteBelow, given]
  | _ => exact Nat.zero_le _

/-! ## Honest failures -/

/-- In every run, what a failed call says was true of the queue at an instant
of the call. -/
def HonestFailures (V : Type u) (layout : Layout) : Prop :=
  ∀ (state begun later : Global (Memory V) (Call V)) (operation : Operation V)
    (labels : List (Label Unit (Operation V))),
    Reachable (system layout) anySchedule state →
    (system layout).step state (.env operation) = some begun →
    (system layout).run begun labels = some later →
    (∀ side, ⟨state.shared.nextCall, .refused side⟩ ∈ later.agents →
      (system layout).During (Running state.shared.nextCall)
        (fun instant => operation.Fails layout instant.shared) begun labels) ∧
    (operation = .readIfNotEmpty →
      (system layout).Throughout (Running state.shared.nextCall)
        (fun instant => instant.shared.popTicket < writesDone instant.agents) begun labels →
      ∀ side, ⟨state.shared.nextCall, .refused side⟩ ∉ later.agents)

theorem honestFailures_of_small (small : layout.capacity < 2 ^ 63) : HonestFailures V layout := by
  intro state begun later operation labels reached begins replayed
  have tracked := run_tracked small reached begins replayed
  have honest : ∀ side, ⟨state.shared.nextCall, .refused side⟩ ∈ later.agents →
      (system layout).During (Running state.shared.nextCall)
        (fun instant => operation.Fails layout instant.shared) begun labels := by
    intro side member
    exact (tracked _ member rfl).doomed trivial
  refine ⟨honest, ?_⟩
  intro isRead enough side member
  refine (honest side member).not_throughout (fun front instant before fails => ?_) enough
  subst isRead
  have empty : instant.shared.pushTicket ≤ instant.shared.popTicket := fails
  have started : Reachable (system layout) anySchedule begun := .step reached trivial begins
  have done := (reachable_coherent (started.run before)).writesDone_le
  exact Nat.not_lt.mpr (Nat.le_trans done empty)

/-! ## A capacity that the test takes for a negative one -/

/-- A call of `writeIfNotFull` on an empty queue, from its begin to its refusal. -/
def refusing (value : V) (moves : Nat) : Global (Memory V) (Call V) where
  shared := { nextCall := 1 }
  agents := [⟨0, match moves with
    | 0 => .promisedLoad (.push value)
    | 1 => .promisedCompare (.push value) 0
    | _ => .refused (.push value)⟩]

section Large

variable (large : 2 ^ 63 ≤ layout.capacity) (word : layout.capacity < 2 ^ 64) (value : V)

include large word

theorem step_refusing {moves : Nat} (early : moves < 2) :
    (system layout).step (refusing value moves) (.act 0 ()) =
      some (refusing value (moves + 1)) := by
  have test : full layout.capacity 0 0 = true := full_of_large large word 0
  obtain rfl | rfl : moves = 0 ∨ moves = 1 := by omega
  · rfl
  · simp [System.step, system, act, refusing, Pc.next, Memory.other, unpromised, test]

/-- The queue is empty at every instant of the call. -/
theorem run_refusing {moves steps : Nat} (early : moves + steps ≤ 2) :
    (system layout).run (refusing value moves) (List.replicate steps (.act 0 ())) =
      some (refusing value (moves + steps)) := by
  induction steps generalizing moves with
  | zero => rfl
  | succ steps ih =>
      rw [List.replicate_succ, System.run, step_refusing large word value (by omega)]
      dsimp only
      rw [ih (by omega), Nat.add_assoc, Nat.add_comm 1]

include value in
/-- An empty queue of 2^63 slots or more refuses a write. -/
theorem not_honestFailures_of_large : ¬ HonestFailures V layout := by
  intro honest
  have replayed : (system layout).run (refusing value 0) (List.replicate 2 (.act 0 ())) =
      some (refusing value 2) :=
    @run_refusing _ _ large word value 0 2 (by decide)
  obtain ⟨front, back, instant, split, before, -, fails⟩ :=
    (honest (system layout).init (refusing value 0) (refusing value 2) (.writeIfNotFull value) _
      .init rfl replayed).1 (.push value) List.mem_cons_self
  obtain ⟨few, isFront, -⟩ := List.append_eq_replicate_iff.mp split.symm
  rw [isFront, run_refusing large word value (by omega)] at before
  cases before
  have exhausted : (layout.capacity : Int) ≤ 0 := fails
  omega

end Large

/-- The failures of the queue are honest exactly below a capacity of 2^63. -/
theorem failures_honest [Inhabited V] (layout : Layout) (constructed : layout.Constructed) :
    HonestFailures V layout ↔ layout.capacity < 2 ^ 63 := by
  constructor
  · intro honest
    by_contra large
    exact not_honestFailures_of_large (Nat.le_of_not_lt large) constructed.word default honest
  · exact honestFailures_of_small

/-- A read of an empty queue has begun. -/
def reading : Global (Memory Nat) (Call Nat) :=
  ⟨{ nextCall := 1 }, [⟨0, .readyLoad .pop⟩]⟩

/-- And it has been refused. -/
def readRefused : Global (Memory Nat) (Call Nat) :=
  ⟨{ nextCall := 1 }, [⟨0, .refused .pop⟩]⟩

theorem failures_honest_empty :
    (system ⟨2, 1⟩).run reading [.act 0 (), .act 0 (), .act 0 ()] = some readRefused ∧
      (system ⟨2, 1⟩).During (Running 0) (fun instant => Operation.read.Fails ⟨2, 1⟩ instant.shared)
        reading [.act 0 (), .act 0 (), .act 0 ()] := by
  have constructed : (⟨2, 1⟩ : Layout).Constructed := ⟨by decide, by decide, by decide⟩
  have honest : HonestFailures Nat ⟨2, 1⟩ := (failures_honest ⟨2, 1⟩ constructed).mpr (by decide)
  exact ⟨rfl, (honest (system ⟨2, 1⟩).init reading readRefused .read _ .init rfl rfl).1 .pop
    List.mem_cons_self⟩

/-- The largest capacity: its array has 15 slots, and a write finds the empty
queue full. -/
theorem not_failures_honest :
    (⟨2 ^ 64 - 1, 8⟩ : Layout).Constructed ∧ ¬ HonestFailures Nat ⟨2 ^ 64 - 1, 8⟩ :=
  ⟨⟨by decide, by decide, by decide⟩,
    not_honestFailures_of_large (by decide) (by decide) 7⟩

end ThreadPoolExec.MPMCQueue
