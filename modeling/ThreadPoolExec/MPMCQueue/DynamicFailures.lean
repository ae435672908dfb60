import ThreadPoolExec.MPMCQueue.DynamicProperties

/-!
# Failures of the dynamic queue's read

`tryObtainReadyPopTicket` of the dynamic queue gives up as soon as the slot of
the ticket that it has loaded is not ready. Unlike the static queue it does not
look whether that is still the current ticket.
-/

set_option autoImplicit false

namespace ThreadPoolExec.MPMCQueue.Dynamic

open Interleaving TurnCells

universe u

variable {V : Type u} {layout : Layout}

/-- The slot of the current pop ticket is ready to be dequeued. -/
def Memory.PopReady (memory : Memory V) (layout : Layout) : Prop :=
  (memory.cells (placeIn layout memory.arrays memory.popTicket).1).turn =
    (placeIn layout memory.arrays memory.popTicket).2 * 2 + 1

instance (memory : Memory V) (layout : Layout) : Decidable (memory.PopReady layout) :=
  inferInstanceAs (Decidable (_ = _))

/-- The call has not returned. -/
def Pc.running : Pc V → Bool
  | .wrote _ _ _ | .read _ _ _ | .refused _ | .assertFailed => false
  | _ => true

/-- The call with a number has not returned. -/
def Running (id : Nat) (call : Call V) : Prop :=
  call.id = id ∧ call.pc.running = true

/-- A read is about to find that the slot of its ticket is not ready, and the
ticket has been taken since the read loaded it. -/
def Pc.staleFailure (layout : Layout) (memory : Memory V) : Pc V → Bool
  | .trying ⟨.ready, .pop, ticket, _⟩ (.located _ array _) =>
      memory.popTicket ≠ ticket ∧
        mayDequeue (memory.cells (array.place layout ticket).1) (array.place layout ticket).2 = false
  | _ => false

/-- The call with a number does not fail on a stale ticket. -/
def probesFresh (layout : Layout) (id : Nat) (state : Global (Memory V) (Call V)) :
    Label Choice (Operation V) → Bool
  | .act index _ => state.agents[index]?.all fun call =>
      call.id ≠ id ∨ call.pc.staleFailure layout state.shared = false
  | .env _ => true

def Trying.reads : Trying → Bool
  | .loadOther | .checkPops _ _ | .reload _ _ | .tryExpand _ _ | .expanding _ => false
  | _ => true

/-- Where a call of `read` can be. -/
def Pc.ReadPath : Pc V → Prop
  | .begin kind side => kind = .ready ∧ side = .pop
  | .trying attempt at_ => attempt.kind = .ready ∧ attempt.side = .pop ∧ at_.reads = true
  | _ => True

section Steps

variable {memory after : Memory V} {pc next : Pc V} {choice : Choice}

/-- A read is refused by nothing but the probe of its slot. -/
theorem readPath_next (stepped : pc.next layout choice memory = some (after, next))
    (path : pc.ReadPath) :
    next.ReadPath ∧ ∀ side, next = .refused side →
      ∃ ticket other snapshot array lagging,
        pc = .trying ⟨.ready, .pop, ticket, other⟩ (.located snapshot array lagging) ∧
        mayDequeue (memory.cells (array.place layout ticket).1) (array.place layout ticket).2 =
          false := by
  cases pc with
  | begin kind side =>
      obtain ⟨rfl, rfl⟩ := path
      cases stepped
      exact ⟨⟨rfl, rfl, rfl⟩, fun _ refused => by cases refused⟩
  | trying attempt at_ =>
      obtain ⟨kind, side, ticket, other⟩ := attempt
      obtain ⟨kindIs, sideIs, reads⟩ := path
      simp only at kindIs sideIs
      subst kindIs sideIs
      cases at_ with
      | readState =>
          simp only [Pc.next, Trying.next] at stepped
          split at stepped <;> cases stepped
          · exact ⟨⟨rfl, rfl⟩, fun _ refused => by cases refused⟩
          · exact ⟨⟨rfl, rfl, rfl⟩, fun _ refused => by cases refused⟩
      | readSlots state =>
          cases stepped
          exact ⟨⟨rfl, rfl, rfl⟩, fun _ refused => by cases refused⟩
      | readCapacity state slots =>
          cases stepped
          exact ⟨⟨rfl, rfl, rfl⟩, fun _ refused => by cases refused⟩
      | readStride state slots capacity =>
          cases stepped
          exact ⟨⟨rfl, rfl, rfl⟩, fun _ refused => by cases refused⟩
      | validate snapshot =>
          simp only [Pc.next, Trying.next] at stepped
          split at stepped <;> cases stepped
          · exact ⟨⟨rfl, rfl, rfl⟩, fun _ refused => by cases refused⟩
          · exact ⟨⟨rfl, rfl⟩, fun _ refused => by cases refused⟩
      | resolve snapshot =>
          simp only [Pc.next, Trying.next] at stepped
          split at stepped <;> cases stepped
          · exact ⟨trivial, fun _ refused => by cases refused⟩
          · exact ⟨⟨rfl, rfl, rfl⟩, fun _ refused => by cases refused⟩
      | located snapshot array lagging =>
          simp only [Pc.next, Trying.next, Memory.atArray] at stepped
          split at stepped
          · cases stepped
            exact ⟨⟨rfl, rfl, rfl⟩, fun _ refused => by cases refused⟩
          · next notReady =>
              cases stepped
              refine ⟨trivial, fun _ _ => ⟨ticket, other, snapshot, array, lagging, rfl, ?_⟩⟩
              exact Bool.eq_false_iff.mpr notReady
      | cas array =>
          simp only [Pc.next, Trying.next] at stepped
          split at stepped <;> cases stepped
          · exact ⟨trivial, fun _ refused => by cases refused⟩
          · exact ⟨⟨rfl, rfl⟩, fun _ refused => by cases refused⟩
      | _ => cases reads
  | holding array holder =>
      simp only [Pc.next] at stepped
      split at stepped
      · cases stepped
      · next cell left advanced =>
          cases stepped
          cases left with
          | inl phase => exact ⟨trivial, fun _ refused => by cases refused⟩
          | inr value =>
              simp only [Pc.advanced]
              split <;> exact ⟨trivial, fun _ refused => by cases refused⟩
  | wrote array ticket value => cases stepped
  | read array ticket value => cases stepped
  | refused side => cases stepped
  | assertFailed => cases stepped

end Steps

section Runs

variable {state begun later : Global (Memory V) (Call V)}
  {labels : List (Label Choice (Operation V))}

/-- The probe that refuses a read on a current ticket looks at the slot that
the claim is about. -/
private theorem not_popReady_of_probe {memory : Memory V} {calls : List (Call V)} {call : Call V}
    {ticket other : Nat} {snapshot : Snapshot} {array : ClosedArray} {lagging : Bool}
    (coherent : Coherent layout memory calls) (member : call ∈ calls)
    (pcIs : call.pc = .trying ⟨.ready, .pop, ticket, other⟩ (.located snapshot array lagging))
    (notReady : mayDequeue (memory.cells (array.place layout ticket).1)
      (array.place layout ticket).2 = false)
    (fresh : call.pc.staleFailure layout memory = false) : ¬ memory.PopReady layout := by
  have ok := coherent.pcs call member
  rw [pcIs] at ok fresh
  have current : memory.popTicket = ticket := by
    by_contra stale
    exact absurd fresh (by simp [Pc.staleFailure, stale, notReady])
  have placed : placeIn layout memory.arrays ticket = array.place layout ticket :=
    placeIn_eq ok.2.2.1.found
  intro ready
  unfold Memory.PopReady at ready
  rw [current, placed] at ready
  exact absurd notReady (by simp [mayDequeue, ready])

private theorem run_read (reached : Reachable (system layout) anySchedule state)
    (begins : (system layout).step state (.env .read) = some begun)
    (replayed : (system layout).run begun labels = some later)
    (few : later.shared.arrays.length ≤ 32)
    (fresh : (system layout).Permits
      (fun instant label => probesFresh layout state.shared.nextCall instant label = true)
      begun labels) :
    ∀ call ∈ later.agents, call.id = state.shared.nextCall →
      call.pc.ReadPath ∧ ∀ side, call.pc = .refused side →
        (system layout).During (Running state.shared.nextCall)
          (fun instant => ¬ instant.shared.PopReady layout) begun labels := by
  have started : Reachable (system layout) anySchedule begun := .step reached trivial begins
  obtain ⟨given, memory, left, acted, -, isLeft⟩ := (numbered layout).begun reached begins
  cases acted
  intro call member isOwn
  refine (numbered layout).follow (fun labels memory call => memory.arrays.length ≤ 32 →
    (system layout).Permits
      (fun instant label => probesFresh layout state.shared.nextCall instant label = true)
      begun labels → call.pc.ReadPath ∧ ∀ side, call.pc = .refused side →
        (system layout).During (Running state.shared.nextCall)
          (fun instant => ¬ instant.shared.PopReady layout) begun labels)
    given ?_ ?_ ?_ ?_ replayed call member isOwn few fresh
  · intro call member isOwn _ _
    obtain rfl := List.mem_singleton.mp (isLeft call member isOwn)
    exact ⟨⟨rfl, rfl⟩, nofun⟩
  · intro front instant index choice call after left before found acted isOwn known next isNext
      few permitted
    obtain ⟨pc, stepped, rfl⟩ := act_eq_some acted
    obtain rfl := List.mem_singleton.mp isNext
    have fewBefore := Nat.le_trans (counters_next stepped).2.2.2 few
    obtain ⟨permittedBefore, allowed⟩ := permitted.snoc before
    obtain ⟨nextPath, probed⟩ := readPath_next stepped (known fewBefore permittedBefore).1
    refine ⟨nextPath, fun side refused => ?_⟩
    obtain ⟨ticket, other, snapshot, array, lagging, pcIs, notReady⟩ := probed side refused
    have isFresh : call.pc.staleFailure layout instant.shared = false := by
      simpa [probesFresh, found, isOwn] using allowed
    have member := List.mem_of_getElem? found
    have coherent := reachable_coherent (started.run before) fewBefore
    have running : call.pc.running = true := by
      rw [pcIs]
      rfl
    have fails := not_popReady_of_probe coherent member pcIs notReady isFresh
    exact (System.Passes.last before ⟨⟨call, member, isOwn, running⟩, fails⟩).append _
  · intro front instant index choice other after left call before found rest acted known
      few permitted
    obtain ⟨pc, stepped, rfl⟩ := act_eq_some acted
    have fewBefore := Nat.le_trans (counters_next stepped).2.2.2 few
    obtain ⟨path, honest⟩ := known fewBefore (permitted.snoc before).1
    exact ⟨path, fun side refused => (honest side refused).append _⟩
  · intro front instant choice after left call before _ acted known few permitted
    cases acted
    obtain ⟨path, honest⟩ := known few (permitted.snoc before).1
    exact ⟨path, fun side refused => (honest side refused).append _⟩

end Runs

/-- What a failed read says was true of the queue at an instant of the call, as
long as the read does not fail on a ticket that is no longer the current one. -/
theorem read_failures_honest (layout : Layout) {state begun later : Global (Memory V) (Call V)}
    (reached : Reachable (system layout) anySchedule state)
    (begins : (system layout).step state (.env .read) = some begun)
    (labels : List (Label Choice (Operation V)))
    (replayed : (system layout).run begun labels = some later)
    (expansions : later.shared.arrays.length ≤ 1 + 31)
    (fresh : (system layout).Permits
      (fun instant label => probesFresh layout state.shared.nextCall instant label = true)
      begun labels) :
    (∀ side, ⟨state.shared.nextCall, .refused side⟩ ∈ later.agents →
      (system layout).During (Running state.shared.nextCall)
        (fun instant => ¬ instant.shared.PopReady layout) begun labels) ∧
    ((system layout).Throughout (Running state.shared.nextCall)
        (fun instant => instant.shared.PopReady layout) begun labels →
      ∀ side, ⟨state.shared.nextCall, .refused side⟩ ∉ later.agents) := by
  have honest : ∀ side, ⟨state.shared.nextCall, .refused side⟩ ∈ later.agents →
      (system layout).During (Running state.shared.nextCall)
        (fun instant => ¬ instant.shared.PopReady layout) begun labels := by
    intro side member
    exact (run_read reached begins replayed expansions fresh _ member rfl).2 side rfl
  refine ⟨honest, fun ready side member => ?_⟩
  exact (honest side member).not_throughout (fun _ _ _ notReady => notReady) ready

/-- A read of an empty queue has begun. -/
def reading : Global (Memory Nat) (Call Nat) :=
  ⟨{ Layout.initQueue ⟨4, 1, 2, 1⟩ with nextCall := 1 }, [⟨0, .begin .ready .pop⟩]⟩

/-- Its steps, up to the return. -/
def readAlone : List (Label Choice (Operation Nat)) :=
  List.replicate 8 (.act 0 {})

theorem read_failures_honest_empty :
    (system ⟨4, 1, 2, 1⟩).During (Running 0)
      (fun instant => ¬ instant.shared.PopReady ⟨4, 1, 2, 1⟩) reading readAlone := by
  have replayed : ((system ⟨4, 1, 2, 1⟩).run reading readAlone).map
      (fun state => (state.agents.map fun call => (call.id, call.pc), state.shared.arrays.length)) =
        some ([(0, .refused .pop)], 1) := by
    decide
  have fresh : (system ⟨4, 1, 2, 1⟩).Permits
      (fun instant label => probesFresh ⟨4, 1, 2, 1⟩ 0 instant label = true) reading readAlone := by
    decide
  obtain ⟨later, ran, seen⟩ := Option.map_eq_some_iff.mp replayed
  have few : later.shared.arrays.length = 1 := congrArg Prod.snd seen
  have agents : (later.agents.map fun call => (call.id, call.pc)) = [(0, .refused .pop)] :=
    congrArg Prod.fst seen
  obtain ⟨⟨id, pc⟩, member, callIs⟩ : ∃ call ∈ later.agents,
      (call.id, call.pc) = (0, .refused .pop) := List.mem_map.mp (agents ▸ List.mem_cons_self)
  cases callIs
  exact (read_failures_honest ⟨4, 1, 2, 1⟩ .init rfl _ ran (by rw [few]; decide) fresh).1 .pop
    member

/-- Two elements wait. -/
def twoWritten : List (Label Choice (Operation Nat)) :=
  .env (.blockingWrite 10) :: List.replicate 11 (.act 0 {}) ++
    .env (.blockingWrite 11) :: List.replicate 11 (.act 0 {})

/-- One read loads the pop ticket, another takes the element of that ticket,
and the first fails although the next element is ready. -/
def overtaken : List (Label Choice (Operation Nat)) :=
  .act 0 {} :: .env .blockingRead :: List.replicate 11 (.act 0 {}) ++
    .act 1 {} :: List.replicate 6 (.act 0 {})

/-- A read fails although the slot of the current pop ticket was ready at every
instant of it. -/
theorem not_read_failures_honest :
    ¬ ∀ (layout : Layout) (state begun later : Global (Memory Nat) (Call Nat))
        (labels : List (Label Choice (Operation Nat))),
      Reachable (system layout) anySchedule state →
      (system layout).step state (.env .read) = some begun →
      (system layout).run begun labels = some later →
      later.shared.arrays.length ≤ 1 + 31 →
      ∀ side, ⟨state.shared.nextCall, .refused side⟩ ∈ later.agents →
        (system layout).During (Running state.shared.nextCall)
          (fun instant => ¬ instant.shared.PopReady layout) begun labels := by
  intro honest
  have observed : (((system ⟨2, 2, 2, 1⟩).run (system ⟨2, 2, 2, 1⟩).init twoWritten).bind fun state =>
      ((system ⟨2, 2, 2, 1⟩).step state (.env .read)).bind fun begun =>
        ((system ⟨2, 2, 2, 1⟩).run begun overtaken).map fun later =>
          ((state.shared.nextCall, later.agents.head?.map fun call => (call.id, call.pc)),
            later.shared.arrays.length,
            decide ((system ⟨2, 2, 2, 1⟩).Permits
              (fun instant _ => instant.shared.PopReady ⟨2, 2, 2, 1⟩) begun overtaken),
            decide (later.shared.PopReady ⟨2, 2, 2, 1⟩))) =
        some ((2, some (2, .refused .pop)), 1, true, true) := by
    decide
  obtain ⟨state, written, rest⟩ := Option.bind_eq_some_iff.mp observed
  obtain ⟨begun, begins, rest⟩ := Option.bind_eq_some_iff.mp rest
  obtain ⟨later, ran, seen⟩ := Option.map_eq_some_iff.mp rest
  simp only [Prod.mk.injEq, decide_eq_true_eq] at seen
  obtain ⟨⟨number, refused⟩, arrays, ready, last⟩ := seen
  obtain ⟨⟨id, pc⟩, head, callIs⟩ := Option.map_eq_some_iff.mp refused
  cases callIs
  have member : ⟨state.shared.nextCall, .refused .pop⟩ ∈ later.agents := by
    rw [number]
    exact List.mem_of_head? head
  refine (honest ⟨2, 2, 2, 1⟩ state begun later overtaken (Reachable.init.run written) begins ran
    (by rw [arrays]; decide) .pop member).not_throughout (fun _ _ _ notReady => notReady) ?_
  intro front back instant split before _
  exact ready.of_prefix ran last split before

end ThreadPoolExec.MPMCQueue.Dynamic
