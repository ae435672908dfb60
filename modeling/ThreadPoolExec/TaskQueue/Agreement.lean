import ThreadPoolExec.TaskQueue.PriorityLifoSemSequential
import ThreadPoolExec.TaskQueue.PriorityUnbounded

/-!
# The two priority queues agree

One call at a time, both queues behave like entries that wait in the order of
their arrival, each with its clamped priority.
-/

set_option autoImplicit false

namespace ThreadPoolExec

open ArrivalOrder Interleaving

universe u

variable {τ : Type u}

namespace BlockingQueue

/-- The priority of an add. -/
def Operation.priority? : Operation τ → Option Int8
  | .add _ => some Executor.MID_PRI
  | .addWithPriority _ priority => some priority
  | _ => none

/-- A call on the entries that wait; `none` if it would wait for ever. -/
def arrivalStep (numPriorities : Nat) (waiting : List (Int × τ)) :
    Operation τ → Option (List (Int × τ) × Outcome τ)
  | .add item =>
      some (waiting ++ [(Executor.clampPriority numPriorities Executor.MID_PRI, item)], .added)
  | .addWithPriority item priority =>
      some (waiting ++ [(Executor.clampPriority numPriorities priority, item)], .added)
  | .take => (takeTop waiting).map fun taken => (taken.2, .taken (some taken.1))
  | .tryTakeFor | .tryTake =>
      match takeTop waiting with
      | some (item, rest) => some (rest, .taken (some item))
      | none => some (waiting, .taken none)

def arrivalRun (numPriorities : Nat) (waiting : List (Int × τ)) :
    List (Operation τ) → Option (List (Outcome τ))
  | [] => some []
  | operation :: rest =>
      match arrivalStep numPriorities waiting operation with
      | none => none
      | some (next, outcome) => (arrivalRun numPriorities next rest).map (outcome :: ·)

/-- No add comes to a level that holds its capacity. -/
def NeverExceeded (capacities : List Nat) (waiting : List (Int × τ)) :
    List (Operation τ) → Prop
  | [] => True
  | operation :: rest =>
      (∀ priority ∈ operation.priority?,
        (level waiting (Executor.clampPriority capacities.length priority)).length <
          capacities.getD
            (PriorityLifoSemMPMCQueue.queueIndex capacities.length priority).toNat 0) ∧
      ∀ taken ∈ arrivalStep capacities.length waiting operation,
        NeverExceeded capacities taken.1 rest

instance NeverExceeded.decidable (capacities : List Nat) (waiting : List (Int × τ))
    (operations : List (Operation τ)) : Decidable (NeverExceeded capacities waiting operations) :=
  match operations with
  | [] => .isTrue trivial
  | _ :: rest =>
      have := fun waiting => NeverExceeded.decidable capacities waiting rest
      inferInstanceAs (Decidable (_ ∧ _))

end BlockingQueue

open BlockingQueue

namespace PriorityLifoSemMPMCQueue

/-- The sub-queues have the given capacities. -/
def HasCapacities (queue : Queue τ) (capacities : List Nat) : Prop :=
  queue.queues.map (fun sub => sub.layout.capacity) = capacities

variable {queue : Queue τ} {waiting : List (Int × τ)} {capacities : List Nat}

theorem HasCapacities.set (has : HasCapacities queue capacities) {index : Nat} {sub : SubQueue τ}
    (found : queue.queues[index]? = some sub) (sem : Nat) (memory : MPMCQueue.Memory τ) :
    HasCapacities { queue with
      sem := sem
      queues := queue.queues.set index { sub with memory := memory } } capacities := by
  unfold HasCapacities at has ⊢
  obtain ⟨inside, rfl⟩ := List.getElem?_eq_some_iff.mp found
  simp only [List.map_set]
  rw [← has]
  refine List.ext_getElem (by simp) fun position small _ => ?_
  rw [List.getElem_set]
  split
  · next same =>
      subst same
      rw [List.getElem_map]
  · rfl

private theorem step_arrival (represents : Represents queue waiting)
    (has : HasCapacities queue capacities) (small : ∀ capacity ∈ capacities, capacity < 2 ^ 63)
    {operation : Operation τ}
    (room : ∀ priority, operation.priority? = some priority →
      (level waiting (Executor.clampPriority capacities.length priority)).length <
        capacities.getD (queueIndex capacities.length priority).toNat 0) :
    match arrivalStep capacities.length waiting operation with
    | none => queue.step operation = none
    | some (after, outcome) => ∃ next, queue.step operation = some (next, outcome) ∧
        Represents next after ∧ HasCapacities next capacities := by
  have length : queue.queues.length = capacities.length := by
    rw [← has, List.length_map]
  have add (item : τ) (priority : Int8) (isAdd : operation.priority? = some priority) :
      ∃ next, queue.addWithPriority item priority = some (next, .added) ∧
        Represents next
          (waiting ++ [(Executor.clampPriority capacities.length priority, item)]) ∧
        HasCapacities next capacities := by
    have fits := room priority isAdd
    obtain ⟨next, index, sub, found, rfl, added, after⟩ :=
      represents.add item priority fun sub found => by
        rw [represents.getNumPriorities, length] at found
        rw [length]
        have capacity : capacities.getD (queueIndex capacities.length priority).toNat 0 =
            sub.layout.capacity := by
          rw [← has, List.getD_eq_getElem?_getD, List.getElem?_map, List.length_map,
            length, found]
          rfl
        have given : sub.layout.capacity ∈ capacities :=
          has ▸ List.mem_map_of_mem (List.mem_of_getElem? found)
        exact ⟨small _ given, by omega⟩
    exact ⟨_, added, length ▸ after, has.set found _ _⟩
  cases operation with
  | add item => exact add item _ rfl
  | addWithPriority item priority => exact add item priority rfl
  | take =>
      rcases represents.take queue.sem with
        ⟨index, sub, item, rest, top, found, -, looped, after⟩ | ⟨empty, -, looped⟩
      · simp only [arrivalStep, top, Option.map_some, Queue.step, looped]
        exact ⟨_, rfl, after _, has.set found _ _⟩
      · simp only [arrivalStep, empty, Option.map_none, Queue.step, looped]
  | tryTakeFor =>
      rcases represents.take queue.sem with
        ⟨index, sub, item, rest, top, found, -, looped, after⟩ | ⟨empty, -, looped⟩
      · simp only [arrivalStep, top, Queue.step, looped]
        exact ⟨_, rfl, after _, has.set found _ _⟩
      · simp only [arrivalStep, empty, Queue.step, looped]
        exact ⟨_, rfl, represents.with_sem 0, has⟩
  | tryTake =>
      rcases represents.take queue.sem with
        ⟨index, sub, item, rest, top, found, taken, -, after⟩ | ⟨empty, nothing, -⟩
      · simp only [arrivalStep, top, Queue.step, taken]
        exact ⟨_, rfl, after _, has.set found _ _⟩
      · simp only [arrivalStep, empty, Queue.step, nothing]
        exact ⟨_, rfl, represents, has⟩

/-- The bounded queue answers as the entries that wait do. -/
theorem Represents.run (represents : Represents queue waiting)
    (has : HasCapacities queue capacities) (small : ∀ capacity ∈ capacities, capacity < 2 ^ 63)
    {operations : List (Operation τ)} (fits : NeverExceeded capacities waiting operations) :
    (queue.run operations).map Prod.snd = arrivalRun capacities.length waiting operations := by
  induction operations generalizing queue waiting with
  | nil => rfl
  | cons operation rest ih =>
      have stepped := step_arrival represents has small fits.1
      simp only [Queue.run, arrivalRun]
      cases arrives : arrivalStep capacities.length waiting operation with
      | none =>
          simp only [arrives] at stepped
          simp only [stepped, Option.map_none]
      | some reached =>
          obtain ⟨after, outcome⟩ := reached
          simp only [arrives] at stepped
          obtain ⟨next, stepped, holds, still⟩ := stepped
          have rests := ih holds still (fits.2 (after, outcome) arrives)
          simp only [stepped, ← rests, Option.map_map]
          rfl

end PriorityLifoSemMPMCQueue

namespace PriorityUnboundedBlockingQueue

/-! ## The unbounded queue, one call at a time -/

def invocation : Operation τ → Invocation τ
  | .add item => .add item
  | .addWithPriority item priority => .addWithPriority item priority
  | .take => .take .take
  | .tryTakeFor => .take .tryTakeFor
  | .tryTake => .take .tryTake

/-- How a call that has ended ended. -/
def Call.outcome? : Call τ → Option (Outcome τ)
  | .added => some .added
  | .returned item => some (.taken item)
  | .outOfRange | .terminated => some .aborted
  | _ => none

/-- A call alone, whose wait can only time out; `none` if it waits for ever. -/
def step (numPriorities : UInt8) (memory : Memory τ) (operation : Operation τ) :
    Option (Memory τ × Outcome τ) :=
  let ended := (system numPriorities).alone .timeout (memory.queue.length + 2) memory
    (invoke (invocation operation))
  ended.2.outcome?.map fun outcome => (ended.1, outcome)

def run (numPriorities : UInt8) (memory : Memory τ) :
    List (Operation τ) → Option (Memory τ × List (Outcome τ))
  | [] => some (memory, [])
  | operation :: rest =>
      match step numPriorities memory operation with
      | none => none
      | some (next, outcome) =>
          (run numPriorities next rest).map fun ended => (ended.1, outcome :: ended.2)

/-- The calls one by one are a schedule of the queue. -/
theorem reaches_run {numPriorities : UInt8} {first : Global (Memory τ) (Call τ)}
    {memory last : Memory τ} {calls : List (Call τ)} {operations : List (Operation τ)}
    {outcomes : List (Outcome τ)}
    (reached : Reaches (system numPriorities) anySchedule first ⟨memory, calls⟩)
    (ran : run numPriorities memory operations = some (last, outcomes)) :
    ∃ calls, Reaches (system numPriorities) anySchedule first ⟨last, calls⟩ := by
  induction operations generalizing memory calls outcomes with
  | nil =>
      cases ran
      exact ⟨calls, reached⟩
  | cons operation rest ih =>
      simp only [run] at ran
      split at ran
      · cases ran
      · next next outcome stepped =>
          obtain ⟨⟨after, others⟩, ranRest, same⟩ := Option.map_eq_some_iff.mp ran
          cases same
          obtain ⟨ended, -, same⟩ := Option.map_eq_some_iff.mp stepped
          cases same
          have invoked : (system numPriorities).step ⟨memory, calls⟩
              (.env (invocation operation)) =
              some ⟨memory, invoke (invocation operation) :: calls⟩ := rfl
          obtain ⟨steps, alone⟩ := (system numPriorities).run_alone .timeout
            (memory.queue.length + 2) memory (invoke (invocation operation)) calls
          exact ih ((reached.step trivial invoked).run alone) ranRest

/-- The priority of a level. -/
def keyOf (priorities index : Nat) : Int :=
  ((priorities : Int) + 1) / 2 - 1 - index

structure Represents (numPriorities : UInt8) (memory : Memory τ) (waiting : List (Int × τ)) :
    Prop where
  positive : 0 < numPriorities.toNat
  length : memory.queue.length = numPriorities.toNat
  levels : ∀ index items, memory.queue[index]? = some items →
    items = level waiting (keyOf numPriorities.toNat index)
  keys : ∀ entry ∈ waiting, ∃ index < numPriorities.toNat,
    entry.1 = keyOf numPriorities.toNat index
  sem : memory.sem = { value := waiting.length }

variable {numPriorities : UInt8} {memory : Memory τ} {waiting : List (Int × τ)}

theorem Represents.level? (represents : Represents numPriorities memory waiting)
    (priority : Int8) :
    ∃ index < memory.queue.length,
      PriorityUnboundedBlockingQueue.level? memory.queue.length priority = some index ∧
      keyOf numPriorities.toNat index = Executor.clampPriority numPriorities.toNat priority := by
  have small : numPriorities.toNat < 256 := numPriorities.toNat_lt
  have bounds := translatePriority_bounds represents.positive small priority
  have same := translatePriority_eq represents.positive small priority
  refine ⟨(translatePriority numPriorities.toNat priority).toNat, ?_, ?_, ?_⟩
  · rw [represents.length]
    omega
  · rw [represents.length, PriorityUnboundedBlockingQueue.level?, if_pos bounds]
  · unfold keyOf
    omega

theorem Represents.push (represents : Represents numPriorities memory waiting) (item : τ)
    {index : Nat} {key : Int} (inside : index < memory.queue.length)
    (same : keyOf numPriorities.toNat index = key) :
    Represents numPriorities
      { memory with
        sem := { value := waiting.length + 1 }
        queue := Levels.push memory.queue index item }
      (waiting ++ [(key, item)]) where
  positive := represents.positive
  length := by simpa only [Levels.length_push] using represents.length
  levels position items found := by
    simp only [Levels.push, List.getElem?_modify] at found
    obtain ⟨before, present, rfl⟩ := Option.map_eq_some_iff.mp found
    have level := represents.levels position before present
    rw [level_append_singleton, ← same]
    by_cases here : index = position
    · rw [if_pos here, if_pos (by rw [here]), level]
    · rw [if_neg here, if_neg, level]
      unfold keyOf
      omega
  keys entry member := by
    rcases List.mem_append.mp member with before | added
    · exact represents.keys entry before
    · rw [List.mem_singleton.mp added, ← same]
      exact ⟨index, represents.length ▸ inside, rfl⟩
  sem := by simp

theorem Represents.add (represents : Represents numPriorities memory waiting) (item : τ)
    (priority : Int8) :
    ∃ next, (system numPriorities).alone .timeout (memory.queue.length + 2) memory
        (.addWithPriority item priority) = (next, .added) ∧
      Represents numPriorities next
        (waiting ++ [(Executor.clampPriority numPriorities.toNat priority, item)]) := by
  obtain ⟨index, inside, found, key⟩ := represents.level? priority
  refine ⟨_, ?_, represents.push item inside key⟩
  have enqueued : (system numPriorities).act .timeout memory (.addWithPriority item priority) =
      some ({ memory with queue := Levels.push memory.queue index item }, [.post]) := by
    simp only [system, act, found]
  have posted : (system numPriorities).act .timeout
      { memory with queue := Levels.push memory.queue index item } .post =
        some ({ memory with
          sem := { value := waiting.length + 1 }
          queue := Levels.push memory.queue index item }, [.added]) := by
    simp [system, act, CountingSemaphore.post, represents.sem]
  rw [System.alone_step enqueued, System.alone_step posted, System.alone_ended rfl]

/-- While something waits, not every level has been probed in vain. -/
theorem Represents.probing (represents : Represents numPriorities memory waiting)
    {position : Nat}
    (passed : ∀ index < position, level waiting (keyOf numPriorities.toNat index) = [])
    {taken : τ × List (Int × τ)} (top : takeTop waiting = some taken) :
    position < memory.queue.length := by
  by_contra outside
  have empty : takeTop waiting = none := takeTop_of_empty fun key => by
    rw [level_eq_nil_iff]
    intro entry member same
    obtain ⟨index, small, key⟩ := represents.keys entry member
    have length := represents.length
    exact level_eq_nil_iff.mp (passed index (by omega)) entry member key
  rw [empty] at top
  cases top

/-- A taker past the semaphore finds what leaves next. -/
theorem Represents.scan (represents : Represents numPriorities memory waiting) {position : Nat}
    (sem : CountingSemaphore)
    (passed : ∀ index < position, level waiting (keyOf numPriorities.toNat index) = [])
    {item : τ} {rest : List (Int × τ)} (top : takeTop waiting = some (item, rest)) (fuel : Nat)
    (enough : memory.queue.length < position + fuel) :
    ∃ queue, (system numPriorities).alone .timeout fuel { memory with sem := sem }
        (.tryDequeue position) = ({ sem := sem, queue := queue }, .returned (some item)) ∧
      Represents numPriorities { sem := { value := rest.length }, queue := queue } rest := by
  have inside := represents.probing passed top
  induction fuel generalizing position with
  | zero => omega
  | succ fuel ih =>
      have here : memory.queue[position]? = some memory.queue[position] :=
        List.getElem?_eq_getElem inside
      have same := represents.levels position _ here
      cases waits : memory.queue[position] with
      | nil =>
          rw [waits] at here same
          have nothing : Levels.pop memory.queue position = none :=
            Levels.pop_eq_none_iff.mpr (.inr here)
          have probed : (system numPriorities).act .timeout { memory with sem := sem }
              (.tryDequeue position) =
                some ({ memory with sem := sem }, [.tryDequeue (position + 1)]) := by
            simp only [system, act, inside, if_true, nothing]
          have passedNext : ∀ index < position + 1,
              level waiting (keyOf numPriorities.toNat index) = [] := by
            intro index before
            rcases Nat.lt_or_eq_of_le (Nat.le_of_lt_succ before) with earlier | rfl
            · exact passed index earlier
            · exact same.symm
          rw [System.alone_step probed]
          exact ih passedNext (by omega) (represents.probing passedNext top)
      | cons head tail =>
          rw [waits] at here same
          have found : Levels.pop memory.queue position =
              some (head, memory.queue.set position tail) :=
            Levels.pop_eq_some_iff.mpr ⟨tail, here, rfl⟩
          have probed : (system numPriorities).act .timeout { memory with sem := sem }
              (.tryDequeue position) =
                some ({ sem := sem, queue := memory.queue.set position tail },
                  [.returned (some head)]) := by
            simp only [system, act, inside, if_true, found]
          have next := takeTop_of_level same.symm fun higher greater => by
            rw [level_eq_nil_iff]
            intro entry member equal
            obtain ⟨index, small, key⟩ := represents.keys entry member
            have earlier : index < position := by
              unfold keyOf at greater key
              omega
            exact level_eq_nil_iff.mp (passed index earlier) entry member key
          cases Option.some.inj (top.symm.trans next)
          refine ⟨memory.queue.set position tail, ?_, represents.positive, ?_, ?_, ?_, rfl⟩
          · rw [System.alone_step probed, System.alone_ended rfl]
          · simpa only [List.length_set] using represents.length
          · intro index items present
            rw [level_eraseP same.symm]
            rw [List.getElem?_set] at present
            by_cases equal : position = index
            · subst equal
              simpa [inside] using present.symm
            · rw [if_neg equal] at present
              rw [if_neg (by unfold keyOf; omega)]
              exact represents.levels index items present
          · intro entry member
            exact represents.keys entry (List.mem_of_mem_eraseP member)

/-- A taker that waits first, when something waits for it. -/
theorem Represents.take (represents : Represents numPriorities memory waiting) (kind : Take)
    {item : τ} {rest : List (Int × τ)} (top : takeTop waiting = some (item, rest)) :
    ∃ next, (system numPriorities).alone .timeout (memory.queue.length + 2) memory
        (.semWait kind) = (next, .returned (some item)) ∧
      Represents numPriorities next rest := by
  have shorter := length_takeTop top
  have waited : (system numPriorities).act .timeout memory (.semWait kind) =
      some ({ memory with sem := { value := rest.length } }, [.tryDequeue 0]) := by
    simp [system, act, CountingSemaphore.tryWait, represents.sem, ← shorter]
  obtain ⟨queue, ran, after⟩ := represents.scan { value := rest.length }
    (fun index early => absurd early (Nat.not_lt_zero index)) top (memory.queue.length + 1)
    (by omega)
  exact ⟨_, (System.alone_step waited _).trans ran, after⟩

/-- Without an item a waiting call goes to sleep. -/
private theorem semWait_empty {kind : Take} (waits : kind ≠ .tryTake)
    (empty : memory.sem = {}) :
    (system numPriorities).act .timeout memory (.semWait kind) =
      some ({ memory with sem := { sleeping := 1 } }, [.asleep kind]) := by
  simp [system, act, CountingSemaphore.tryWait, CountingSemaphore.sleep, empty, waits]

private theorem step_arrival (represents : Represents numPriorities memory waiting)
    (operation : Operation τ) :
    match arrivalStep numPriorities.toNat waiting operation with
    | none => step numPriorities memory operation = none
    | some (after, outcome) => ∃ next, step numPriorities memory operation = some (next, outcome) ∧
        Represents numPriorities next after := by
  cases operation with
  | add item =>
      obtain ⟨next, ran, after⟩ := represents.add item Executor.MID_PRI
      exact ⟨next, by simp only [step, invocation, invoke, ran, Call.outcome?, Option.map_some],
        after⟩
  | addWithPriority item priority =>
      obtain ⟨next, ran, after⟩ := represents.add item priority
      exact ⟨next, by simp only [step, invocation, invoke, ran, Call.outcome?, Option.map_some],
        after⟩
  | take =>
      cases top : takeTop waiting with
      | none =>
          have empty : memory.sem = {} := by
            rw [represents.sem, takeTop_eq_none top]
            rfl
          have ran : (system numPriorities).alone .timeout (memory.queue.length + 2) memory
              (.semWait .take) = ({ memory with sem := { sleeping := 1 } }, .asleep .take) := by
            rw [System.alone_step (semWait_empty (by decide : Take.take ≠ .tryTake) empty),
              System.alone_ended rfl]
          simp only [arrivalStep, top, Option.map_none]
          simp only [step, invocation, invoke, ran, Call.outcome?, Option.map_none]
      | some taken =>
          obtain ⟨next, ran, after⟩ := represents.take .take top
          simp only [arrivalStep, top, Option.map_some]
          exact ⟨next, by simp only [step, invocation, invoke, ran, Call.outcome?, Option.map_some],
            after⟩
  | tryTakeFor =>
      cases top : takeTop waiting with
      | none =>
          have empty : memory.sem = {} := by
            rw [represents.sem, takeTop_eq_none top]
            rfl
          have expired : (system numPriorities).act .timeout
              { memory with sem := { sleeping := 1 } } (.asleep .tryTakeFor) =
                some (memory, [.returned none]) := by
            simp [system, act, CountingSemaphore.endWait, CountingSemaphore.timeout, ← empty]
          have ran : (system numPriorities).alone .timeout (memory.queue.length + 2) memory
              (.semWait .tryTakeFor) = (memory, .returned none) := by
            rw [System.alone_step (semWait_empty (by decide : Take.tryTakeFor ≠ .tryTake) empty),
              System.alone_step expired, System.alone_ended rfl]
          simp only [arrivalStep, top]
          exact ⟨memory, by simp only [step, invocation, invoke, ran, Call.outcome?,
            Option.map_some], represents⟩
      | some taken =>
          obtain ⟨next, ran, after⟩ := represents.take .tryTakeFor top
          simp only [arrivalStep, top]
          exact ⟨next, by simp only [step, invocation, invoke, ran, Call.outcome?, Option.map_some],
            after⟩
  | tryTake =>
      cases top : takeTop waiting with
      | none =>
          have empty : memory.sem = {} := by
            rw [represents.sem, takeTop_eq_none top]
            rfl
          have failed : (system numPriorities).act .timeout memory (.semWait .tryTake) =
              some (memory, [.returned none]) := by
            simp [system, act, CountingSemaphore.tryWait, empty]
          have ran : (system numPriorities).alone .timeout (memory.queue.length + 2) memory
              (.semWait .tryTake) = (memory, .returned none) := by
            rw [System.alone_step failed, System.alone_ended rfl]
          simp only [arrivalStep, top]
          exact ⟨memory, by simp only [step, invocation, invoke, ran, Call.outcome?,
            Option.map_some], represents⟩
      | some taken =>
          obtain ⟨next, ran, after⟩ := represents.take .tryTake top
          simp only [arrivalStep, top]
          exact ⟨next, by simp only [step, invocation, invoke, ran, Call.outcome?, Option.map_some],
            after⟩

/-- The unbounded queue answers as the entries that wait do. -/
theorem Represents.run (represents : Represents numPriorities memory waiting)
    {operations : List (Operation τ)} :
    (PriorityUnboundedBlockingQueue.run numPriorities memory operations).map Prod.snd =
      arrivalRun numPriorities.toNat waiting operations := by
  induction operations generalizing memory waiting with
  | nil => rfl
  | cons operation rest ih =>
      have stepped := step_arrival represents operation
      simp only [PriorityUnboundedBlockingQueue.run, arrivalRun]
      cases arrives : arrivalStep numPriorities.toNat waiting operation with
      | none =>
          simp only [arrives] at stepped
          simp only [stepped, Option.map_none]
      | some reached =>
          obtain ⟨after, outcome⟩ := reached
          simp only [arrives] at stepped
          obtain ⟨next, stepped, holds⟩ := stepped
          have rests := ih holds
          simp only [stepped, ← rests, Option.map_map]
          rfl

end PriorityUnboundedBlockingQueue

namespace PriorityLifoSemMPMCQueue

/-- The arrays of the sub-queues have all their slots. -/
def Allocated (kSlotPadding : Nat) (capacities : List Nat) : Prop :=
  ∀ capacity ∈ capacities, (⟨capacity, kSlotPadding⟩ : MPMCQueue.Layout).Allocated

end PriorityLifoSemMPMCQueue

end ThreadPoolExec
