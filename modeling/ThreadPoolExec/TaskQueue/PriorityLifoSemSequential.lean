import ThreadPoolExec.ArrivalOrder
import ThreadPoolExec.MPMCQueue.Sequential
import ThreadPoolExec.TaskQueue.Priority
import Mathlib.Algebra.BigOperators.Group.List.Basic

/-!
# The bounded priority queue, one call at a time

`PriorityLifoSemMPMCQueue` over its own sub-queues, with its two constructors,
for calls that no other call interrupts.
-/

set_option autoImplicit false

namespace ThreadPoolExec.PriorityLifoSemMPMCQueue

open ArrivalOrder BlockingQueue
open MPMCQueue (Layout Window solo)

universe u

variable {τ : Type u}

/-- One `MPMCQueue`. -/
structure SubQueue (τ : Type u) where
  layout : Layout
  memory : MPMCQueue.Memory τ := {}

/-- `sem_` by its value: alone, no call sleeps on it. -/
structure Queue (τ : Type u) where
  behavior : QueueBehaviorIfFull
  sem : Nat := 0
  queues : List (SubQueue τ)

def Queue.getNumPriorities (queue : Queue τ) : UInt8 :=
  queue.queues.length.toUInt8

/-- The write of `addWithPriority`, with what `writeIfNotFull` returns; a
blocking write that has to wait does not return. -/
def SubQueue.write (sub : SubQueue τ) (behavior : QueueBehaviorIfFull) (item : τ) :
    Option (SubQueue τ × Bool) :=
  match behavior with
  | .throw =>
      match solo sub.layout sub.memory (.writeIfNotFull item) with
      | (memory, .wrote _ _) => some ({ sub with memory := memory }, true)
      | (memory, .refused _) => some ({ sub with memory := memory }, false)
      | _ => none
  | .block =>
      match solo sub.layout sub.memory (.blockingWrite item) with
      | (memory, .wrote _ _) => some ({ sub with memory := memory }, true)
      | _ => none

def Queue.addWithPriority (queue : Queue τ) (item : τ) (priority : Int8) :
    Option (Queue τ × Outcome τ) :=
  let index := (queueIndex queue.getNumPriorities.toNat priority).toNat
  match queue.queues[index]? with
  | none => some (queue, .aborted)
  | some sub =>
      match sub.write queue.behavior item with
      | none => none
      | some (sub, true) =>
          some ({ queue with sem := queue.sem + 1, queues := queue.queues.set index sub }, .added)
      | some (sub, false) => some ({ queue with queues := queue.queues.set index sub }, .queueFull)

/-- The loop of `nonBlockingTake`, over the sub-queues before a position, the
last one first. -/
def nonBlockingTake (queues : List (SubQueue τ)) : Nat → Option (τ × List (SubQueue τ))
  | 0 => none
  | index + 1 =>
      match queues[index]? with
      | none => none
      | some sub =>
          match solo sub.layout sub.memory .readIfNotEmpty with
          | (memory, .read _ item) => some (item, queues.set index { sub with memory := memory })
          | (memory, _) => nonBlockingTake (queues.set index { sub with memory := memory }) index

/-- The loop of `take` and `try_take_for`: without an item it passes on a
raised value of the semaphore, and without such a value it would wait. -/
def waitLoop (queues : List (SubQueue τ)) : Nat → Nat × Option (τ × List (SubQueue τ))
  | 0 => (0, nonBlockingTake queues queues.length)
  | sem + 1 =>
      match nonBlockingTake queues queues.length with
      | some taken => (sem + 1, some taken)
      | none => waitLoop queues sem

/-- A call alone; `none` if it would wait for ever. -/
def Queue.step (queue : Queue τ) : BlockingQueue.Operation τ → Option (Queue τ × Outcome τ)
  | .add item => queue.addWithPriority item Executor.MID_PRI
  | .addWithPriority item priority => queue.addWithPriority item priority
  | .take =>
      match waitLoop queue.queues queue.sem with
      | (sem, some (item, queues)) =>
          some ({ queue with sem := sem, queues := queues }, .taken (some item))
      | (_, none) => none
  | .tryTakeFor =>
      match waitLoop queue.queues queue.sem with
      | (sem, some (item, queues)) =>
          some ({ queue with sem := sem, queues := queues }, .taken (some item))
      | (sem, none) => some ({ queue with sem := sem }, .taken none)
  | .tryTake =>
      match nonBlockingTake queue.queues queue.queues.length with
      | some (item, queues) => some ({ queue with queues := queues }, .taken (some item))
      | none => some (queue, .taken none)

def Queue.run (queue : Queue τ) : List (BlockingQueue.Operation τ) → Option (Queue τ × List (Outcome τ))
  | [] => some (queue, [])
  | operation :: rest =>
      match queue.step operation with
      | none => none
      | some (next, outcome) =>
          (Queue.run next rest).map fun ended => (ended.1, outcome :: ended.2)

def Queue.size (queue : Queue τ) : Int :=
  (queue.queues.map fun sub => sub.memory.size).sum

/-! ## Construction -/

/-- What the constructor of a sub-queue throws: it does not take capacity zero,
and no array has 2^63 slots. -/
inductive ConstructionError where
  | invalidArgument
  | badArrayNewLength
deriving DecidableEq, Repr

/-- `MPMCQueue(capacity)`. -/
def SubQueue.construct (kSlotPadding capacity : Nat) : Except ConstructionError (SubQueue τ) :=
  if capacity = 0 then .error .invalidArgument
  else if 2 ^ 63 ≤ MPMCQueue.slotCount kSlotPadding capacity then .error .badArrayNewLength
  else .ok { layout := ⟨capacity, kSlotPadding⟩ }

inductive Construction (τ : Type u) where
  /-- `CHECK_GT(numPriorities, 0)`. -/
  | aborted
  | thrown (error : ConstructionError)
  | running
  | constructed (queue : Queue τ)

/-- The loop `for (int8_t i = 0; i < numPriorities; i++)`, for so many rounds.
The counter wraps. -/
def constructLoop (numPriorities : UInt8) (sub : SubQueue τ) :
    Nat → Int8 → List (SubQueue τ) → Option (List (SubQueue τ))
  | 0, _, _ => none
  | rounds + 1, i, queues =>
      if i.toInt < numPriorities.toNat then
        constructLoop numPriorities sub rounds (i + 1) (queues ++ [sub])
      else some queues

/-- `PriorityLifoSemMPMCQueue(numPriorities, max_capacity)` after so many
rounds of its loop. -/
def construct (behavior : QueueBehaviorIfFull) (kSlotPadding : Nat) (numPriorities : UInt8)
    (maxCapacity : Nat) (rounds : Nat) : Construction τ :=
  if numPriorities = 0 then .aborted
  else
    match SubQueue.construct kSlotPadding maxCapacity with
    | .error error => .thrown error
    | .ok sub =>
        match constructLoop numPriorities sub rounds 0 [] with
        | none => .running
        | some queues => .constructed { behavior := behavior, queues := queues }

/-- The priority of a sub-queue, by its position. -/
def keyOf (numPriorities index : Nat) : Int :=
  (index : Int) - numPriorities / 2

/-- The sub-queues hold the items that wait, each one those of its priority. -/
structure Represents (queue : Queue τ) (waiting : List (Int × τ)) : Prop where
  positive : 0 < queue.queues.length
  few : queue.queues.length < 256
  levels : ∀ index sub, queue.queues[index]? = some sub →
    Window sub.layout sub.memory (level waiting (keyOf queue.queues.length index))
  keys : ∀ entry ∈ waiting, ∃ index < queue.queues.length,
    entry.1 = keyOf queue.queues.length index

variable {queue : Queue τ} {waiting : List (Int × τ)}

theorem Represents.getNumPriorities (represents : Represents queue waiting) :
    queue.getNumPriorities.toNat = queue.queues.length := by
  have few := represents.few
  unfold Queue.getNumPriorities
  rw [Nat.toUInt8_eq, UInt8.toNat_ofNat']
  exact Nat.mod_eq_of_lt few

/-- The sub-queue of a priority is there, and it is the one of its key. -/
theorem Represents.sub (represents : Represents queue waiting) (priority : Int8) :
    ∃ index sub, (queueIndex queue.getNumPriorities.toNat priority).toNat = index ∧
      queue.queues[index]? = some sub ∧
      keyOf queue.queues.length index =
        Executor.clampPriority queue.queues.length priority ∧
      Window sub.layout sub.memory
        (level waiting (Executor.clampPriority queue.queues.length priority)) := by
  have bounds := queueIndex_bounds represents.positive priority
  have same := queueIndex_eq represents.positive priority
  have inside : (queueIndex queue.queues.length priority).toNat < queue.queues.length := by omega
  have key : keyOf queue.queues.length (queueIndex queue.queues.length priority).toNat =
      Executor.clampPriority queue.queues.length priority := by
    unfold keyOf
    omega
  rw [represents.getNumPriorities]
  refine ⟨_, queue.queues[(queueIndex queue.queues.length priority).toNat], rfl,
    List.getElem?_eq_getElem inside, key, ?_⟩
  rw [← key]
  exact represents.levels _ _ (List.getElem?_eq_getElem inside)

/-- One sub-queue and its level change together. -/
theorem Represents.set {index : Nat} {sub : SubQueue τ} {after : List (Int × τ)} {sem : Nat}
    (represents : Represents queue waiting) (inside : index < queue.queues.length)
    (changed : Window sub.layout sub.memory (level after (keyOf queue.queues.length index)))
    (others : ∀ key, key ≠ keyOf queue.queues.length index → level after key = level waiting key)
    (keys : ∀ entry ∈ after, ∃ index < queue.queues.length,
      entry.1 = keyOf queue.queues.length index) :
    Represents { queue with sem := sem, queues := queue.queues.set index sub } after := by
  refine ⟨?_, ?_, fun position found at_ => ?_, ?_⟩
  · simpa using represents.positive
  · simpa using represents.few
  · simp only [List.length_set]
    rw [List.getElem?_set] at at_
    split at at_
    · next same =>
        subst same
        exact Option.some.inj at_ ▸ changed
    · next different =>
        rw [others]
        · exact represents.levels position found at_
        · unfold keyOf
          omega
  · simpa only [List.length_set] using keys

theorem SubQueue.write_room {sub : SubQueue τ} {items : List τ}
    (window : Window sub.layout sub.memory items) (small : sub.layout.capacity < 2 ^ 63)
    (room : items.length < sub.layout.capacity) (behavior : QueueBehaviorIfFull) (item : τ) :
    sub.write behavior item =
      some ({ sub with memory := sub.memory.written sub.layout item }, true) := by
  cases behavior with
  | throw => simp only [SubQueue.write, MPMCQueue.solo_writeIfNotFull window small room]
  | block => simp only [SubQueue.write, MPMCQueue.solo_blockingWrite window room]

theorem SubQueue.write_full {sub : SubQueue τ}
    (test : MPMCQueue.full sub.layout.capacity sub.memory.pushTicket sub.memory.popTicket = true)
    (item : τ) : sub.write .throw item = some (sub, false) := by
  simp only [SubQueue.write, MPMCQueue.solo_writeIfNotFull_full test]

/-! ## The calls -/

/-- The keys that a queue with so many sub-queues uses. -/
theorem exists_key {numPriorities : Nat} (positive : 0 < numPriorities) (priority : Int8) :
    ∃ index < numPriorities,
      Executor.clampPriority numPriorities priority = keyOf numPriorities index := by
  have bounds := Executor.clampPriority_bounds positive priority
  refine ⟨(Executor.clampPriority numPriorities priority + numPriorities / 2).toNat, ?_, ?_⟩
  · omega
  · unfold keyOf
    omega

/-- An add to a level with room. -/
theorem Represents.add (represents : Represents queue waiting) (item : τ) (priority : Int8)
    (room : ∀ sub, queue.queues[(queueIndex queue.getNumPriorities.toNat priority).toNat]? =
      some sub → sub.layout.capacity < 2 ^ 63 ∧ (level waiting
        (Executor.clampPriority queue.queues.length priority)).length < sub.layout.capacity) :
    ∃ next index sub, queue.queues[index]? = some sub ∧
      next = { queue with
        sem := queue.sem + 1
        queues := queue.queues.set index
          { sub with memory := sub.memory.written sub.layout item } } ∧
      queue.addWithPriority item priority = some (next, .added) ∧
      Represents next
        (waiting ++ [(Executor.clampPriority queue.queues.length priority, item)]) := by
  obtain ⟨index, sub, rfl, found, key, window⟩ := represents.sub priority
  have inside := (List.getElem?_eq_some_iff.mp found).1
  obtain ⟨small, fits⟩ := room sub found
  have written := SubQueue.write_room window small fits queue.behavior item
  refine ⟨_, _, sub, found, rfl, ?_, represents.set inside ?_ ?_ ?_⟩
  · simp only [Queue.addWithPriority, found, written]
  · rw [key, level_append_singleton, if_pos rfl]
    exact window.written fits item
  · intro other different
    rw [key] at different
    rw [level_append_singleton, if_neg fun same => different same.symm]
  · intro entry member
    rcases List.mem_append.mp member with before | added
    · exact represents.keys entry before
    · rw [List.mem_singleton.mp added]
      exact exists_key represents.positive priority

/-- An add to a full level of a throwing queue. -/
theorem Represents.add_full (represents : Represents queue waiting) (item : τ) (priority : Int8)
    (throws : queue.behavior = .throw) {sub : SubQueue τ}
    (found : queue.queues[(queueIndex queue.getNumPriorities.toNat priority).toNat]? = some sub)
    (full : (level waiting
      (Executor.clampPriority queue.queues.length priority)).length = sub.layout.capacity) :
    queue.addWithPriority item priority = some (queue, .queueFull) := by
  obtain ⟨index, other, rfl, same, -, window⟩ := represents.sub priority
  obtain rfl : sub = other := Option.some.inj (found.symm.trans same)
  obtain ⟨inside, here⟩ := List.getElem?_eq_some_iff.mp found
  have written := SubQueue.write_full (window.full full) item
  rw [← throws] at written
  simp only [Queue.addWithPriority, found, written]
  rw [← here, List.set_getElem_self]

/-- What a scan finds when nothing waits from a position on. -/
theorem Represents.scan (represents : Represents queue waiting) {position : Nat}
    (above : ∀ index, position ≤ index → index < queue.queues.length →
      level waiting (keyOf queue.queues.length index) = [])
    (inside : position ≤ queue.queues.length) :
    (∃ index sub item rest, takeTop waiting = some (item, rest) ∧
      queue.queues[index]? = some sub ∧
      nonBlockingTake queue.queues position = some (item, queue.queues.set index
        { sub with memory := sub.memory.readOut sub.layout }) ∧
      (∀ sem, Represents { queue with
        sem := sem
        queues := queue.queues.set index
          { sub with memory := sub.memory.readOut sub.layout } } rest)) ∨
    takeTop waiting = none ∧ nonBlockingTake queue.queues position = none := by
  induction position with
  | zero =>
      refine .inr ⟨takeTop_of_empty fun key => ?_, rfl⟩
      rw [level_eq_nil_iff]
      intro entry member same
      obtain ⟨index, small, key⟩ := represents.keys entry member
      exact level_eq_nil_iff.mp (above index (Nat.zero_le _) small) entry member key
  | succ position ih =>
      have here : queue.queues[position]? = some queue.queues[position] :=
        List.getElem?_eq_getElem inside
      have window := represents.levels position _ here
      cases waits : level waiting (keyOf queue.queues.length position) with
      | nil =>
          rw [waits] at window
          have refused := MPMCQueue.solo_readIfNotEmpty_empty window
          have unchanged : nonBlockingTake queue.queues (position + 1) =
              nonBlockingTake queue.queues position := by
            simp only [nonBlockingTake, here, refused]
            rw [List.set_getElem_self]
          rw [unchanged]
          refine ih (fun index later small => ?_) (Nat.le_of_succ_le inside)
          rcases Nat.lt_or_eq_of_le later with after | rfl
          · exact above index after small
          · exact waits
      | cons item rest =>
          rw [waits] at window
          have read := MPMCQueue.solo_readIfNotEmpty window
          have top := takeTop_of_level waits fun higher greater => by
            rw [level_eq_nil_iff]
            intro entry member same
            obtain ⟨index, small, key⟩ := represents.keys entry member
            have later : position + 1 ≤ index := by
              unfold keyOf at greater key
              omega
            exact level_eq_nil_iff.mp (above index later small) entry member key
          refine .inl ⟨position, _, item, _, top, here, ?_, fun sem => ?_⟩
          · simp only [nonBlockingTake, here, read]
          · refine represents.set inside ?_ (fun key different => ?_) fun entry member => ?_
            · rw [level_eraseP waits, if_pos rfl]
              exact window.readOut
            · rw [level_eraseP waits, if_neg different]
            · exact represents.keys entry (List.mem_of_mem_eraseP member)

/-- With its loop over the semaphore, a take finds the same. -/
theorem Represents.take (represents : Represents queue waiting) (sem : Nat) :
    (∃ index sub item rest, takeTop waiting = some (item, rest) ∧
      queue.queues[index]? = some sub ∧
      nonBlockingTake queue.queues queue.queues.length = some (item, queue.queues.set index
        { sub with memory := sub.memory.readOut sub.layout }) ∧
      waitLoop queue.queues sem = (sem, some (item, queue.queues.set index
        { sub with memory := sub.memory.readOut sub.layout })) ∧
      (∀ sem, Represents { queue with
        sem := sem
        queues := queue.queues.set index
          { sub with memory := sub.memory.readOut sub.layout } } rest)) ∨
    takeTop waiting = none ∧ nonBlockingTake queue.queues queue.queues.length = none ∧
      waitLoop queue.queues sem = (0, none) := by
  have outside : ∀ index, queue.queues.length ≤ index → index < queue.queues.length →
      level waiting (keyOf queue.queues.length index) = [] :=
    fun index later small => absurd small (Nat.not_lt.mpr later)
  rcases represents.scan outside (Nat.le_refl _) with
    ⟨index, sub, item, rest, top, found, taken, after⟩ | ⟨empty, nothing⟩
  · refine .inl ⟨index, sub, item, rest, top, found, taken, ?_, after⟩
    cases sem with
    | zero => simp only [waitLoop, taken]
    | succ sem => simp only [waitLoop, taken]
  · refine .inr ⟨empty, nothing, ?_⟩
    induction sem with
    | zero => simp only [waitLoop, nothing]
    | succ sem ih => simp only [waitLoop, nothing, ih]

theorem Represents.with_sem (represents : Represents queue waiting) (sem : Nat) :
    Represents { queue with sem := sem } waiting :=
  ⟨represents.positive, represents.few, represents.levels, represents.keys⟩

private theorem sum_indicator (own count : Nat) :
    ((List.range count).map fun index => if own = index then (1 : Int) else 0).sum =
      if own < count then 1 else 0 := by
  induction count with
  | zero => simp
  | succ count ih =>
      rw [List.range_succ, List.map_append, List.sum_append, ih]
      simp only [List.map_cons, List.map_nil, List.sum_singleton]
      split_ifs <;> omega

/-- Every item that waits is in one of the levels. -/
theorem sum_levels (numPriorities : Nat) {waiting : List (Int × τ)}
    (keys : ∀ entry ∈ waiting, ∃ index < numPriorities, entry.1 = keyOf numPriorities index) :
    ((List.range numPriorities).map fun index =>
      ((level waiting (keyOf numPriorities index)).length : Int)).sum = waiting.length := by
  induction waiting with
  | nil => simp
  | cons entry rest ih =>
      obtain ⟨own, small, key⟩ := keys entry List.mem_cons_self
      have split (index : Nat) :
          ((level (entry :: rest) (keyOf numPriorities index)).length : Int) =
            (level rest (keyOf numPriorities index)).length + if own = index then 1 else 0 := by
        have same : entry.1 = keyOf numPriorities index ↔ own = index := by
          rw [key]
          unfold keyOf
          omega
        rw [level_cons]
        by_cases equal : own = index
        · rw [if_pos (same.mpr equal), if_pos equal, List.length_cons]
          rfl
        · rw [if_neg fun other => equal (same.mp other), if_neg equal, Int.add_zero]
      have rest := ih fun entry member => keys entry (List.mem_cons_of_mem _ member)
      simp only [split]
      rw [List.sum_map_add, rest, sum_indicator, if_pos small, List.length_cons]
      omega

/-- `size()` counts the items that wait. -/
theorem Represents.size (represents : Represents queue waiting) :
    queue.size = waiting.length := by
  rw [← sum_levels queue.queues.length represents.keys]
  unfold Queue.size
  congr 1
  refine List.ext_getElem (by simp) fun index inside _ => ?_
  rw [List.length_map] at inside
  rw [List.getElem_map, List.getElem_map, List.getElem_range]
  exact (represents.levels index _ (List.getElem?_eq_getElem inside)).size

/-! ## The throwing queue of one capacity -/

structure Uniform (numPriorities maxCapacity : Nat) (queue : Queue τ) : Prop where
  small : maxCapacity < 2 ^ 63
  throws : queue.behavior = .throw
  length : queue.queues.length = numPriorities
  capacity : ∀ (index : Nat) (sub : SubQueue τ), queue.queues[index]? = some sub →
    sub.layout.capacity = maxCapacity

variable {numPriorities maxCapacity : Nat}

theorem Uniform.set (uniform : Uniform numPriorities maxCapacity queue) {index : Nat}
    {sub : SubQueue τ} (found : queue.queues[index]? = some sub) (sem : Nat)
    (memory : MPMCQueue.Memory τ) :
    Uniform numPriorities maxCapacity { queue with
      sem := sem
      queues := queue.queues.set index { sub with memory := memory } } where
  small := uniform.small
  throws := uniform.throws
  length := by simpa only [List.length_set] using uniform.length
  capacity position other at_ := by
    have inside := (List.getElem?_eq_some_iff.mp found).1
    simp only [List.getElem?_set] at at_
    split at at_
    · rw [← Option.some.inj at_]
      exact uniform.capacity index sub found
    · exact uniform.capacity position other at_

/-- An add stores the item unless its level is full, and then it throws and
changes nothing. -/
theorem Uniform.addWithPriority (uniform : Uniform numPriorities maxCapacity queue)
    (represents : Represents queue waiting) (item : τ) (priority : Int8) :
    ∃ sub, queue.queues[(queueIndex queue.getNumPriorities.toNat priority).toNat]? = some sub ∧
      (sub.memory.size = maxCapacity ∧
          queue.addWithPriority item priority = some (queue, .queueFull) ∨
        sub.memory.size ≠ maxCapacity ∧ ∃ next,
          queue.addWithPriority item priority = some (next, .added) ∧
          Uniform numPriorities maxCapacity next ∧
          Represents next
            (waiting ++ [(Executor.clampPriority queue.queues.length priority, item)])) := by
  obtain ⟨index, sub, rfl, found, -, window⟩ := represents.sub priority
  have capacity := uniform.capacity _ sub found
  have size := window.size
  have bounded := window.bounded
  refine ⟨sub, found, ?_⟩
  by_cases full : sub.memory.size = maxCapacity
  · exact .inl ⟨full, represents.add_full item priority uniform.throws found (by omega)⟩
  · obtain ⟨next, position, other, present, rfl, added, after⟩ :=
      represents.add item priority fun other same => by
        obtain rfl : sub = other := Option.some.inj (found.symm.trans same)
        have small := uniform.small
        omega
    exact .inr ⟨full, _, added, uniform.set present _ _, after⟩

private theorem step_uniform (uniform : Uniform numPriorities maxCapacity queue)
    (represents : Represents queue waiting) {operation : BlockingQueue.Operation τ}
    {next : Queue τ} {outcome : Outcome τ} (stepped : queue.step operation = some (next, outcome)) :
    ∃ after, Uniform numPriorities maxCapacity next ∧ Represents next after ∧
      after.length + outcome.takes = waiting.length + outcome.adds := by
  have added {item : τ} {priority : Int8}
      (stepped : queue.addWithPriority item priority = some (next, outcome)) :
      ∃ after, Uniform numPriorities maxCapacity next ∧ Represents next after ∧
        after.length + outcome.takes = waiting.length + outcome.adds := by
    obtain ⟨sub, -, ⟨-, full⟩ | ⟨-, later, stored, still, after⟩⟩ :=
      uniform.addWithPriority represents item priority
    · cases Option.some.inj (full.symm.trans stepped)
      exact ⟨waiting, uniform, represents, rfl⟩
    · cases Option.some.inj (stored.symm.trans stepped)
      exact ⟨_, still, after, by simp [Outcome.takes, Outcome.adds]⟩
  cases operation with
  | add item => exact added stepped
  | addWithPriority item priority => exact added stepped
  | take =>
      rcases represents.take queue.sem with
        ⟨index, sub, item, rest, top, found, -, looped, after⟩ | ⟨-, -, looped⟩
      · simp only [Queue.step, looped, Option.some.injEq, Prod.mk.injEq] at stepped
        obtain ⟨rfl, rfl⟩ := stepped
        exact ⟨rest, uniform.set found _ _, after _, length_takeTop top⟩
      · simp only [Queue.step, looped] at stepped
        cases stepped
  | tryTakeFor =>
      rcases represents.take queue.sem with
        ⟨index, sub, item, rest, top, found, -, looped, after⟩ | ⟨-, -, looped⟩
      · simp only [Queue.step, looped, Option.some.injEq, Prod.mk.injEq] at stepped
        obtain ⟨rfl, rfl⟩ := stepped
        exact ⟨rest, uniform.set found _ _, after _, length_takeTop top⟩
      · simp only [Queue.step, looped, Option.some.injEq, Prod.mk.injEq] at stepped
        obtain ⟨rfl, rfl⟩ := stepped
        exact ⟨waiting, ⟨uniform.small, uniform.throws, uniform.length, uniform.capacity⟩,
          represents.with_sem 0, rfl⟩
  | tryTake =>
      rcases represents.take queue.sem with
        ⟨index, sub, item, rest, top, found, taken, -, after⟩ | ⟨-, nothing, -⟩
      · simp only [Queue.step, taken, Option.some.injEq, Prod.mk.injEq] at stepped
        obtain ⟨rfl, rfl⟩ := stepped
        exact ⟨rest, uniform.set found _ _, after _, length_takeTop top⟩
      · simp only [Queue.step, nothing, Option.some.injEq, Prod.mk.injEq] at stepped
        obtain ⟨rfl, rfl⟩ := stepped
        exact ⟨waiting, uniform, represents, rfl⟩

private theorem run_uniform (uniform : Uniform numPriorities maxCapacity queue)
    (represents : Represents queue waiting) {operations : List (BlockingQueue.Operation τ)}
    {last : Queue τ} {outcomes : List (Outcome τ)}
    (ran : queue.run operations = some (last, outcomes)) :
    ∃ after, Uniform numPriorities maxCapacity last ∧ Represents last after ∧
      after.length + (outcomes.map Outcome.takes).sum =
        waiting.length + (outcomes.map Outcome.adds).sum := by
  induction operations generalizing queue waiting outcomes with
  | nil =>
      cases ran
      exact ⟨waiting, uniform, represents, rfl⟩
  | cons operation rest ih =>
      simp only [Queue.run] at ran
      split at ran
      · cases ran
      · next next outcome stepped =>
          obtain ⟨⟨ended, later⟩, ranRest, same⟩ := Option.map_eq_some_iff.mp ran
          cases same
          obtain ⟨between, still, held, counted⟩ := step_uniform uniform represents stepped
          obtain ⟨after, uniform, represents, sums⟩ := ih still held ranRest
          refine ⟨after, uniform, represents, ?_⟩
          simp only [List.map_cons, List.sum_cons]
          omega

/-- What the constructor promises, of every sequence of calls. -/
structure Lawful (numPriorities maxCapacity : Nat) (queue : Queue τ) : Prop where
  subQueues : queue.queues.length = numPriorities
  empty : ∀ sub ∈ queue.queues, sub.memory.size = 0
  add : ∀ operations last outcomes, queue.run operations = some (last, outcomes) →
    ∀ item priority, ∃ sub next outcome,
      last.queues[(queueIndex last.getNumPriorities.toNat priority).toNat]? = some sub ∧
      last.addWithPriority item priority = some (next, outcome) ∧ outcome ≠ .aborted ∧
      (outcome = .queueFull ↔ sub.memory.size = maxCapacity) ∧
      (outcome = .queueFull → next = last)
  size : ∀ operations last outcomes, queue.run operations = some (last, outcomes) →
    last.size = (outcomes.map Outcome.adds).sum - (outcomes.map Outcome.takes).sum

theorem Uniform.lawful (uniform : Uniform numPriorities maxCapacity queue)
    (represents : Represents queue []) : Lawful numPriorities maxCapacity queue where
  subQueues := uniform.length
  empty sub member := by
    obtain ⟨index, found⟩ := List.mem_iff_getElem?.mp member
    exact (represents.levels index sub found).size
  add operations last outcomes ran item priority := by
    obtain ⟨after, uniform, represents, -⟩ := run_uniform uniform represents ran
    obtain ⟨sub, found, ⟨full, thrown⟩ | ⟨room, next, added, -⟩⟩ :=
      uniform.addWithPriority represents item priority
    · exact ⟨sub, last, _, found, thrown, nofun, iff_of_true rfl full, fun _ => rfl⟩
    · exact ⟨sub, next, _, found, added, nofun, iff_of_false nofun room, nofun⟩
  size operations last outcomes ran := by
    obtain ⟨after, uniform, represents, sums⟩ := run_uniform uniform represents ran
    rw [represents.size]
    rw [List.length_nil] at sums
    omega

/-! ## Which numbers of priorities can be constructed -/

end ThreadPoolExec.PriorityLifoSemMPMCQueue
