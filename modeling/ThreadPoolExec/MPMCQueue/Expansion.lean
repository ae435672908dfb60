import ThreadPoolExec.MPMCQueue.ClosedArrays

/-!
# Expansions of the dynamic queue

What the words of the seqlock, the record of closed arrays and the published
arrays have to do with each other at every stage of an expansion, and what a
call may keep of what it has read while expansions go on.
-/

set_option autoImplicit false

namespace ThreadPoolExec.MPMCQueue.Dynamic

open TurnCells

universe u

variable {V : Type u} {layout : Layout}

/-- The words that a read section loads. -/
def Shows (memory : Memory V) (slots capacity stride : Nat) : Prop :=
  (memory.dslots, memory.dcapacity, memory.dstride) = (slots, capacity, stride)

/-- A ticket that can be the next offset: it is above every ticket that was
looked up, and not above those that are next. -/
structure NextOffset (highest offset next ticket : Nat) : Prop where
  beyond : highest ≤ ticket
  later : offset ≤ ticket
  bound : ticket ≤ 1 + next

def Memory.nextOffset (memory : Memory V) (current : ClosedArray) (ticket : Nat) : Prop :=
  NextOffset memory.highest current.offset (max memory.pushTicket memory.popTicket) ticket

structure Unused (arrays : List ClosedArray) (allocated newSlots : Nat) : Prop where
  fresh : newSlots ∉ arrays.map ClosedArray.slots
  allocated : newSlots < allocated

def StageOk (layout : Layout) (memory : Memory V) (front : List ClosedArray)
    (current : ClosedArray) : Stage → Prop
  | .loadTicket =>
      memory.closed = front ∧ Shows memory current.slots current.capacity current.stride
  | .loadPop pushes =>
      (memory.closed = front ∧ Shows memory current.slots current.capacity current.stride) ∧
        pushes ≤ memory.pushTicket ∧ memory.highest ≤ 1 + max pushes memory.popTicket ∧
        current.offset ≤ 1 + max pushes memory.popTicket
  | .loadPush pops =>
      (memory.closed = front ∧ Shows memory current.slots current.capacity current.stride) ∧
        pops ≤ memory.popTicket ∧ memory.highest ≤ 1 + max memory.pushTicket pops ∧
        current.offset ≤ 1 + max memory.pushTicket pops
  | .allocate ticket =>
      (memory.closed = front ∧ Shows memory current.slots current.capacity current.stride) ∧
        memory.nextOffset current ticket
  | .close ticket newSlots =>
      (memory.closed = front ∧ Shows memory current.slots current.capacity current.stride) ∧
        memory.nextOffset current ticket ∧ Unused memory.arrays memory.allocated newSlots
  | .storeSlots ticket newSlots =>
      (memory.closed = front ++ [current] ∧
        Shows memory current.slots current.capacity current.stride) ∧
        memory.nextOffset current ticket ∧ Unused memory.arrays memory.allocated newSlots
  | .storeCapacity ticket newSlots =>
      (memory.closed = front ++ [current] ∧
        Shows memory newSlots current.capacity current.stride) ∧
        memory.nextOffset current ticket ∧ Unused memory.arrays memory.allocated newSlots
  | .storeStride ticket newSlots =>
      (memory.closed = front ++ [current] ∧
        Shows memory newSlots (layout.expanded current.capacity) current.stride) ∧
        memory.nextOffset current ticket ∧ Unused memory.arrays memory.allocated newSlots
  | .release ticket newSlots =>
      (memory.closed = front ++ [current] ∧
        Shows memory newSlots (layout.expanded current.capacity)
          (computeStride (layout.expanded current.capacity))) ∧
        memory.nextOffset current ticket ∧ Unused memory.arrays memory.allocated newSlots

structure MemoryOk (layout : Layout) (memory : Memory V) (front : List ClosedArray)
    (current : ClosedArray) : Prop where
  arrays : memory.arrays = front ++ [current]
  zero : ∀ first ∈ memory.arrays.head?, first.offset = 0
  sorted : memory.arrays.Pairwise fun earlier later => earlier.offset ≤ later.offset
  distinct : (memory.arrays.map ClosedArray.slots).Nodup
  allocated : ∀ array ∈ memory.arrays, array.slots < memory.allocated
  coprime : ∀ array ∈ memory.arrays, array.capacity.Coprime array.stride
  cells : ∀ slots, slots ∉ memory.arrays.map ClosedArray.slots →
    ∀ index, memory.cells (slots, index) = {}
  highest : memory.highest ≤ 1 + max memory.pushTicket memory.popTicket
  offset : current.offset ≤ 1 + max memory.pushTicket memory.popTicket
  dstate : memory.dstate = seqlockWord current.offset front.length +
    if memory.expansion.isSome then 1 else 0
  idle : memory.expansion = none →
    memory.closed = front ∧ Shows memory current.slots current.capacity current.stride
  busy : ∀ expansion, memory.expansion = some expansion →
    expansion.state = seqlockWord current.offset front.length ∧
      expansion.cap = current.capacity ∧ StageOk layout memory front current expansion.stage

section Memory

variable {memory after : Memory V} {front : List ClosedArray} {current : ClosedArray}

theorem MemoryOk.exists_resolve (ok : MemoryOk layout memory front current) (ticket : Nat) :
    ∃ array, resolve memory.arrays ticket = some array := by
  have zero := ok.zero
  cases arraysIs : memory.arrays with
  | nil =>
      have := ok.arrays
      rw [arraysIs] at this
      exact absurd this.symm (by simp)
  | cons first rest =>
      rw [arraysIs] at zero
      exact Dynamic.exists_resolve (zero first rfl) ticket

theorem MemoryOk.place_injective (ok : MemoryOk layout memory front current) :
    Function.Injective (placeIn layout memory.arrays) :=
  placeIn_injective ok.exists_resolve ok.distinct ok.coprime

/-- The closed arrays are the published ones, but for the current one unless
it has been recorded already. -/
theorem MemoryOk.closed_prefix (ok : MemoryOk layout memory front current) :
    memory.closed = front ∨ memory.closed = front ++ [current] := by
  cases expansionIs : memory.expansion with
  | none => exact .inl (ok.idle expansionIs).1
  | some expansion =>
      obtain ⟨-, -, stageOk⟩ := ok.busy expansion expansionIs
      cases stageIs : expansion.stage <;> rw [stageIs] at stageOk
      case loadTicket => exact .inl stageOk.1
      case loadPop => exact .inl stageOk.1.1
      case loadPush => exact .inl stageOk.1.1
      case allocate => exact .inl stageOk.1.1
      case close => exact .inl stageOk.1.1
      case storeSlots => exact .inr stageOk.1.1
      case storeCapacity => exact .inr stageOk.1.1
      case storeStride => exact .inr stageOk.1.1
      case release => exact .inr stageOk.1.1

/-- The expansion has changed a word that read sections load. -/
def Stage.writing : Stage → Bool
  | .storeCapacity _ _ | .storeStride _ _ | .release _ _ => true
  | _ => false

def Memory.writing (memory : Memory V) : Bool :=
  memory.expansion.any fun expansion => expansion.stage.writing

theorem MemoryOk.shows (ok : MemoryOk layout memory front current)
    (still : memory.writing = false) :
    Shows memory current.slots current.capacity current.stride := by
  cases expansionIs : memory.expansion with
  | none => exact (ok.idle expansionIs).2
  | some expansion =>
      obtain ⟨-, -, stageOk⟩ := ok.busy expansion expansionIs
      simp only [Memory.writing, expansionIs, Option.any_some] at still
      cases stageIs : expansion.stage <;> rw [stageIs] at stageOk still
      case loadTicket => exact stageOk.2
      case loadPop => exact stageOk.1.2
      case loadPush => exact stageOk.1.2
      case allocate => exact stageOk.1.2
      case close => exact stageOk.1.2
      case storeSlots => exact stageOk.1.2
      all_goals cases still

/-- While a word of the seqlock is even, nobody expands. -/
theorem MemoryOk.unlocked {state : Nat} (ok : MemoryOk layout memory front current)
    (even : state % 2 = 0) (same : memory.dstate = state) : memory.expansion = none := by
  have dstate := ok.dstate
  cases expansionIs : memory.expansion with
  | none => rfl
  | some expansion =>
      have word : seqlockWord current.offset front.length % 2 = 0 := seqlockWord_even
      rw [expansionIs, Option.isSome_some, if_pos rfl] at dstate
      omega

/-! ## What a step may change under the other calls -/

/-- Counters and `highest` grow; the arrays stay, and so do the words of the
current one until they are written, or an array beyond `highest` is added. -/
structure Grows (memory after : Memory V) : Prop where
  pushTicket : memory.pushTicket ≤ after.pushTicket
  popTicket : memory.popTicket ≤ after.popTicket
  highest : memory.highest ≤ after.highest
  arrays : (after.arrays = memory.arrays ∧ (after.writing = false → memory.writing = false)) ∨
    ∃ array, after.arrays = memory.arrays ++ [array] ∧ memory.highest ≤ array.offset

theorem Grows.refl : Grows memory memory :=
  ⟨Nat.le_refl _, Nat.le_refl _, Nat.le_refl _, .inl ⟨rfl, id⟩⟩

/-- A call has loaded the words of a published array, as far as its word of
the seqlock is still current. -/
structure Loaded (memory : Memory V) (state : Nat) (agrees : ClosedArray → Prop) : Prop where
  numClosed : getNumClosed state < memory.arrays.length
  agrees : memory.writing = false → ∀ front current, memory.arrays = front ++ [current] →
    state = seqlockWord current.offset front.length → agrees current

/-- A validated snapshot shows a published array, and no later offset has
been reached by the ticket. -/
def Valid (memory : Memory V) (ticket : Nat) (snapshot : Snapshot) : Prop :=
  ticket < memory.highest ∧ ∃ front array back, memory.arrays = front ++ array :: back ∧
    snapshot = ⟨seqlockWord array.offset front.length, array.slots, array.capacity,
      array.stride⟩ ∧ ∀ next ∈ back, ticket < next.offset

/-- The array of a ticket, once and for all. -/
structure Resolved (memory : Memory V) (ticket : Nat) (array : ClosedArray) : Prop where
  found : resolve memory.arrays ticket = some array
  below : ticket < memory.highest

variable {state ticket : Nat} {agrees : ClosedArray → Prop} {snapshot : Snapshot}
  {array : ClosedArray}

theorem Loaded.grow (grows : Grows memory after) (few : after.arrays.length ≤ 32)
    (loaded : Loaded memory state agrees) : Loaded after state agrees := by
  rcases grows.arrays with ⟨same, writing⟩ | ⟨array, added, -⟩
  · refine ⟨same ▸ loaded.numClosed, fun still front current arraysAre => ?_⟩
    exact loaded.agrees (writing still) front current (same ▸ arraysAre)
  · have shorter := loaded.numClosed
    refine ⟨?_, fun _ front current arraysAre stateIs => ?_⟩
    · rw [added, List.length_append]
      omega
    · -- a word that publishes the new array counts more closed arrays than this one
      have sameLength : front.length = memory.arrays.length := by
        have lengths := congrArg List.length (added.symm.trans arraysAre)
        simp only [List.length_append, List.length_singleton] at lengths
        omega
      have lengths : after.arrays.length = memory.arrays.length + 1 := by
        rw [added, List.length_append, List.length_singleton]
      rw [stateIs, getNumClosed_seqlockWord (by omega)] at shorter
      omega

theorem Valid.grow (grows : Grows memory after) (valid : Valid memory ticket snapshot) :
    Valid after ticket snapshot := by
  obtain ⟨below, front, array, back, arraysAre, snapshotIs, later⟩ := valid
  refine ⟨Nat.lt_of_lt_of_le below grows.highest, ?_⟩
  rcases grows.arrays with ⟨same, -⟩ | ⟨new, added, beyond⟩
  · exact ⟨front, array, back, same.trans arraysAre, snapshotIs, later⟩
  · refine ⟨front, array, back ++ [new], ?_, snapshotIs, fun next member => ?_⟩
    · rw [added, arraysAre, List.append_assoc, List.cons_append]
    · rcases List.mem_append.mp member with earlier | last
      · exact later next earlier
      · rw [List.mem_singleton.mp last]
        exact Nat.lt_of_lt_of_le below beyond

theorem Resolved.grow (grows : Grows memory after) (resolved : Resolved memory ticket array) :
    Resolved after ticket array := by
  have below := resolved.below
  refine ⟨?_, Nat.lt_of_lt_of_le below grows.highest⟩
  rcases grows.arrays with ⟨same, -⟩ | ⟨new, added, beyond⟩
  · rw [same]
    exact resolved.found
  · rw [added, resolve_append_of_lt (Nat.lt_of_lt_of_le below beyond)]
    exact resolved.found

theorem MemoryOk.front_lt (ok : MemoryOk layout memory front current)
    (few : memory.arrays.length ≤ 32) : front.length < 32 := by
  rw [ok.arrays, List.length_append, List.length_singleton] at few
  omega

/-- A read section starts. -/
theorem MemoryOk.loaded (ok : MemoryOk layout memory front current)
    (few : memory.arrays.length ≤ 32) (even : memory.dstate % 2 = 0) :
    Loaded memory memory.dstate fun _ => True := by
  have dstate := ok.dstate
  rw [ok.unlocked even rfl, Option.isSome_none] at dstate
  simp only [Bool.false_eq_true, if_false, Nat.add_zero] at dstate
  refine ⟨?_, fun _ _ _ _ _ => trivial⟩
  rw [dstate, getNumClosed_seqlockWord (ok.front_lt few), ok.arrays, List.length_append,
    List.length_singleton]
  exact Nat.lt_succ_self _

/-- A read section loads another word. -/
theorem Loaded.load {more : ClosedArray → Prop} (ok : MemoryOk layout memory front current)
    (read : memory.dslots = current.slots ∧ memory.dcapacity = current.capacity ∧
      memory.dstride = current.stride → agrees current → more current)
    (loaded : Loaded memory state agrees) : Loaded memory state more := by
  refine ⟨loaded.numClosed, fun still front' current' arraysAre stateIs => ?_⟩
  obtain ⟨-, last⟩ := List.append_inj' (ok.arrays.symm.trans arraysAre) rfl
  cases last
  have shows_ := ok.shows still
  simp only [Shows, Prod.mk.injEq] at shows_
  exact read shows_ (loaded.agrees still front' current arraysAre stateIs)

theorem Valid.even (valid : Valid memory ticket snapshot) : snapshot.state % 2 = 0 := by
  obtain ⟨-, front, array, back, -, rfl, -⟩ := valid
  exact seqlockWord_even

/-- A read section that is validated has read the current array. -/
theorem Loaded.valid (ok : MemoryOk layout memory front current)
    (unlocked : state % 2 = 0) (same : memory.dstate = state) (below : ticket < memory.highest)
    (loaded : Loaded memory state fun array =>
      snapshot = ⟨state, array.slots, array.capacity, array.stride⟩) :
    Valid memory ticket snapshot := by
  have dstate := ok.dstate
  have idle := ok.unlocked unlocked same
  have still : memory.writing = false := by
    rw [Memory.writing, idle]
    rfl
  rw [idle, Option.isSome_none] at dstate
  simp only [Bool.false_eq_true, if_false, Nat.add_zero] at dstate
  have read := loaded.agrees still front current ok.arrays (same.symm.trans dstate)
  refine ⟨below, front, current, [], ok.arrays, ?_, nofun⟩
  rw [read, ← same, dstate]

/-- `maybeUpdateFromClosed` never comes to its assertion, and finds the array
of the ticket. -/
theorem Valid.maybeUpdateFromClosed (ok : MemoryOk layout memory front current)
    (few : front.length < 32) (valid : Valid memory ticket snapshot) :
    ∃ array lagging, Dynamic.maybeUpdateFromClosed memory.closed ticket snapshot =
        some (array, lagging) ∧
      Resolved memory ticket array ∧
      (lagging = false → array.offset = getOffset snapshot.state) ∧
      (array.offset = getOffset snapshot.state → array.capacity = snapshot.capacity) := by
  obtain ⟨below, before, shown, back, arraysAre, rfl, later⟩ := valid
  have beforeFew : before.length < 32 := by
    have lengths := congrArg List.length (ok.arrays.symm.trans arraysAre)
    simp only [List.length_append, List.length_cons, List.length_nil] at lengths
    omega
  simp only [Dynamic.maybeUpdateFromClosed, getOffset_seqlockWord beforeFew,
    getNumClosed_seqlockWord beforeFew]
  by_cases reached : shown.offset ≤ ticket
  · rw [if_pos reached]
    refine ⟨shown, false, rfl, ⟨?_, below⟩, fun _ => rfl, fun _ => rfl⟩
    rw [arraysAre]
    exact resolve_split reached later
  · rw [if_neg reached]
    have inFront : before <+: front := by
      refine List.prefix_of_prefix_length_le (arraysAre ▸ List.prefix_append _ _)
        (ok.arrays ▸ List.prefix_append _ _) ?_
      have lengths := congrArg List.length (ok.arrays.symm.trans arraysAre)
      simp only [List.length_append, List.length_cons, List.length_nil] at lengths
      omega
    have inClosed : before <+: memory.closed := by
      rcases ok.closed_prefix with same | recorded
      · exact same ▸ inFront
      · exact recorded ▸ inFront.trans (List.prefix_append _ _)
    -- neither the array shown nor a later one is the ticket's
    obtain ⟨array, found⟩ := ok.exists_resolve ticket
    have search : searchClosed memory.closed ticket before.length = some array := by
      rw [searchClosed_eq_resolve _ _ inClosed.length_le,
        ← List.prefix_iff_eq_take.mp inClosed, ← found, arraysAre, resolve_append, resolve,
        resolve_eq_none_of_lt later, if_neg reached]
      rfl
    have earlier := offset_le_of_resolve found
    rw [search]
    exact ⟨array, true, rfl, ⟨found, below⟩, (fun lags => by cases lags), fun same => by omega⟩

end Memory

/-! ## The steps of `tryExpand` -/

section Expand

variable {memory after : Memory V} {front : List ClosedArray} {current : ClosedArray}
  {expansion : Expansion}

/-- What a step of an expansion leaves alone. -/
structure Untouched (memory after : Memory V) : Prop where
  pushTicket : after.pushTicket = memory.pushTicket
  popTicket : after.popTicket = memory.popTicket
  cells : after.cells = memory.cells
  stored : after.stored = memory.stored
  taken : after.taken = memory.taken
  highest : after.highest = memory.highest

private theorem MemoryOk.restage (ok : MemoryOk layout memory front current)
    (arrays : after.arrays = memory.arrays) (allocated : memory.allocated ≤ after.allocated)
    (untouched : Untouched memory after)
    (dstate : after.dstate = seqlockWord current.offset front.length +
      if after.expansion.isSome then 1 else 0)
    (idle : after.expansion = none →
      after.closed = front ∧ Shows after current.slots current.capacity current.stride)
    (busy : ∀ expansion, after.expansion = some expansion →
      expansion.state = seqlockWord current.offset front.length ∧
        expansion.cap = current.capacity ∧ StageOk layout after front current expansion.stage) :
    MemoryOk layout after front current where
  arrays := arrays.trans ok.arrays
  zero := by
    rw [arrays]
    exact ok.zero
  sorted := by
    rw [arrays]
    exact ok.sorted
  distinct := by
    rw [arrays]
    exact ok.distinct
  allocated := by
    rw [arrays]
    exact fun array member => Nat.lt_of_lt_of_le (ok.allocated array member) allocated
  coprime := by
    rw [arrays]
    exact ok.coprime
  cells := by
    rw [arrays, untouched.cells]
    exact ok.cells
  highest := by
    rw [untouched.highest, untouched.pushTicket, untouched.popTicket]
    exact ok.highest
  offset := by
    rw [untouched.pushTicket, untouched.popTicket]
    exact ok.offset
  dstate := dstate
  idle := idle
  busy := busy

/-- The arrays after a step of an expansion: as before, or with the new one. -/
inductive Extends (memory after : Memory V) : Prop where
  | same (arrays : after.arrays = memory.arrays)
      (writing : after.writing = false → memory.writing = false)
  | added (array : ClosedArray) (arrays : after.arrays = memory.arrays ++ [array])
      (beyond : memory.highest ≤ array.offset)
      (fresh : array.slots ∉ memory.arrays.map ClosedArray.slots)

theorem Untouched.grows (untouched : Untouched memory after) (extends_ : Extends memory after) :
    Grows memory after := by
  refine ⟨Nat.le_of_eq untouched.pushTicket.symm, Nat.le_of_eq untouched.popTicket.symm,
    Nat.le_of_eq untouched.highest.symm, ?_⟩
  cases extends_ with
  | same arrays writing => exact .inl ⟨arrays, writing⟩
  | added array arrays beyond fresh => exact .inr ⟨array, arrays, beyond⟩

/-- The new array is published. -/
private theorem MemoryOk.release {ticket newSlots : Nat}
    (ok : MemoryOk layout memory front current) (few : front.length + 1 < 32)
    (expansionIs : memory.expansion = some expansion)
    (stageIs : expansion.stage = .release ticket newSlots) :
    MemoryOk layout
      { memory with
        dstate := (ticket <<< kSeqlockBits) + 2 * (getNumClosed expansion.state + 1)
        arrays := memory.arrays ++ [⟨ticket, newSlots, layout.expanded expansion.cap,
          computeStride (layout.expanded expansion.cap)⟩]
        expansion := none }
      (front ++ [current]) ⟨ticket, newSlots, layout.expanded expansion.cap,
        computeStride (layout.expanded expansion.cap)⟩ := by
  obtain ⟨stateIs, capIs, stageOk⟩ := ok.busy expansion expansionIs
  rw [stageIs] at stageOk
  obtain ⟨⟨closed, shows_⟩, next, unused⟩ := stageOk
  rw [capIs]
  constructor
  case arrays => rw [ok.arrays]
  case zero =>
    have zero := ok.zero
    rw [ok.arrays] at zero ⊢
    intro first isFirst
    refine zero first ?_
    cases front <;> exact isFirst
  case sorted =>
    refine List.pairwise_append.mpr ⟨ok.sorted, List.pairwise_singleton _ _, ?_⟩
    intro earlier member later last
    rw [List.mem_singleton.mp last]
    refine Nat.le_trans ?_ next.later
    have sorted := ok.sorted
    rw [ok.arrays] at sorted member
    rcases List.mem_append.mp member with inFront | isCurrent
    · exact (List.pairwise_append.mp sorted).2.2 earlier inFront current List.mem_cons_self
    · rw [List.mem_singleton.mp isCurrent]
  case distinct =>
    rw [List.map_append, List.nodup_append]
    refine ⟨ok.distinct, List.nodup_singleton _, fun slots member other last => ?_⟩
    rintro rfl
    have isNew : slots = newSlots := List.mem_singleton.mp last
    exact unused.fresh (isNew ▸ member)
  case allocated =>
    intro array member
    rcases List.mem_append.mp member with earlier | last
    · exact ok.allocated array earlier
    · rw [List.mem_singleton.mp last]
      exact unused.allocated
  case coprime =>
    intro array member
    rcases List.mem_append.mp member with earlier | last
    · exact ok.coprime array earlier
    · rw [List.mem_singleton.mp last]
      exact coprime_computeStride _
  case cells =>
    intro slots absent index
    refine ok.cells slots (fun member => absent ?_) index
    rw [List.map_append]
    exact List.mem_append_left _ member
  case highest => exact ok.highest
  case offset => exact next.bound
  case dstate =>
    rw [stateIs, getNumClosed_seqlockWord (by omega)]
    simp [seqlockWord]
  case idle => exact fun _ => ⟨closed, shows_⟩
  case busy => exact fun other none => by cases none

/-- Every step of an expansion keeps the memory in order. -/
theorem MemoryOk.expand {choice : Choice} {result : Option Bool}
    (ok : MemoryOk layout memory front current) (few : after.arrays.length ≤ 32)
    (expansionIs : memory.expansion = some expansion)
    (expanded : memory.expand layout expansion choice = (after, result)) :
    (∃ front current, MemoryOk layout after front current) ∧ Untouched memory after ∧
      Extends memory after := by
  obtain ⟨stateIs, capIs, stageOk⟩ := ok.busy expansion expansionIs
  have dstate := ok.dstate
  rw [expansionIs, Option.isSome_some, if_pos rfl] at dstate
  have writing : memory.writing = expansion.stage.writing := by
    rw [Memory.writing, expansionIs, Option.any_some]
  have lengths : memory.arrays.length = front.length + 1 := by
    rw [ok.arrays, List.length_append, List.length_singleton]
  simp only [Memory.expand] at expanded
  cases stageIs : expansion.stage with
  | loadTicket =>
      rw [stageIs] at stageOk writing
      simp only [stageIs, Prod.mk.injEq] at expanded
      obtain ⟨rfl, -⟩ := expanded
      -- whichever is loaded first, the other is not yet
      cases choice.popFirst
      all_goals
        refine ⟨⟨front, current, ok.restage rfl (Nat.le_refl _) ⟨rfl, rfl, rfl, rfl, rfl, rfl⟩
          dstate nofun ?_⟩, ⟨rfl, rfl, rfl, rfl, rfl, rfl⟩, .same rfl fun _ => writing⟩
        rintro _ ⟨⟩
        exact ⟨stateIs, capIs, stageOk, Nat.le_refl _, ok.highest, ok.offset⟩
  | loadPop pushes =>
      rw [stageIs] at stageOk writing
      simp only [stageIs, Prod.mk.injEq] at expanded
      obtain ⟨rfl, -⟩ := expanded
      obtain ⟨shows_, loaded, beyond, later⟩ := stageOk
      refine ⟨⟨front, current, ok.restage rfl (Nat.le_refl _) ⟨rfl, rfl, rfl, rfl, rfl, rfl⟩
        dstate nofun ?_⟩, ⟨rfl, rfl, rfl, rfl, rfl, rfl⟩, .same rfl fun _ => writing⟩
      rintro _ ⟨⟩
      exact ⟨stateIs, capIs, shows_, beyond, later, by simp only; omega⟩
  | loadPush pops =>
      rw [stageIs] at stageOk writing
      simp only [stageIs, Prod.mk.injEq] at expanded
      obtain ⟨rfl, -⟩ := expanded
      obtain ⟨shows_, loaded, beyond, later⟩ := stageOk
      refine ⟨⟨front, current, ok.restage rfl (Nat.le_refl _) ⟨rfl, rfl, rfl, rfl, rfl, rfl⟩
        dstate nofun ?_⟩, ⟨rfl, rfl, rfl, rfl, rfl, rfl⟩, .same rfl fun _ => writing⟩
      rintro _ ⟨⟩
      exact ⟨stateIs, capIs, shows_, beyond, later, by simp only; omega⟩
  | allocate ticket =>
      rw [stageIs] at stageOk writing
      simp only [stageIs] at expanded
      split at expanded
      all_goals
        simp only [Prod.mk.injEq] at expanded
        obtain ⟨rfl, -⟩ := expanded
      · refine ⟨⟨front, current, ok.restage rfl (Nat.le_succ _) ⟨rfl, rfl, rfl, rfl, rfl, rfl⟩
          dstate nofun ?_⟩, ⟨rfl, rfl, rfl, rfl, rfl, rfl⟩, .same rfl fun _ => writing⟩
        rintro _ ⟨⟩
        refine ⟨stateIs, capIs, stageOk.1, stageOk.2, fun member => ?_, Nat.lt_succ_self _⟩
        obtain ⟨array, inArrays, slotsIs⟩ := List.mem_map.mp member
        exact Nat.ne_of_lt (ok.allocated array inArrays) slotsIs
      · refine ⟨⟨front, current, ok.restage rfl (Nat.le_refl _) ⟨rfl, rfl, rfl, rfl, rfl, rfl⟩
          (by simp [stateIs]) (fun _ => stageOk.1) nofun⟩,
          ⟨rfl, rfl, rfl, rfl, rfl, rfl⟩, .same rfl fun _ => writing⟩
  | close ticket newSlots =>
      rw [stageIs] at stageOk writing
      simp only [stageIs, Prod.mk.injEq] at expanded
      obtain ⟨rfl, -⟩ := expanded
      obtain ⟨⟨closed, shows_⟩, next⟩ := stageOk
      refine ⟨⟨front, current, ok.restage rfl (Nat.le_refl _) ⟨rfl, rfl, rfl, rfl, rfl, rfl⟩
        dstate nofun ?_⟩, ⟨rfl, rfl, rfl, rfl, rfl, rfl⟩, .same rfl fun _ => writing⟩
      rintro _ ⟨⟩
      refine ⟨stateIs, capIs, ⟨?_, shows_⟩, next⟩
      simp only [Shows, Prod.mk.injEq] at shows_
      have few : front.length < 32 := by
        simp only at few
        omega
      simp only
      rw [stateIs, getNumClosed_seqlockWord few, getOffset_seqlockWord few, closed, capIs,
        shows_.1, shows_.2.2, List.take_length]
  | storeSlots ticket newSlots =>
      rw [stageIs] at stageOk writing
      simp only [stageIs, Prod.mk.injEq] at expanded
      obtain ⟨rfl, -⟩ := expanded
      obtain ⟨⟨closed, shows_⟩, next⟩ := stageOk
      refine ⟨⟨front, current, ok.restage rfl (Nat.le_refl _) ⟨rfl, rfl, rfl, rfl, rfl, rfl⟩
        dstate nofun ?_⟩, ⟨rfl, rfl, rfl, rfl, rfl, rfl⟩, .same rfl fun _ => writing⟩
      rintro _ ⟨⟩
      simp only [Shows, Prod.mk.injEq] at shows_
      exact ⟨stateIs, capIs, ⟨closed, by simp only [Shows, shows_.2.1, shows_.2.2]⟩, next⟩
  | storeCapacity ticket newSlots =>
      rw [stageIs] at stageOk
      simp only [stageIs, Prod.mk.injEq] at expanded
      obtain ⟨rfl, -⟩ := expanded
      obtain ⟨⟨closed, shows_⟩, next⟩ := stageOk
      refine ⟨⟨front, current, ok.restage rfl (Nat.le_refl _) ⟨rfl, rfl, rfl, rfl, rfl, rfl⟩
        dstate nofun ?_⟩, ⟨rfl, rfl, rfl, rfl, rfl, rfl⟩, .same rfl nofun⟩
      rintro _ ⟨⟩
      simp only [Shows, Prod.mk.injEq] at shows_
      exact ⟨stateIs, capIs, ⟨closed, by simp only [Shows, capIs, shows_.1, shows_.2.2]⟩, next⟩
  | storeStride ticket newSlots =>
      rw [stageIs] at stageOk
      simp only [stageIs, Prod.mk.injEq] at expanded
      obtain ⟨rfl, -⟩ := expanded
      obtain ⟨⟨closed, shows_⟩, next⟩ := stageOk
      refine ⟨⟨front, current, ok.restage rfl (Nat.le_refl _) ⟨rfl, rfl, rfl, rfl, rfl, rfl⟩
        dstate nofun ?_⟩, ⟨rfl, rfl, rfl, rfl, rfl, rfl⟩, .same rfl nofun⟩
      rintro _ ⟨⟩
      simp only [Shows, Prod.mk.injEq] at shows_
      exact ⟨stateIs, capIs, ⟨closed, by simp only [Shows, capIs, shows_.1, shows_.2.1]⟩, next⟩
  | release ticket newSlots =>
      rw [stageIs] at stageOk
      simp only [stageIs, Prod.mk.injEq] at expanded
      obtain ⟨rfl, -⟩ := expanded
      have few : front.length + 1 < 32 := by
        simp only [List.length_append, List.length_singleton] at few
        omega
      exact ⟨⟨_, _, ok.release few expansionIs stageIs⟩, ⟨rfl, rfl, rfl, rfl, rfl, rfl⟩,
        .added _ rfl stageOk.2.1.beyond stageOk.2.2.fresh⟩

end Expand

/-! ## Steps outside `tryExpand` -/

section Keep

variable {memory after : Memory V} {front : List ClosedArray} {current : ClosedArray}

/-- A step that only takes tickets or works on cells. -/
structure Keeps (memory after : Memory V) : Prop where
  arrays : after.arrays = memory.arrays
  allocated : after.allocated = memory.allocated
  closed : after.closed = memory.closed
  dstate : after.dstate = memory.dstate
  expansion : after.expansion = memory.expansion
  dslots : after.dslots = memory.dslots
  dcapacity : after.dcapacity = memory.dcapacity
  dstride : after.dstride = memory.dstride
  highest : after.highest = memory.highest
  pushTicket : memory.pushTicket ≤ after.pushTicket
  popTicket : memory.popTicket ≤ after.popTicket

theorem Keeps.grows (keeps : Keeps memory after) : Grows memory after := by
  refine ⟨keeps.pushTicket, keeps.popTicket, Nat.le_of_eq keeps.highest.symm,
    .inl ⟨keeps.arrays, ?_⟩⟩
  rw [Memory.writing, Memory.writing, keeps.expansion]
  exact id

private theorem Keeps.shows {slots capacity stride : Nat} (keeps : Keeps memory after)
    (shows_ : Shows memory slots capacity stride) : Shows after slots capacity stride := by
  rw [Shows, keeps.dslots, keeps.dcapacity, keeps.dstride]
  exact shows_

private theorem Keeps.nextOffset {ticket : Nat} (keeps : Keeps memory after)
    (next : memory.nextOffset current ticket) : after.nextOffset current ticket := by
  have pushTicket := keeps.pushTicket
  have popTicket := keeps.popTicket
  have bound := next.bound
  exact ⟨keeps.highest ▸ next.beyond, next.later, by omega⟩

private theorem Keeps.stageOk {stage : Stage} (keeps : Keeps memory after)
    (ok : StageOk layout memory front current stage) :
    StageOk layout after front current stage := by
  have unused : ∀ {newSlots}, Unused memory.arrays memory.allocated newSlots →
      Unused after.arrays after.allocated newSlots := by
    intro newSlots unused
    rw [keeps.arrays, keeps.allocated]
    exact unused
  have closed := keeps.closed
  cases stage with
  | loadTicket => exact ⟨closed.trans ok.1, keeps.shows ok.2⟩
  | loadPop _ | loadPush _ =>
      obtain ⟨shows_, loaded, beyond, later⟩ := ok
      have pushTicket := keeps.pushTicket
      have popTicket := keeps.popTicket
      have highest := keeps.highest
      exact ⟨⟨closed.trans shows_.1, keeps.shows shows_.2⟩, by omega, by omega, by omega⟩
  | allocate ticket =>
      exact ⟨⟨closed.trans ok.1.1, keeps.shows ok.1.2⟩, keeps.nextOffset ok.2⟩
  | close ticket newSlots =>
      exact ⟨⟨closed.trans ok.1.1, keeps.shows ok.1.2⟩, keeps.nextOffset ok.2.1, unused ok.2.2⟩
  | storeSlots ticket newSlots =>
      exact ⟨⟨closed.trans ok.1.1, keeps.shows ok.1.2⟩, keeps.nextOffset ok.2.1, unused ok.2.2⟩
  | storeCapacity ticket newSlots =>
      exact ⟨⟨closed.trans ok.1.1, keeps.shows ok.1.2⟩, keeps.nextOffset ok.2.1, unused ok.2.2⟩
  | storeStride ticket newSlots =>
      exact ⟨⟨closed.trans ok.1.1, keeps.shows ok.1.2⟩, keeps.nextOffset ok.2.1, unused ok.2.2⟩
  | release ticket newSlots =>
      exact ⟨⟨closed.trans ok.1.1, keeps.shows ok.1.2⟩, keeps.nextOffset ok.2.1, unused ok.2.2⟩

theorem MemoryOk.keep (ok : MemoryOk layout memory front current) (keeps : Keeps memory after)
    (cells : ∀ slots, slots ∉ memory.arrays.map ClosedArray.slots →
      ∀ index, after.cells (slots, index) = {}) : MemoryOk layout after front current where
  arrays := keeps.arrays.trans ok.arrays
  zero := by
    rw [keeps.arrays]
    exact ok.zero
  sorted := by
    rw [keeps.arrays]
    exact ok.sorted
  distinct := by
    rw [keeps.arrays]
    exact ok.distinct
  allocated := by
    rw [keeps.arrays, keeps.allocated]
    exact ok.allocated
  coprime := by
    rw [keeps.arrays]
    exact ok.coprime
  cells := by
    rw [keeps.arrays]
    exact cells
  highest := by
    have highest := ok.highest
    have pushTicket := keeps.pushTicket
    have popTicket := keeps.popTicket
    rw [keeps.highest]
    omega
  offset := by
    have offset := ok.offset
    have pushTicket := keeps.pushTicket
    have popTicket := keeps.popTicket
    omega
  dstate := by
    rw [keeps.dstate, keeps.expansion]
    exact ok.dstate
  idle := by
    rw [keeps.expansion]
    exact fun idle => ⟨keeps.closed.trans (ok.idle idle).1, keeps.shows (ok.idle idle).2⟩
  busy := by
    rw [keeps.expansion]
    intro expansion expansionIs
    obtain ⟨stateIs, capIs, stageOk⟩ := ok.busy expansion expansionIs
    exact ⟨stateIs, capIs, keeps.stageOk stageOk⟩

theorem Keeps.dispense (side : Side V) : Keeps memory (memory.dispense side) := by
  cases side with
  | push value => exact ⟨rfl, rfl, rfl, rfl, rfl, rfl, rfl, rfl, rfl, Nat.le_succ _, Nat.le_refl _⟩
  | pop => exact ⟨rfl, rfl, rfl, rfl, rfl, rfl, rfl, rfl, rfl, Nat.le_refl _, Nat.le_succ _⟩

/-- A validated read section may raise `highest` to its ticket. -/
theorem MemoryOk.raise {ticket : Nat} (ok : MemoryOk layout memory front current)
    (unlocked : memory.expansion = none)
    (bound : ticket ≤ max memory.pushTicket memory.popTicket) :
    MemoryOk layout { memory with highest := max memory.highest (ticket + 1) } front current where
  arrays := ok.arrays
  zero := ok.zero
  sorted := ok.sorted
  distinct := ok.distinct
  allocated := ok.allocated
  coprime := ok.coprime
  cells := ok.cells
  highest := by
    have highest := ok.highest
    simp only
    omega
  offset := ok.offset
  dstate := ok.dstate
  idle := ok.idle
  busy := by
    rw [unlocked]
    nofun

/-- `tryExpand` takes the seqlock at a word that a snapshot still shows. -/
theorem MemoryOk.lock {ticket : Nat} {snapshot : Snapshot}
    (ok : MemoryOk layout memory front current) (few : memory.arrays.length ≤ 32)
    (valid : Valid memory ticket snapshot) (same : memory.dstate = snapshot.state) :
    MemoryOk layout
      { memory with
        dstate := snapshot.state + 1
        expansion := some ⟨snapshot.state, snapshot.capacity, .loadTicket⟩ } front current := by
  obtain ⟨-, before, shown, back, arraysAre, rfl, -⟩ := valid
  have unlocked := ok.unlocked seqlockWord_even same
  have dstate := ok.dstate
  have lengths := congrArg List.length arraysAre
  have frontLength := congrArg List.length ok.arrays
  simp only [List.length_append, List.length_cons, List.length_nil] at lengths frontLength
  rw [unlocked, Option.isSome_none, same] at dstate
  simp only [Bool.false_eq_true, if_false, Nat.add_zero] at dstate
  have sameLength : before.length = front.length := by
    have closedBefore : getNumClosed (seqlockWord shown.offset before.length) = before.length :=
      getNumClosed_seqlockWord (by omega)
    rw [dstate, getNumClosed_seqlockWord (by omega)] at closedBefore
    exact closedBefore.symm
  obtain ⟨rfl, tail⟩ := List.append_inj (arraysAre.symm.trans ok.arrays) sameLength
  cases tail
  refine ⟨ok.arrays, ok.zero, ok.sorted, ok.distinct, ok.allocated, ok.coprime, ok.cells,
    ok.highest, ok.offset, rfl, nofun, ?_⟩
  rintro _ ⟨⟩
  exact ⟨rfl, rfl, (ok.idle unlocked).1, (ok.idle unlocked).2⟩

end Keep

end ThreadPoolExec.MPMCQueue.Dynamic
