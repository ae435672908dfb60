import Mathlib.Data.Nat.Find
import ThreadPoolExec.MPMCQueue.DynamicProperties

/-!
# Sizes of the dynamic queue in machine arithmetic

`initQueue` counts the expansions up to the capacity and `tryExpand` makes them.
Both multiply in 64 bits, and the count of closed arrays has five bits of the
seqlock word. A caller of `tryExpand` has found the array of its ticket full, so
the tickets bound the sizes from which the queue expands. The slots themselves
are left out: the callers are told whether one is ready.
-/

set_option autoImplicit false

namespace ThreadPoolExec.MPMCQueue.Dynamic.Sizing

open Interleaving

/-- What the constructor is given. It comes to its loop only if it could
allocate the first array, and no array has 2^63 slots. -/
structure Arguments where
  queueCapacity : Nat
  minCapacity : Nat
  expansionMultiplier : Nat
  kSlotPadding : Nat
  positive : 0 < queueCapacity
  fits : queueCapacity < 2 ^ 64 ∧ minCapacity < 2 ^ 64 ∧ expansionMultiplier < 2 ^ 64
  array : slotCount kSlotPadding (min (max 1 minCapacity) queueCapacity) < 2 ^ 63

namespace Arguments

def cap (arguments : Arguments) : Nat :=
  min (max 1 arguments.minCapacity) arguments.queueCapacity

def mult (arguments : Arguments) : Nat :=
  max 2 arguments.expansionMultiplier

/-- `expanded *= mult`, in `size_t`. -/
def times (arguments : Arguments) (expanded : Nat) : Nat :=
  arguments.mult * expanded % 2 ^ 64

/-- The loop of `initQueue`, for so many rounds. -/
def countClosed (arguments : Arguments) : Nat → Nat → Nat → Option Nat
  | 0, _, _ => none
  | rounds + 1, expanded, maxClosed =>
      if expanded < arguments.queueCapacity then
        arguments.countClosed rounds (arguments.times expanded) (maxClosed + 1)
      else some maxClosed

/-- The loop ends, with this count. -/
def InitQueue (arguments : Arguments) (maxClosed : Nat) : Prop :=
  ∃ rounds, arguments.countClosed rounds arguments.cap 0 = some maxClosed

def newCapacity (arguments : Arguments) (cap : Nat) : Nat :=
  min (arguments.times cap) arguments.queueCapacity

/-- An array of this capacity can be allocated, its length being in `size_t`. -/
def allocatable (arguments : Arguments) (cap : Nat) : Bool :=
  slotCount arguments.kSlotPadding cap < 2 ^ 63

end Arguments

structure Memory where
  dstate : Nat
  dslots : Nat
  dcapacity : Nat
  dstride : Nat
  closed : List ClosedArray
  pushTicket : Nat
  popTicket : Nat
  allocated : Nat
  expansion : Option Expansion

/-- What a successful `tryExpand` has done: the index that it has written, the
capacities around it, the ticket and the word. -/
structure Expanded where
  index : Nat
  before : Nat
  after : Nat
  ticket : Nat
  word : Nat
deriving DecidableEq

/-- Who calls `tryExpand`. -/
inductive Caller where
  | blockingWrite
  | tryObtainReadyPushTicket
  | tryObtainPromisedPushTicket
deriving DecidableEq

structure Attempt where
  caller : Caller
  ticket : Nat
  numPops : Nat := 0
deriving DecidableEq

inductive Pc where
  | loadPush (caller : Caller)
  | loadPops (ticket : Nat)
  -- trySeqlockReadSection
  | readState (attempt : Attempt)
  | readSlots (attempt : Attempt) (state : Nat)
  | readCapacity (attempt : Attempt) (state slots : Nat)
  | readStride (attempt : Attempt) (state slots capacity : Nat)
  | validate (attempt : Attempt) (snapshot : Snapshot)
  -- maybeUpdateFromClosed
  | resolve (attempt : Attempt) (snapshot : Snapshot)
  | located (attempt : Attempt) (snapshot : Snapshot) (array : ClosedArray) (lagging : Bool)
  | checkPops (attempt : Attempt) (snapshot : Snapshot)
  | reload (attempt : Attempt) (snapshot : Snapshot) (offset : Nat)
  | cas (attempt : Attempt)
  | tryExpand (attempt : Attempt) (snapshot : Snapshot)
  | expanding (attempt : Attempt)
  | expanded (attempt : Attempt) (record : Expanded)
  -- with a ticket or without
  | ended
  | assertFailed
deriving DecidableEq

/-- Start over, `blockingWrite` with the ticket it has. -/
def Attempt.retry (attempt : Attempt) : Pc :=
  match attempt.caller with
  | .blockingWrite => .readState attempt
  | caller => .loadPush caller

/-- No other call has the ticket. -/
def Attempt.Alone (memory : Memory) (attempt : Attempt) : Prop :=
  attempt.caller = .blockingWrite ∨ memory.pushTicket ≤ attempt.ticket

instance (memory : Memory) (attempt : Attempt) : Decidable (attempt.Alone memory) :=
  inferInstanceAs (Decidable (_ ∨ _))

/-- Whether an allocation succeeds, whether a slot is ready, and which ticket
`tryExpand` loads first. -/
structure Choice where
  allocates : Bool := true
  ready : Bool := false
  popFirst : Bool := false

/-- `mayEnqueue` of the slot of a ticket. In the first round of its array the
slot is ready for a ticket that no other call has; apart from that it may be or
not. -/
def mayEnqueue (choice : Choice) (memory : Memory) (attempt : Attempt) (array : ClosedArray) :
    Bool :=
  choice.ready ∨ attempt.ticket - array.offset < array.capacity ∧ attempt.Alone memory

/-- What follows when the array of the ticket is known. -/
def atArray (choice : Choice) (memory : Memory) (attempt : Attempt) (snapshot : Snapshot)
    (array : ClosedArray) (lagging : Bool) : Pc :=
  match attempt.caller with
  | .blockingWrite =>
      if lagging ∨ mayEnqueue choice memory attempt array then .ended
      else .checkPops attempt snapshot
  | .tryObtainReadyPushTicket =>
      if mayEnqueue choice memory attempt array then .cas attempt
      else .reload attempt snapshot array.offset
  | .tryObtainPromisedPushTicket =>
      if full array.capacity attempt.ticket attempt.numPops then
        if array.capacity = snapshot.capacity then .tryExpand attempt snapshot else .ended
      else .cas attempt

/-- `(ticket << kSeqlockBits) + (2 * (index + 1))`, in `uint64_t`. -/
def newState (ticket index : Nat) : Nat :=
  ((ticket <<< kSeqlockBits) % 2 ^ 64 + 2 * (index + 1)) % 2 ^ 64

/-- One step of `tryExpand` under the seqlock. -/
def expand (arguments : Arguments) (memory : Memory) (attempt : Attempt) (expansion : Expansion)
    (choice : Choice) : Memory × Pc :=
  let index := getNumClosed expansion.state
  let newCapacity := arguments.newCapacity expansion.cap
  match expansion.stage with
  | .loadTicket =>
      let stage := if choice.popFirst then .loadPush memory.popTicket
        else .loadPop memory.pushTicket
      ({ memory with expansion := some { expansion with stage } }, .expanding attempt)
  | .loadPop pushes =>
      ({ memory with
          expansion := some
            { expansion with stage := .allocate (1 + max pushes memory.popTicket) } },
        .expanding attempt)
  | .loadPush pops =>
      ({ memory with
          expansion := some
            { expansion with stage := .allocate (1 + max memory.pushTicket pops) } },
        .expanding attempt)
  | .allocate ticket =>
      if choice.allocates ∧ arguments.allocatable newCapacity then
        ({ memory with
            allocated := memory.allocated + 1
            expansion := some { expansion with stage := .close ticket memory.allocated } },
          .expanding attempt)
      else ({ memory with dstate := expansion.state, expansion := none }, .ended)
  | .close ticket newSlots =>
      ({ memory with
          closed := memory.closed.take index ++
            [⟨getOffset expansion.state, memory.dslots, expansion.cap, memory.dstride⟩]
          expansion := some { expansion with stage := .storeSlots ticket newSlots } },
        .expanding attempt)
  | .storeSlots ticket newSlots =>
      ({ memory with
          dslots := newSlots
          expansion := some { expansion with stage := .storeCapacity ticket newSlots } },
        .expanding attempt)
  | .storeCapacity ticket newSlots =>
      ({ memory with
          dcapacity := newCapacity
          expansion := some { expansion with stage := .storeStride ticket newSlots } },
        .expanding attempt)
  | .storeStride ticket newSlots =>
      ({ memory with
          dstride := computeStride newCapacity
          expansion := some { expansion with stage := .release ticket newSlots } },
        .expanding attempt)
  | .release ticket _ =>
      ({ memory with
          dstate := newState ticket index
          expansion := none },
        .expanded attempt ⟨index, expansion.cap, newCapacity, ticket, newState ticket index⟩)

/-- A step of a caller. -/
def next (arguments : Arguments) (choice : Choice) (memory : Memory) : Pc → Option (Memory × Pc)
  | .loadPush .tryObtainPromisedPushTicket => some (memory, .loadPops memory.pushTicket)
  | .loadPush caller => some (memory, .readState ⟨caller, memory.pushTicket, 0⟩)
  | .loadPops ticket =>
      some (memory, .readState ⟨.tryObtainPromisedPushTicket, ticket, memory.popTicket⟩)
  | .readState attempt =>
      if memory.dstate % 2 = 1 then some (memory, attempt.retry)
      else some (memory, .readSlots attempt memory.dstate)
  | .readSlots attempt state => some (memory, .readCapacity attempt state memory.dslots)
  | .readCapacity attempt state slots =>
      some (memory, .readStride attempt state slots memory.dcapacity)
  | .readStride attempt state slots capacity =>
      some (memory, .validate attempt ⟨state, slots, capacity, memory.dstride⟩)
  | .validate attempt snapshot =>
      if memory.dstate = snapshot.state then some (memory, .resolve attempt snapshot)
      else some (memory, attempt.retry)
  | .resolve attempt snapshot =>
      match maybeUpdateFromClosed memory.closed attempt.ticket snapshot with
      | none => some (memory, .assertFailed)
      | some (array, lagging) => some (memory, .located attempt snapshot array lagging)
  | .located attempt snapshot array lagging =>
      some (memory, atArray choice memory attempt snapshot array lagging)
  | .checkPops attempt snapshot =>
      if attempt.ticket < (memory.popTicket + snapshot.capacity) % 2 ^ 64 then
        some (memory, attempt.retry)
      else some (memory, .tryExpand attempt snapshot)
  | .reload attempt snapshot offset =>
      if memory.pushTicket ≠ attempt.ticket then some (memory, attempt.retry)
      else if offset = getOffset snapshot.state then some (memory, .tryExpand attempt snapshot)
      else some (memory, .ended)
  | .cas attempt =>
      if memory.pushTicket = attempt.ticket then
        some ({ memory with pushTicket := memory.pushTicket + 1 }, .ended)
      else some (memory, attempt.retry)
  | .tryExpand attempt snapshot =>
      if snapshot.capacity = arguments.queueCapacity then some (memory, .ended)
      else if memory.dstate = snapshot.state then
        some ({ memory with
            dstate := snapshot.state + 1
            expansion := some ⟨snapshot.state, snapshot.capacity, .loadTicket⟩ },
          .expanding attempt)
      else some (memory, attempt.retry)
  | .expanding attempt =>
      memory.expansion.map fun expansion => expand arguments memory attempt expansion choice
  | .expanded attempt _ => some (memory, attempt.retry)
  | .ended | .assertFailed => none

/-- A write is called, or a pop ticket is taken. -/
inductive Move where
  | blockingWrite
  | write
  | writeIfNotFull
  | pop
deriving DecidableEq

def begin (memory : Memory) : Move → Memory × List Pc
  | .blockingWrite =>
      ({ memory with pushTicket := memory.pushTicket + 1 },
        [.readState ⟨.blockingWrite, memory.pushTicket, 0⟩])
  | .write => (memory, [.loadPush .tryObtainReadyPushTicket])
  | .writeIfNotFull => (memory, [.loadPush .tryObtainPromisedPushTicket])
  | .pop => ({ memory with popTicket := memory.popTicket + 1 }, [])

def Arguments.initQueue (arguments : Arguments) : Memory where
  dstate := 0
  dslots := 0
  dcapacity := arguments.cap
  dstride := computeStride arguments.cap
  closed := []
  pushTicket := 0
  popTicket := 0
  allocated := 1
  expansion := none

def system (arguments : Arguments) : System Memory Pc Choice Move where
  init := ⟨arguments.initQueue, []⟩
  act choice memory pc :=
    (next arguments choice memory pc).map fun moved => (moved.1, [moved.2])
  env move memory := some (begin memory move)

/-- The tickets, the one that an expansion would take included, stay below `2^58`. -/
def ticketsFit (state : Global Memory Pc) (_ : Label Choice Move) : Prop :=
  1 + max state.shared.pushTicket state.shared.popTicket < 2 ^ 58

/-- What is to hold of a successful `tryExpand`. -/
structure Expanded.Sound (arguments : Arguments) (maxClosed : Nat) (record : Expanded) : Prop where
  index : record.index < maxClosed
  grows : record.before < record.after
  bounded : record.after ≤ arguments.queueCapacity
  offset : getOffset record.word = record.ticket
  numClosed : getNumClosed record.word = record.index + 1

/-- The loop ends, and every expansion of every run is sound. -/
def Arguments.Lawful (arguments : Arguments) : Prop :=
  ∃ maxClosed, arguments.InitQueue maxClosed ∧
    ∀ state : Global Memory Pc, Reachable (system arguments) ticketsFit state →
      ∀ attempt record, .expanded attempt record ∈ state.agents → record.Sound arguments maxClosed

/-! ## Which expansions can be made -/

namespace Arguments

/-- The product after so many multiplications. -/
def expanded (arguments : Arguments) (round : Nat) : Nat :=
  arguments.cap * arguments.mult ^ round % 2 ^ 64

/-- The size after so many expansions. -/
def size (arguments : Arguments) (round : Nat) : Nat :=
  min (arguments.expanded round) arguments.queueCapacity

/-- The least offset of the array after so many expansions: a caller that
expands the array before has a ticket there, and enough tickets for it to be
full. -/
def offset (arguments : Arguments) : Nat → Nat
  | 0 => 0
  | round + 1 => 1 + max (ssize (arguments.size round)).toNat (arguments.offset round)

/-- After so many expansions there can be another one, with tickets below
`2^58`. -/
structure CanExpand (arguments : Arguments) (round : Nat) : Prop where
  short : ∀ earlier ≤ round, arguments.expanded earlier < arguments.queueCapacity
  tickets : arguments.offset (round + 1) < 2 ^ 58
  slots : ∀ earlier ≤ round, arguments.allocatable (arguments.size (earlier + 1)) = true

/-- The products come to the capacity, and the expansions that can be made on
the way are no more than 31, each to a larger size. -/
structure Grows (arguments : Arguments) : Prop where
  reaches : ∃ round, arguments.queueCapacity ≤ arguments.expanded round
  few : ∀ round, arguments.CanExpand round → round < 31
  grows : ∀ round, arguments.CanExpand round →
    arguments.expanded round < arguments.expanded (round + 1)

end Arguments

/-! ## The loop of `initQueue` -/

section Loop

variable {arguments : Arguments} {rounds round count maxClosed : Nat}

theorem cap_lt : arguments.cap < 2 ^ 64 :=
  Nat.lt_of_le_of_lt (Nat.min_le_right _ _) arguments.fits.1

theorem expanded_zero : arguments.expanded 0 = arguments.cap := by
  rw [Arguments.expanded, pow_zero, Nat.mul_one, Nat.mod_eq_of_lt cap_lt]

/-- The loop multiplies what it has taken modulo `2^64` already. -/
theorem times_expanded (round : Nat) :
    arguments.times (arguments.expanded round) = arguments.expanded (round + 1) := by
  rw [Arguments.times, Arguments.expanded, Arguments.expanded, Nat.mul_mod_mod,
    Nat.mul_left_comm, ← pow_succ']

theorem of_countClosed
    (counted : arguments.countClosed rounds (arguments.expanded round) count = some maxClosed) :
    ∃ more, maxClosed = count + more ∧
      arguments.queueCapacity ≤ arguments.expanded (round + more) ∧
      ∀ earlier < more, arguments.expanded (round + earlier) < arguments.queueCapacity := by
  induction rounds generalizing round count with
  | zero => cases counted
  | succ rounds ih =>
      rw [Arguments.countClosed, times_expanded] at counted
      split at counted
      · next below =>
          obtain ⟨more, rfl, reached, earlierBelow⟩ := @ih (round + 1) _ counted
          refine ⟨more + 1, by omega, by rwa [Nat.add_right_comm] at reached, ?_⟩
          intro earlier inside
          cases earlier with
          | zero => exact below
          | succ earlier =>
              have before := earlierBelow earlier (Nat.lt_of_succ_lt_succ inside)
              rwa [Nat.add_right_comm] at before
      · next reached =>
          cases counted
          exact ⟨0, rfl, Nat.le_of_not_lt reached, nofun⟩

theorem countClosed_of_below {more : Nat}
    (reached : arguments.queueCapacity ≤ arguments.expanded (round + more))
    (below : ∀ earlier < more, arguments.expanded (round + earlier) < arguments.queueCapacity) :
    arguments.countClosed (more + 1) (arguments.expanded round) count = some (count + more) := by
  induction more generalizing round count with
  | zero => exact if_neg (Nat.not_lt.mpr reached)
  | succ more ih =>
      have first : arguments.expanded round < arguments.queueCapacity := below 0 (Nat.succ_pos more)
      rw [Arguments.countClosed, if_pos first, times_expanded]
      have rest : arguments.countClosed (more + 1) (arguments.expanded (round + 1)) (count + 1) =
          some (count + 1 + more) := by
        apply ih
        · rwa [Nat.add_right_comm]
        · intro earlier inside
          rw [Nat.add_right_comm]
          exact below (earlier + 1) (Nat.succ_lt_succ inside)
      rw [Nat.add_right_comm] at rest
      exact rest

/-- The loop counts the rounds before the capacity is reached. -/
theorem initQueue_iff : arguments.InitQueue maxClosed ↔
    arguments.queueCapacity ≤ arguments.expanded maxClosed ∧
      ∀ round < maxClosed, arguments.expanded round < arguments.queueCapacity := by
  constructor
  · rintro ⟨rounds, counted⟩
    rw [← expanded_zero] at counted
    obtain ⟨more, rfl, reached, below⟩ := of_countClosed counted
    simp only [Nat.zero_add] at reached below ⊢
    exact ⟨reached, below⟩
  · rintro ⟨reached, below⟩
    rw [← Nat.zero_add maxClosed] at reached
    have counted := @countClosed_of_below arguments 0 0 maxClosed reached
      (by simpa only [Nat.zero_add] using below)
    rw [Nat.zero_add, expanded_zero] at counted
    exact ⟨_, counted⟩

theorem exists_initQueue (reaches : ∃ round, arguments.queueCapacity ≤ arguments.expanded round) :
    ∃ maxClosed, arguments.InitQueue maxClosed := by
  classical
  refine ⟨Nat.find reaches, initQueue_iff.mpr ⟨Nat.find_spec reaches, fun round earlier => ?_⟩⟩
  exact Nat.lt_of_not_le (Nat.find_min reaches earlier)

/-- The closed arrays of the expansions that can be made are all allocated. -/
theorem Arguments.CanExpand.lt (canExpand : arguments.CanExpand round)
    (counted : arguments.InitQueue maxClosed) : round < maxClosed := by
  apply Nat.lt_of_not_le
  intro beyond
  exact Nat.not_lt.mpr (initQueue_iff.mp counted).1 (canExpand.short maxClosed beyond)

end Loop

/-! ## The words -/

section Words

variable {state ticket index : Nat}

theorem getNumClosed_eq (state : Nat) : getNumClosed state = state % 64 / 2 := by
  have mask : (1 <<< kSeqlockBits) - 1 = 2 ^ 6 - 1 := rfl
  rw [getNumClosed, mask, Nat.and_two_pow_sub_one_eq_mod, Nat.shiftRight_eq_div_pow, pow_one]

theorem getNumClosed_succ (even : state % 2 = 0) :
    getNumClosed (state + 1) = getNumClosed state := by
  rw [getNumClosed_eq, getNumClosed_eq]
  omega

theorem getOffset_succ (even : state % 2 = 0) : getOffset (state + 1) = getOffset state := by
  rw [getOffset, getOffset, Nat.shiftRight_eq_div_pow, Nat.shiftRight_eq_div_pow, kSeqlockBits]
  omega

/-- A small ticket and a small count do not overflow the word. -/
theorem newState_eq (small : ticket < 2 ^ 58) (few : index < 31) :
    newState ticket index = seqlockWord ticket (index + 1) := by
  rw [newState, seqlockWord, Nat.shiftLeft_eq, kSeqlockBits]
  omega

/-- The count of the thirty-second expansion runs over into the offset. -/
theorem getNumClosed_newState_31 (ticket : Nat) :
    getNumClosed (newState ticket 31) = 0 := by
  rw [getNumClosed_eq, newState, Nat.shiftLeft_eq, kSeqlockBits]
  omega

end Words

/-! ## Growth -/

section Growth

variable {arguments : Arguments} {round earlier : Nat}

theorem size_of_below (below : arguments.expanded round < arguments.queueCapacity) :
    arguments.size round = arguments.expanded round :=
  Nat.min_eq_left (Nat.le_of_lt below)

theorem newCapacity_size (below : arguments.expanded round < arguments.queueCapacity) :
    arguments.newCapacity (arguments.size round) = arguments.size (round + 1) := by
  rw [size_of_below below, Arguments.newCapacity, times_expanded, Arguments.size]

theorem size_lt_word (round : Nat) : arguments.size round < 2 ^ 64 :=
  Nat.lt_of_le_of_lt (Nat.min_le_right _ _) arguments.fits.1

theorem size_zero : arguments.size 0 = arguments.cap := by
  rw [Arguments.size, expanded_zero]
  exact Nat.min_eq_left (Nat.min_le_right _ _)

theorem offset_lt (round : Nat) : arguments.offset round < arguments.offset (round + 1) :=
  Nat.lt_one_add_iff.mpr (Nat.le_max_right _ _)

theorem offset_mono (before : earlier ≤ round) :
    arguments.offset earlier ≤ arguments.offset round := by
  induction before with
  | refl => exact Nat.le_refl _
  | step _ ih => exact Nat.le_trans ih (Nat.le_of_lt (offset_lt _))

theorem Arguments.CanExpand.mono (canExpand : arguments.CanExpand round)
    (before : earlier ≤ round) : arguments.CanExpand earlier where
  short other inside := canExpand.short other (Nat.le_trans inside before)
  tickets := Nat.lt_of_le_of_lt (offset_mono (Nat.succ_le_succ before)) canExpand.tickets
  slots other inside := canExpand.slots other (Nat.le_trans inside before)

/-- So many expansions can be made. -/
def Arguments.Made (arguments : Arguments) (round : Nat) : Prop :=
  ∀ earlier < round, arguments.CanExpand earlier

theorem Arguments.Made.succ (made : arguments.Made round) (last : arguments.CanExpand round) :
    arguments.Made (round + 1) := by
  intro earlier inside
  rcases Nat.lt_succ_iff_lt_or_eq.mp inside with before | rfl
  · exact made earlier before
  · exact last

theorem Arguments.Made.canExpand (made : arguments.Made round)
    (below : arguments.expanded round < arguments.queueCapacity)
    (tickets : arguments.offset (round + 1) < 2 ^ 58)
    (slots : arguments.allocatable (arguments.size (round + 1)) = true) :
    arguments.CanExpand round := by
  constructor
  case short =>
    intro earlier inside
    rcases Nat.lt_or_eq_of_le inside with before | rfl
    · exact (made earlier before).short earlier (Nat.le_refl _)
    · exact below
  case tickets => exact tickets
  case slots =>
    intro earlier inside
    rcases Nat.lt_or_eq_of_le inside with before | rfl
    · exact (made earlier before).slots earlier (Nat.le_refl _)
    · exact slots

/-- Short of the capacity the products have not come to it. -/
theorem lt_of_size_ne
    (different : arguments.size round ≠ arguments.queueCapacity) :
    arguments.expanded round < arguments.queueCapacity := by
  apply Nat.lt_of_not_le
  exact fun reached => different (Nat.min_eq_right reached)

variable (growing : arguments.Grows)

include growing in
theorem size_lt_succ (canExpand : arguments.CanExpand round) :
    arguments.size round < arguments.size (round + 1) := by
  have below := canExpand.short round (Nat.le_refl _)
  rw [size_of_below below]
  exact Nat.lt_min.mpr ⟨growing.grows round canExpand, below⟩

include growing in
/-- An array that was closed is smaller than the current one. -/
theorem size_lt (made : arguments.Made round) (before : earlier < round) :
    arguments.size earlier < arguments.size round := by
  induction round with
  | zero => cases before
  | succ round ih =>
      have last := size_lt_succ growing (made round (Nat.lt_succ_self _))
      rcases Nat.lt_succ_iff_lt_or_eq.mp before with inside | rfl
      · exact Nat.lt_trans
          (ih (fun other other_lt => made other (Nat.lt_succ_of_lt other_lt)) inside)
          last
      · exact last

end Growth

/-! ## The faithful queue

As long as neither the products nor the words wrap around, the queue expands
just so, and its slots are ready in the first round of their array. -/

def Arguments.layout (arguments : Arguments) : Layout :=
  ⟨arguments.queueCapacity, arguments.minCapacity, arguments.expansionMultiplier,
    arguments.kSlotPadding⟩

section Faithful

universe u

variable {V : Type u} {layout : Layout} {calls : List (Call V)} {ticket : Nat}

/-- The words of the queue. -/
def words (memory : Dynamic.Memory V) : Memory :=
  ⟨memory.dstate, memory.dslots, memory.dcapacity, memory.dstride, memory.closed,
    memory.pushTicket, memory.popTicket, memory.allocated, memory.expansion⟩

theorem newCapacity_eq_expanded {arguments : Arguments} {cap : Nat}
    (fits : arguments.mult * cap < 2 ^ 64) :
    arguments.newCapacity cap = arguments.layout.expanded cap := by
  rw [Arguments.newCapacity, Arguments.times, Nat.mod_eq_of_lt fits]
  rfl

/-- A step of `tryExpand` that wraps nothing is the step of the queue. -/
theorem expand_words (arguments : Arguments) (memory : Dynamic.Memory V) (attempt : Attempt)
    (expansion : Expansion) (choice : Dynamic.Choice)
    (product : arguments.mult * expansion.cap < 2 ^ 64)
    (slots : arguments.allocatable (arguments.newCapacity expansion.cap) = true)
    (few : getNumClosed expansion.state < 31)
    (small : ∀ ticket newSlots, expansion.stage = .release ticket newSlots → ticket < 2 ^ 58) :
    (expand arguments (words memory) attempt expansion
      ⟨choice.allocates, false, choice.popFirst⟩).1 =
      words (memory.expand arguments.layout expansion choice).1 := by
  simp only [expand, Dynamic.Memory.expand, newCapacity_eq_expanded product]
  cases stageIs : expansion.stage with
  | allocate ticket =>
      rw [newCapacity_eq_expanded product] at slots
      simp only [slots, and_true]
      cases choice.allocates <;> rfl
  | release ticket newSlots =>
      simp only [newState_eq (small ticket newSlots stageIs) few]
      rfl
  | _ => rfl

theorem storers_le_owners (ticket : Nat) (calls : List (Call V)) :
    storers ticket calls ≤ owners true ticket calls :=
  total_le_total fun call _ => stores_le_owns ticket call.pc

/-- No call has gone to the slot of a ticket that is not given out, or that a
call has only just taken. -/
theorem unstored_of_alone {memory : Dynamic.Memory V} (coherent : Coherent layout memory calls)
    {id : Nat} {attempt : Dynamic.Attempt V} {at_ : Trying}
    (member : ⟨id, .trying attempt at_⟩ ∈ calls) (side : Side.pushes attempt.side = true)
    (alone : attempt.kind = .blocking ∨ memory.pushTicket ≤ attempt.ticket) :
    memory.stored attempt.ticket = none := by
  have nobody : storers attempt.ticket calls = 0 := by
    rcases alone with owned | ungiven
    · obtain ⟨index, found⟩ := List.getElem?_of_mem member
      have same := perm_of_getElem? found
      have rest := owners_rest_eq_zero (coherent.perm same) owned
      rw [side] at rest
      have own : storers attempt.ticket calls = storers attempt.ticket (calls.eraseIdx index) := by
        rw [storers, total_perm same, total_cons]
        exact Nat.zero_add _
      rw [own]
      exact Nat.le_zero.mp (rest ▸ storers_le_owners _ _)
    · have owners : owners true attempt.ticket calls =
          if attempt.ticket < memory.pushTicket then 1 else 0 := coherent.owners true _
      rw [if_neg (Nat.not_lt.mpr ungiven)] at owners
      exact Nat.le_zero.mp (owners ▸ storers_le_owners _ _)
  have storers := coherent.storers attempt.ticket
  rw [nobody] at storers
  cases stored : memory.stored attempt.ticket with
  | none => rfl
  | some value =>
      rw [stored] at storers
      cases storers

/-- In the first round of its array a slot is ready for a ticket that no other
call has. -/
theorem mayEnqueue_of_first {state : Global (Dynamic.Memory V) (Call V)}
    (reached : Reachable (Dynamic.system layout) anySchedule state)
    (expansions : state.shared.arrays.length ≤ 1 + 31) {id : Nat} {attempt : Dynamic.Attempt V}
    {snapshot : Snapshot} {array : ClosedArray} {lagging : Bool}
    (member : ⟨id, .trying attempt (.located snapshot array lagging)⟩ ∈ state.agents)
    (side : Side.pushes attempt.side = true)
    (alone : attempt.kind = .blocking ∨ state.shared.pushTicket ≤ attempt.ticket)
    (first : attempt.ticket - array.offset < array.capacity) :
    MPMCQueue.mayEnqueue (state.shared.cells (array.place layout attempt.ticket).1)
      (array.place layout attempt.ticket).2 = true := by
  have coherent := reachable_coherent reached expansions
  have unstored := unstored_of_alone coherent member side alone
  have found := (coherent.pcs _ member).2.2.1.found
  have sequenced := coherent.sequenced
  have placed : placeIn layout state.shared.arrays attempt.ticket =
      array.place layout attempt.ticket := placeIn_eq found
  have waits : TurnCells.phasesAt true attempt.ticket (holders state.agents) =
      TurnCells.storeWaits (state.shared.stored attempt.ticket) := by
    rw [unstored]
    refine List.eq_nil_iff_forall_not_mem.mpr fun phase present => ?_
    obtain ⟨holder, filtered, rfl⟩ := List.mem_map.mp present
    obtain ⟨inHolders, here⟩ := List.mem_filter.mp filtered
    obtain ⟨sameTicket, storing⟩ := of_decide_eq_true here
    obtain ⟨value, stores⟩ := TurnCells.stores_of_storing storing
    have given := sequenced.value_of_storing inHolders stores
    rw [sameTicket, unstored] at given
    cases given
  have turn : (placeIn layout state.shared.arrays attempt.ticket).2 = 0 := by
    rw [placed]
    exact Nat.div_eq_of_lt first
  have come := sequenced.at_of_first turn waits
  rw [placed] at come
  exact decide_eq_true come

end Faithful

end ThreadPoolExec.MPMCQueue.Dynamic.Sizing
